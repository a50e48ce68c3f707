import ShaderVariant.Main
import ShaderVariant.Compiler.Recorder
import ShaderVariant.Library.Fragments
import ShaderVariant.Shader.Query
import ShaderVariant.Proofs.Library.EffectiveMask
import ShaderVariant.Proofs.Library.Ownership
import ShaderVariant.Proofs.Library.Preview
import ShaderVariant.Proofs.Library.Reachable
import ShaderVariant.Proofs.Library.Integrity
import ShaderVariant.Proofs.Shader.Memo
import ShaderVariant.Proofs.Library.Memo
import ShaderVariant.Proofs.Library.Atomicity
import ShaderVariant.Proofs.Library.Invalidation
import ShaderVariant.Proofs.Library.Outcomes
import ShaderVariant.Proofs.Library.Declared
import ShaderVariant.Proofs.Library.Turnover
import ShaderVariant.Proofs.Fragment.Built
import ShaderVariant.Proofs.Library.Closure
import ShaderVariant.Proofs.Library.IncludeFaults
import ShaderVariant.Proofs.Library.BuildOnce
import ShaderVariant.Proofs.Library.Fallback
import ShaderVariant.Proofs.Library.Defines
import ShaderVariant.Proofs.Library.Registry
import ShaderVariant.Proofs.Library.Requests
import ShaderVariant.Proofs.Library.Eager
import ShaderVariant.Proofs.Library.LoadOrder
import ShaderVariant.Proofs.Source.Balance
import ShaderVariant.Proofs.Source.Finality
import ShaderVariant.Proofs.Declaration.Acceptance
import ShaderVariant.Proofs.Source.IncludeDirective
import ShaderVariant.Proofs.Source.Scan
import ShaderVariant.Proofs.Compiler.Identifiers
import ShaderVariant.Proofs.Library.Isolation
import ShaderVariant.Proofs.Library.Described
import ShaderVariant.Proofs.Library.Profile
import ShaderVariant.Proofs.Library.Recall
import ShaderVariant.Proofs.Shader.Renewal
import ShaderVariant.Proofs.Library.Reload
import ShaderVariant.Proofs.Declaration.UnitOrder
import ShaderVariant.Proofs.Flag.Pool
import ShaderVariant.Proofs.Library.Validity
import ShaderVariant.Proofs.Library.Coding
import ShaderVariant.Proofs.Source.Cursor
import ShaderVariant.Proofs.Library.Located
import ShaderVariant.Proofs.Library.Digest
import ShaderVariant.Proofs.Compiler.Accounting
import ShaderVariant.Proofs.Settings.Json
import ShaderVariant.Proofs.Fragment.Slices
import ShaderVariant.Proofs.Fragment.Dependencies
