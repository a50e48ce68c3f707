import ShaderVariant.Compiler.DryRun

/-!
# Recorded calls

A `Recorder` passes calls on to a dry-run compiler and writes them down, the latest first. It can be told to fail the
next compilation itself; the compiler behind it then sees no call.
-/

namespace ShaderVariant

/-- A call of a compiler: a compilation with the program it gave, or a release. -/
inductive CompilerCall where
  | compile (request : CompileRequest) (program : Option Program)
  | release (program : Program)
  deriving DecidableEq, Repr

/-- A compiler whose calls are written down. -/
structure Recorder where
  compiler : DryRun
  pending : Option CompileFailure
  calls : List CompilerCall

namespace Recorder

def empty : Recorder := ⟨.empty, none, []⟩

def failNext (r : Recorder) (f : CompileFailure) : Recorder := { r with pending := some f }

def clear (r : Recorder) : Recorder := { r with calls := [] }

/-- Compiles a request, or fails as it was told to. -/
def compile (request : CompileRequest) (r : Recorder) : Except CompileFailure Program × Recorder :=
  match r.pending with
  | some f => (.error f, { r with pending := none, calls := .compile request none :: r.calls })
  | none =>
    match r.compiler.compile request with
    | (.ok p, c) => (.ok p, { r with compiler := c, calls := .compile request (some p) :: r.calls })
    | (.error f, c) => (.error f, { r with compiler := c, calls := .compile request none :: r.calls })

def release (p : Program) (r : Recorder) : Recorder :=
  { r with compiler := r.compiler.release p, calls := .release p :: r.calls }

instance : ProgramCompiler Recorder := ⟨compile, release, fun r => r.compiler.slot?⟩

end Recorder

end ShaderVariant
