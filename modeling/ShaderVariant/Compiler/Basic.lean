import ShaderVariant.Error
import ShaderVariant.RenderState

/-!
# Program compilers

Assembled stage sources are handed to a compiler, which answers with a program or a failure and later tells where the
names of a linked program are bound. `ProgramCompiler σ` says what a compiler with the state `σ` can do.
-/

namespace ShaderVariant

/-- A linked program, by its number. -/
structure Program where
  number : UInt32
  deriving DecidableEq, Repr

def Program.display (p : Program) : String := s!"program#{p.number}"

/-- The final source of one stage. -/
structure StageSource where
  stage : Stage
  source : Text
  deriving DecidableEq, Repr

/-- What a compiler is given to build one combination. -/
structure CompileRequest where
  shader : String
  context : String
  mask : Mask
  stages : List StageSource
  renderState : RenderState
  deriving DecidableEq, Repr

/-- What a name is looked up as: a uniform, a sampler at a texture unit, or a buffer at a binding. -/
inductive SlotKind where
  | uniform
  | sampler (unit : UInt32)
  | buffer (index : UInt32)
  deriving DecidableEq, Repr

/-- What a compiler with the state `σ` does. -/
class ProgramCompiler (σ : Type) where
  /-- Compiles and links the sources of a request. -/
  compile : CompileRequest → σ → Except CompileFailure Program × σ
  /-- Destroys a program. -/
  release : Program → σ → σ
  /-- The slot of a name in a program, if the program uses the name. -/
  slot? : σ → Program → SlotKind → String → Option Int32

end ShaderVariant
