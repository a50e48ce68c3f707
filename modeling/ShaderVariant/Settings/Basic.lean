import ShaderVariant.Text.Basic
import ShaderVariant.Stage

/-!
# Settings

What shapes the sources that a library compiles and how it keys them.
-/

namespace ShaderVariant

/-- Settings of a library.

`preambles` go in front of the source of each stage. With `emitFlagDefines` every active flag is defined behind the
preamble. With `strictFlags` unknown flag names are worth a warning. With `memoizeAssembly` assembled sections are kept
until the shader changes. With `maskUnusedFlags` combinations are keyed by the flags that their context uses. -/
structure Settings where
  preambles : PerStage Text
  emitFlagDefines : Bool
  strictFlags : Bool
  memoizeAssembly : Bool
  maskUnusedFlags : Bool
  deriving DecidableEq, Repr

namespace Settings

/-- No preambles, flags defined, assembly kept, keys as requested. -/
def default : Settings :=
  { preambles := .uniform [], emitFlagDefines := true, strictFlags := false, memoizeAssembly := true,
    maskUnusedFlags := false }

instance : Inhabited Settings := ⟨default⟩

def withPreamble (s : Settings) (stage : Stage) (preamble : Text) : Settings :=
  { s with preambles := s.preambles.set stage preamble }

end Settings

end ShaderVariant
