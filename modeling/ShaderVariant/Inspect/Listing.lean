import ShaderVariant.Library.Shaders
import ShaderVariant.Number.Shortest

/-!
# Listings

The lines in which the inspector shows a shader and its combinations.

* `declarationLines` : flags, samplers, uniforms and buffers;
* `combinationLines` : program, digest, engine uniforms and render state, and the stage sources if they are asked for;
* `failureLines` : a context that could not be built.
-/

namespace ShaderVariant.Inspect

def commaList (items : List String) : String := String.intercalate ", " items

def samplerLine (s : Sampler) : String :=
  let texture := s.texture.getD "-"
  s!"  sampler {s.name} {s.kind.name} unit={s.unit} address={s.address.name} filter={s.filter.name} aniso={s.anisotropy} texture={texture}"

def uniformLine (u : Uniform) : String :=
  let values := commaList (u.values.map Binary32.render)
  s!"  uniform {u.name} [{values}]"

def bufferLine (name : String) : String := s!"  buffer {name}"

def flagsLine (names : List String) : String :=
  let listed := if names.isEmpty then "-" else commaList names
  s!"  flags: {listed}"

def declarationLines (s : Shader) : List String :=
  [s!"shader '{s.name}' ({s.generation.display})", flagsLine s.vocabulary.names] ++ s.samplers.map samplerLine ++
    s.uniforms.map uniformLine ++ s.buffers.map bufferLine

def fragmentsLine (count : Nat) : String := s!"  fragments: {count}"

def maskLine (m : Mask) : String := s!"combination {m.display}"

/-- An engine uniform and its slot, if the program uses it. -/
def engineItem? (b : Combination) (u : EngineUniform) : Option String :=
  if b.engineSlot u = unresolvedSlot then none
  else
    let slot := (b.engineSlot u).toInt
    some s!"{u.name}={slot}"

/-- A number in at least four places. -/
def lineNumber (n : Nat) : String :=
  let digits := Nat.toDigits 10 n
  String.ofList (List.replicate (4 - digits.length) ' ' ++ digits)

def sourceLines (s : StageSource) : List String :=
  s!"    --- {s.stage.label} ---" :: (s.source.lines.zipIdx 1).map fun l =>
    let number := lineNumber l.2
    let line := String.ofList l.1
    s!"    {number} | {line}"

/-- The lines of a context's combination and of its stage sources. -/
def combinationLines (d : ContextDecl) (b : Combination) (sources : List StageSource) : List String :=
  let program := (b.program.map Program.display).getD "-"
  let engine := String.intercalate " " (EngineUniform.all.filterMap (engineItem? b))
  [s!"  context {d.name}: {program} hash={b.digest.toHex}", s!"    engine uniforms: {engine}",
    s!"    state: {d.renderState.display}"] ++ sources.flatMap sourceLines

/-- The lines of a context that could not be built. -/
def failureLines (d : ContextDecl) (e : ShaderError) : List String :=
  [s!"  context {d.name}: FAILED", s!"    {e.message}"]

end ShaderVariant.Inspect
