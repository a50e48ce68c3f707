import ShaderVariant.Declaration.Basic
import ShaderVariant.Source.TokenStream

/-!
# Reading declarations

The declaration section is a sequence of declarations:

* `flag NAME;`
* `sampler2D NAME;` and the other sampler kinds, with fields after `= sampler_state` in braces;
* `float NAME;` and `float4 NAME;`, with annotations in angle brackets and default values after `=`;
* `buffer NAME;`
* `context NAME` with fields in braces and an optional `;` behind them.

`Declarations.read` reads them in order; every fault is reported at the token where it shows, or at the line of the
declaration where the declaration as a whole is at fault.
-/

namespace ShaderVariant

/-- The declarations read so far. -/
structure Declarations where
  vocabulary : Vocabulary
  samplers : List SamplerDraft
  uniforms : List Uniform
  buffers : List String
  contexts : List ContextDecl

namespace Declarations

open Reader

def empty : Declarations := { vocabulary := .empty, samplers := [], uniforms := [], buffers := [], contexts := [] }

/-- The names of samplers, uniforms and buffers. They share one name space. -/
def names (d : Declarations) : List String := d.samplers.map (·.name) ++ d.uniforms.map (·.name) ++ d.buffers

def newName (d : Declarations) (line : UInt32) : Reader String := do
  let name ← ident
  if name ∈ d.names then failAt line (.duplicateName name) else return name

/-- The value of `o`, or a fault at the line reached. -/
def orFail {α : Type} (o : Option α) (fault : ParseFault) : Reader α :=
  match o with
  | some a => pure a
  | none => fail fault

/-! ## Flags and buffers -/

def readFlag (d : Declarations) (line : UInt32) : Reader Declarations := do
  let name ← ident
  expect ";"
  match d.vocabulary.push name with
  | .error e => failAt line (.flag e)
  | .ok (_, vocabulary) => return { d with vocabulary }

def readBuffer (d : Declarations) (line : UInt32) : Reader Declarations := do
  let name ← d.newName line
  expect ";"
  return { d with buffers := d.buffers ++ [name] }

/-! ## Samplers -/

def readSamplerField (s : SamplerDraft) (key : String) : Reader SamplerDraft :=
  match key with
  | "Texture" => do
    let texture ← string
    return { s with texture := some texture }
  | "TexUnit" => do
    let unit ← int
    if 0 ≤ unit ∧ unit < textureUnits then return { s with unit := some unit.toNat }
    else fail (.textureUnitRange unit)
  | "Address" => do
    let name ← ident
    let address ← orFail (AddressMode.ofName? name) (.unknownAddressMode name)
    return { s with address }
  | "Filter" => do
    let name ← ident
    let filter ← orFail (FilterMode.ofName? name) (.unknownFilter name)
    return { s with filter }
  | "MaxAnisotropy" => do
    let found ← int
    if 1 ≤ found ∧ found ≤ 16 then return { s with anisotropy := found.toNat } else fail (.anisotropyRange found)
  | _ => fail (.unknownSamplerKey key)

/-- Reads the next field of a sampler, or the brace behind the last one. -/
def samplerStep (s : SamplerDraft) : Reader (Bool × SamplerDraft) := do
  if ← check "\x7d" then return (false, s)
  else
    let key ← ident
    expect "="
    let s ← readSamplerField s key
    expect ";"
    return (true, s)

def readSamplerState (s : SamplerDraft) : Reader SamplerDraft := do
  if ← check "=" then
    expect "sampler_state"
    expect "\x7b"
    repeatStep samplerStep s
  else return s

def readSampler (d : Declarations) (kind : SamplerKind) (line : UInt32) : Reader Declarations := do
  let name ← d.newName line
  let s ← readSamplerState (.ofName name kind line)
  expect ";"
  return { d with samplers := d.samplers ++ [s] }

/-! ## Uniforms -/

/-- Reads a default value, and the comma if another one follows. -/
def defaultStep (name : String) (size : Nat) (values : List Binary32) : Reader (Bool × List Binary32) := do
  let value ← float
  if size ≤ values.length then fail (.tooManyDefaults name size)
  else
    let more ← check ","
    return (more, values ++ [value])

/-- Reads the default values behind the equals sign: a list in braces, or one value. -/
def readDefaults (name : String) (size : Nat) : Reader (List Binary32) := do
  if ← check "\x7b" then
    let values ← repeatStep (defaultStep name size) []
    expect "\x7d"
    return values
  else
    let value ← float
    return [value]

def skipAnnotations : Reader Unit := do
  if ← check "<" then skipPast '>' else return ()

def readOptionalDefaults (name : String) (size : Nat) : Reader (List Binary32) := do
  if ← check "=" then readDefaults name size else return []

def readUniform (d : Declarations) (kind : UniformKind) (line : UInt32) : Reader Declarations := do
  let name ← d.newName line
  skipAnnotations
  let values ← readOptionalDefaults name kind.size
  expect ";"
  return { d with uniforms := d.uniforms ++ [.ofValues name kind values] }

/-! ## Contexts -/

def readBlendFactor : Reader BlendFactor := do
  let name ← ident
  orFail (BlendFactor.ofName? name) (.unknownBlendFactor name)

/-- Reads a blend mode: two factors in braces, or the name of a preset. -/
def readBlendMode (state : RenderState) : Reader RenderState := do
  if ← check "\x7b" then
    let source ← readBlendFactor
    expect ","
    let destination ← readBlendFactor
    expect "\x7d"
    return state.withFactors source destination
  else
    let name ← ident
    let preset ← orFail (BlendPreset.ofName? name) (.unknownBlendMode name)
    return state.withPreset preset

def readStateField (state : RenderState) (key : String) : Reader RenderState :=
  match key with
  | "ZWriteEnable" => do
    let depthWrite ← boolean
    return { state with depthWrite }
  | "ZEnable" => do
    let depthTest ← boolean
    return { state with depthTest }
  | "AlphaToCoverage" => do
    let alphaToCoverage ← boolean
    return { state with alphaToCoverage }
  | "ZFunc" => do
    let name ← ident
    let depthFunc ← orFail (DepthFunc.ofName? name) (.unknownDepthFunc name)
    return { state with depthFunc }
  | "CullMode" => do
    let name ← ident
    let cullMode ← orFail (CullMode.ofName? name) (.unknownCullMode name)
    return { state with cullMode }
  | "BlendMode" => readBlendMode state
  | "TessPatchVertices" => do
    let found ← int
    if 1 ≤ found ∧ found ≤ 65535 then return { state with patchVertices := UInt16.ofNat found.toNat }
    else fail (.patchVerticesRange found)
  | _ => fail (.unknownContextKey key)

/-- Reads the code section of a stage: the word `compile`, a language, and the name of a section of the file. -/
def readStageSection (sections : List String) : Reader Nat := do
  expect "compile"
  let _language ← ident
  let name ← ident
  orFail (sections.findIdx? (· == name)) (.undefinedSection name)

def readContextField (sections : List String) (c : ContextDecl) (key : String) : Reader ContextDecl :=
  match Stage.ofKey? key with
  | some stage => do
    let i ← readStageSection sections
    return { c with stages := c.stages.bind stage i }
  | none => do
    let renderState ← readStateField c.renderState key
    return { c with renderState }

def contextStep (sections : List String) (c : ContextDecl) : Reader (Bool × ContextDecl) := do
  if ← check "\x7d" then return (false, c)
  else
    let key ← ident
    expect "="
    let c ← readContextField sections c key
    expect ";"
    return (true, c)

/-- Refuses a context whose stages form no program. -/
def validate (c : ContextDecl) (line : UInt32) : Reader Unit := do
  let source ← sourceName
  match c.stages.fault? with
  | some fault => failAt line (.invalidContext source c.name fault)
  | none => return ()

def readContext (sections : List String) (d : Declarations) (line : UInt32) : Reader Declarations := do
  let name ← ident
  if d.contexts.any (·.name == name) then failAt line (.duplicateContext name)
  else
    expect "\x7b"
    let c ← repeatStep (contextStep sections) (.ofName name)
    let _semicolon ← check ";"
    validate c line
    return { d with contexts := d.contexts ++ [c] }

/-! ## All declarations -/

def readKeyword (sections : List String) (d : Declarations) (line : UInt32) (keyword : String) : Reader Declarations :=
  match keyword with
  | "flag" => d.readFlag line
  | "float" => d.readUniform .float line
  | "float4" => d.readUniform .float4 line
  | "buffer" => d.readBuffer line
  | "context" => readContext sections d line
  | _ =>
    match SamplerKind.ofKeyword? keyword with
    | some kind => d.readSampler kind line
    | none => failAt line (.unexpectedKeyword keyword)

/-- Reads the next declaration, if there is one. -/
def declarationStep (sections : List String) (d : Declarations) : Reader (Bool × Declarations) := do
  if ← atEnd then return (false, d)
  else
    let opened ← line
    let keyword ← ident
    let d ← readKeyword sections d opened keyword
    return (true, d)

/-- Reads declarations up to the end. `sections` are the names of the code sections of the file. -/
def read (sections : List String) (s : TokenStream) : Except ParseError Declarations :=
  match repeatStep (declarationStep sections) empty s with
  | .error e _ => .error e
  | .ok d _ => .ok d

end Declarations

end ShaderVariant
