/-!
# Render state

The fixed-function state of a context: blending, depth, culling, alpha-to-coverage and the patch size.

* `BlendFactor`, `BlendPreset`, `DepthFunc`, `CullMode` : the values and their names in shader files
  (`BlendFactor.ofName?_name`);
* `RenderState` : the state, its changes and its text;
* `RenderState.gpuBlend?`, `gpuDepth`, `gpuCull?` : the same in the vocabulary of the graphics interface.
-/

namespace ShaderVariant

inductive BlendFactor where
  | zero
  | one
  | srcAlpha
  | oneMinusSrcAlpha
  | destAlpha
  | oneMinusDestAlpha
  | destColor
  | srcColor
  | oneMinusDestColor
  | oneMinusSrcColor
  deriving DecidableEq, Repr

namespace BlendFactor

def all : List BlendFactor :=
  [zero, one, srcAlpha, oneMinusSrcAlpha, destAlpha, oneMinusDestAlpha, destColor, srcColor, oneMinusDestColor,
    oneMinusSrcColor]

def name : BlendFactor → String
  | zero => "Zero"
  | one => "One"
  | srcAlpha => "SrcAlpha"
  | oneMinusSrcAlpha => "OneMinusSrcAlpha"
  | destAlpha => "DestAlpha"
  | oneMinusDestAlpha => "OneMinusDestAlpha"
  | destColor => "DestColor"
  | srcColor => "SrcColor"
  | oneMinusDestColor => "OneMinusDestColor"
  | oneMinusSrcColor => "OneMinusSrcColor"

def ofName? (name : String) : Option BlendFactor := all.find? (·.name == name)

/-- The name in the graphics interface: the destination is `Dst`, and a color goes without its word. -/
def gpuName : BlendFactor → String
  | zero => "Zero"
  | one => "One"
  | srcAlpha => "SrcAlpha"
  | oneMinusSrcAlpha => "OneMinusSrcAlpha"
  | destAlpha => "DstAlpha"
  | oneMinusDestAlpha => "OneMinusDstAlpha"
  | destColor => "Dst"
  | srcColor => "Src"
  | oneMinusDestColor => "OneMinusDst"
  | oneMinusSrcColor => "OneMinusSrc"

theorem ofName?_name (f : BlendFactor) : ofName? f.name = some f := by cases f <;> decide

end BlendFactor

inductive BlendPreset where
  | replace
  | blend
  | add
  | addBlended
  | mult
  deriving DecidableEq, Repr

namespace BlendPreset

def all : List BlendPreset := [replace, blend, add, addBlended, mult]

def name : BlendPreset → String
  | replace => "Replace"
  | blend => "Blend"
  | add => "Add"
  | addBlended => "AddBlended"
  | mult => "Mult"

def ofName? (name : String) : Option BlendPreset := all.find? (·.name == name)

/-- The factors of source and destination, or nothing when blending is off. -/
def factors? : BlendPreset → Option (BlendFactor × BlendFactor)
  | replace => none
  | blend => some (.srcAlpha, .oneMinusSrcAlpha)
  | add => some (.one, .one)
  | addBlended => some (.srcAlpha, .one)
  | mult => some (.destColor, .zero)

end BlendPreset

inductive DepthFunc where
  | lessEqual
  | less
  | equal
  | greater
  | greaterEqual
  | always
  deriving DecidableEq, Repr

namespace DepthFunc

def all : List DepthFunc := [lessEqual, less, equal, greater, greaterEqual, always]

def name : DepthFunc → String
  | lessEqual => "LessEqual"
  | less => "Less"
  | equal => "Equal"
  | greater => "Greater"
  | greaterEqual => "GreaterEqual"
  | always => "Always"

def ofName? (name : String) : Option DepthFunc := all.find? (·.name == name)

end DepthFunc

/-- The faces that are not drawn. -/
inductive CullMode where
  | back
  | front
  | none
  deriving DecidableEq, Repr

namespace CullMode

def all : List CullMode := [back, front, none]

def name : CullMode → String
  | back => "Back"
  | front => "Front"
  | none => "None"

def ofName? (name : String) : Option CullMode := all.find? (·.name == name)

end CullMode

structure RenderState where
  blending : Bool
  source : BlendFactor
  destination : BlendFactor
  depthTest : Bool
  depthWrite : Bool
  depthFunc : DepthFunc
  cullMode : CullMode
  alphaToCoverage : Bool
  patchVertices : UInt16
  deriving DecidableEq, Repr

namespace RenderState

/-- Opaque, depth-tested, back faces culled. -/
def default : RenderState :=
  { blending := false, source := .zero, destination := .zero, depthTest := true, depthWrite := true,
    depthFunc := .lessEqual, cullMode := .back, alphaToCoverage := false, patchVertices := 1 }

instance : Inhabited RenderState := ⟨default⟩

/-- Sets the blend factors. The factors one and zero blend nothing. -/
def withFactors (s : RenderState) (source destination : BlendFactor) : RenderState :=
  { s with source, destination, blending := !(source == .one && destination == .zero) }

def withPreset (s : RenderState) (p : BlendPreset) : RenderState :=
  match p.factors? with
  | some (source, destination) => s.withFactors source destination
  | none => { s with blending := false, source := .zero, destination := .zero }

def displayBlend (s : RenderState) : String :=
  if s.blending then s!"blend({s.source.name}, {s.destination.name})" else "blend(off)"

def displaySwitch (on : Bool) : String := if on then "true" else "false"

def display (s : RenderState) : String :=
  let test := displaySwitch s.depthTest
  let write := displaySwitch s.depthWrite
  let a2c := displaySwitch s.alphaToCoverage
  let depth := s!"depth(test={test}, write={write}, {s.depthFunc.name})"
  s!"{s.displayBlend} {depth} cull({s.cullMode.name}) a2c={a2c} patch={s.patchVertices}"

/-- The blend equation: source, destination and operation, the same for color and alpha. Nothing when blending is
off. -/
def gpuBlend? (s : RenderState) : Option (String × String × String) :=
  if s.blending then some (s.source.gpuName, s.destination.gpuName, "Add") else none

/-- The depth comparison. Every fragment passes when the test is off. -/
def gpuDepth (s : RenderState) : String := if s.depthTest then s.depthFunc.name else DepthFunc.always.name

def gpuCull? (s : RenderState) : Option String :=
  match s.cullMode with
  | .back => some "Back"
  | .front => some "Front"
  | .none => none

end RenderState

end ShaderVariant
