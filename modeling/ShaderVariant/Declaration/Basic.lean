import ShaderVariant.Error
import ShaderVariant.Number.Binary32
import ShaderVariant.RenderState

/-!
# Declarations

What the declaration section of a shader introduces: flags, samplers, uniforms, buffers and contexts.

* `Sampler`, `Uniform`, `ContextDecl` : one declaration each;
* `StageBindings.fault?` : why bound stages form no program;
* `SamplerDraft.assignUnits` : texture units for the samplers that ask for none.
-/

namespace ShaderVariant

/-! ## Samplers -/

/-- The shape of a texture. -/
inductive SamplerKind where
  | tex2D
  | tex3D
  | texCube
  | tex2DArray
  deriving DecidableEq, Repr

namespace SamplerKind

def ofKeyword? : String → Option SamplerKind
  | "sampler2D" => some tex2D
  | "sampler3D" => some tex3D
  | "samplerCube" => some texCube
  | "sampler2DArray" => some tex2DArray
  | _ => none

def name : SamplerKind → String
  | tex2D => "Tex2D"
  | tex3D => "Tex3D"
  | texCube => "TexCube"
  | tex2DArray => "Tex2DArray"

end SamplerKind

/-- What lies outside a texture. -/
inductive AddressMode where
  | wrap
  | clamp
  | border
  deriving DecidableEq, Repr

namespace AddressMode

def all : List AddressMode := [wrap, clamp, border]

def name : AddressMode → String
  | wrap => "Wrap"
  | clamp => "Clamp"
  | border => "Border"

def ofName? (name : String) : Option AddressMode := all.find? (·.name == name)

end AddressMode

/-- How a texture is interpolated. -/
inductive FilterMode where
  | none
  | bilinear
  | trilinear
  deriving DecidableEq, Repr

namespace FilterMode

def all : List FilterMode := [none, bilinear, trilinear]

def name : FilterMode → String
  | none => "None"
  | bilinear => "Bilinear"
  | trilinear => "Trilinear"

def ofName? (name : String) : Option FilterMode := all.find? (·.name == name)

end FilterMode

def textureUnits : Nat := 32

/-- A declared sampler. `texture` is bound when a material brings none. -/
structure Sampler where
  name : String
  kind : SamplerKind
  texture : Option String
  unit : Nat
  address : AddressMode
  filter : FilterMode
  anisotropy : Nat
  deriving DecidableEq, Repr

/-- A sampler as it was written on line `line`, with a texture unit or without. -/
structure SamplerDraft where
  name : String
  kind : SamplerKind
  texture : Option String
  unit : Option Nat
  address : AddressMode
  filter : FilterMode
  anisotropy : Nat
  line : UInt32
  deriving DecidableEq, Repr

namespace SamplerDraft

def ofName (name : String) (kind : SamplerKind) (line : UInt32) : SamplerDraft :=
  { name, kind, texture := none, unit := none, address := .wrap, filter := .trilinear, anisotropy := 8, line }

def withUnit (d : SamplerDraft) (unit : Nat) : Sampler :=
  { name := d.name, kind := d.kind, texture := d.texture, unit, address := d.address, filter := d.filter,
    anisotropy := d.anisotropy }

/-- The lowest texture unit that is not used. -/
def freeUnit? (used : List Nat) : Option Nat := (List.range textureUnits).find? fun u => !used.contains u

/-- Gives units to the samplers that have none, each the lowest free one; or the first sampler without a unit left. -/
def assignFrom (used : List Nat) : List SamplerDraft → Except SamplerDraft (List Sampler)
  | [] => .ok []
  | d :: ds =>
    match d.unit with
    | some unit => (assignFrom used ds).map (d.withUnit unit :: ·)
    | none =>
      match freeUnit? used with
      | none => .error d
      | some unit => (assignFrom (unit :: used) ds).map (d.withUnit unit :: ·)

/-- Gives units to the samplers that have none. Units that are written out are taken wherever they stand. -/
def assignUnits (ds : List SamplerDraft) : Except SamplerDraft (List Sampler) :=
  assignFrom (ds.filterMap (·.unit)) ds

end SamplerDraft

/-! ## Uniforms -/

inductive UniformKind where
  | float
  | float4
  deriving DecidableEq, Repr

def UniformKind.size : UniformKind → Nat
  | .float => 1
  | .float4 => 4

/-- A declared uniform. Components without a default are zero. -/
structure Uniform where
  name : String
  kind : UniformKind
  defaults : Vector Binary32 4
  deriving DecidableEq, Repr

namespace Uniform

def size (u : Uniform) : Nat := u.kind.size

/-- A uniform with the default values that were written. -/
def ofValues (name : String) (kind : UniformKind) (values : List Binary32) : Uniform :=
  { name, kind, defaults := Vector.ofFn fun i => values.getD i.val .zero }

/-- The default values of the components that the uniform has. -/
def values (u : Uniform) : List Binary32 := u.defaults.toList.take u.size

end Uniform

/-! ## Contexts -/

/-- Why the bound stages form no program: a compute stage stands alone, and without one both a vertex and a fragment
stage are needed. -/
def StageBindings.fault? (b : StageBindings) : Option ContextFault :=
  if b.isBound .compute then
    if b.toList.all (·.1 == .compute) then none else some .mixedCompute
  else if b.isBound .vertex && b.isBound .fragment then none else some .missingStages

/-- A declared context: a render state and the code sections of its stages. -/
structure ContextDecl where
  name : String
  renderState : RenderState
  stages : StageBindings
  deriving DecidableEq, Repr

namespace ContextDecl

def ofName (name : String) : ContextDecl := { name, renderState := .default, stages := .empty }

def isCompute (c : ContextDecl) : Bool := c.stages.isBound .compute

/-- The error about the context in shader `shader`, if its stages form no program. -/
def error? (c : ContextDecl) (shader : String) : Option ShaderError :=
  c.stages.fault?.map (.invalidContext shader c.name)

end ContextDecl

end ShaderVariant
