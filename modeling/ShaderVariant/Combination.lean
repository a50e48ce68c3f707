import ShaderVariant.Compiler.Basic
import ShaderVariant.Digest.XXH3
import ShaderVariant.Generation

/-!
# Combinations

A combination is one program of a context, built for one mask.

* `EngineUniform` : the uniforms that the engine feeds to every program that declares them;
* `Slots` : where the names of a program are bound;
* `Combination.install`, `Combination.fail` : the outcome of a build. A failed build keeps the program, the digest and
  the slots of the last successful one.
-/

namespace ShaderVariant

/-! ## Engine uniforms -/

/-- A uniform that the engine feeds. -/
inductive EngineUniform where
  | frameBufSize
  | viewMat
  | viewMatInv
  | projMat
  | viewProjMat
  | viewProjMatInv
  | viewerPos
  | worldMat
  | worldNormalMat
  | nodeId
  | customInstData
  | skinMatRows
  | lightPos
  | lightDir
  | lightColor
  | shadowSplitDists
  | shadowMats
  | shadowMapSize
  | shadowBias
  | parPosArray
  | parSizeAndRotArray
  | parColorArray
  | olayColor
  deriving DecidableEq, Repr

namespace EngineUniform

def all : List EngineUniform :=
  [frameBufSize, viewMat, viewMatInv, projMat, viewProjMat, viewProjMatInv, viewerPos, worldMat, worldNormalMat, nodeId,
    customInstData, skinMatRows, lightPos, lightDir, lightColor, shadowSplitDists, shadowMats, shadowMapSize,
    shadowBias, parPosArray, parSizeAndRotArray, parColorArray, olayColor]

/-- The identifier that programs declare. -/
def name : EngineUniform → String
  | frameBufSize => "frameBufSize"
  | viewMat => "viewMat"
  | viewMatInv => "viewMatInv"
  | projMat => "projMat"
  | viewProjMat => "viewProjMat"
  | viewProjMatInv => "viewProjMatInv"
  | viewerPos => "viewerPos"
  | worldMat => "worldMat"
  | worldNormalMat => "worldNormalMat"
  | nodeId => "nodeId"
  | customInstData => "customInstData"
  | skinMatRows => "skinMatRows"
  | lightPos => "lightPos"
  | lightDir => "lightDir"
  | lightColor => "lightColor"
  | shadowSplitDists => "shadowSplitDists"
  | shadowMats => "shadowMats"
  | shadowMapSize => "shadowMapSize"
  | shadowBias => "shadowBias"
  | parPosArray => "parPosArray"
  | parSizeAndRotArray => "parSizeAndRotArray"
  | parColorArray => "parColorArray"
  | olayColor => "olayColor"

def index (u : EngineUniform) : Nat := all.idxOf u

theorem getElem?_all_index (u : EngineUniform) : all[u.index]? = some u := by cases u <;> rfl

end EngineUniform

/-! ## Slots -/

/-- The slot of a name that the program does not use. -/
def unresolvedSlot : Int32 := -1

/-- The slots of a program, in the order of the engine's table and of the shader's declarations. -/
structure Slots where
  engine : List Int32
  samplers : List Int32
  uniforms : List Int32
  buffers : List Int32
  deriving DecidableEq, Repr

namespace Slots

def unresolved : Slots :=
  { engine := EngineUniform.all.map fun _ => unresolvedSlot, samplers := [], uniforms := [], buffers := [] }

/-- The slot at an index of a table; a name that is not in the table is unresolved. -/
def slotAt (table : List Int32) (i : Nat) : Int32 := table.getD i unresolvedSlot

end Slots

/-! ## Combinations -/

/-- A program of a context for one mask. `stamp` is the shader's generation at the last build; `builds` counts builds,
failed ones included; `digest` is that of the sources of the program. -/
structure Combination where
  mask : Mask
  program : Option Program
  stamp : Generation
  digest : XXH3.Hash128
  slots : Slots
  lastError : Option ShaderError
  builds : UInt32
  deriving DecidableEq, Repr

namespace Combination

def new (mask : Mask) : Combination :=
  { mask, program := none, stamp := .zero, digest := ⟨0, 0⟩, slots := .unresolved, lastError := none, builds := 0 }

def install (c : Combination) (p : Program) (stamp : Generation) (digest : XXH3.Hash128) (slots : Slots) : Combination :=
  { c with program := some p, stamp, digest, slots, lastError := none, builds := c.builds + 1 }

def fail (c : Combination) (e : ShaderError) (stamp : Generation) : Combination :=
  { c with stamp, lastError := some e, builds := c.builds + 1 }

def engineSlot (c : Combination) (u : EngineUniform) : Int32 := Slots.slotAt c.slots.engine u.index

def samplerSlot (c : Combination) (i : Nat) : Int32 := Slots.slotAt c.slots.samplers i

def uniformSlot (c : Combination) (i : Nat) : Int32 := Slots.slotAt c.slots.uniforms i

def bufferSlot (c : Combination) (i : Nat) : Int32 := Slots.slotAt c.slots.buffers i

/-- Whether the shader has changed since the last build. -/
def isStale (c : Combination) (g : Generation) : Bool := g.isNewerThan c.stamp

/-- Whether the last build gave the program that is installed. -/
def isUsable (c : Combination) : Bool := c.program.isSome && c.lastError.isNone

end Combination

end ShaderVariant
