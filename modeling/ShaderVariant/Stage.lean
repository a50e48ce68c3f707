/-!
# Pipeline stages

* `Stage` : the six programmable stages in pipeline order, with labels, declaration keys and flag bits;
* `PerStage α` : one value for each stage; `get_set_self`, `get_set_of_ne`;
* `StageBindings` : the code section bound to each stage; `toList` in pipeline order, `boundBits`.
-/

namespace ShaderVariant

inductive Stage where
  | vertex
  | fragment
  | geometry
  | tessControl
  | tessEval
  | compute
  deriving DecidableEq, Repr

namespace Stage

/-- The stages in pipeline order. -/
def all : List Stage := [vertex, fragment, geometry, tessControl, tessEval, compute]

def index : Stage → Nat
  | vertex => 0
  | fragment => 1
  | geometry => 2
  | tessControl => 3
  | tessEval => 4
  | compute => 5

/-- The bit of the stage in a set of stages. -/
def flagBit (s : Stage) : Nat := 1 <<< s.index

/-- The name of the stage in messages and hashes. -/
def label : Stage → String
  | vertex => "vertex"
  | fragment => "fragment"
  | geometry => "geometry"
  | tessControl => "tess_control"
  | tessEval => "tess_eval"
  | compute => "compute"

def ofLabel? (label : String) : Option Stage := all.find? (·.label == label)

/-- The stage that a key of a context declaration binds. -/
def ofKey? : String → Option Stage
  | "VertexShader" => some vertex
  | "PixelShader" => some fragment
  | "FragmentShader" => some fragment
  | "GeometryShader" => some geometry
  | "TessCtlShader" => some tessControl
  | "TessEvalShader" => some tessEval
  | "ComputeShader" => some compute
  | _ => none

@[simp] theorem mem_all (s : Stage) : s ∈ all := by cases s <;> decide

end Stage

/-- One value for each stage. -/
structure PerStage (α : Type) where
  vertex : α
  fragment : α
  geometry : α
  tessControl : α
  tessEval : α
  compute : α
  deriving DecidableEq, Repr, Inhabited

namespace PerStage

variable {α : Type}

def uniform (a : α) : PerStage α := ⟨a, a, a, a, a, a⟩

def get (p : PerStage α) : Stage → α
  | .vertex => p.vertex
  | .fragment => p.fragment
  | .geometry => p.geometry
  | .tessControl => p.tessControl
  | .tessEval => p.tessEval
  | .compute => p.compute

def set (p : PerStage α) (s : Stage) (a : α) : PerStage α :=
  match s with
  | .vertex => { p with vertex := a }
  | .fragment => { p with fragment := a }
  | .geometry => { p with geometry := a }
  | .tessControl => { p with tessControl := a }
  | .tessEval => { p with tessEval := a }
  | .compute => { p with compute := a }

@[simp] theorem get_uniform (a : α) (s : Stage) : (uniform a).get s = a := by cases s <;> rfl

@[simp] theorem get_set_self (p : PerStage α) (s : Stage) (a : α) : (p.set s a).get s = a := by cases s <;> rfl

theorem get_set_of_ne {s t : Stage} (h : s ≠ t) (p : PerStage α) (a : α) : (p.set s a).get t = p.get t := by
  cases s <;> cases t <;> first | rfl | exact absurd rfl h

end PerStage

/-- The index of the code section bound to each stage. -/
abbrev StageBindings := PerStage (Option Nat)

namespace StageBindings

def empty : StageBindings := .uniform none

/-- The bound stages and their sections, in pipeline order. -/
def toList (b : StageBindings) : List (Stage × Nat) := Stage.all.filterMap fun s => (b.get s).map (s, ·)

def bind (b : StageBindings) (s : Stage) (section_ : Nat) : StageBindings := PerStage.set b s (some section_)

def unbind (b : StageBindings) (s : Stage) : StageBindings := PerStage.set b s none

def isBound (b : StageBindings) (s : Stage) : Bool := (b.get s).isSome

/-- The set of bound stages, as a number with their bits. -/
def boundBits (b : StageBindings) : Nat := b.toList.foldr (fun p bits => p.1.flagBit + bits) 0

def usesSection (b : StageBindings) (section_ : Nat) : Bool := b.toList.any (·.2 == section_)

def isEmpty (b : StageBindings) : Bool := b.toList.isEmpty

theorem mem_toList {b : StageBindings} {s : Stage} {i : Nat} : (s, i) ∈ b.toList ↔ b.get s = some i := by
  simp only [toList, List.mem_filterMap, Option.map_eq_some_iff, Prod.mk.injEq]
  constructor
  · rintro ⟨t, -, j, h, rfl, rfl⟩; exact h
  · intro h; exact ⟨s, Stage.mem_all s, i, h, rfl, rfl⟩

end StageBindings

end ShaderVariant
