import ShaderVariant.Source.Scan
import ShaderVariant.Generation

/-!
# Fragments

A fragment is a block of shader text with places where other fragments are included.

* `Fragment.ofParts` : a fragment from text and include places; places are moved onto character boundaries of the text
  and put in order;
* `Fragment.ofScanned` : a fragment from a scanned source and the keys of its includes;
* `Fragment.replacedBy` : new content under the same name.
-/

namespace ShaderVariant

/-- A place where a fragment is included: the text of `target` belongs at byte `offset`. -/
structure Include where
  target : FragmentKey
  offset : Nat
  deriving DecidableEq, Repr

/-- A block of shader text. `includes` are in the order of their offsets. -/
structure Fragment where
  name : String
  text : Text
  includes : List Include
  flagRefs : List String
  version : Generation
  deriving DecidableEq, Repr

namespace Fragment

def targets (f : Fragment) : List FragmentKey := f.includes.map (·.target)

def includesDirectly (f : Fragment) (k : FragmentKey) : Bool := f.targets.contains k

/-- An include at the last character boundary that is not after its offset, nor after the end of the text. -/
def placeInclude (t : Text) (i : Include) : Include := { i with offset := t.floorBoundary i.offset }

/-- Includes at boundaries of the text, ordered by offset; those with the same offset keep their order. -/
def placeIncludes (t : Text) (is : List Include) : List Include :=
  (is.map (placeInclude t)).mergeSort fun i j => i.offset ≤ j.offset

def ofParts (name : String) (text : Text) (includes : List Include) : Fragment :=
  { name, text, includes := placeIncludes text includes, flagRefs := ShaderVariant.flagRefs text, version := .zero }

/-- A fragment from a scanned source and the key of each of its includes. -/
def ofScanned (name : String) (s : Scanned) (targets : List FragmentKey) : Fragment :=
  { name, text := s.text, includes := List.zipWith (fun (i : PendingInclude) k => ⟨k, i.offset⟩) s.includes targets,
    flagRefs := s.flagRefs, version := .zero }

def blank (name : String) : Fragment := ofParts name [] []

/-- The fragment with the content of another one, and the next version. -/
def replacedBy (f g : Fragment) : Fragment :=
  { f with text := g.text, includes := g.includes, flagRefs := g.flagRefs, version := f.version.next }

end Fragment

end ShaderVariant
