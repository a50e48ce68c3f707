import ShaderVariant.Proofs.Flag.Encoding
import ShaderVariant.Proofs.Fragment.Expansion

/-!
# Dependencies and flags in use

What is read off a fragment by walking through its includes.

* `hasDependency_iff` : a fragment depends on what it reaches by one include or more;
* `FragmentStore.included`, `mem_included_iff` : the stored fragments that it reaches;
* `isSet_flagBits_iff` : its flags are those that it and these refer to, as far as they are declared;
* `walks_exact` : all of this of every table, with the walks that find it.
-/

namespace ShaderVariant

namespace FragmentStore

open Relation (ReflTransGen)

variable {s : FragmentStore} {f g : Fragment} {k : FragmentKey}

theorem mem_closure_targets : k ∈ s.closure f.targets ↔ s.Reaches f k := mem_closure_iff

theorem hasDependency_iff : s.hasDependency f k = true ↔ s.Reaches f k := by
  rw [hasDependency, List.contains_iff_mem, mem_closure_targets]

theorem Reaches.trans {x : FragmentKey} (h : s.Reaches f k) (hg : s.get? k = some g) (hx : s.Reaches g x) :
    s.Reaches f x := by
  obtain ⟨y, hy, hyk⟩ := h
  obtain ⟨z, hz, hzx⟩ := hx
  exact ⟨y, hy, (hyk.tail ⟨g, hg, hz⟩).trans hzx⟩

def included (s : FragmentStore) (f : Fragment) : List Fragment := (s.closure f.targets).filterMap s.get?

theorem mem_included_iff : g ∈ s.included f ↔ ∃ k, s.Reaches f k ∧ s.get? k = some g := by
  simp only [included, List.mem_filterMap, mem_closure_targets]

/-- The flags of a fragment are those that it and the fragments that it includes refer to. -/
theorem isSet_flagBits_iff {v : Vocabulary} {i : Nat} :
    (s.flagBits f v).isSet i = true ↔
      ∃ g, (g = f ∨ g ∈ s.included f) ∧ ∃ name ∈ g.flagRefs, v.bitOf? name = some i := by
  have hbit (g : Fragment) : (v.encode g.flagRefs).isSet i = true ↔ ∃ name ∈ g.flagRefs, v.bitOf? name = some i := by
    simp only [v.isSet_encode_iff, v.agrees.bitOf?]
  rw [flagBits, Mask.isSet_or, Mask.isSet_union, Bool.or_eq_true, List.any_eq_true, hbit]
  simp only [List.mem_map, exists_exists_and_eq_and, hbit]
  constructor
  · rintro (h | ⟨g, hg, h⟩)
    · exact ⟨f, .inl rfl, h⟩
    · exact ⟨g, .inr hg, h⟩
  · rintro ⟨g, rfl | hg, h⟩
    · exact .inl h
    · exact .inr ⟨g, hg, h⟩

theorem contains_flagBits (v : Vocabulary) (hk : s.Reaches f k) (hg : s.get? k = some g) :
    (s.flagBits f v).contains (s.flagBits g v) = true := by
  refine Mask.contains_iff.2 fun i hi => ?_
  obtain ⟨h, hh, hname⟩ := isSet_flagBits_iff.1 hi
  refine isSet_flagBits_iff.2 ⟨h, .inr (mem_included_iff.2 ?_), hname⟩
  rcases hh with rfl | hh
  · exact ⟨k, hk, hg⟩
  · obtain ⟨x, hx, hxh⟩ := mem_included_iff.1 hh
    exact ⟨x, hk.trans hg hx, hxh⟩

/-- In every table, whatever is missing in it and wherever it leads back: a fragment depends on just the keys that it
reaches by one include or more, and its flags are just those that it and the stored fragments it reaches refer to. A walk
that looks for them ends, whichever pending key it takes next, after no more turns than there are stored fragments,
includes of these, and includes of the fragment. What it has seen at any time is reached, and at the end it has visited
all that is. -/
theorem walks_exact (s : FragmentStore) (f : Fragment) (v : Vocabulary) :
    (∀ t, s.hasDependency f t = true ↔ s.Reaches f t) ∧
    (∀ i, (s.flagBits f v).isSet i = true ↔
      ∃ g, (g = f ∨ ∃ k, s.Reaches f k ∧ s.get? k = some g) ∧ ∃ name ∈ g.flagRefs, v.bitOf? name = some i) ∧
    (∀ k g, s.Reaches f k → s.get? k = some g → (s.flagBits f v).contains (s.flagBits g v) = true) ∧
    (∃ n, s.Turns n ⟨[], f.targets⟩ ⟨s.closure f.targets, []⟩) ∧
    ∀ n w, s.Turns n ⟨[], f.targets⟩ w →
      n ≤ f.targets.length + s.size + (s.table.values.flatMap Fragment.targets).length ∧
      (∀ x, x ∈ w.visited ∨ x ∈ w.pending → s.Reaches f x) ∧
      (w.pending = [] → ∀ x, s.Reaches f x → x ∈ w.visited) := by
  refine ⟨fun t => hasDependency_iff, fun i => ?_, fun k g hk hg => contains_flagBits v hk hg,
    s.exists_turns_closureFrom [] f.targets, fun n w hw => ?_⟩
  · simp only [isSet_flagBits_iff, mem_included_iff]
  · have hfollows := (Follows.start s f.targets).turns hw
    refine ⟨hw.le_includes, hfollows.reached, fun hend x hx => ?_⟩
    obtain ⟨visited, pending⟩ := w
    subst hend
    exact hfollows.mem_iff.2 hx

/-- A fragment of a loop is reached, and so is one that is stored no more; what only others include is not. -/
example : [⟨2, 1⟩, ⟨5, 1⟩, ⟨3, 1⟩].map (loopStore.hasDependency
    { Fragment.blank "v" with includes := [⟨⟨1, 1⟩, 0⟩, ⟨⟨6, 1⟩, 0⟩] }) = [true, true, false] := by
  decide +kernel

end FragmentStore

end ShaderVariant
