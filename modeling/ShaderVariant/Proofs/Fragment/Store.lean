import ShaderVariant.Proofs.Fragment.Reach

/-!
# Well-formed fragment tables

* `FragmentStore.Named` : a name stands for the stored fragment of that name, and there is one at most;
* `FragmentStore.Keeps` : every stored fragment is there afterwards, unchanged;
* `Fragment.Sourced` : text, places of includes and flags of a fragment come from one scanned source;
* `FragmentStore.WellFormed` : names, live includes and sourced content, kept by every operation on the table.
-/

namespace ShaderVariant

namespace FragmentStore

theorem contains_iff {s : FragmentStore} {k : FragmentKey} : s.contains k = true ↔ ∃ f, s.get? k = some f :=
  SlotMap.contains_iff

/-! ## Look-up behind each operation -/

theorem get?_insertNew (s : FragmentStore) (f : Fragment) (k : FragmentKey) :
    (s.insertNew f).2.get? k = if (s.insertNew f).1 = k then some f else s.get? k :=
  SlotMap.get?_insert s.table f k

theorem get?_insertNew_fst (s : FragmentStore) (f : Fragment) : s.get? (s.insertNew f).1 = none :=
  SlotMap.get?_insert_fst s.table f

theorem insert_of_find?_eq_none {s : FragmentStore} {f : Fragment} (h : s.find? f.name = none) :
    s.insert f = s.insertNew f := by
  rw [insert, h]

theorem get?_remove (s : FragmentStore) (k x : FragmentKey) :
    (s.remove k).2.get? x = if k = x then none else s.get? x := by
  unfold remove
  split
  · next h =>
    split
    · next hx => rw [← hx, h]
    · rfl
  · exact SlotMap.get?_remove s.table k x

theorem replaceContent_eq {s t : FragmentStore} {k : FragmentKey} {f : Fragment} (h : s.replaceContent k f = .ok t) :
    s.contains k = true ∧ t = { s with table := s.table.modify k (·.replacedBy f) } := by
  unfold replaceContent at h
  split at h
  · next hk =>
    cases h
    exact ⟨hk, rfl⟩
  · cases h

theorem replaceContent_of_contains {s : FragmentStore} {k : FragmentKey} (f : Fragment) (h : s.contains k = true) :
    ∃ t, s.replaceContent k f = .ok t :=
  ⟨_, if_pos h⟩

theorem get?_replaceContent {s t : FragmentStore} {k : FragmentKey} {f : Fragment}
    (h : s.replaceContent k f = .ok t) (x : FragmentKey) :
    t.get? x = if k = x then (s.get? x).map (·.replacedBy f) else s.get? x := by
  obtain ⟨-, rfl⟩ := replaceContent_eq h
  exact SlotMap.get?_modify s.table k x _

theorem contains_replaceContent {s t : FragmentStore} {k : FragmentKey} {f : Fragment}
    (h : s.replaceContent k f = .ok t) (x : FragmentKey) : t.contains x = s.contains x := by
  show (t.get? x).isSome = (s.get? x).isSome
  rw [get?_replaceContent h]
  split
  · rw [Option.isSome_map]
  · rfl

/-! ## Names -/

/-- A name stands for the stored fragment that has it. -/
def Named (s : FragmentStore) : Prop := ∀ name k, s.find? name = some k ↔ ∃ f, s.get? k = some f ∧ f.name = name

namespace Named

variable {s t : FragmentStore}

theorem namedBy (h : Named s) : s.table.NamedBy Fragment.name s.names := h

theorem find?_of_get? (h : Named s) {k : FragmentKey} {f : Fragment} (hf : s.get? k = some f) :
    s.find? f.name = some k :=
  h.namedBy.find?_of_get? hf

theorem contains_of_find? (h : Named s) {name : String} {k : FragmentKey} (hk : s.find? name = some k) :
    s.contains k = true := by
  obtain ⟨f, hf, -⟩ := (h name k).1 hk
  exact contains_iff.2 ⟨f, hf⟩

theorem insertNew (h : Named s) {f : Fragment} (hf : s.find? f.name = none) : Named (s.insertNew f).2 :=
  h.namedBy.insert hf

theorem remove (h : Named s) (k : FragmentKey) : Named (s.remove k).2 := by
  unfold FragmentStore.remove
  split
  · exact h
  · next hk => exact h.namedBy.remove hk

theorem replaceContent (h : Named s) {k : FragmentKey} {f : Fragment} (he : s.replaceContent k f = .ok t) :
    Named t := by
  obtain ⟨-, rfl⟩ := replaceContent_eq he
  refine h.namedBy.mapValues fun x g => ?_
  split <;> rfl

end Named

/-! ## What is kept -/

def Keeps (s t : FragmentStore) : Prop := ∀ k f, s.get? k = some f → t.get? k = some f

namespace Keeps

variable {s t u : FragmentStore}

theorem refl (s : FragmentStore) : Keeps s s := fun _ _ h => h

theorem trans (h : Keeps s t) (h' : Keeps t u) : Keeps s u := fun k f hf => h' k f (h k f hf)

theorem contains (h : Keeps s t) {k : FragmentKey} (hk : s.contains k = true) : t.contains k = true := by
  obtain ⟨f, hf⟩ := contains_iff.1 hk
  exact contains_iff.2 ⟨f, h k f hf⟩

theorem get? (h : Keeps s t) {k : FragmentKey} (hk : s.contains k = true) : t.get? k = s.get? k := by
  obtain ⟨f, hf⟩ := contains_iff.1 hk
  rw [hf, h k f hf]

theorem insertNew (s : FragmentStore) (f : Fragment) : Keeps s (s.insertNew f).2 := by
  intro k g hg
  rw [get?_insertNew, if_neg]
  · exact hg
  · rintro rfl
    rw [get?_insertNew_fst] at hg
    cases hg

/-- Filling a key that `s` does not have keeps what `s` has. -/
theorem replaceContent (h : Keeps s t) {k : FragmentKey} {f : Fragment} (hk : s.get? k = none)
    (he : t.replaceContent k f = .ok u) : Keeps s u := by
  intro x g hg
  rw [get?_replaceContent he, if_neg]
  · exact h x g hg
  · rintro rfl
    rw [hk] at hg
    cases hg

end Keeps

end FragmentStore

/-! ## Content -/

/-- The content of a fragment is that of one scanned source, with a key for each include. -/
def Fragment.Sourced (f : Fragment) : Prop :=
  ∃ source t line scanned, Scanned.ofText source t line = .ok scanned ∧ f.text = scanned.text ∧
    f.flagRefs = scanned.flagRefs ∧ f.includes.map (·.offset) = scanned.includes.map (·.offset)

namespace Fragment

theorem targets_ofScanned {name : String} {scanned : Scanned} {targets : List FragmentKey}
    (h : targets.length = scanned.includes.length) : (ofScanned name scanned targets).targets = targets := by
  show (List.zipWith _ _ _).map _ = _
  rw [List.map_zipWith]
  exact List.ext_getElem (by simp [h]) fun i _ _ => by simp

theorem sourced_ofScanned {source : String} {t : Text} {line : UInt32} {scanned : Scanned}
    (hs : Scanned.ofText source t line = .ok scanned) (name : String) {targets : List FragmentKey}
    (h : targets.length = scanned.includes.length) : (ofScanned name scanned targets).Sourced := by
  refine ⟨source, t, line, scanned, hs, rfl, rfl, ?_⟩
  show (List.zipWith _ _ _).map _ = _
  rw [List.map_zipWith]
  exact List.ext_getElem (by simp [h]) fun i _ _ => by simp

theorem targets_blank (name : String) : (blank name).targets = [] := by
  simp [blank, ofParts, placeIncludes, targets]

theorem sourced_blank (name : String) : (blank name).Sourced := by
  refine ⟨"", [], 0, ⟨[], [], []⟩, rfl, rfl, rfl, ?_⟩
  simp [blank, ofParts, placeIncludes]

theorem sourced_replacedBy (f : Fragment) {g : Fragment} (h : g.Sourced) : (f.replacedBy g).Sourced := h

end Fragment

namespace FragmentStore

/-- A table in which names are in order, whatever is included is stored, and every content was scanned. -/
structure WellFormed (s : FragmentStore) : Prop where
  named : Named s
  closed : ∀ k f, s.get? k = some f → ∀ x ∈ f.targets, s.contains x = true
  sourced : ∀ k f, s.get? k = some f → f.Sourced

namespace WellFormed

variable {s t : FragmentStore}

theorem empty : WellFormed empty := by
  refine ⟨fun name k => ?_, fun k f h => ?_, fun k f h => ?_⟩
  · constructor
    · intro h
      cases h
    · rintro ⟨f, hf, -⟩
      cases hf
  · cases h
  · cases h

theorem congr (h : WellFormed s) (ht : Named t) (hget : ∀ k, t.get? k = s.get? k) : WellFormed t := by
  refine ⟨ht, fun k f hf x hx => ?_, fun k f hf => h.sourced k f (hget k ▸ hf)⟩
  rw [hget k] at hf
  show (t.get? x).isSome = true
  rw [hget x]
  exact h.closed k f hf x hx

theorem insertNew (h : WellFormed s) {f : Fragment} (hn : s.find? f.name = none)
    (ht : ∀ x ∈ f.targets, s.contains x = true) (hf : f.Sourced) : WellFormed (s.insertNew f).2 := by
  have hkeeps := Keeps.insertNew s f
  refine ⟨h.named.insertNew hn, fun k g hg x hx => ?_, fun k g hg => ?_⟩
  · rw [get?_insertNew] at hg
    split at hg
    · cases hg
      exact hkeeps.contains (ht x hx)
    · exact hkeeps.contains (h.closed k g hg x hx)
  · rw [get?_insertNew] at hg
    split at hg
    · cases hg
      exact hf
    · exact h.sourced k g hg

theorem replaceContent (h : WellFormed s) {k : FragmentKey} {f : Fragment} (he : s.replaceContent k f = .ok t)
    (ht : ∀ x ∈ f.targets, s.contains x = true) (hf : f.Sourced) : WellFormed t := by
  refine ⟨h.named.replaceContent he, fun x g hg y hy => ?_, fun x g hg => ?_⟩
  · rw [contains_replaceContent he]
    rw [get?_replaceContent he] at hg
    split at hg
    · obtain ⟨g', -, rfl⟩ := Option.map_eq_some_iff.1 hg
      exact ht y hy
    · exact h.closed x g hg y hy
  · rw [get?_replaceContent he] at hg
    split at hg
    · obtain ⟨g', -, rfl⟩ := Option.map_eq_some_iff.1 hg
      exact Fragment.sourced_replacedBy g' hf
    · exact h.sourced x g hg

theorem remove (h : WellFormed s) {k : FragmentKey} (hk : ∀ x f, s.get? x = some f → k ∉ f.targets) :
    WellFormed (s.remove k).2 := by
  refine ⟨h.named.remove k, fun x f hf y hy => ?_, fun x f hf => ?_⟩
  · rw [get?_remove] at hf
    split at hf
    · cases hf
    · have hne : k ≠ y := fun he => hk x f hf (he ▸ hy)
      show ((s.remove k).2.get? y).isSome = true
      rw [get?_remove, if_neg hne]
      exact h.closed x f hf y hy
  · rw [get?_remove] at hf
    split at hf
    · cases hf
    · exact h.sourced x f hf

/-- What is stored agrees with any table that keeps it. -/
theorem agree_of_keeps (h : WellFormed s) (hk : Keeps s t) : Agree s t fun k => s.contains k = true :=
  ⟨fun _ hx => hk.get? hx, fun k f _ hf x hx => h.closed k f hf x hx⟩

/-- Without a fragment that no stored one includes, all others are as before. -/
theorem agree_remove (h : WellFormed s) {k : FragmentKey} (hk : ∀ x f, s.get? x = some f → k ∉ f.targets) :
    Agree s (s.remove k).2 fun x => s.contains x = true ∧ k ≠ x := by
  refine ⟨fun x hx => ?_, fun x f _ hf y hy => ⟨h.closed x f hf y hy, fun he => hk x f hf (he ▸ hy)⟩⟩
  rw [get?_remove, if_neg hx.2]

end WellFormed

/-- Fragments from which a changed one is not reached are as before. -/
theorem agree_replaceContent {s t : FragmentStore} {k : FragmentKey} {f : Fragment}
    (h : s.replaceContent k f = .ok t) (keys : List FragmentKey) (hk : k ∉ t.closure keys) :
    Agree t s (· ∈ t.closure keys) := by
  refine ⟨fun x hx => ?_, fun x g hx hg y hy => ?_⟩
  · rw [get?_replaceContent h, if_neg]
    rintro rfl
    exact hk hx
  · obtain ⟨r, hr, hreach⟩ := mem_closure_iff.1 hx
    exact mem_closure_iff.2 ⟨r, hr, hreach.tail ⟨g, hg, hy⟩⟩

end FragmentStore

end ShaderVariant
