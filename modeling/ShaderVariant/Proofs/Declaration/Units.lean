import ShaderVariant.Proofs.Declaration.Sequence
import ShaderVariant.Proofs.Except

/-!
# Texture units

* `SamplerDraft.InRange` : what the numbers of a sampler are like, if its fields are in range (`inRange_samplerOf`);
* `SamplerDraft.freeUnit?_eq_none_iff` : no unit is free just if all are used;
* `SamplerDraft.assignUnits_ok_iff` : there are units for all samplers just if the samplers without one fit into the
  units that the others leave;
* `SamplerDraft.assignUnits_unplaced` : the units do not depend on lines.
-/

namespace ShaderVariant.SamplerDraft

open Grammar

/-- The unit that a sampler asks for exists, and its anisotropy is a number from 1 to 16. -/
structure InRange (d : SamplerDraft) : Prop where
  unit : ∀ u, d.unit = some u → u < textureUnits
  anisotropy : 1 ≤ d.anisotropy ∧ d.anisotropy ≤ 16

/-- Fields in range make a sampler in range. -/
theorem inRange_samplerOf (line : UInt32) (kind : SamplerKind) (name : String) {fields : List SamplerField}
    (h : ∀ f ∈ fields, f.InRange) : (samplerOf line kind name fields).InRange := by
  have hstart : (ofName name kind line).InRange := ⟨nofun, (by decide : 1 ≤ 8 ∧ 8 ≤ 16)⟩
  refine List.foldlRecOn fields _ hstart fun d hd f hf => ?_
  have hrange := h f hf
  cases f with
  | unit found =>
    obtain ⟨hnonneg, hlt⟩ := hrange
    refine ⟨fun u hu => ?_, hd.anisotropy⟩
    cases hu
    omega
  | anisotropy found =>
    obtain ⟨hpos, hle⟩ := hrange
    have hnat : 1 ≤ found.toNat ∧ found.toNat ≤ 16 := by omega
    exact ⟨hd.unit, hnat⟩
  | texture | address | filter => exact ⟨hd.unit, hd.anisotropy⟩

def InUse (used : List Nat) : Prop := ∀ u ∈ used, u < textureUnits

theorem InUse.subset {used : List Nat} (h : InUse used) : used.toFinset ⊆ Finset.range textureUnits :=
  fun u hu => Finset.mem_range.2 (h u (List.mem_toFinset.1 hu))

theorem InUse.card_le {used : List Nat} (h : InUse used) : used.toFinset.card ≤ textureUnits := by
  simpa using Finset.card_le_card h.subset

theorem of_freeUnit? {used : List Nat} {u : Nat} (h : freeUnit? used = some u) : u < textureUnits ∧ u ∉ used := by
  have hmem := List.mem_of_find?_eq_some h
  have hfree := List.find?_some h
  exact ⟨List.mem_range.1 hmem, by simpa using hfree⟩

/-- No unit is free just if all are used. -/
theorem freeUnit?_eq_none_iff {used : List Nat} (h : InUse used) :
    freeUnit? used = none ↔ used.toFinset.card = textureUnits := by
  unfold freeUnit?
  rw [List.find?_eq_none]
  constructor
  · intro hall
    have hsub : Finset.range textureUnits ⊆ used.toFinset := fun u hu => by
      have := hall u (List.mem_range.2 (Finset.mem_range.1 hu))
      simpa using this
    exact le_antisymm h.card_le (by simpa using Finset.card_le_card hsub)
  · intro hcard u hu
    have heq := Finset.eq_of_subset_of_card_le h.subset (by rw [hcard, Finset.card_range])
    have hmem : u ∈ used.toFinset := by rw [heq]; exact Finset.mem_range.2 (List.mem_range.1 hu)
    simpa using hmem

/-- There are units for samplers just if those without one fit into what is not used. -/
theorem assignFrom_ok_iff {used : List Nat} (h : InUse used) (ds : List SamplerDraft) :
    (∃ ss, assignFrom used ds = .ok ss) ↔ ds.countP (·.unit.isNone) + used.toFinset.card ≤ textureUnits := by
  induction ds generalizing used with
  | nil => exact iff_of_true ⟨_, rfl⟩ (by simpa using h.card_le)
  | cons d ds ih =>
    rw [assignFrom]
    cases hunit : d.unit with
    | some u =>
      rw [List.countP_cons_of_neg (by simp [hunit]), ← ih h]
      exact exists_map_eq_ok_iff _
    | none =>
      rw [List.countP_cons_of_pos (by simp [hunit])]
      cases hfree : freeUnit? used with
      | none =>
        have hcard := (freeUnit?_eq_none_iff h).1 hfree
        exact iff_of_false nofun (by omega)
      | some u =>
        obtain ⟨hlt, hnew⟩ := of_freeUnit? hfree
        have huse : InUse (u :: used) := List.forall_mem_cons.2 ⟨hlt, h⟩
        have hcard : (u :: used).toFinset.card = used.toFinset.card + 1 := by
          rw [List.toFinset_cons, Finset.card_insert_of_notMem (by simpa using hnew)]
        have hrest := ih huse
        rw [hcard] at hrest
        rw [show ds.countP (·.unit.isNone) + 1 + used.toFinset.card =
          ds.countP (·.unit.isNone) + (used.toFinset.card + 1) by omega, ← hrest]
        exact exists_map_eq_ok_iff _

/-- There are units for all samplers just if those without one fit into what the others leave. -/
theorem assignUnits_ok_iff {ds : List SamplerDraft} (h : InUse (ds.filterMap (·.unit))) :
    (∃ ss, assignUnits ds = .ok ss) ↔ HasUnits ds :=
  assignFrom_ok_iff h ds

theorem assignFrom_unplaced {used : List Nat} {ds : List SamplerDraft} {ss : List Sampler} :
    assignFrom used (ds.map unplaced) = .ok ss ↔ assignFrom used ds = .ok ss := by
  induction ds generalizing used ss with
  | nil => rfl
  | cons d ds ih =>
    rw [List.map_cons, assignFrom, assignFrom]
    cases hunit : d.unit with
    | some u =>
      rw [show d.unplaced.unit = some u from hunit]
      exact map_eq_ok_congr (fun _ => ih) _
    | none =>
      rw [show d.unplaced.unit = none from hunit]
      cases freeUnit? used with
      | none => exact iff_of_false nofun nofun
      | some u => exact map_eq_ok_congr (fun _ => ih) _

theorem assignUnits_unplaced {ds : List SamplerDraft} {ss : List Sampler} :
    assignUnits (ds.map unplaced) = .ok ss ↔ assignUnits ds = .ok ss := by
  unfold assignUnits
  rw [List.filterMap_map]
  exact assignFrom_unplaced

end ShaderVariant.SamplerDraft
