import ShaderVariant.Proofs.Fragment.Store
import ShaderVariant.Proofs.Text

/-!
# Places of includes

* `Fragment.Placed` : includes stand at character boundaries of the text, in order. That holds of every fragment that is
  made from parts (`placed_ofParts`) or from a scanned source (`Sourced.placed`);
* `FragmentStore.Placed` : so stands what is stored. Every operation on the table keeps that;
* `PlacedFrom` : the same of the part of a text that is still ahead. It is cut at the first include (`PlacedFrom.cut`),
  and the others stand behind the cut (`PlacedFrom.rest`).
-/

namespace ShaderVariant

/-! ## Cuts -/

/-- Of two parts at the front of a text the shorter one is the front of the longer one. -/
theorem Text.isPrefix_of_byteLength_le {s t u : Text} (hs : s <+: u) (ht : t <+: u) (h : byteLength s ≤ byteLength t) :
    s <+: t := by
  rcases List.prefix_or_prefix_of_prefix hs ht with hst | ⟨v, rfl⟩
  · exact hst
  · rw [byteLength_append] at h
    cases v with
    | nil => exact ⟨[], by simp⟩
    | cons c v =>
      have := Char.utf8Size_pos c
      rw [byteLength_cons] at h
      omega

/-! ## What is ahead -/

/-- Includes stand at character boundaries of `rest`, the text from byte `start` on, in order. -/
structure PlacedFrom (start : Nat) (rest : Text) (is : List Include) : Prop where
  boundary : ∀ i ∈ is, ∃ before : Text, before <+: rest ∧ start + before.byteLength = i.offset
  ordered : is.Pairwise fun i j => i.offset ≤ j.offset

namespace PlacedFrom

variable {start : Nat} {ahead : Text} {i : Include} {more : List Include}

theorem cut (h : PlacedFrom start ahead (i :: more)) :
    ∃ before after : Text, ahead = before ++ after ∧ start + before.byteLength = i.offset ∧
      ahead.splitBytes (i.offset - start) = (before, after) := by
  obtain ⟨before, ⟨after, rfl⟩, hb⟩ := h.boundary i List.mem_cons_self
  refine ⟨before, after, rfl, hb, ?_⟩
  rw [← hb, Nat.add_sub_cancel_left]
  exact Text.splitBytes_byteLength before after

theorem rest {before after : Text} (h : PlacedFrom start (before ++ after) (i :: more))
    (hb : start + before.byteLength = i.offset) : PlacedFrom i.offset after more := by
  obtain ⟨hle, hordered⟩ := List.pairwise_cons.1 h.ordered
  refine ⟨fun j hj => ?_, hordered⟩
  obtain ⟨front, hfront, hj'⟩ := h.boundary j (List.mem_cons_of_mem i hj)
  have hlen : before.byteLength ≤ front.byteLength := by
    have := hle j hj
    omega
  obtain ⟨between, rfl⟩ := Text.isPrefix_of_byteLength_le (List.prefix_append before after) hfront hlen
  refine ⟨between, (List.prefix_append_right_inj before).1 hfront, ?_⟩
  rw [Text.byteLength_append] at hj'
  omega

end PlacedFrom

/-! ## Fragments -/

def Fragment.Placed (f : Fragment) : Prop := PlacedFrom 0 f.text f.includes

namespace Fragment

theorem placed_ofParts (name : String) (text : Text) (includes : List Include) :
    (ofParts name text includes).Placed := by
  refine ⟨fun i hi => ?_, ?_⟩
  · obtain ⟨j, -, rfl⟩ := List.mem_map.1 (List.mem_mergeSort.1 hi)
    exact ⟨_, ⟨_, Text.splitBytes_append j.offset text⟩, Nat.zero_add _⟩
  · have trans : ∀ i j k : Include, decide (i.offset ≤ j.offset) = true → decide (j.offset ≤ k.offset) = true →
        decide (i.offset ≤ k.offset) = true := fun i j k hij hjk =>
      decide_eq_true (Nat.le_trans (of_decide_eq_true hij) (of_decide_eq_true hjk))
    have total : ∀ i j : Include, (decide (i.offset ≤ j.offset) || decide (j.offset ≤ i.offset)) = true := fun i j => by
      simp only [Bool.or_eq_true, decide_eq_true_eq]
      exact Nat.le_total i.offset j.offset
    exact (List.pairwise_mergeSort trans total _).imp of_decide_eq_true

theorem placed_replacedBy (f : Fragment) {g : Fragment} (h : g.Placed) : (f.replacedBy g).Placed := h

end Fragment

/-- Scanned includes stand where the directives stood, behind the lines before. `passed` is the text of these. -/
theorem placed_of_scanLines {source : String} {line : UInt32} {offset : Nat} {ls : List Text} (passed : Text)
    {text : Text} {pending : List PendingInclude} (h : Scanned.scanLines source line offset ls = .ok (text, pending))
    (hpassed : passed.byteLength = offset) :
    (∀ p ∈ pending, ∃ before : Text, before <+: passed ++ text ∧ before.byteLength = p.offset) ∧
      (∀ p ∈ pending, offset ≤ p.offset) ∧ (pending.map (·.offset)).Pairwise (· ≤ ·) := by
  induction ls generalizing line offset passed text pending with
  | nil =>
    cases h
    exact ⟨fun p hp => absurd hp List.not_mem_nil, fun p hp => absurd hp List.not_mem_nil, .nil⟩
  | cons l ls ih =>
    rw [Scanned.scanLines] at h
    split at h
    · split at h
      · cases h
      · next before name after hsplit =>
        split at h
        · cases h
        · next rest others hrest =>
          cases h
          obtain ⟨hplaces, hbehind, hordered⟩ := ih (passed ++ (before ++ after)) hrest (by
            simp only [Text.byteLength_append]
            omega)
          refine ⟨List.forall_mem_cons.2 ⟨⟨passed ++ before, ⟨after ++ rest, ?_⟩, ?_⟩, fun p hp => ?_⟩,
            List.forall_mem_cons.2 ⟨Nat.le_add_right _ _, fun p hp => ?_⟩, ?_⟩
          · simp only [List.append_assoc]
          · rw [Text.byteLength_append, hpassed]
          · obtain ⟨front, hfront, hlen⟩ := hplaces p hp
            exact ⟨front, by rwa [List.append_assoc] at hfront, hlen⟩
          · have := hbehind p hp
            omega
          · refine List.pairwise_cons.2 ⟨List.forall_mem_map.2 fun p hp => ?_, hordered⟩
            have := hbehind p hp
            show offset + before.byteLength ≤ p.offset
            omega
    · split at h
      · cases h
      · next rest others hrest =>
        cases h
        obtain ⟨hplaces, hbehind, hordered⟩ := ih (passed ++ l) hrest (by rw [Text.byteLength_append, hpassed])
        refine ⟨fun p hp => ?_, fun p hp => ?_, hordered⟩
        · obtain ⟨front, hfront, hlen⟩ := hplaces p hp
          exact ⟨front, by rwa [List.append_assoc] at hfront, hlen⟩
        · have := hbehind p hp
          omega

/-- Includes at the places of the first directives of a scanned source stand in its text, in order. -/
theorem placed_of_scan {source : String} {t : Text} {line : UInt32} {scanned : Scanned} {is : List Include}
    (hscan : Scanned.ofText source t line = .ok scanned)
    (hoffsets : is.map (·.offset) <+: scanned.includes.map (·.offset)) : PlacedFrom 0 scanned.text is := by
  unfold Scanned.ofText at hscan
  split at hscan
  · cases hscan
  · next text pending hlines =>
    cases hscan
    obtain ⟨hplaces, -, hordered⟩ := placed_of_scanLines [] hlines rfl
    refine ⟨fun i hi => ?_, List.pairwise_map.1 (hordered.sublist hoffsets.sublist)⟩
    obtain ⟨p, hp, he⟩ := List.mem_map.1 (hoffsets.subset (List.mem_map_of_mem hi))
    obtain ⟨before, hbefore, hlen⟩ := hplaces p hp
    exact ⟨before, hbefore, by rw [Nat.zero_add, hlen, he]⟩

theorem Fragment.Sourced.placed {f : Fragment} (h : f.Sourced) : f.Placed := by
  obtain ⟨source, t, line, scanned, hscan, htext, -, hoffsets⟩ := h
  unfold Fragment.Placed
  rw [htext]
  exact placed_of_scan hscan (hoffsets ▸ List.prefix_rfl)

/-! ## Tables -/

namespace FragmentStore

def Placed (s : FragmentStore) : Prop := ∀ k f, s.get? k = some f → f.Placed

def insertAll (s : FragmentStore) (fs : List Fragment) : FragmentStore := fs.foldl (fun s f => (s.insert f).2) s

theorem placed_empty : empty.Placed := fun _ _ h => (nomatch h)

theorem WellFormed.placed {s : FragmentStore} (h : WellFormed s) : s.Placed := fun k f hf => (h.sourced k f hf).placed

namespace Placed

variable {s t : FragmentStore} {f : Fragment}

theorem replaceContent (h : s.Placed) (hf : f.Placed) {k : FragmentKey} (he : s.replaceContent k f = .ok t) :
    t.Placed := by
  intro x g hg
  rw [get?_replaceContent he] at hg
  split at hg
  · obtain ⟨g', -, rfl⟩ := Option.map_eq_some_iff.1 hg
    exact g'.placed_replacedBy hf
  · exact h x g hg

theorem insert (h : s.Placed) (hf : f.Placed) : (s.insert f).2.Placed := by
  have hnew : (s.insertNew f).2.Placed := by
    intro x g hg
    rw [get?_insertNew] at hg
    split at hg
    · cases hg
      exact hf
    · exact h x g hg
  unfold FragmentStore.insert
  split
  · exact hnew
  · split
    · next k _ hk => exact h.replaceContent hf (if_pos hk)
    · exact hnew

theorem insertAll (h : s.Placed) {fs : List Fragment} (hf : ∀ f ∈ fs, f.Placed) : (s.insertAll fs).Placed := by
  induction fs generalizing s with
  | nil => exact h
  | cons f fs ih =>
    obtain ⟨hf, hfs⟩ := List.forall_mem_cons.1 hf
    exact ih (h.insert hf) hfs

theorem remove (h : s.Placed) (k : FragmentKey) : (s.remove k).2.Placed := by
  intro x g hg
  rw [get?_remove] at hg
  split at hg
  · cases hg
  · exact h x g hg

end Placed

end FragmentStore

end ShaderVariant
