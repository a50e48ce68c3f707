import Mathlib.Order.Bounds.Basic
import ShaderVariant.Proofs.Fragment.Places
import ShaderVariant.Proofs.Fragment.Reach

/-!
# Slices of fragments

A fragment is spliced from slices of its text, each from one include to the next. A slice is asked for by two byte
offsets, and there is none if they are out of range or in the wrong order, or if one of them is inside a character.

* `Text.IsBoundary` : an offset between two characters of the UTF-8 encoding, or at either end;
* `isGreatest_floorBoundary`, `filter_placeIncludes` : where the includes of a new fragment are moved to, and that those
  at one place keep their order;
* `Text.slice?` : a slice of a text (`slice?_eq_some_iff`, `slice?_eq_none_iff`);
* `Fragment.Made` : how fragments come about. Their includes stand at boundaries, in order (`Made.placed`);
* `FragmentStore.splice` : assembly that fails if there is no slice. Of includes in their places it never does, and comes
  to what they are expanded to (`splice_eq_expand`);
* `slices_exact` : of every fragment that is made.
-/

namespace ShaderVariant

/-! ## Boundaries -/

namespace Text

/-- The offset is a place in the UTF-8 encoding where a character starts, or its end. -/
def IsBoundary (t : Text) (n : Nat) : Prop := String.Pos.Raw.IsValid (String.ofList t) ⟨n⟩

theorem byteLength_eq_utf8ByteSize (t : Text) : t.byteLength = (String.ofList t).utf8ByteSize := by
  induction t with
  | nil => rfl
  | cons c t ih =>
    rw [byteLength_cons, ih, ← List.singleton_append, String.ofList_append, String.utf8ByteSize_append,
      ← String.singleton_eq_ofList, String.utf8ByteSize_singleton]

/-- At a boundary a part of the text ends. -/
theorem isBoundary_iff {t : Text} {n : Nat} : t.IsBoundary n ↔ ∃ front : Text, front <+: t ∧ front.byteLength = n := by
  unfold IsBoundary
  rw [String.Pos.Raw.isValid_iff_exists_append]
  constructor
  · rintro ⟨front, back, ht, hn⟩
    refine ⟨front.toList, ⟨back.toList, ?_⟩, ?_⟩
    · rw [← String.toList_append, ← ht, String.toList_ofList]
    · rw [byteLength_eq_utf8ByteSize, String.ofList_toList]
      exact (congrArg String.Pos.Raw.byteIdx hn).symm
  · rintro ⟨front, ⟨back, rfl⟩, rfl⟩
    refine ⟨String.ofList front, String.ofList back, String.ofList_append, ?_⟩
    rw [byteLength_eq_utf8ByteSize]
    rfl

theorem IsBoundary.le_byteLength {t : Text} {n : Nat} (h : t.IsBoundary n) : n ≤ t.byteLength := by
  obtain ⟨front, ⟨back, rfl⟩, rfl⟩ := isBoundary_iff.1 h
  rw [byteLength_append]
  omega

theorem isBoundary_floorBoundary (n : Nat) (t : Text) : t.IsBoundary (t.floorBoundary n) :=
  isBoundary_iff.2 ⟨_, ⟨_, splitBytes_append n t⟩, rfl⟩

/-- A part of the text that is within the bound is within the cut. -/
theorem byteLength_le_floorBoundary {front t : Text} {n : Nat} (hfront : front <+: t) (hn : front.byteLength ≤ n) :
    front.byteLength ≤ t.floorBoundary n := by
  obtain ⟨back, rfl⟩ := hfront
  unfold floorBoundary
  induction front generalizing n with
  | nil => exact Nat.zero_le _
  | cons c front ih =>
    rw [byteLength_cons] at hn
    have hc : c.utf8Size ≤ n := by omega
    rw [List.cons_append, splitBytes_cons, if_pos hc, byteLength_cons, byteLength_cons]
    have := ih (n := n - c.utf8Size) (by omega)
    omega

/-- An offset is moved to the last boundary that is neither behind it nor behind the end of the text. -/
theorem isGreatest_floorBoundary (n : Nat) (t : Text) :
    IsGreatest {b | t.IsBoundary b ∧ b ≤ min n t.byteLength} (t.floorBoundary n) := by
  have hboundary := isBoundary_floorBoundary n t
  constructor
  · exact ⟨hboundary, Nat.le_min.2 ⟨byteLength_splitBytes_le n t, hboundary.le_byteLength⟩⟩
  · rintro b ⟨hb, hle⟩
    obtain ⟨front, hfront, rfl⟩ := isBoundary_iff.1 hb
    exact byteLength_le_floorBoundary hfront (Nat.le_trans hle (Nat.min_le_left ..))

theorem floorBoundary_eq_iff {t : Text} {n : Nat} : t.floorBoundary n = n ↔ t.IsBoundary n := by
  constructor
  · intro h
    exact h ▸ isBoundary_floorBoundary n t
  · intro h
    refine Nat.le_antisymm (byteLength_splitBytes_le n t) ((isGreatest_floorBoundary n t).2 ⟨h, ?_⟩)
    exact Nat.le_min.2 ⟨Nat.le_refl n, h.le_byteLength⟩

instance (t : Text) (n : Nat) : Decidable (t.IsBoundary n) := decidable_of_iff _ floorBoundary_eq_iff

/-! ## Slices -/

/-- The part of a text from one byte offset to another. There is none if the offsets are in the wrong order, or if one of
them is behind the end or inside a character. -/
def slice? (t : Text) (a b : Nat) : Option Text :=
  if a ≤ b ∧ t.IsBoundary a ∧ t.IsBoundary b then some ((t.splitBytes b).1.splitBytes a).2 else none

theorem slice?_append (front u back : Text) :
    slice? (front ++ (u ++ back)) front.byteLength (front.byteLength + u.byteLength) = some u := by
  have hfront : (front ++ (u ++ back)).IsBoundary front.byteLength :=
    isBoundary_iff.2 ⟨front, List.prefix_append .., rfl⟩
  have hback : (front ++ (u ++ back)).IsBoundary (front.byteLength + u.byteLength) :=
    isBoundary_iff.2 ⟨front ++ u, ⟨back, List.append_assoc ..⟩, byteLength_append ..⟩
  unfold slice?
  rw [if_pos ⟨Nat.le_add_right .., hfront, hback⟩, ← byteLength_append, ← List.append_assoc, splitBytes_byteLength,
    splitBytes_byteLength]

/-- A slice stands between two parts of the text that the offsets measure. -/
theorem slice?_eq_some_iff {t u : Text} {a b : Nat} :
    t.slice? a b = some u ↔
      ∃ front back : Text, t = front ++ (u ++ back) ∧ front.byteLength = a ∧ a + u.byteLength = b := by
  constructor
  · intro h
    obtain ⟨hab, ha, hb⟩ : a ≤ b ∧ t.IsBoundary a ∧ t.IsBoundary b := by
      by_contra hno
      rw [slice?, if_neg hno] at h
      cases h
    obtain ⟨front, hfront, rfl⟩ := isBoundary_iff.1 ha
    obtain ⟨long, hlong, rfl⟩ := isBoundary_iff.1 hb
    obtain ⟨v, rfl⟩ := isPrefix_of_byteLength_le hfront hlong hab
    obtain ⟨back, rfl⟩ := hlong
    rw [List.append_assoc, byteLength_append, slice?_append] at h
    cases h
    exact ⟨front, back, List.append_assoc .., rfl, (byteLength_append ..).symm⟩
  · rintro ⟨front, back, rfl, rfl, rfl⟩
    exact slice?_append front u back

/-- A slice is missing just if it is reversed or an end of it is out of range or inside a character. -/
theorem slice?_eq_none_iff {t : Text} {a b : Nat} :
    t.slice? a b = none ↔ b < a ∨ t.byteLength < b ∨ ¬ t.IsBoundary a ∨ ¬ t.IsBoundary b := by
  have hle : t.byteLength < b → ¬ t.IsBoundary b := fun h hb => Nat.lt_irrefl _ (Nat.lt_of_lt_of_le h hb.le_byteLength)
  unfold slice?
  split
  · next h =>
    have := Nat.not_lt.2 h.1
    tauto
  · next h =>
    rw [← Nat.not_le]
    tauto

end Text

/-! ## Fragments -/

namespace Fragment

/-- Ways for a fragment to come about: from a text and any includes, from a scanned source and targets for its includes,
and by new content for a fragment. -/
inductive Made : Fragment → Prop
  | ofParts (name : String) (text : Text) (includes : List Include) : Made (ofParts name text includes)
  | ofScanned {source : String} {t : Text} {line : UInt32} {scanned : Scanned}
      (h : Scanned.ofText source t line = .ok scanned) (name : String) (targets : List FragmentKey) :
      Made (ofScanned name scanned targets)
  | replacedBy {f g : Fragment} (hf : Made f) (hg : Made g) : Made (f.replacedBy g)

theorem offsets_ofScanned (name : String) (scanned : Scanned) (targets : List FragmentKey) :
    (ofScanned name scanned targets).includes.map (·.offset) <+: scanned.includes.map (·.offset) := by
  unfold ofScanned
  induction scanned.includes generalizing targets with
  | nil => exact List.nil_prefix
  | cons i includes ih =>
    cases targets with
    | nil => exact List.nil_prefix
    | cons k targets => exact List.prefix_cons_inj _ |>.2 (ih targets)

theorem Made.placed {f : Fragment} (h : f.Made) : f.Placed := by
  induction h with
  | ofParts name text includes => exact placed_ofParts name text includes
  | ofScanned h name targets => exact placed_of_scan h (offsets_ofScanned name _ targets)
  | replacedBy _ _ _ ihg => exact placed_replacedBy _ ihg

theorem Placed.isBoundary {f : Fragment} (h : f.Placed) {i : Include} (hi : i ∈ f.includes) :
    f.text.IsBoundary i.offset := by
  obtain ⟨front, hfront, hlen⟩ := h.boundary i hi
  exact Text.isBoundary_iff.2 ⟨front, hfront, by omega⟩

/-- No include is lost or added. -/
theorem perm_placeIncludes (text : Text) (is : List Include) :
    (placeIncludes text is).Perm (is.map (placeInclude text)) :=
  List.mergeSort_perm ..

/-- The includes at one place are in the order in which they were given. -/
theorem filter_placeIncludes (text : Text) (is : List Include) (n : Nat) :
    (placeIncludes text is).filter (·.offset = n) = (is.map (placeInclude text)).filter (·.offset = n) := by
  have hsub : ((is.map (placeInclude text)).filter (·.offset = n)).Sublist (placeIncludes text is) := by
    refine List.sublist_mergeSort (fun i j k hij hjk => ?_) (fun i j => ?_) ?_ List.filter_sublist
    · simp only [decide_eq_true_eq] at hij hjk ⊢
      omega
    · simp only [Bool.or_eq_true, decide_eq_true_eq]
      omega
    · -- All of them are at one place, so they are in order already.
      refine List.pairwise_of_forall_mem_list fun i hi j hj => ?_
      simp only [List.mem_filter, decide_eq_true_eq] at hi hj ⊢
      omega
  have hfilter := hsub.filter fun i => decide (i.offset = n)
  rw [List.filter_filter] at hfilter
  simp only [Bool.and_self] at hfilter
  refine (hfilter.eq_of_length ?_).symm
  exact ((perm_placeIncludes text is).filter _).length_eq.symm

end Fragment

/-! ## Assembly -/

/-- Why an assembly from slices fails: there is no slice between two offsets, or what is included is at fault. -/
inductive SpliceFault where
  | noSlice (start stop : Nat)
  | shader (e : ShaderError)
  deriving DecidableEq

namespace FragmentStore

def cutOut (text : Text) (start stop : Nat) : Except SpliceFault Text :=
  match text.slice? start stop with
  | none => .error (.noSlice start stop)
  | some u => .ok u

/-- Assembles a text from slices, the first of which starts at `cursor`. Each ends where an include stands. -/
def splice (s : FragmentStore) (path : List FragmentKey) (text : Text) (cursor : Nat) :
    List Include → Except SpliceFault Text
  | [] => cutOut text cursor text.byteLength
  | i :: more =>
    match cutOut text cursor i.offset with
    | .error e => .error e
    | .ok before =>
      if _hp : i.target ∈ path then .error (.shader (.cyclicDependency (s.cycleNames path i.target)))
      else
        match _hs : s.get? i.target with
        | none => .error (.shader (.danglingFragment i.target))
        | some f =>
          match s.splice (path ++ [i.target]) f.text 0 f.includes with
          | .error e => .error e
          | .ok inner =>
            match s.splice path text i.offset more with
            | .error e => .error e
            | .ok outer => .ok (before ++ inner ++ outer)
termination_by includes => s.unvisited path + includes.length
decreasing_by
  · have := unvisited_append_lt _hs _hp
    rw [List.length_cons]
    omega
  · exact Nat.lt_succ_self _

variable {s : FragmentStore}

theorem splice_cons (s : FragmentStore) (path : List FragmentKey) {text before : Text} {cursor : Nat} {i : Include}
    (more : List Include) (hcut : cutOut text cursor i.offset = .ok before) :
    s.splice path text cursor (i :: more) =
      if i.target ∈ path then .error (.shader (.cyclicDependency (s.cycleNames path i.target)))
      else
        match s.get? i.target with
        | none => .error (.shader (.danglingFragment i.target))
        | some f =>
          match s.splice (path ++ [i.target]) f.text 0 f.includes with
          | .error e => .error e
          | .ok inner =>
            match s.splice path text i.offset more with
            | .error e => .error e
            | .ok outer => .ok (before ++ inner ++ outer) := by
  rw [splice, hcut]
  dsimp only
  split
  · rfl
  · cases s.get? i.target <;> rfl

/-- The slice before an include is what the text that is ahead is cut at, and behind it is the text that is ahead then. -/
theorem cutOut_of_placed {passed rest : Text} {i : Include} {more : List Include}
    (h : PlacedFrom passed.byteLength rest (i :: more)) :
    ∃ before after : Text, rest = before ++ after ∧ rest.splitBytes (i.offset - passed.byteLength) = (before, after) ∧
      cutOut (passed ++ rest) passed.byteLength i.offset = .ok before ∧ (passed ++ before).byteLength = i.offset ∧
      PlacedFrom i.offset after more := by
  obtain ⟨before, after, rfl, hoffset, hsplit⟩ := h.cut
  refine ⟨before, after, rfl, hsplit, ?_, ?_, h.rest hoffset⟩
  · rw [← hoffset, cutOut, Text.slice?_append]
  · rw [Text.byteLength_append, hoffset]

/-- Behind the text that has been passed, slices are cut as the rest of the text is. The induction is as deep as the
assembly, so the nested fragments and the includes that follow are both before this one. -/
theorem splice_eq_expand (hs : s.Placed) (path : List FragmentKey) (passed : Text) {rest : Text} {is : List Include}
    (h : PlacedFrom passed.byteLength rest is) :
    s.splice path (passed ++ rest) passed.byteLength is =
      (s.expand path passed.byteLength rest is).mapError .shader := by
  match is with
  | [] =>
    have hcut := Text.slice?_append passed rest []
    rw [List.append_nil, ← Text.byteLength_append] at hcut
    rw [splice, cutOut, hcut, expand]
    rfl
  | i :: more =>
    obtain ⟨before, after, rfl, hsplit, hcut, hoffset, hrest⟩ := cutOut_of_placed h
    rw [splice_cons s path more hcut, expand_cons, hsplit]
    by_cases hp : i.target ∈ path
    · rw [if_pos hp, if_pos hp]
      rfl
    · rw [if_neg hp, if_neg hp]
      cases hf : s.get? i.target with
      | none => rfl
      | some f =>
        have hinner := splice_eq_expand hs (path ++ [i.target]) [] (hs _ f hf)
        have houter := splice_eq_expand hs path (passed ++ before) (hoffset.symm ▸ hrest)
        rw [List.nil_append, Text.byteLength_nil] at hinner
        rw [hoffset, List.append_assoc] at houter
        simp only [hinner, houter]
        cases s.expand (path ++ [i.target]) 0 f.text f.includes with
        | error e => rfl
        | ok inner => cases s.expand path i.offset after more <;> rfl
termination_by s.unvisited path + is.length
decreasing_by
  · have := unvisited_append_lt hf hp
    rw [List.length_cons]
    omega
  · exact Nat.lt_succ_self _

end FragmentStore

open FragmentStore in
/-- Of fragments however they come about, with whatever includes: their includes are ordered by offset, and each offset is
a character boundary of the text. So in an assembly, on every path, no slice is missing: it comes to the text or the
error that it is expanded to. When a fragment is made from parts, every include is kept. It is moved to the last
boundary that is neither behind its offset nor behind the end of the text, and those that come to one place keep their
order. -/
theorem slices_exact {s : FragmentStore} (hs : ∀ k g, s.get? k = some g → g.Made) {f : Fragment} (hf : f.Made) :
    f.includes.Pairwise (fun i j => i.offset ≤ j.offset) ∧
    (∀ i ∈ f.includes, i.offset ≤ f.text.byteLength ∧ f.text.IsBoundary i.offset) ∧
    (∀ path, s.splice path f.text 0 f.includes = (s.expandFragment path f).mapError .shader) ∧
    ∀ name text is, ∃ moved : List Include,
      List.Forall₂ (fun i j => j.target = i.target ∧
        IsGreatest {b | text.IsBoundary b ∧ b ≤ min i.offset text.byteLength} j.offset) is moved ∧
      (Fragment.ofParts name text is).includes.Perm moved ∧
      ∀ n, (Fragment.ofParts name text is).includes.filter (·.offset = n) = moved.filter (·.offset = n) := by
  have hplaced : s.Placed := fun k g hg => (hs k g hg).placed
  refine ⟨hf.placed.ordered, fun i hi => ?_, fun path => ?_, fun name text is => ?_⟩
  · have hb := hf.placed.isBoundary hi
    exact ⟨hb.le_byteLength, hb⟩
  · exact splice_eq_expand hplaced path [] hf.placed
  · refine ⟨is.map (Fragment.placeInclude text), ?_, Fragment.perm_placeIncludes text is,
      Fragment.filter_placeIncludes text is⟩
    exact List.forall₂_map_right_iff.2 <| List.forall₂_same.2 fun i _ => ⟨rfl, Text.isGreatest_floorBoundary i.offset text⟩

def markStore : FragmentStore := (FragmentStore.empty.insertNew (.ofParts "UTIL" ['!'] [])).2

/-- A fragment that includes it inside a character, and behind the end of the text. -/
def markedFragment : Fragment := .ofParts "MAIN" ['é'] [⟨⟨1, 1⟩, 1⟩, ⟨⟨1, 1⟩, 99⟩]

theorem includes_markedFragment : markedFragment.includes = [⟨⟨1, 1⟩, 0⟩, ⟨⟨1, 1⟩, 2⟩] :=
  List.mergeSort_of_pairwise (by decide)

/-- The first include is moved before the character, the second one to the end. -/
theorem slices_exact_markStore :
    ¬ Text.IsBoundary ['é'] 1 ∧ (∀ i ∈ markedFragment.includes, Text.IsBoundary ['é'] i.offset) ∧
      markStore.splice [] ['é'] 0 markedFragment.includes = .ok ['!', 'é', '!'] := by
  have hs : ∀ k g, markStore.get? k = some g → g.Made := by
    intro k g hg
    rw [markStore, FragmentStore.get?_insertNew] at hg
    split at hg
    · cases hg
      exact .ofParts ..
    · cases hg
  have hf : markedFragment.Made := .ofParts ..
  obtain ⟨-, hboundary, hsplice, -⟩ := slices_exact hs hf
  refine ⟨by decide, fun i hi => (hboundary i hi).2, (hsplice []).trans ?_⟩
  rw [FragmentStore.expandFragment, includes_markedFragment]
  decide +kernel

end ShaderVariant
