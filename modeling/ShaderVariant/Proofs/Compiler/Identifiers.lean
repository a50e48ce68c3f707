import Mathlib.Data.Finset.Card
import ShaderVariant.Compiler.DryRun
import ShaderVariant.Proofs.Text

/-!
# Identifiers of sources

* `Text.Mentions` : a text holds a name as an identifier of its own. These are the occurrences that the dry-run compiler
  finds (`DryRun.mem_occurrences_iff`);
* `DryRun.names` : the identifiers of all stages, one for each occurrence, in the order of the stages and of their texts
  (`occurrences_between`);
* `DryRun.ordinal` : how many different ones come before the first occurrence of a name. That is its place among the
  distinct ones (`findIdx?_identifiers`).
-/

namespace ShaderVariant

open Text (isIdentifier isIdentifierChar isIdentifierStart splitWhere)

namespace Text

/-! ## Pieces between separators -/

variable {separates : Char → Bool}

theorem splitWhere_cons (separates : Char → Bool) (c : Char) (t : Text) :
    splitWhere separates (c :: t) = consPiece separates c (splitWhere separates t) :=
  rfl

theorem consPiece_append {pieces : List Text} (h : pieces ≠ []) (c : Char) (more : List Text) :
    consPiece separates c (pieces ++ more) = consPiece separates c pieces ++ more := by
  obtain ⟨p, ps, rfl⟩ := List.exists_cons_of_ne_nil h
  unfold consPiece
  split <;> rfl

theorem splitWhere_ne_nil (separates : Char → Bool) (t : Text) : splitWhere separates t ≠ [] := by
  cases t with
  | nil => exact List.cons_ne_nil _ _
  | cons c t =>
    rw [splitWhere_cons]
    unfold consPiece
    split
    · exact List.cons_ne_nil _ _
    · split <;> exact List.cons_ne_nil _ _

theorem splitWhere_of_none {t : Text} (h : ∀ c ∈ t, separates c = false) : splitWhere separates t = [t] := by
  induction t with
  | nil => rfl
  | cons c t ih =>
    obtain ⟨hc, ht⟩ := List.forall_mem_cons.1 h
    rw [splitWhere_cons, ih ht]
    exact if_neg (Bool.eq_false_iff.1 hc)

theorem splitWhere_separator {c : Char} (hc : separates c = true) (s t : Text) :
    splitWhere separates (s ++ c :: t) = splitWhere separates s ++ splitWhere separates t := by
  induction s with
  | nil =>
    rw [List.nil_append, splitWhere_cons]
    exact if_pos hc
  | cons d s ih =>
    rw [List.cons_append, splitWhere_cons, ih, consPiece_append (splitWhere_ne_nil separates s), ← splitWhere_cons]

/-! ## Words of identifier characters -/

theorem isIdentifierChar_of_start {c : Char} (h : isIdentifierStart c = true) : isIdentifierChar c = true := by
  unfold isIdentifierStart at h
  unfold isIdentifierChar isAlphanumeric
  rw [Bool.or_eq_true] at h
  rcases h with h | h <;> simp [h]

theorem isIdentifierChar_of_mem {w : Text} (h : isIdentifier w = true) : ∀ c ∈ w, isIdentifierChar c = true := by
  cases w with
  | nil => exact fun _ hc => absurd hc List.not_mem_nil
  | cons c w =>
    obtain ⟨hc, hw⟩ := Bool.and_eq_true_iff.1 h
    exact List.forall_mem_cons.2 ⟨isIdentifierChar_of_start hc, fun d hd => List.all_eq_true.1 hw d hd⟩

/-- Nothing that stands before it belongs to a word that starts here. -/
def EndsWord (t : Text) : Prop := ∀ c ∈ t.getLast?, isIdentifierChar c = false

/-- Nothing that stands here belongs to a word before it. -/
def StartsApart (t : Text) : Prop := ∀ c ∈ t.head?, isIdentifierChar c = false

/-- A name occurs in a text as an identifier: no part of a longer run of identifier characters. -/
def Mentions (t : Text) (name : String) : Prop :=
  ∃ before after, t = before ++ (name.toList ++ after) ∧ isIdentifier name.toList = true ∧ EndsWord before ∧
    StartsApart after

theorem EndsWord.eq_nil_or {t : Text} (h : EndsWord t) :
    t = [] ∨ ∃ s c, t = s ++ [c] ∧ isIdentifierChar c = false := by
  rcases List.eq_nil_or_concat' t with rfl | ⟨s, c, rfl⟩
  · exact .inl rfl
  · exact .inr ⟨s, c, rfl, h c List.getLast?_concat⟩

theorem StartsApart.eq_nil_or {t : Text} (h : StartsApart t) :
    t = [] ∨ ∃ c s, t = c :: s ∧ isIdentifierChar c = false := by
  cases t with
  | nil => exact .inl rfl
  | cons c s => exact .inr ⟨c, s, rfl, h c rfl⟩

end Text

open Text (EndsWord Mentions StartsApart)

namespace DryRun

/-! ## Occurrences -/

theorem occurrences_nil : occurrences [] = [] := rfl

/-- Occurrences on either side of a character that is in no identifier. -/
theorem occurrences_separator {c : Char} (hc : isIdentifierChar c = false) (s t : Text) :
    occurrences (s ++ c :: t) = occurrences s ++ occurrences t := by
  unfold occurrences pieces
  rw [Text.splitWhere_separator (by simp [hc]), List.filter_append, List.map_append]

theorem occurrences_word {w : Text} (hw : ∀ c ∈ w, isIdentifierChar c = true) :
    occurrences w = if startsIdentifier w then [String.ofList w] else [] := by
  unfold occurrences pieces
  rw [Text.splitWhere_of_none fun c hc => by simp [hw c hc], List.filter_cons]
  split <;> rfl

theorem occurrences_identifier {name : String} (h : isIdentifier name.toList = true) :
    occurrences name.toList = [name] := by
  rw [occurrences_word (Text.isIdentifierChar_of_mem h), String.ofList_toList]
  refine if_pos ?_
  cases hw : name.toList with
  | nil =>
    rw [hw] at h
    cases h
  | cons c w =>
    rw [hw] at h
    exact (Bool.and_eq_true_iff.1 h).1

/-- A word that stands on its own is found between the occurrences before and behind it. -/
theorem occurrences_between {before w after : Text} (hbefore : EndsWord before) (hafter : StartsApart after) :
    occurrences (before ++ (w ++ after)) = occurrences before ++ (occurrences w ++ occurrences after) := by
  have hback : occurrences (w ++ after) = occurrences w ++ occurrences after := by
    rcases hafter.eq_nil_or with rfl | ⟨c, t, rfl, hc⟩
    · rw [List.append_nil, occurrences_nil, List.append_nil]
    · rw [occurrences_separator hc, ← List.nil_append (c :: t), occurrences_separator hc, occurrences_nil,
        List.nil_append]
  rcases hbefore.eq_nil_or with rfl | ⟨s, c, rfl, hc⟩
  · rw [List.nil_append, occurrences_nil, List.nil_append, hback]
  · rw [List.append_assoc, List.singleton_append, occurrences_separator hc, occurrences_separator hc, occurrences_nil,
      List.append_nil, hback]

/-- A text that starts with a word holds it, if it is an identifier, and what is in the rest. -/
theorem mentions_of_mem_occurrences {t : Text} {name : String} (h : name ∈ occurrences t) : t.Mentions name := by
  induction hn : t.length using Nat.strong_induction_on generalizing t with
  | _ n ih =>
    have hword : ∀ c ∈ t.takeWhile isIdentifierChar, isIdentifierChar c = true := fun c hc => List.mem_takeWhile_imp hc
    have hsplit : t.takeWhile isIdentifierChar ++ t.dropWhile isIdentifierChar = t := List.takeWhile_append_dropWhile
    have hapart : StartsApart (t.dropWhile isIdentifierChar) := fun c hc => by
      have := List.head?_dropWhile_not isIdentifierChar t
      rw [Option.mem_def.1 hc] at this
      simpa using this
    have hstart : name ∈ occurrences (t.takeWhile isIdentifierChar) → t.Mentions name := fun hm => by
      rw [occurrences_word hword] at hm
      split at hm
      · next hfirst =>
        have hname : name.toList = t.takeWhile isIdentifierChar := by
          rw [List.mem_singleton.1 hm, String.toList_ofList]
        refine ⟨[], t.dropWhile isIdentifierChar, by rw [hname, hsplit, List.nil_append], ?_, nofun, hapart⟩
        rw [hname]
        cases hw : t.takeWhile isIdentifierChar with
        | nil =>
          rw [hw] at hfirst
          cases hfirst
        | cons c w =>
          rw [hw] at hfirst hword
          exact Bool.and_eq_true_iff.2 ⟨hfirst, List.all_eq_true.2 fun d hd => hword d (List.mem_cons_of_mem c hd)⟩
      · cases hm
    rcases hapart.eq_nil_or with hnil | ⟨c, rest, hrest, hc⟩
    · rw [hnil, List.append_nil] at hsplit
      exact hstart (by rwa [hsplit])
    · rw [hrest] at hsplit
      rw [← hsplit, occurrences_separator hc] at h
      rcases List.mem_append.1 h with h | h
      · exact hstart h
      · have hlen : rest.length < n := by
          rw [← hn, ← hsplit, List.length_append, List.length_cons]
          omega
        obtain ⟨before, after, he, hname, hbefore, hafter⟩ := ih rest.length hlen h rfl
        refine ⟨t.takeWhile isIdentifierChar ++ c :: before, after, ?_, hname, fun d hd => ?_, hafter⟩
        · rw [List.append_assoc, List.cons_append, ← he, hsplit]
        · rw [List.getLast?_append, List.getLast?_cons, Option.some_or, Option.mem_some_iff] at hd
          cases hb : before.getLast? with
          | none =>
            rw [hb] at hd
            exact hd ▸ hc
          | some a =>
            rw [hb] at hd
            exact hd ▸ hbefore a hb

theorem mem_occurrences_iff {t : Text} {name : String} : name ∈ occurrences t ↔ t.Mentions name := by
  refine ⟨mentions_of_mem_occurrences, ?_⟩
  rintro ⟨before, after, rfl, hname, hbefore, hafter⟩
  rw [occurrences_between hbefore hafter, occurrences_identifier hname]
  exact List.mem_append_right _ List.mem_cons_self

/-! ## Identifiers of all stages -/

def names (sources : List StageSource) : List String := sources.flatMap fun s => occurrences s.source

theorem mem_names_iff {sources : List StageSource} {name : String} :
    name ∈ names sources ↔ ∃ s ∈ sources, s.source.Mentions name := by
  simp only [names, List.mem_flatMap, mem_occurrences_iff]

/-- How many different identifiers come before the first occurrence of a name. -/
def ordinal (sources : List StageSource) (name : String) : Nat :=
  ((names sources).takeWhile (· != name)).toFinset.card

theorem nodup_eraseDups (as : List String) : as.eraseDups.Nodup := by
  induction hn : as.length using Nat.strong_induction_on generalizing as with
  | _ n ih =>
    cases as with
    | nil => exact .nil
    | cons a as =>
      rw [List.eraseDups_cons]
      refine List.nodup_cons.2 ⟨fun hm => ?_, ih _ ?_ _ rfl⟩
      · have := (List.mem_filter.1 (List.mem_eraseDups.1 hm)).2
        simp at this
      · rw [← hn, List.length_cons]
        exact Nat.lt_succ_of_le (List.length_filter_le _ _)

theorem length_eraseDups (as : List String) : as.eraseDups.length = as.toFinset.card := by
  rw [← List.toFinset_card_of_nodup (nodup_eraseDups as)]
  congr 1
  ext a
  rw [List.mem_toFinset, List.mem_toFinset, List.mem_eraseDups]

/-- A member stands behind the distinct ones that come before it. -/
theorem findIdx?_eraseDups {as : List String} {a : String} (h : a ∈ as) :
    as.eraseDups.findIdx? (· == a) = some (as.takeWhile (· != a)).eraseDups.length := by
  obtain ⟨front, back, rfl, hfront⟩ := List.eq_append_cons_of_mem h
  have htake : (front ++ a :: back).takeWhile (· != a) = front := by
    have hall : ∀ b ∈ front, (b != a) = true := fun b hb => bne_iff_ne.2 fun he => hfront (he ▸ hb)
    rw [List.takeWhile_append_of_pos hall, List.takeWhile_cons_of_neg (by simp), List.append_nil]
  have hnone : front.eraseDups.findIdx? (· == a) = none := List.findIdx?_eq_none_iff.2 fun b hb =>
    beq_eq_false_iff_ne.2 fun he => hfront (he ▸ List.mem_eraseDups.1 hb)
  have hkept : (a :: back).removeAll front = a :: back.removeAll front := by
    unfold List.removeAll
    rw [List.filter_cons_of_pos (by simpa using hfront)]
  rw [htake, List.eraseDups_append, List.findIdx?_append, hnone, hkept, List.eraseDups_cons, List.findIdx?_cons]
  simp

theorem findIdx?_identifiers (sources : List StageSource) (name : String) :
    (identifiers sources).findIdx? (· == name) =
      if name ∈ names sources then some (ordinal sources name) else none := by
  unfold identifiers
  rw [distinct_eq_eraseDups]
  show (names sources).eraseDups.findIdx? (· == name) = _
  split
  · next h => rw [findIdx?_eraseDups h, ordinal, length_eraseDups]
  · next h =>
    exact List.findIdx?_eq_none_iff.2 fun a ha => beq_eq_false_iff_ne.2 fun he => h (he ▸ List.mem_eraseDups.1 ha)

end DryRun

end ShaderVariant
