import ShaderVariant.Proofs.Text
import ShaderVariant.Source.Directive

/-!
# Directives and white space

* `Directive.ofLine?_blank_append`, `ofLine?_append_blank` : white space around a line does not matter;
* `Directive.splitInclude_spec` : an include line is blank up to its directive, and ends in what is behind it;
* `Refers` : all flags that the lines of a text refer to have a property. It passes on to texts in a row
  (`Refers.append`) and to texts with blanks around (`Refers.append_blank`, `Refers.blank_append`).
-/

namespace ShaderVariant

open Text (Blank AreLines endsLine splitLines)

namespace Directive

/-! ## White space around a line -/

theorem takeWhile_isLetter_blank {b : Text} (hb : Blank b) : b.takeWhile Text.isLetter = [] := by
  cases b with
  | nil => rfl
  | cons c b => exact List.takeWhile_cons_of_neg (by simp [Text.isLetter_of_isBlank (hb c List.mem_cons_self)])

theorem takeWhile_isLetter_append_blank (t : Text) {b : Text} (hb : Blank b) :
    (t ++ b).takeWhile Text.isLetter = t.takeWhile Text.isLetter := by
  rw [List.takeWhile_append]
  split
  · next h => rw [takeWhile_isLetter_blank hb, List.append_nil, (List.takeWhile_prefix _).eq_of_length h]
  · rfl

theorem dropWhile_isLetter_append_blank (t : Text) {b : Text} (hb : Blank b) :
    (t ++ b).dropWhile Text.isLetter = t.dropWhile Text.isLetter ++ b := by
  rw [← List.append_right_inj ((t ++ b).takeWhile Text.isLetter), List.takeWhile_append_dropWhile,
    takeWhile_isLetter_append_blank t hb, ← List.append_assoc, List.takeWhile_append_dropWhile]

theorem ofLine?_of_blank {l : Text} (h : Blank l) : ofLine? l = none := by
  unfold ofLine?
  rw [Text.trimStart_eq_nil_iff.2 h]

theorem ofLine?_blank_append {b : Text} (hb : Blank b) (l : Text) : ofLine? (b ++ l) = ofLine? l := by
  unfold ofLine?
  rw [Text.trimStart_blank_append hb]

/-- What a directive's keyword and argument are read from. -/
theorem keyword_append_blank (t : Text) {b : Text} (hb : Blank b) :
    ofKeyword (String.ofList ((Text.trimStart (t ++ b)).takeWhile Text.isLetter))
        (Text.trim ((Text.trimStart (t ++ b)).dropWhile Text.isLetter)) =
      ofKeyword (String.ofList ((Text.trimStart t).takeWhile Text.isLetter))
        (Text.trim ((Text.trimStart t).dropWhile Text.isLetter)) := by
  by_cases ht : Blank t
  · rw [Text.trimStart_eq_nil_iff.2 ht, Text.trimStart_eq_nil_iff.2 (ht.append hb)]
  · rw [Text.trimStart_append ht, takeWhile_isLetter_append_blank _ hb, dropWhile_isLetter_append_blank _ hb,
      Text.trim_append_blank _ hb]

theorem ofLine?_append_blank (l : Text) {b : Text} (hb : Blank b) : ofLine? (l ++ b) = ofLine? l := by
  by_cases hl : Blank l
  · rw [ofLine?_of_blank hl, ofLine?_of_blank (hl.append hb)]
  · unfold ofLine?
    rw [Text.trimStart_append hl]
    have hne : l.trimStart ≠ [] := fun h => hl (Text.trimStart_eq_nil_iff.1 h)
    obtain ⟨c, t, hc⟩ := List.exists_cons_of_ne_nil hne
    rw [hc, List.cons_append]
    by_cases hmark : c = '#'
    · subst hmark
      exact congrArg some (keyword_append_blank t hb)
    · split
      · next h => exact absurd (List.head_eq_of_cons_eq h) hmark
      · split
        · next h => exact absurd (List.head_eq_of_cons_eq h) hmark
        · rfl

theorem flagRef?_of_blank {l : Text} (h : Blank l) : flagRef? l = none := by
  unfold flagRef?
  rw [ofLine?_of_blank h]

theorem flagRef?_blank_append {b : Text} (hb : Blank b) (l : Text) : flagRef? (b ++ l) = flagRef? l := by
  unfold flagRef?
  rw [ofLine?_blank_append hb]

theorem flagRef?_append_blank (l : Text) {b : Text} (hb : Blank b) : flagRef? (l ++ b) = flagRef? l := by
  unfold flagRef?
  rw [ofLine?_append_blank l hb]

/-! ## Include lines -/

/-- A line with a directive is blank up to its mark. -/
theorem blank_takeWhile_mark {l : Text} {d : Directive} (h : ofLine? l = some d) : Blank (l.takeWhile (· != '#')) := by
  unfold ofLine? at h
  split at h
  · next t ht =>
    have hl : l = l.takeWhile Text.isBlank ++ '#' :: t := by
      rw [← ht]
      exact (List.takeWhile_append_dropWhile ..).symm
    have hmark : ∀ c ∈ l.takeWhile Text.isBlank, (c != '#') = true := fun c hc => by
      have := List.mem_takeWhile_imp hc
      rw [bne_iff_ne]
      rintro rfl
      revert this
      decide
    rw [hl, List.takeWhile_append_of_pos hmark]
    intro c hc
    rcases List.mem_append.1 hc with hc | hc
    · exact List.mem_takeWhile_imp hc
    · rw [List.takeWhile_cons_of_neg (by decide)] at hc
      exact absurd hc List.not_mem_nil
  · cases h

theorem closing?_ne_newline {t : Text} {opening closing : Char} (h : closing? t = some (opening, closing)) :
    closing ≠ '\n' := by
  unfold closing? at h
  split at h
  · cases h
    decide
  · cases h
    decide
  · cases h

/-- An include line is blank up to its directive, and ends in the text behind the closing mark. -/
theorem splitInclude_spec {l argument before after : Text} {name : String}
    (hd : ofLine? l = some (.inclusion argument)) (h : splitInclude l argument = .ok (before, name, after)) :
    Blank before ∧ ∃ front closing, closing ≠ '\n' ∧ l = front ++ closing :: after := by
  unfold splitInclude at h
  split at h
  · cases h
  · next opening closing hclosing =>
    simp only at h
    split at h
    · cases h
    · next mark rest hrest =>
      split at h
      · cases h
      · cases h
        refine ⟨blank_takeWhile_mark hd, ?_⟩
        have hmark : mark = closing := by
          have := List.head?_dropWhile_not (· != closing)
            (((l.dropWhile (· != '#')).dropWhile (· != opening)).drop 1)
          rw [hrest] at this
          simpa using this
        obtain ⟨front, hfront⟩ : mark :: after <:+ l := by
          rw [← hrest]
          exact (List.dropWhile_suffix _).trans ((List.drop_suffix _ _).trans
            ((List.dropWhile_suffix _).trans (List.dropWhile_suffix _)))
        exact ⟨front, mark, hmark ▸ closing?_ne_newline hclosing, hfront.symm⟩

/-- What is behind the closing mark ends in the line feed of the line, if there is one. -/
theorem endsLine_after {l argument before after : Text} {name : String} (hd : ofLine? l = some (.inclusion argument))
    (h : splitInclude l argument = .ok (before, name, after)) (hl : endsLine l = true) : endsLine after = true := by
  obtain ⟨-, front, closing, hne, rfl⟩ := splitInclude_spec hd h
  unfold Text.endsLine at hl ⊢
  rw [List.getLast?_append, List.getLast?_cons, Option.some_or] at hl
  cases after with
  | nil =>
    rw [beq_iff_eq, Option.some.injEq] at hl
    exact absurd hl hne
  | cons c after =>
    rw [List.getLast?_cons] at hl ⊢
    exact hl

end Directive

/-! ## References of texts -/

/-- All flags that the lines of a text refer to have a property. -/
def Refers (P : String → Prop) (t : Text) : Prop := ∀ l ∈ splitLines t, ∀ name, Directive.flagRef? l = some name → P name

namespace Refers

variable {P : String → Prop} {s t : Text}

theorem nil : Refers P [] := fun _ hl => absurd hl List.not_mem_nil

theorem of_line {l : Text} (hl : AreLines [l]) (h : ∀ name, Directive.flagRef? l = some name → P name) : Refers P l := by
  unfold Refers
  rw [Text.areLines_singleton_iff.1 hl]
  exact List.forall_mem_singleton.2 h

theorem glue_append (hs : Refers P s) (ht : Refers P t)
    (h : ∀ l ∈ splitLines s, ∀ m ∈ splitLines t, endsLine l = false →
      ∀ name, Directive.flagRef? (l ++ m) = some name → P name) :
    Refers P (s ++ t) := by
  unfold Refers at hs ht ⊢
  rw [Text.splitLines_append]
  exact Text.forall_mem_glue hs ht h

/-- The lines of a text that ends its last line stay whatever is behind it. -/
theorem append (hs : Refers P s) (ht : Refers P t) (h : endsLine s = true ∨ t = []) : Refers P (s ++ t) := by
  rcases h with h | rfl
  · refine glue_append hs ht fun l hl _ _ he => ?_
    rw [Text.endsLine_of_mem_splitLines h hl] at he
    cases he
  · rwa [List.append_nil]

theorem append_blank (hs : Refers P s) (ht : Blank t) : Refers P (s ++ t) := by
  refine glue_append hs (fun l hl name h => ?_) fun l hl m hm _ name h => ?_
  · rw [Directive.flagRef?_of_blank (ht.of_mem_splitLines hl)] at h
    cases h
  · rw [Directive.flagRef?_append_blank l (ht.of_mem_splitLines hm)] at h
    exact hs l hl name h

theorem blank_append (hs : Blank s) (ht : Refers P t) : Refers P (s ++ t) := by
  refine glue_append (fun l hl name h => ?_) ht fun l hl m hm _ name h => ?_
  · rw [Directive.flagRef?_of_blank (hs.of_mem_splitLines hl)] at h
    cases h
  · rw [Directive.flagRef?_blank_append (hs.of_mem_splitLines hl) m] at h
    exact ht m hm name h

end Refers

end ShaderVariant
