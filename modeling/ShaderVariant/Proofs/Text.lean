import Mathlib.Data.List.DropRight
import Mathlib.Data.List.TakeWhile
import ShaderVariant.Text.Basic

/-!
# Laws of texts

* `Text.trimStart_blank_append`, `trim_append_blank` : blanks at the ends do not count;
* `Text.AreLines` : texts that are the lines of their concatenation, as `splitLines` gives them;
* `Text.splitLines_append` : the lines of two texts in a row, where the last line of the first may go on in the second;
* `Text.splitBytes_byteLength` : a cut at the end of a part.
-/

namespace ShaderVariant.Text

/-! ## Blanks -/

def Blank (t : Text) : Prop := ∀ c ∈ t, isBlank c = true

theorem Blank.append {s t : Text} (hs : Blank s) (ht : Blank t) : Blank (s ++ t) := List.forall_mem_append.2 ⟨hs, ht⟩

theorem Blank.of_append_left {s t : Text} (h : Blank (s ++ t)) : Blank s := fun c hc => h c (List.mem_append_left _ hc)

theorem blank_newline : Blank ['\n'] := fun c hc => by
  rw [List.mem_singleton.1 hc]
  rfl

theorem trimStart_blank_append {b : Text} (hb : Blank b) (t : Text) : trimStart (b ++ t) = trimStart t :=
  List.dropWhile_append_of_pos hb

theorem trimStart_eq_nil_iff {t : Text} : trimStart t = [] ↔ Blank t := List.dropWhile_eq_nil_iff

/-- A text that is not blank starts with the same mark, whatever stands behind it. -/
theorem trimStart_append {t : Text} (ht : ¬ Blank t) (u : Text) : trimStart (t ++ u) = trimStart t ++ u := by
  unfold trimStart
  rw [List.dropWhile_append, if_neg]
  rw [List.isEmpty_iff]
  exact fun h => ht (trimStart_eq_nil_iff.1 h)

theorem trimEnd_append_blank (t : Text) {b : Text} (hb : Blank b) : trimEnd (t ++ b) = trimEnd t := by
  unfold trimEnd
  rw [List.reverse_append, List.dropWhile_append_of_pos fun c hc => hb c (List.mem_reverse.1 hc)]

theorem trim_append_blank (t : Text) {b : Text} (hb : Blank b) : trim (t ++ b) = trim t := by
  unfold trim
  by_cases ht : Blank t
  · rw [trimStart_eq_nil_iff.2 ht, trimStart_eq_nil_iff.2 (ht.append hb)]
  · rw [trimStart_append ht, trimEnd_append_blank _ hb]

theorem trimEnd_cons {c : Char} (hc : isBlank c = false) (t : Text) : trimEnd (c :: t) = c :: trimEnd t := by
  unfold trimEnd
  rw [List.reverse_cons, List.dropWhile_append]
  split
  · next h => rw [List.isEmpty_iff.1 h, List.dropWhile_cons_of_neg (by rw [hc]; decide)]; rfl
  · rw [List.reverse_append]; rfl

/-- The first mark of a text stays when the text is trimmed. -/
theorem trim_blank_cons {b : Text} (hb : Blank b) {c : Char} (hc : isBlank c = false) (t : Text) :
    trim (b ++ c :: t) = c :: trimEnd t := by
  unfold trim
  rw [trimStart_blank_append hb, trimStart, List.dropWhile_cons_of_neg (by rw [hc]; decide), trimEnd_cons hc]

/-- A text that is not blank has a first mark, behind white space. -/
theorem exists_blank_append {t : Text} (h : ¬ Blank t) : ∃ b c u, Blank b ∧ isBlank c = false ∧ t = b ++ c :: u := by
  obtain ⟨c, u, hcu⟩ := List.exists_cons_of_ne_nil fun hnil => h (trimStart_eq_nil_iff.1 hnil)
  have hdrop : t.dropWhile isBlank = c :: u := hcu
  refine ⟨t.takeWhile isBlank, c, u, fun d hd => List.mem_takeWhile_imp hd, ?_, ?_⟩
  · have := List.head?_dropWhile_not isBlank t
    rw [hdrop] at this
    simpa using this
  · rw [← hdrop]
    exact List.takeWhile_append_dropWhile.symm

theorem trim_eq_nil_iff {t : Text} : trim t = [] ↔ Blank t := by
  constructor
  · intro h
    by_contra ht
    obtain ⟨b, c, u, hb, hc, rfl⟩ := exists_blank_append ht
    rw [trim_blank_cons hb hc] at h
    cases h
  · intro h
    rw [trim, trimStart_eq_nil_iff.2 h]
    rfl

theorem trimEnd_eq_nil_iff {t : Text} : trimEnd t = [] ↔ Blank t := by
  unfold trimEnd
  rw [List.reverse_eq_nil_iff, List.dropWhile_eq_nil_iff]
  exact forall_congr' fun c => by rw [List.mem_reverse]

theorem trimEnd_trimEnd (t : Text) : trimEnd (trimEnd t) = trimEnd t := by
  unfold trimEnd
  rw [List.reverse_reverse, List.dropWhile_idempotent]

theorem trim_trim (t : Text) : trim (trim t) = trim t := by
  by_cases ht : Blank t
  · rw [trim_eq_nil_iff.2 ht]
    rfl
  · obtain ⟨b, c, u, hb, hc, rfl⟩ := exists_blank_append ht
    rw [trim_blank_cons hb hc]
    exact (trim_blank_cons (List.forall_mem_nil _) hc _).trans (by rw [trimEnd_trimEnd])

theorem isLetter_of_isBlank {c : Char} (h : isBlank c = true) : isLetter c = false := by
  cases hl : isLetter c with
  | false => rfl
  | true =>
    have hrange : 65 ≤ c.toNat ∧ c.toNat ≤ 90 ∨ 97 ≤ c.toNat ∧ c.toNat ≤ 122 := by
      change (decide (65 ≤ c.val ∧ c.val ≤ 90) || decide (97 ≤ c.val) && decide (c.val ≤ 122)) = true at hl
      simp only [Bool.or_eq_true, Bool.and_eq_true, decide_eq_true_eq, UInt32.le_iff_toNat_le] at hl
      exact hl
    simp only [isBlank, Bool.or_eq_true, Bool.and_eq_true, decide_eq_true_eq, beq_iff_eq] at h
    omega

theorem isDigit_of_isBlank {c : Char} (h : isBlank c = true) : isDigit c = false := by
  cases hd : isDigit c with
  | false => rfl
  | true =>
    have hrange : 48 ≤ c.toNat ∧ c.toNat ≤ 57 := by
      change (decide (48 ≤ c.val) && decide (c.val ≤ 57)) = true at hd
      simp only [Bool.and_eq_true, decide_eq_true_eq, UInt32.le_iff_toNat_le] at hd
      exact hd
    simp only [isBlank, Bool.or_eq_true, Bool.and_eq_true, decide_eq_true_eq, beq_iff_eq] at h
    omega

/-! ## Lines -/

theorem nil_not_mem_consLine {c : Char} {ls : List Text} (h : [] ∉ ls) : [] ∉ consLine c ls := by
  unfold consLine
  split
  · exact List.not_mem_cons_of_ne_of_not_mem (List.cons_ne_nil _ _).symm h
  · cases ls with
    | nil => exact List.not_mem_cons_of_ne_of_not_mem (List.cons_ne_nil _ _).symm List.not_mem_nil
    | cons l ls =>
      exact List.not_mem_cons_of_ne_of_not_mem (List.cons_ne_nil _ _).symm fun hm => h (List.mem_cons_of_mem _ hm)

theorem nil_not_mem_splitLines (t : Text) : [] ∉ splitLines t := by
  induction t with
  | nil => exact List.not_mem_nil
  | cons c t ih => exact nil_not_mem_consLine ih

theorem endsLine_cons {c : Char} {t : Text} (ht : t ≠ []) : endsLine (c :: t) = endsLine t := by
  obtain ⟨d, u, rfl⟩ := List.exists_cons_of_ne_nil ht
  rfl

theorem endsLine_append (s : Text) {t : Text} (h : endsLine t = true) : endsLine (s ++ t) = true := by
  unfold endsLine at h ⊢
  rw [List.getLast?_append, beq_iff_eq.1 h]
  rfl

theorem consLine_newline (ls : List Text) : consLine '\n' ls = ['\n'] :: ls := rfl

theorem consLine_nil {c : Char} (hc : c ≠ '\n') : consLine c [] = [[c]] := if_neg hc

theorem consLine_cons {c : Char} (hc : c ≠ '\n') (l : Text) (ls : List Text) : consLine c (l :: ls) = (c :: l) :: ls :=
  if_neg hc

/-- Lines in a row: a last line without a line feed goes on in the first line behind it. -/
def glue : List Text → List Text → List Text
  | [], ms => ms
  | [l], ms =>
    if endsLine l then l :: ms
    else match ms with
      | [] => [l]
      | m :: ms => (l ++ m) :: ms
  | l :: l' :: ls, ms => l :: glue (l' :: ls) ms

theorem glue_of_endsLine {l : Text} (h : endsLine l = true) (ms : List Text) : glue [l] ms = l :: ms := if_pos h

theorem glue_nil (ls : List Text) : glue ls [] = ls := by
  induction ls with
  | nil => rfl
  | cons l ls ih =>
    cases ls with
    | nil =>
      rw [glue]
      split <;> rfl
    | cons l' ls => rw [glue, ih]

theorem glue_cons_of_not_endsLine {l : Text} (h : endsLine l = false) (m : Text) (ms : List Text) :
    glue [l] (m :: ms) = (l ++ m) :: ms := by
  rw [glue, if_neg (by rw [h]; exact Bool.false_ne_true)]

theorem consLine_glue (c : Char) {ls : List Text} (h : [] ∉ ls) (ms : List Text) :
    consLine c (glue ls ms) = glue (consLine c ls) ms := by
  by_cases hc : c = '\n'
  · subst hc
    rw [consLine_newline, consLine_newline]
    cases ls <;> rfl
  · have hend : endsLine [c] = false := by simpa [endsLine] using hc
    match ls, ms with
    | [], [] => rw [glue_nil, glue_nil]
    | [], m :: ms => rw [consLine_nil hc, glue_cons_of_not_endsLine hend, glue, consLine_cons hc]; rfl
    | [l], [] => rw [glue_nil, glue_nil]
    | [l], m :: ms =>
      have hl : l ≠ [] := fun he => h (he ▸ List.mem_cons_self)
      rw [consLine_cons hc]
      cases he : endsLine l with
      | true => rw [glue_of_endsLine he, glue_of_endsLine ((endsLine_cons hl).trans he), consLine_cons hc]
      | false =>
        rw [glue_cons_of_not_endsLine he, glue_cons_of_not_endsLine ((endsLine_cons hl).trans he), consLine_cons hc]
        rfl
    | l :: l' :: ls, ms => rw [glue, consLine_cons hc, consLine_cons hc, glue]

/-- The lines of a text that goes on in another one. -/
theorem splitLines_append (s t : Text) : splitLines (s ++ t) = glue (splitLines s) (splitLines t) := by
  induction s with
  | nil => rfl
  | cons c s ih =>
    rw [List.cons_append, splitLines_cons, splitLines_cons, ih]
    exact consLine_glue c (nil_not_mem_splitLines s) _

/-- Lines that end stay lines of their own. -/
theorem glue_eq_append {ls : List Text} (h : ∀ l ∈ ls, endsLine l = true) (ms : List Text) : glue ls ms = ls ++ ms := by
  match ls with
  | [] => rfl
  | [l] => exact glue_of_endsLine (h l List.mem_cons_self) ms
  | l :: l' :: ls =>
    rw [glue, glue_eq_append (fun l hl => h l (List.mem_cons_of_mem _ hl)) ms]
    rfl

theorem forall_mem_glue {P : Text → Prop} {ls ms : List Text} (hls : ∀ l ∈ ls, P l) (hms : ∀ m ∈ ms, P m)
    (h : ∀ l ∈ ls, ∀ m ∈ ms, endsLine l = false → P (l ++ m)) : ∀ l ∈ glue ls ms, P l := by
  match ls, ms with
  | [], ms => exact hms
  | [l], [] =>
    rw [glue_nil]
    exact hls
  | [l], m :: ms =>
    cases he : endsLine l with
    | true =>
      rw [glue_of_endsLine he]
      exact List.forall_mem_cons.2 ⟨hls l List.mem_cons_self, hms⟩
    | false =>
      rw [glue_cons_of_not_endsLine he]
      refine List.forall_mem_cons.2 ⟨h l List.mem_cons_self m List.mem_cons_self he, ?_⟩
      exact (List.forall_mem_cons.1 hms).2
  | l :: l' :: ls, ms =>
    rw [glue]
    obtain ⟨hl, hls⟩ := List.forall_mem_cons.1 hls
    exact List.forall_mem_cons.2 ⟨hl, forall_mem_glue hls hms fun l hl => h l (List.mem_cons_of_mem _ hl)⟩

theorem endsLine_of_mem_splitLines {t : Text} (h : endsLine t = true) {l : Text} (hl : l ∈ splitLines t) :
    endsLine l = true := by
  induction t generalizing l with
  | nil => exact absurd hl List.not_mem_nil
  | cons c t ih =>
    rw [splitLines_cons] at hl
    by_cases hc : c = '\n'
    · subst hc
      rw [consLine_newline] at hl
      rcases List.mem_cons.1 hl with rfl | hl
      · rfl
      · have ht : t ≠ [] := by
          rintro rfl
          exact absurd hl List.not_mem_nil
        exact ih ((endsLine_cons ht).symm.trans h) hl
    · cases ht : splitLines t with
      | nil =>
        have : t = [] := by rw [← flatten_splitLines t, ht, List.flatten_nil]
        rw [this] at h
        simp [endsLine, hc] at h
      | cons m ms =>
        have hne : t ≠ [] := by
          rintro rfl
          cases ht
        have hm : m ≠ [] := fun he => nil_not_mem_splitLines t (by rw [ht, he]; exact List.mem_cons_self)
        have hall := fun l hl => ih (l := l) ((endsLine_cons hne).symm.trans h) hl
        rw [ht, consLine_cons hc] at hl
        rw [ht] at hall
        rcases List.mem_cons.1 hl with rfl | hl
        · rw [endsLine_cons hm]
          exact hall m List.mem_cons_self
        · exact hall l (List.mem_cons_of_mem _ hl)

/-- The lines of a text that ends its last line, and of what is behind it. -/
theorem splitLines_append_of_endsLine {s : Text} (h : endsLine s = true ∨ s = []) (t : Text) :
    splitLines (s ++ t) = splitLines s ++ splitLines t := by
  rcases h with h | rfl
  · rw [splitLines_append, glue_eq_append fun l hl => endsLine_of_mem_splitLines h hl]
  · rfl

theorem lines_append {s : Text} (h : endsLine s = true ∨ s = []) (t : Text) : lines (s ++ t) = lines s ++ lines t := by
  unfold lines
  rw [splitLines_append_of_endsLine h, List.map_append]

theorem endsLine_or_nil {s t : Text} (hs : endsLine s = true ∨ s = []) (ht : endsLine t = true ∨ t = []) :
    endsLine (s ++ t) = true ∨ s ++ t = [] := by
  rcases ht with ht | rfl
  · exact Or.inl (endsLine_append s ht)
  · rwa [List.append_nil]

theorem Blank.of_mem_splitLines {t : Text} (h : Blank t) {l : Text} (hl : l ∈ splitLines t) : Blank l := fun c hc =>
  h c (by
    rw [← flatten_splitLines t]
    exact List.mem_flatten.2 ⟨l, hl, hc⟩)

/-! ## Texts that are lines -/

def AreLines (ls : List Text) : Prop := splitLines ls.flatten = ls

theorem areLines_splitLines (t : Text) : AreLines (splitLines t) := congrArg splitLines (flatten_splitLines t)

theorem areLines_singleton_iff {l : Text} : AreLines [l] ↔ splitLines l = [l] := by
  unfold AreLines
  rw [List.flatten_singleton]

theorem areLines_newline : AreLines [['\n']] := rfl

theorem areLines_cons_cons {c : Char} (hc : c ≠ '\n') {l : Text} (h : AreLines [l]) : AreLines [c :: l] := by
  rw [areLines_singleton_iff] at h ⊢
  rw [splitLines_cons, h, consLine_cons hc]

/-- A text without line feeds is a line when one ends it. -/
theorem areLines_append_newline {t : Text} (h : '\n' ∉ t) : AreLines [t ++ ['\n']] := by
  induction t with
  | nil => exact areLines_newline
  | cons c t ih =>
    have hc : c ≠ '\n' := fun hc => h (hc ▸ List.mem_cons_self)
    exact areLines_cons_cons hc (ih fun ht => h (List.mem_cons_of_mem c ht))

theorem AreLines.ne_nil {l : Text} {ls : List Text} (h : AreLines (l :: ls)) : l ≠ [] := by
  intro hl
  have := nil_not_mem_splitLines (l :: ls).flatten
  rw [h, hl] at this
  exact this List.mem_cons_self

/-- A line, and the lines behind it, which begin where it ends. -/
theorem AreLines.of_cons {l : Text} {ls : List Text} (h : AreLines (l :: ls)) :
    AreLines [l] ∧ AreLines ls ∧ (endsLine l = true ∨ ls = []) := by
  have hne := h.ne_nil
  unfold AreLines at h
  rw [List.flatten_cons] at h
  induction l with
  | nil => exact absurd rfl hne
  | cons c l ih =>
    rw [List.cons_append, splitLines_cons] at h
    by_cases hc : c = '\n'
    · subst hc
      rw [consLine_newline] at h
      obtain ⟨hl, hls⟩ := List.cons.inj h
      cases hl
      exact ⟨areLines_newline, hls, Or.inl rfl⟩
    · cases hs : splitLines (l ++ ls.flatten) with
      | nil =>
        rw [hs, consLine_nil hc] at h
        cases h
        exact ⟨areLines_singleton_iff.2 (consLine_nil hc), rfl, Or.inr rfl⟩
      | cons m ms =>
        rw [hs, consLine_cons hc] at h
        cases h
        have hl : l ≠ [] := fun he => nil_not_mem_splitLines (l ++ ls.flatten) (by rw [hs, he]; exact List.mem_cons_self)
        obtain ⟨h₁, h₂, h₃⟩ := ih hs hl
        exact ⟨areLines_cons_cons hc h₁, h₂, h₃.imp_left (endsLine_cons hl).trans⟩

/-- Lines at the front are lines, and so are those behind them, which begin where a line ends. -/
theorem AreLines.of_append {ls ms : List Text} (h : AreLines (ls ++ ms)) :
    AreLines ls ∧ AreLines ms ∧ (endsLine ls.flatten = true ∨ ls = [] ∨ ms = []) := by
  induction ls with
  | nil => exact ⟨rfl, h, Or.inr (Or.inl rfl)⟩
  | cons l ls ih =>
    obtain ⟨hl, hrest, hend⟩ := h.of_cons
    obtain ⟨hls, hms, hcut⟩ := ih hrest
    rcases hend with hend | hnil
    · refine ⟨?_, hms, ?_⟩
      · unfold AreLines
        rw [List.flatten_cons, splitLines_append_of_endsLine (Or.inl hend), hls, areLines_singleton_iff.1 hl]
        rfl
      · rcases hcut with hcut | rfl | hnil
        · exact Or.inl (endsLine_append l hcut)
        · exact Or.inl (by rwa [List.flatten_singleton])
        · exact Or.inr (Or.inr hnil)
    · obtain ⟨rfl, rfl⟩ := List.append_eq_nil_iff.1 hnil
      exact ⟨hl, hms, Or.inr (Or.inr rfl)⟩

theorem AreLines.of_mem {l : Text} {ls : List Text} (h : AreLines ls) (hl : l ∈ ls) : AreLines [l] := by
  induction ls with
  | nil => exact absurd hl List.not_mem_nil
  | cons m ls ih =>
    rcases List.mem_cons.1 hl with rfl | hl
    · exact h.of_cons.1
    · exact ih h.of_cons.2.1 hl

/-- A mark ends a part that does not hold it. -/
theorem eq_of_append_cons {c : Char} {s t u v : Text} (hs : c ∉ s) (ht : c ∉ t) (h : s ++ c :: u = t ++ c :: v) :
    s = t ∧ u = v := by
  induction s generalizing t with
  | nil =>
    cases t with
    | nil => exact ⟨rfl, List.tail_eq_of_cons_eq h⟩
    | cons d t => exact absurd (List.head_eq_of_cons_eq h ▸ List.mem_cons_self) ht
  | cons d s ih =>
    cases t with
    | nil => exact absurd ((List.head_eq_of_cons_eq h).symm ▸ List.mem_cons_self) hs
    | cons e t =>
      rw [List.cons_append, List.cons_append, List.cons.injEq] at h
      obtain ⟨rfl, rfl⟩ := ih (fun hm => hs (List.mem_cons_of_mem _ hm)) (fun hm => ht (List.mem_cons_of_mem _ hm)) h.2
      exact ⟨by rw [h.1], rfl⟩

/-- A line is a text without line feeds, which a line feed may end. -/
theorem AreLines.exists_eq {l : Text} (h : AreLines [l]) :
    ∃ t, '\n' ∉ t ∧ ((endsLine l = false ∧ l = t) ∨ (endsLine l = true ∧ l = t ++ ['\n'])) := by
  have hne := h.ne_nil
  rw [areLines_singleton_iff] at h
  induction l with
  | nil => exact absurd rfl hne
  | cons c l ih =>
    rw [splitLines_cons] at h
    by_cases hc : c = '\n'
    · subst hc
      rw [consLine_newline] at h
      obtain ⟨hl, -⟩ := List.cons.inj h
      cases hl
      exact ⟨[], List.not_mem_nil, Or.inr ⟨rfl, rfl⟩⟩
    · cases hs : splitLines l with
      | nil =>
        rw [hs, consLine_nil hc] at h
        cases h
        exact ⟨[c], by simpa [eq_comm] using hc, Or.inl ⟨by simpa [endsLine] using hc, rfl⟩⟩
      | cons m ms =>
        rw [hs, consLine_cons hc] at h
        cases h
        have hl : l ≠ [] := fun he => nil_not_mem_splitLines l (by rw [hs, he]; exact List.mem_cons_self)
        obtain ⟨t, ht, hcase⟩ := ih hs hl
        refine ⟨c :: t, List.not_mem_cons_of_ne_of_not_mem (Ne.symm hc) ht, ?_⟩
        rw [endsLine_cons hl]
        rcases hcase with ⟨he, rfl⟩ | ⟨he, rfl⟩
        · exact Or.inl ⟨he, rfl⟩
        · exact Or.inr ⟨he, rfl⟩

/-! ## Line feeds -/

@[simp] theorem newlines_append (s t : Text) : newlines (s ++ t) = newlines s + newlines t := List.count_append

theorem lineAfter_zero (line : UInt32) : line + UInt32.ofNat 0 = line := UInt32.add_zero line

theorem lineAfter_nil (line : UInt32) : line + UInt32.ofNat (newlines []) = line := lineAfter_zero line

/-- Lines are counted from the next one on. -/
theorem lineAfter_succ (line : UInt32) (n : Nat) : line + 1 + UInt32.ofNat n = line + UInt32.ofNat (n + 1) := by
  rw [UInt32.ofNat_add, UInt32.add_comm (UInt32.ofNat n), ← UInt32.add_assoc]
  rfl

/-! ## Cuts -/

/-- A part of characters of one kind, with the first other one behind it, is all of that kind in front. -/
theorem takeWhile_append_of {p : Char → Bool} {s t : Text} (hs : ∀ c ∈ s, p c = true)
    (ht : ∀ c ∈ t.head?, p c = false) : (s ++ t).takeWhile p = s ∧ (s ++ t).dropWhile p = t := by
  rw [List.takeWhile_append_of_pos hs, List.dropWhile_append_of_pos hs]
  cases t with
  | nil => exact ⟨List.append_nil s, rfl⟩
  | cons c t =>
    have hc : ¬ p c = true := Bool.eq_false_iff.1 (ht c rfl)
    rw [List.takeWhile_cons_of_neg hc, List.dropWhile_cons_of_neg hc]
    exact ⟨List.append_nil s, rfl⟩

/-- A text is cut at the first mark of a kind. -/
theorem cut_ne_append {c : Char} {s : Text} (hs : c ∉ s) (t : Text) :
    (s ++ c :: t).takeWhile (· != c) = s ∧ (s ++ c :: t).dropWhile (· != c) = c :: t :=
  takeWhile_append_of (fun _ hd => bne_iff_ne.2 fun he => hs (he ▸ hd)) (by simp)

/-! ## Marks at the ends -/

theorem stripFront?_eq_some_iff {mark t u : Text} : stripFront? mark t = some u ↔ t = mark ++ u := by
  unfold stripFront?
  split
  · next h =>
    obtain ⟨v, rfl⟩ := List.isPrefixOf_iff_prefix.1 h
    rw [List.drop_left, Option.some.injEq, List.append_cancel_left_eq]
  · next h =>
    refine iff_of_false nofun ?_
    rintro rfl
    exact h (List.isPrefixOf_iff_prefix.2 (List.prefix_append _ _))

theorem stripBack?_eq_some_iff {mark t u : Text} : stripBack? mark t = some u ↔ t = u ++ mark := by
  unfold stripBack?
  split
  · next h =>
    obtain ⟨v, rfl⟩ := List.isSuffixOf_iff_suffix.1 h
    rw [List.length_append, Nat.add_sub_cancel, List.take_left, Option.some.injEq, List.append_cancel_right_eq]
  · next h =>
    refine iff_of_false nofun ?_
    rintro rfl
    exact h (List.isSuffixOf_iff_suffix.2 (List.suffix_append _ _))

/-! ## Cuts -/

/-- A cut at the end of the first part gives the two parts. -/
theorem splitBytes_byteLength (s t : Text) : splitBytes (byteLength s) (s ++ t) = (s, t) := by
  induction s with
  | nil =>
    cases t with
    | nil => rfl
    | cons c t =>
      have : ¬ c.utf8Size ≤ 0 := Nat.not_le.2 (Char.utf8Size_pos c)
      rw [List.nil_append, byteLength_nil, splitBytes_cons, if_neg this]
  | cons c s ih =>
    rw [List.cons_append, byteLength_cons, splitBytes_cons, if_pos (Nat.le_add_right _ _), Nat.add_sub_cancel_left, ih]

end ShaderVariant.Text
