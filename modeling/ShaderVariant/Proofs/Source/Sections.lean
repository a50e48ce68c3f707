import ShaderVariant.Proofs.Text
import ShaderVariant.Source.Section
import Mathlib.Data.List.Basic

/-!
# How a file is cut into sections

* `Section.IsHeader`, `Section.Names` : header lines, and their names (`header?_eq_some_iff`);
* `Section.InRow` : a text is a header line and a body, and so on, with the numbers of the lines. Lines that begin with
  a header are cut so (`inRow_cutFrom`), and only so (`InRow.cutFrom_eq`);
* `Section.Partition` : blank text and sections in a row, with names of their own;
* `Section.Faulty` : a header without a name, a name that comes twice, or text without a header above it;
* `Section.split_exact` : files are split just as they are partitioned, and refused just if they are faulty.
-/

namespace ShaderVariant.Section

open Text

/-! ## Header lines -/

/-- Without the white space at its end the line is `inner` in double brackets. -/
def Brackets (line inner : Text) : Prop := line.trimEnd = "[[".toList ++ inner ++ "]]".toList

/-- A header line. There may be nothing in its brackets. -/
def IsHeader (line : Text) : Prop := ∃ inner, Brackets line inner

/-- A header line whose brackets hold `name`, with white space around it or without. -/
def Names (line : Text) (name : String) : Prop := ∃ inner, Brackets line inner ∧ name = String.ofList inner.trim

theorem header?_eq_some_iff {line : Text} {name : String} : header? line = some name ↔ Names line name := by
  simp only [header?, Option.bind_eq_some_iff, Option.map_eq_some_iff, stripFront?_eq_some_iff, stripBack?_eq_some_iff]
  constructor
  · rintro ⟨_, hline, inner, rfl, rfl⟩
    exact ⟨inner, by rw [Brackets, hline, List.append_assoc], rfl⟩
  · rintro ⟨inner, hline, rfl⟩
    exact ⟨_, by rw [hline, List.append_assoc], inner, rfl, rfl⟩

theorem header?_eq_none_iff {line : Text} : header? line = none ↔ ¬ IsHeader line := by
  rw [Option.eq_none_iff_forall_ne_some]
  simp only [ne_eq, header?_eq_some_iff]
  constructor
  · rintro h ⟨inner, hline⟩
    exact h _ ⟨inner, hline, rfl⟩
  · rintro h name ⟨inner, hline, -⟩
    exact h ⟨inner, hline⟩

theorem not_isHeader_of_blank {line : Text} (h : Blank line) : ¬ IsHeader line := by
  rintro ⟨inner, hline⟩
  rw [Brackets, trimEnd_eq_nil_iff.2 h] at hline
  cases hline

theorem Names.trim_eq {line : Text} {name : String} (h : Names line name) : trim name.toList = name.toList := by
  obtain ⟨inner, -, rfl⟩ := h
  rw [String.toList_ofList, trim_trim]

/-! ## Cutting lines -/

/-- The lines before the first header and the sections behind, of lines that are numbered from `n` on. -/
def cutFrom (n : Nat) (ls : List Text) : List Text × List Section := (ls.zipIdx n).foldr consLine ([], [])

theorem cutFrom_of_names {l : Text} {name : String} (h : Names l name) (n : Nat) (ls : List Text) :
    cutFrom n (l :: ls) =
      ([], ⟨name, (cutFrom (n + 1) ls).1.flatten, UInt32.ofNat (n + 1)⟩ :: (cutFrom (n + 1) ls).2) := by
  rw [cutFrom, List.zipIdx_cons, List.foldr_cons, consLine, header?_eq_some_iff.2 h]
  rfl

theorem cutFrom_of_not_isHeader {l : Text} (h : ¬ IsHeader l) (n : Nat) (ls : List Text) :
    cutFrom n (l :: ls) = (l :: (cutFrom (n + 1) ls).1, (cutFrom (n + 1) ls).2) := by
  rw [cutFrom, List.zipIdx_cons, List.foldr_cons, consLine, header?_eq_none_iff.2 h]
  rfl

/-- A line is a header with a name, or none. -/
theorem names_or_not_isHeader (l : Text) : (∃ name, Names l name) ∨ ¬ IsHeader l := by
  by_cases h : IsHeader l
  · obtain ⟨inner, hl⟩ := h
    exact Or.inl ⟨_, inner, hl, rfl⟩
  · exact Or.inr h

/-- Lines that are no headers stand before what follows them. -/
theorem cutFrom_append {ls : List Text} (h : ∀ l ∈ ls, ¬ IsHeader l) (n : Nat) (ms : List Text) :
    cutFrom n (ls ++ ms) = (ls ++ (cutFrom (n + ls.length) ms).1, (cutFrom (n + ls.length) ms).2) := by
  induction ls generalizing n with
  | nil => rfl
  | cons l ls ih =>
    obtain ⟨hl, hls⟩ := List.forall_mem_cons.1 h
    rw [List.cons_append, cutFrom_of_not_isHeader hl, ih hls, List.length_cons, Nat.add_right_comm n 1, Nat.add_assoc n]
    rfl

/-- The names of sections are those of the header lines, in order. -/
theorem map_name_cutFrom (n : Nat) (ls : List Text) : (cutFrom n ls).2.map Section.name = ls.filterMap header? := by
  induction ls generalizing n with
  | nil => rfl
  | cons l ls ih =>
    rcases names_or_not_isHeader l with ⟨name, hname⟩ | hplain
    · rw [cutFrom_of_names hname, List.filterMap_cons_some (header?_eq_some_iff.2 hname), List.map_cons, ih]
    · rw [cutFrom_of_not_isHeader hplain, List.filterMap_cons_none (header?_eq_none_iff.2 hplain), ih]

/-- The lines up to the first header, and those from there on. -/
theorem exists_cutFrom (n : Nat) (ls : List Text) :
    ∃ rest, ls = (cutFrom n ls).1 ++ rest ∧ (∀ l ∈ (cutFrom n ls).1, ¬ IsHeader l) ∧ (∀ l ∈ rest.head?, IsHeader l) := by
  induction ls generalizing n with
  | nil => exact ⟨[], rfl, List.forall_mem_nil _, nofun⟩
  | cons l ls ih =>
    rcases names_or_not_isHeader l with ⟨name, hname⟩ | hplain
    · rw [cutFrom_of_names hname]
      obtain ⟨inner, hl, -⟩ := hname
      exact ⟨l :: ls, rfl, List.forall_mem_nil _, fun _ h => Option.some.inj h ▸ ⟨inner, hl⟩⟩
    · obtain ⟨rest, hls, hbefore, hrest⟩ := ih (n + 1)
      rw [cutFrom_of_not_isHeader hplain]
      exact ⟨rest, congrArg (l :: ·) hls, List.forall_mem_cons.2 ⟨hplain, hbefore⟩, hrest⟩

/-! ## Sections in a row -/

/-- From line `n` on a text is a header line and the body of a section, without header lines, and so on. Sections know
the number of the line behind the header. -/
inductive InRow : Nat → Text → List Section → Prop
  | nil (n : Nat) : InRow n [] []
  | cons {n : Nat} {header rest : Text} {s : Section} {ss : List Section}
      (whole : splitLines (header ++ s.body) = header :: splitLines s.body) (named : Names header s.name)
      (plain : ∀ l ∈ splitLines s.body, ¬ IsHeader l) (numbered : s.firstLine = UInt32.ofNat (n + 1))
      (ended : endsLine (header ++ s.body) = true ∨ rest = [])
      (others : InRow (n + (splitLines (header ++ s.body)).length) rest ss) :
      InRow n (header ++ s.body ++ rest) (s :: ss)

/-- Lines are cut into sections in a row, behind those before the first header. -/
theorem inRow_cutFrom {ls : List Text} (h : AreLines ls) (n : Nat) :
    ∃ rest, ls = (cutFrom n ls).1 ++ rest ∧ InRow (n + (cutFrom n ls).1.length) rest.flatten (cutFrom n ls).2 := by
  induction ls generalizing n with
  | nil => exact ⟨[], rfl, .nil n⟩
  | cons l ls ih =>
    obtain ⟨rest, hls, hrow⟩ := ih h.of_cons.2.1 (n + 1)
    rcases names_or_not_isHeader l with ⟨name, hname⟩ | hplain
    · refine ⟨l :: ls, by rw [cutFrom_of_names hname]; rfl, ?_⟩
      obtain ⟨-, -, hbody, -⟩ := exists_cutFrom (n + 1) ls
      rw [cutFrom_of_names hname]
      generalize cutFrom (n + 1) ls = c at hls hrow hbody
      obtain ⟨body, ss⟩ := c
      obtain rfl : ls = body ++ rest := hls
      have hboth : AreLines ((l :: body) ++ rest) := h
      obtain ⟨hwhole, -, hend⟩ := hboth.of_append
      have hlines : splitLines (l ++ body.flatten) = l :: body := hwhole
      have hbodyLines : splitLines body.flatten = body := hwhole.of_cons.2.1
      rw [List.flatten_cons, List.flatten_append, ← List.append_assoc]
      refine .cons (s := ⟨name, body.flatten, UInt32.ofNat (n + 1)⟩) ?_ hname ?_ rfl ?_ ?_
      · rw [hlines, hbodyLines]
      · rwa [hbodyLines]
      · rcases hend with hend | hnil | rfl
        · exact Or.inl hend
        · cases hnil
        · exact Or.inr rfl
      · rw [hlines, List.length_cons, List.length_nil, Nat.add_zero, Nat.add_comm body.length, ← Nat.add_assoc]
        exact hrow
    · rw [cutFrom_of_not_isHeader hplain]
      refine ⟨rest, congrArg (l :: ·) hls, ?_⟩
      rw [List.length_cons, Nat.add_comm (List.length _), ← Nat.add_assoc]
      exact hrow

/-- Sections in a row are what their lines are cut into. -/
theorem InRow.cutFrom_eq {n : Nat} {t : Text} {ss : List Section} (h : InRow n t ss) :
    cutFrom n (splitLines t) = ([], ss) := by
  induction h with
  | nil n => rfl
  | @cons n header rest s ss whole named plain numbered ended others ih =>
    have hlines : splitLines (header ++ s.body ++ rest) = header :: (splitLines s.body ++ splitLines rest) := by
      rw [← List.cons_append, ← whole]
      rcases ended with ended | rfl
      · exact splitLines_append_of_endsLine (Or.inl ended) rest
      · rw [List.append_nil, splitLines_nil, List.append_nil]
    rw [whole, List.length_cons, Nat.add_comm (List.length _), ← Nat.add_assoc] at ih
    rw [hlines, cutFrom_of_names named, cutFrom_append plain, ih, List.append_nil, flatten_splitLines, ← numbered]

/-! ## Partitions -/

/-- A text is white space, up to the end of a line, and sections in a row. Their names are distinct, and none is
empty. -/
structure Partition (t : Text) (ss : List Section) : Prop where
  parts : ∃ prologue rest, t = prologue ++ rest ∧ Blank prologue ∧
    (endsLine prologue = true ∨ prologue = [] ∨ rest = []) ∧ InRow ((splitLines prologue).length + 1) rest ss
  named : ∀ s ∈ ss, s.name ≠ "" ∧ trim s.name.toList = s.name.toList
  distinct : (ss.map Section.name).Nodup

/-- What keeps a text from being split: a header without a name, two headers of one name, text that is not blank above
the first header, or such text without headers. -/
inductive Faulty (t : Text) : Prop
  | unnamed {l : Text} (line : l ∈ splitLines t) (empty : Names l "")
  | twice {i j : Nat} {l m : Text} {name : String} (order : i < j) (first : (splitLines t)[i]? = some l)
      (second : (splitLines t)[j]? = some m) (named : Names l name) (again : Names m name)
  | above {before after : List Text} {header : Text} (lines : splitLines t = before ++ header :: after)
      (plain : ∀ l ∈ before, ¬ IsHeader l) (isHeader : IsHeader header) (text : ¬ Blank before.flatten)
  | missing (plain : ∀ l ∈ splitLines t, ¬ IsHeader l) (text : ¬ Blank t)

theorem InRow.forall_trim_eq {n : Nat} {t : Text} {ss : List Section} (h : InRow n t ss) :
    ∀ s ∈ ss, trim s.name.toList = s.name.toList := by
  induction h with
  | nil => exact List.forall_mem_nil _
  | cons _ named _ _ _ _ ih => exact List.forall_mem_cons.2 ⟨named.trim_eq, ih⟩

theorem cut_eq_cutFrom (t : Text) : cut t = cutFrom 1 (splitLines t) := rfl

/-- A text is partitioned into what it is cut into, if that is admissible, and into nothing else. -/
theorem partition_iff {t : Text} {ss : List Section} :
    Partition t ss ↔ (cut t).2 = ss ∧ Blank (cut t).1.flatten ∧ (∀ s ∈ ss, s.name ≠ "") ∧ (ss.map Section.name).Nodup := by
  rw [cut_eq_cutFrom]
  constructor
  · rintro ⟨⟨prologue, rest, rfl, hblank, hend, hrow⟩, hnamed, hdistinct⟩
    have hplain : ∀ l ∈ splitLines prologue, ¬ IsHeader l := fun l hl => not_isHeader_of_blank (hblank.of_mem_splitLines hl)
    have hlines : splitLines (prologue ++ rest) = splitLines prologue ++ splitLines rest := by
      rcases hend with hend | rfl | rfl
      · exact splitLines_append_of_endsLine (Or.inl hend) rest
      · rfl
      · rw [List.append_nil, splitLines_nil, List.append_nil]
    have hcut := hrow.cutFrom_eq
    rw [Nat.add_comm] at hcut
    rw [hlines, cutFrom_append hplain, hcut, List.append_nil, flatten_splitLines]
    exact ⟨rfl, hblank, fun s hs => (hnamed s hs).1, hdistinct⟩
  · rintro ⟨rfl, hblank, hnamed, hdistinct⟩
    obtain ⟨rest, hls, hrow⟩ := inRow_cutFrom (areLines_splitLines t) 1
    have htext : t = (cutFrom 1 (splitLines t)).1.flatten ++ rest.flatten := by
      rw [← List.flatten_append, ← hls, flatten_splitLines]
    obtain ⟨hbefore, -, hend⟩ := AreLines.of_append (hls ▸ areLines_splitLines t)
    refine ⟨⟨_, _, htext, hblank, ?_, ?_⟩, fun s hs => ⟨hnamed s hs, hrow.forall_trim_eq s hs⟩, hdistinct⟩
    · rcases hend with hend | hnil | rfl
      · exact Or.inl hend
      · exact Or.inr (Or.inl (by rw [hnil]; rfl))
      · exact Or.inr (Or.inr rfl)
    · rw [show splitLines (cutFrom 1 (splitLines t)).1.flatten = _ from hbefore, Nat.add_comm]
      exact hrow

/-! ## Splitting -/

theorem isBlankText_eq_true_iff {t : Text} : isBlankText t = true ↔ Blank t := List.all_eq_true

/-- A check goes well just if all names are there, distinct and new. -/
theorem check_eq_ok_iff {source : String} {seen : List String} {ss : List Section} :
    check source seen ss = .ok () ↔
      (∀ s ∈ ss, s.name ≠ "") ∧ (ss.map Section.name).Nodup ∧ ∀ s ∈ ss, s.name ∉ seen := by
  induction ss generalizing seen with
  | nil => simp [check]
  | cons s ss ih =>
    rw [check]
    split
    · next hempty => exact iff_of_false nofun fun h => h.1 s List.mem_cons_self hempty
    · next hname =>
      split
      · next hseen => exact iff_of_false nofun fun h => h.2.2 s List.mem_cons_self hseen
      · next hnew =>
        rw [ih, List.map_cons, List.nodup_cons, List.forall_mem_cons, List.forall_mem_cons]
        simp only [List.mem_append, List.mem_singleton, not_or, List.mem_map, not_exists, not_and]
        constructor
        · rintro ⟨hnames, hnodup, hothers⟩
          exact ⟨⟨hname, hnames⟩, ⟨fun x hx => (hothers x hx).2, hnodup⟩, hnew, fun x hx => (hothers x hx).1⟩
        · rintro ⟨⟨-, hnames⟩, ⟨hfirst, hnodup⟩, -, hothers⟩
          exact ⟨hnames, hnodup, fun x hx => ⟨hothers x hx, hfirst x hx⟩⟩

/-- A text is split just into what it is cut into, if that is admissible. -/
theorem split_eq_ok_iff {source : String} {t : Text} {ss : List Section} : split source t = .ok ss ↔ Partition t ss := by
  rw [partition_iff, split]
  obtain ⟨prologue, sections⟩ := cut t
  cases sections with
  | nil =>
    simp only
    split
    · next hblank =>
      rw [Except.ok.injEq]
      exact ⟨fun h => ⟨h, isBlankText_eq_true_iff.1 hblank, h ▸ List.forall_mem_nil _, h ▸ List.nodup_nil⟩, fun h => h.1⟩
    · next hblank => exact iff_of_false nofun fun h => hblank (isBlankText_eq_true_iff.2 h.2.1)
  | cons s ss =>
    simp only
    split
    · next hempty =>
      refine iff_of_false nofun ?_
      rintro ⟨rfl, -, hnamed, -⟩
      exact hnamed s List.mem_cons_self hempty
    · split
      · next hblank =>
        refine iff_of_false nofun fun h => ?_
        rw [isBlankText_eq_true_iff.2 h.2.1] at hblank
        cases hblank
      · next hblank =>
        have hblank : Blank prologue.flatten := isBlankText_eq_true_iff.1 (by simpa using hblank)
        split
        · next e he =>
          refine iff_of_false nofun ?_
          rintro ⟨rfl, -, hnamed, hdistinct⟩
          rw [check_eq_ok_iff.2 ⟨hnamed, hdistinct, fun _ _ => List.not_mem_nil⟩] at he
          cases he
        · next hok =>
          obtain ⟨hnamed, hdistinct, -⟩ := check_eq_ok_iff.1 hok
          rw [Except.ok.injEq]
          exact ⟨fun h => ⟨h, hblank, h ▸ hnamed, h ▸ hdistinct⟩, fun h => h.1⟩

/-- Two headers have one name just if the names are not distinct. -/
theorem not_nodup_names_iff {ls : List Text} :
    ¬ (ls.filterMap header?).Nodup ↔
      ∃ (i j : Nat) (l m : Text) (name : String), i < j ∧ ls[i]? = some l ∧ ls[j]? = some m ∧ Names l name ∧ Names m name := by
  rw [List.Nodup, List.pairwise_filterMap, List.pairwise_iff_getElem]
  push Not
  constructor
  · rintro ⟨i, j, hi, hj, hij, name, hname, other, hother, rfl⟩
    exact ⟨i, j, _, _, name, hij, List.getElem?_eq_getElem hi, List.getElem?_eq_getElem hj,
      header?_eq_some_iff.1 hname, header?_eq_some_iff.1 hother⟩
  · rintro ⟨i, j, l, m, name, hij, hl, hm, hname, hother⟩
    obtain ⟨hi, rfl⟩ := List.getElem?_eq_some_iff.1 hl
    obtain ⟨hj, rfl⟩ := List.getElem?_eq_some_iff.1 hm
    exact ⟨i, j, hi, hj, hij, name, header?_eq_some_iff.2 hname, name, header?_eq_some_iff.2 hother, rfl⟩

/-- A section without a name comes from a header without one. -/
theorem exists_empty_name_iff {t : Text} :
    (∃ s ∈ (cut t).2, s.name = "") ↔ ∃ l ∈ splitLines t, Names l "" := by
  have hmem : "" ∈ (cut t).2.map Section.name ↔ "" ∈ (splitLines t).filterMap header? := by
    rw [cut_eq_cutFrom, map_name_cutFrom]
  simpa only [List.mem_map, List.mem_filterMap, header?_eq_some_iff] using hmem

/-- A text is faulty just if it has no partition. -/
theorem faulty_iff {t : Text} : Faulty t ↔ ∀ ss, ¬ Partition t ss := by
  have hnames : (cut t).2.map Section.name = (splitLines t).filterMap header? := map_name_cutFrom 1 _
  constructor
  · intro h ss hpartition
    obtain ⟨rfl, hblank, hnamed, hdistinct⟩ := partition_iff.1 hpartition
    cases h with
    | unnamed line empty =>
      obtain ⟨s, hs, hempty⟩ := exists_empty_name_iff.2 ⟨_, line, empty⟩
      exact hnamed s hs hempty
    | twice order first second named again =>
      rw [hnames] at hdistinct
      exact not_nodup_names_iff.2 ⟨_, _, _, _, _, order, first, second, named, again⟩ hdistinct
    | @above before after header lines plain isHeader text =>
      obtain ⟨inner, hinner⟩ := isHeader
      have hnamed : Names header _ := ⟨inner, hinner, rfl⟩
      rw [cut_eq_cutFrom, lines, cutFrom_append plain, cutFrom_of_names hnamed, List.append_nil] at hblank
      exact text hblank
    | missing plain text =>
      have hcut := cutFrom_append plain 1 []
      rw [List.append_nil] at hcut
      rw [cut_eq_cutFrom, hcut, show (cutFrom _ []).1 = [] from rfl, List.append_nil, flatten_splitLines] at hblank
      exact text hblank
  · intro h
    by_cases hempty : ∃ s ∈ (cut t).2, s.name = ""
    · obtain ⟨l, hl, hname⟩ := exists_empty_name_iff.1 hempty
      exact .unnamed hl hname
    by_cases hdistinct : ((cut t).2.map Section.name).Nodup
    · have hblank : ¬ Blank (cut t).1.flatten := fun hblank =>
        h _ (partition_iff.2 ⟨rfl, hblank, fun s hs hs' => hempty ⟨s, hs, hs'⟩, hdistinct⟩)
      rw [cut_eq_cutFrom] at hblank
      obtain ⟨rest, hls, hplain, hrest⟩ := exists_cutFrom 1 (splitLines t)
      cases rest with
      | nil =>
        rw [List.append_nil] at hls
        rw [← hls] at hplain
        rw [← hls, flatten_splitLines] at hblank
        exact .missing hplain hblank
      | cons header after => exact .above hls hplain (hrest header rfl) hblank
    · rw [hnames] at hdistinct
      obtain ⟨i, j, l, m, name, hij, hl, hm, hname, hother⟩ := not_nodup_names_iff.1 hdistinct
      exact .twice hij hl hm hname hother

/-- A file is split into sections just if it is partitioned into them, which are then the only ones; and it is refused
just if it is faulty. -/
theorem split_exact (source : String) (t : Text) :
    (∀ ss, split source t = .ok ss ↔ Partition t ss) ∧ ((∃ e, split source t = .error e) ↔ Faulty t) := by
  have hok (ss : List Section) : split source t = .ok ss ↔ Partition t ss := split_eq_ok_iff
  refine ⟨hok, ?_⟩
  rw [faulty_iff]
  simp only [← hok]
  cases split source t with
  | ok ss => exact iff_of_false nofun fun h => h ss rfl
  | error e => exact iff_of_true ⟨e, rfl⟩ fun ss => nofun

/-- White space may stand above the first header, and the last header may end the file. -/
example : split "s" " \r\n[[ A ]] \nx\n\n[[B]]".toList = .ok [⟨"A", "x\n\n".toList, 3⟩, ⟨"B", [], 6⟩] := by
  decide +kernel

end ShaderVariant.Section
