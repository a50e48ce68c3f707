import ShaderVariant.Declaration.ShaderSource
import ShaderVariant.Loader
import ShaderVariant.Proofs.Text

/-!
# Include lines

Scanning remembers the line of every include. In a shader file each section is scanned on its own, from the line on
which its text starts.

* `IncludeSite` : an include directive with its file and its line there, counted from 1 in the whole file. A site of a
  text is on an include line for its name (`mem_ofText_iff`);
* `codeLines` : the lines of a shader file that belong to its code, with their numbers in the file;
* `Scanned.marks_of_ofText`, `ShaderSource.marks_of_parse` : what is scanned are the sites of the file.
-/

namespace ShaderVariant

open Text (AreLines endsLine splitLines)

/-- An include directive: the file in which it stands, its line there, and the name. -/
structure IncludeSite where
  file : String
  line : Nat
  name : String
  deriving DecidableEq, Repr

namespace IncludeSite

variable {file : String}

def ofLines (file : String) (ls : List (Text × Nat)) : List IncludeSite :=
  ls.filterMap fun l => (includedName? l.1).map (⟨file, l.2, ·⟩)

def ofText (file : String) (t : Text) : List IncludeSite := ofLines file (t.splitLines.zipIdx 1)

def mark (d : IncludeSite) : String × UInt32 := (d.name, UInt32.ofNat d.line)

theorem mem_ofLines_iff {ls : List (Text × Nat)} {d : IncludeSite} :
    d ∈ ofLines file ls ↔ d.file = file ∧ ∃ l, (l, d.line) ∈ ls ∧ includedName? l = some d.name := by
  unfold ofLines
  rw [List.mem_filterMap]
  constructor
  · rintro ⟨⟨l, n⟩, hl, hd⟩
    obtain ⟨name, hname, rfl⟩ := Option.map_eq_some_iff.1 hd
    exact ⟨rfl, l, hl, hname⟩
  · rintro ⟨rfl, l, hl, hname⟩
    exact ⟨(l, d.line), hl, Option.map_eq_some_iff.2 ⟨d.name, hname, rfl⟩⟩

/-- A directive of a file is on one of its lines, which includes just its name. -/
theorem mem_ofText_iff {t : Text} {d : IncludeSite} :
    d ∈ ofText file t ↔
      d.file = file ∧ 1 ≤ d.line ∧ ∃ l, t.splitLines[d.line - 1]? = some l ∧ includedName? l = some d.name := by
  rw [ofText, mem_ofLines_iff]
  simp only [List.mk_mem_zipIdx_iff_le_and_getElem?_sub, and_assoc, exists_and_left]

end IncludeSite

/-! ## Scanned lines -/

def PendingInclude.mark (i : PendingInclude) : String × UInt32 := (i.name, i.line)

def includeMarks (line : UInt32) : List Text → List (String × UInt32)
  | [] => []
  | l :: ls =>
    match includedName? l with
    | none => includeMarks (line + 1) ls
    | some name => (name, line) :: includeMarks (line + 1) ls

theorem map_mark_ofLines (file : String) (ls : List Text) (n : Nat) :
    (IncludeSite.ofLines file (ls.zipIdx n)).map IncludeSite.mark = includeMarks (UInt32.ofNat n) ls := by
  induction ls generalizing n with
  | nil => rfl
  | cons l ls ih =>
    have hnext : UInt32.ofNat n + 1 = UInt32.ofNat (n + 1) := (UInt32.ofNat_add n 1).symm
    rw [List.zipIdx_cons, IncludeSite.ofLines, List.filterMap_cons, includeMarks, hnext]
    cases includedName? l with
    | none => exact ih (n + 1)
    | some name => exact congrArg (_ :: ·) (ih (n + 1))

namespace Scanned

theorem marks_of_scanLines {source : String} {line : UInt32} {offset : Nat} {ls : List Text}
    {p : Text × List PendingInclude} (h : scanLines source line offset ls = .ok p) :
    p.2.map PendingInclude.mark = includeMarks line ls := by
  fun_induction scanLines source line offset ls generalizing p with
  | case1 => cases h; rfl
  | case2 => cases h
  | case3 => cases h
  | case4 line offset l ls argument hline before name after hsplit text includes hrest ih =>
    cases h
    have hname : includedName? l = some name := by simp only [includedName?, hline, hsplit]
    rw [includeMarks, hname, List.map_cons, ih hrest]
    rfl
  | case5 => cases h
  | case6 line offset l ls text includes hrest hline ih =>
    cases h
    have hname : includedName? l = none := by
      unfold includedName?
      split
      · next argument ha => exact absurd ha (hline argument)
      · rfl
    rw [includeMarks, hname]
    exact ih (p := (text, includes)) hrest

theorem marks_of_ofText {source : String} {t : Text} {line : UInt32} {scanned : Scanned}
    (h : ofText source t line = .ok scanned) :
    scanned.includes.map PendingInclude.mark = includeMarks line t.splitLines := by
  unfold ofText at h
  split at h
  · cases h
  · next text includes hlines =>
    cases h
    exact marks_of_scanLines hlines

end Scanned

/-! ## Code lines of a shader file -/

/-- The lines that belong to code. `code` says whether those before the next header do. -/
def codeLines (code : Bool) : List (Text × Nat) → List (Text × Nat)
  | [] => []
  | l :: ls =>
    match Section.header? l.1 with
    | some name => codeLines (name != ShaderSource.declarationSection) ls
    | none => if code then l :: codeLines code ls else codeLines code ls

theorem codeLines_sublist (code : Bool) (ls : List (Text × Nat)) : (codeLines code ls).Sublist ls := by
  induction ls generalizing code with
  | nil => exact .slnil
  | cons l ls ih =>
    rw [codeLines]
    cases Section.header? l.1 with
    | some name => exact (ih _).cons l
    | none =>
      cases code with
      | true => exact (ih true).cons_cons l
      | false => exact (ih false).cons l

namespace IncludeSite

def ofCode (file : String) (t : Text) : List IncludeSite := ofLines file (codeLines false (t.splitLines.zipIdx 1))

/-- The directives of the code are directives of the file, in the order of its lines. -/
theorem ofCode_sublist (file : String) (t : Text) : (ofCode file t).Sublist (ofText file t) :=
  (codeLines_sublist _ _).filterMap _

end IncludeSite

/-- The include lines of sections, each counted from its own first line. -/
def sectionMarks (ss : List Section) : List (String × UInt32) :=
  (ss.filter (·.name != ShaderSource.declarationSection)).flatMap fun s => includeMarks s.firstLine s.body.splitLines

theorem areLines_cons {l : Text} {ls : List Text} (hl : AreLines [l]) (hls : AreLines ls)
    (h : endsLine l = true ∨ ls = []) : AreLines (l :: ls) := by
  unfold AreLines at hl hls ⊢
  rw [List.flatten_singleton] at hl
  rw [List.flatten_cons, Text.splitLines_append, hl, hls]
  rcases h with h | rfl
  · exact Text.glue_of_endsLine h ls
  · exact Text.glue_nil [l]

/-- What cutting makes of the lines from `n` on: lines before the first header, and sections whose include lines are
those of the code. -/
structure Collects (file : String) (ls : List Text) (n : Nat) (after : List Text × List Section) : Prop where
  lines : AreLines after.1
  none : ls = [] → after.1 = []
  marks : ∀ code, (IncludeSite.ofLines file (codeLines code (ls.zipIdx n))).map IncludeSite.mark =
    (if code then includeMarks (UInt32.ofNat n) after.1 else []) ++ sectionMarks after.2

theorem collects_nil (file : String) (n : Nat) : Collects file [] n ([], []) :=
  ⟨rfl, fun _ => rfl, fun code => by cases code <;> rfl⟩

/-- One more line in front: a header opens a section with what is collected. -/
theorem Collects.cons {file : String} {l : Text} {ls : List Text} {n : Nat} {after : List Text × List Section}
    (h : Collects file ls (n + 1) after) (hl : AreLines (l :: ls)) :
    Collects file (l :: ls) n (Section.consLine (l, n) after) := by
  have hnext : UInt32.ofNat n + 1 = UInt32.ofNat (n + 1) := (UInt32.ofNat_add n 1).symm
  obtain ⟨hline, -, hend⟩ := hl.of_cons
  unfold Section.consLine
  cases hh : Section.header? l with
  | some name =>
    -- What was collected becomes the body of the section, and no line stands before the header.
    refine ⟨rfl, fun _ => rfl, fun code => ?_⟩
    have hempty : (if code then includeMarks (UInt32.ofNat n) [] else []) = [] := by cases code <;> rfl
    rw [List.zipIdx_cons, codeLines, hh]
    simp only
    rw [h.marks, hempty, List.nil_append]
    unfold sectionMarks
    rw [List.filter_cons]
    cases name != ShaderSource.declarationSection with
    | true =>
      rw [if_pos rfl, if_pos rfl, List.flatMap_cons]
      simp only
      rw [h.lines]
    | false => rfl
  | none =>
    refine ⟨areLines_cons hline h.lines (hend.imp_right h.none), nofun, fun code => ?_⟩
    rw [List.zipIdx_cons, codeLines, hh]
    cases code with
    | false => exact h.marks false
    | true =>
      have hrest := h.marks true
      simp only [if_true] at hrest ⊢
      rw [IncludeSite.ofLines, List.filterMap_cons, includeMarks, hnext]
      cases includedName? l with
      | none => exact hrest
      | some name => exact congrArg (_ :: ·) hrest

theorem collects_foldr (file : String) {ls : List Text} (h : AreLines ls) (n : Nat) :
    Collects file ls n ((ls.zipIdx n).foldr Section.consLine ([], [])) := by
  induction ls generalizing n with
  | nil => exact collects_nil file n
  | cons l ls ih =>
    rw [List.zipIdx_cons, List.foldr_cons]
    exact (ih h.of_cons.2.1 (n + 1)).cons h

/-- The sections of a file have the include lines of its code. -/
theorem sectionMarks_cut (file : String) (t : Text) :
    sectionMarks (Section.cut t).2 = (IncludeSite.ofCode file t).map IncludeSite.mark :=
  ((collects_foldr file (Text.areLines_splitLines t) 1).marks false).symm

theorem Section.eq_cut_of_split {source : String} {t : Text} {ss : List Section} (h : split source t = .ok ss) :
    ss = (cut t).2 := by
  unfold split at h
  split at h
  · next hcut =>
    split at h <;> cases h
    rw [hcut]
  · next hcut =>
    split at h
    · cases h
    · split at h
      · cases h
      · split at h <;> cases h
        rw [hcut]

namespace ShaderSource

theorem marks_of_scanSections {source : String} {ss : List Section} {code : List CodeSection}
    (h : scanSections source ss = .ok code) :
    (code.flatMap (·.source.includes)).map PendingInclude.mark =
      ss.flatMap fun s => includeMarks s.firstLine s.body.splitLines := by
  induction ss generalizing code with
  | nil =>
    cases h
    rfl
  | cons s ss ih =>
    unfold scanSections at h
    split at h
    · cases h
    · next scanned hs =>
      cases hrest : scanSections source ss with
      | error e =>
        rw [hrest] at h
        cases h
      | ok rest =>
        rw [hrest] at h
        cases h
        rw [List.flatMap_cons, List.flatMap_cons, List.map_append, ih hrest, Scanned.marks_of_ofText hs]

/-- The includes of a shader file are the directives in its code, each on its line of the file. -/
theorem marks_of_parse {source : String} {t : Text} {x : ShaderSource} (h : parse source t = .ok x) :
    (x.sections.flatMap (·.source.includes)).map PendingInclude.mark =
      (IncludeSite.ofCode source t).map IncludeSite.mark := by
  unfold parse at h
  split at h
  · cases h
  · next sections hsplit =>
    split at h
    · cases h
    · split at h
      · cases h
      · next code hcode =>
        split at h
        · cases h
        · unfold ofDeclarations at h
          split at h
          · cases h
          · cases h
            rw [marks_of_scanSections hcode, Section.eq_cut_of_split hsplit]
            exact sectionMarks_cut source t

end ShaderSource

end ShaderVariant
