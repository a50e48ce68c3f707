import ShaderVariant.Proofs.Fragment.Places
import ShaderVariant.Proofs.Source.IncludeDirective

/-!
# What scanning takes out of a source

Scanning loses nothing but the include directives, and fails at the first one that has no name.

* `Text.insertPieces` : a text with pieces put back at byte offsets;
* `Scanned.Cut` : lines from which include directives are cut, with the pieces. Scanning does that (`cut_of_scanLines`),
  and each part of it is a small induction: the pieces put back give the lines (`Cut.restores`), no line feed gets lost
  (`Cut.newlines_eq`), and every piece stands on its line (`Cut.stands`);
* `Scanned.FirstFault` : the first broken include line of some lines. Scanning fails just there
  (`scanLines_eq_error_iff`);
* `ofText_exact` : the main statement.
-/

namespace ShaderVariant

open Directive (Broken Faulty IncludeLine Includes Spells ofLine? splitInclude)
open Text (AreLines Blank endsLine)

namespace Text

/-! ## Pieces put back -/

def insertAt (n : Nat) (piece t : Text) : Text := (splitBytes n t).1 ++ (piece ++ (splitBytes n t).2)

/-- The text with pieces put in at byte offsets of it. The last piece is put in first, so that the offsets before it
stay. -/
def insertPieces (t : Text) (pieces : List (Nat × Text)) : Text := pieces.foldr (fun p t => insertAt p.1 p.2 t) t

theorem insertAt_byteLength (s piece t : Text) : insertAt s.byteLength piece (s ++ t) = s ++ (piece ++ t) := by
  rw [insertAt, splitBytes_byteLength]

/-! ## One line -/

theorem newlines_eq_zero {t : Text} (h : '\n' ∉ t) : newlines t = 0 := List.count_eq_zero.2 h

theorem newlines_of_endsLine {l : Text} (hl : AreLines [l]) (h : endsLine l = true) : newlines l = 1 := by
  obtain ⟨t, ht, ⟨he, -⟩ | ⟨-, rfl⟩⟩ := hl.exists_eq
  · rw [h] at he
    cases he
  · rw [newlines_append, newlines_eq_zero ht]
    rfl

end Text

/-! ## Directives in their source -/

/-- An include stood in its source as `piece` behind `before` : as the directive that names it, on one line, with only
white space before it there. Its line is counted from `firstLine`. -/
structure PendingInclude.Stood (i : PendingInclude) (firstLine : UInt32) (before piece : Text) : Prop where
  spells : Spells i.name piece
  oneLine : '\n' ∉ piece
  start : ∃ above lead, before = above ++ lead ∧ (above = [] ∨ endsLine above = true) ∧ Blank lead ∧ '\n' ∉ lead
  line : i.line = firstLine + UInt32.ofNat before.newlines

namespace Scanned

/-! ## Cut lines -/

/-- Include directives are cut from lines, of which the first has the number `line` and stands behind `offset` bytes of
text: what is left, the includes, and the pieces that are cut out. -/
inductive Cut : UInt32 → Nat → List Text → Text → List PendingInclude → List Text → Prop
  | nil {line : UInt32} {offset : Nat} : Cut line offset [] [] [] []
  | keep {line : UInt32} {offset : Nat} {l text : Text} {ls pieces : List Text} {is : List PendingInclude}
      (hl : ∀ behind, ¬ IncludeLine l behind) (h : Cut (line + 1) (offset + l.byteLength) ls text is pieces) :
      Cut line offset (l :: ls) (l ++ text) is pieces
  | take {line : UInt32} {offset : Nat} {before piece after text : Text} {name : String} {ls pieces : List Text}
      {is : List PendingInclude} (hbefore : Blank before) (hpiece : Spells name piece)
      (h : Cut (line + 1) (offset + before.byteLength + after.byteLength) ls text is pieces) :
      Cut line offset ((before ++ (piece ++ after)) :: ls) (before ++ after ++ text)
        (⟨name, offset + before.byteLength, line⟩ :: is) (piece :: pieces)

theorem cut_of_scanLines {source : String} {line : UInt32} {offset : Nat} {ls : List Text} {text : Text}
    {is : List PendingInclude} (h : scanLines source line offset ls = .ok (text, is)) :
    ∃ pieces, Cut line offset ls text is pieces := by
  induction ls generalizing line offset text is with
  | nil =>
    cases h
    exact ⟨[], .nil⟩
  | cons l ls ih =>
    rw [scanLines] at h
    split at h
    · next argument hd =>
      split at h
      · cases h
      · next before name after hsplit =>
        split at h
        · cases h
        · next rest others hrest =>
          cases h
          obtain ⟨hbefore, piece, hpiece, rfl⟩ := Directive.spells_of_splitInclude hd hsplit
          obtain ⟨pieces, hpieces⟩ := ih hrest
          exact ⟨piece :: pieces, .take hbefore hpiece hpieces⟩
    · next hd =>
      split at h
      · cases h
      · next rest others hrest =>
        cases h
        obtain ⟨pieces, hpieces⟩ := ih hrest
        exact ⟨pieces, .keep (fun behind hl => hd _ (Directive.ofLine?_of_includeLine hl)) hpieces⟩

namespace Cut

variable {line firstLine : UInt32} {offset : Nat} {ls pieces : List Text} {text : Text} {is : List PendingInclude}

theorem length_eq (h : Cut line offset ls text is pieces) : pieces.length = is.length := by
  induction h with
  | nil => rfl
  | keep _ _ ih => exact ih
  | take _ _ _ ih => rw [List.length_cons, List.length_cons, ih]

/-- The pieces put back at the offsets of the includes give the lines. `passed` is the text before them. -/
theorem restores (h : Cut line offset ls text is pieces) (passed : Text) (hpassed : passed.byteLength = offset) :
    (passed ++ text).insertPieces ((is.map (·.offset)).zip pieces) = passed ++ ls.flatten := by
  induction h generalizing passed with
  | nil => rfl
  | @keep line offset l text ls pieces is _ _ ih =>
    rw [← List.append_assoc, ih (passed ++ l) (by rw [Text.byteLength_append, hpassed]), List.flatten_cons, List.append_assoc]
  | @take line offset before piece after text name ls pieces is _ _ _ ih =>
    have hothers := ih (passed ++ (before ++ after)) (by simp only [Text.byteLength_append]; omega)
    rw [List.append_assoc passed] at hothers
    -- The other pieces stand behind this line, so the offset of its own piece stays.
    show Text.insertAt (offset + before.byteLength) piece
      (Text.insertPieces (passed ++ (before ++ after ++ text)) ((is.map (·.offset)).zip pieces)) = _
    have hplace : offset + before.byteLength = (passed ++ before).byteLength := by rw [Text.byteLength_append, hpassed]
    rw [hothers, hplace, ← List.append_assoc passed, List.append_assoc (passed ++ before), Text.insertAt_byteLength,
      List.flatten_cons]
    simp only [List.append_assoc]

theorem newlines_eq (h : Cut line offset ls text is pieces) (hls : AreLines ls) :
    text.newlines = Text.newlines ls.flatten := by
  induction h with
  | nil => rfl
  | keep _ _ ih => rw [List.flatten_cons, Text.newlines_append, Text.newlines_append, ih hls.of_cons.2.1]
  | @take line offset before piece after text name ls pieces is _ hpiece _ ih =>
    obtain ⟨hline, hrest, -⟩ := hls.of_cons
    have hnone := Text.newlines_eq_zero (hpiece.oneLine hline).2
    rw [List.flatten_cons]
    simp only [Text.newlines_append]
    rw [ih hrest, hnone, Nat.zero_add]

theorem not_broken (h : Cut line offset ls text is pieces) : ∀ l ∈ ls, ¬ Broken l := by
  induction h with
  | nil => exact fun _ hl => absurd hl List.not_mem_nil
  | keep hl _ ih => exact List.forall_mem_cons.2 ⟨fun hb => hb.1.elim fun behind hi => hl behind hi, ih⟩
  | take hbefore hpiece _ ih =>
    exact List.forall_mem_cons.2 ⟨fun hb => hb.2 _ ⟨_, _, _, hbefore, hpiece, rfl⟩, ih⟩

/-- The next line of a source, if there is one, starts behind a line feed and has the next number. -/
theorem next_line {l seen : Text} (hl : AreLines [l]) (hend : endsLine l = true ∨ ls = [])
    (hnumber : line = firstLine + UInt32.ofNat seen.newlines) (hne : ls ≠ []) :
    (seen ++ l = [] ∨ endsLine (seen ++ l) = true) ∧ line + 1 = firstLine + UInt32.ofNat (seen ++ l).newlines := by
  have hl' := hend.resolve_right hne
  refine ⟨.inr (Text.endsLine_append seen hl'), ?_⟩
  rw [Text.newlines_append, Text.newlines_of_endsLine hl hl', UInt32.ofNat_add, hnumber]
  exact UInt32.add_assoc ..

/-- Every piece stands in the source, behind the pieces that are cut before it. `seen` is the source before the lines,
`removed` the bytes that were cut from it. -/
theorem stands (h : Cut line offset ls text is pieces) (hls : AreLines ls) (seen : Text) (removed : Nat)
    (hseen : seen.byteLength = offset + removed)
    (hline : ls ≠ [] → (seen = [] ∨ endsLine seen = true) ∧ line = firstLine + UInt32.ofNat seen.newlines) {k : Nat}
    {i : PendingInclude} {piece : Text} (hi : is[k]? = some i) (hp : pieces[k]? = some piece) :
    ∃ before after, seen ++ ls.flatten = before ++ (piece ++ after) ∧
      before.byteLength = i.offset + removed + Text.byteLength (pieces.take k).flatten ∧
        i.Stood firstLine before piece := by
  induction h generalizing seen removed k with
  | nil => cases hi
  | @keep line offset l text ls pieces is _ _ ih =>
    obtain ⟨hl, hrest, hend⟩ := hls.of_cons
    obtain ⟨-, hnumber⟩ := hline (List.cons_ne_nil _ _)
    obtain ⟨before, after, heq, hlen, hstood⟩ := ih hrest (seen ++ l) removed
      (by rw [Text.byteLength_append]; omega) (next_line hl hend hnumber) hi hp
    exact ⟨before, after, by rw [List.flatten_cons, ← List.append_assoc, heq], hlen, hstood⟩
  | @take line offset before piece' after text name ls pieces is hbefore hpiece _ ih =>
    obtain ⟨hl, hrest, hend⟩ := hls.of_cons
    obtain ⟨hstart, hnumber⟩ := hline (List.cons_ne_nil _ _)
    cases k with
    | zero =>
      cases hi
      cases hp
      obtain ⟨hlead, hone⟩ := hpiece.oneLine hl
      refine ⟨seen ++ before, after ++ ls.flatten, ?_, ?_, hpiece, hone, ⟨seen, before, rfl, hstart, hbefore, hlead⟩, ?_⟩
      · rw [List.flatten_cons]
        simp only [List.append_assoc]
      · rw [Text.byteLength_append, hseen, List.take_zero, List.flatten_nil, Text.byteLength_nil]
        show offset + removed + before.byteLength = offset + before.byteLength + removed + 0
        omega
      · rw [Text.newlines_append, Text.newlines_eq_zero hlead]
        exact hnumber
    | succ k =>
      obtain ⟨before', after', heq, hlen, hstood⟩ := ih hrest (seen ++ (before ++ (piece' ++ after)))
        (removed + piece'.byteLength) (by simp only [Text.byteLength_append]; omega)
        (next_line hl hend hnumber) hi hp
      refine ⟨before', after', by rw [List.flatten_cons, ← List.append_assoc, heq], ?_, hstood⟩
      rw [List.take_succ_cons, List.flatten_cons, Text.byteLength_append]
      omega

end Cut

/-! ## Broken lines -/

/-- A fault of the first broken include line of lines, of which the first has the number `line`. -/
def FirstFault (source : String) (line : UInt32) (ls : List Text) (e : ParseError) : Prop :=
  ∃ front l back, ls = front ++ l :: back ∧ (∀ m ∈ front, ¬ Broken m) ∧ Faulty l e.fault ∧ e.source = source ∧
    e.line = line + UInt32.ofNat front.length

/-- The lines behind one that is not broken have the same first fault. -/
theorem firstFault_cons {source : String} {line : UInt32} {l : Text} {ls : List Text} {e : ParseError}
    (hl : ¬ Broken l) : FirstFault source line (l :: ls) e ↔ FirstFault source (line + 1) ls e := by
  have hnext (n : Nat) : line + UInt32.ofNat (n + 1) = line + 1 + UInt32.ofNat n := by
    rw [Nat.add_comm, UInt32.ofNat_add, ← UInt32.add_assoc]
    rfl
  constructor
  · rintro ⟨front, m, back, heq, hfront, hm, hsource, hline⟩
    cases front with
    | nil =>
      cases heq
      exact absurd (Directive.broken_iff.2 ⟨_, hm⟩) hl
    | cons l' front =>
      cases heq
      exact ⟨front, m, back, rfl, (List.forall_mem_cons.1 hfront).2, hm, hsource, hline.trans (hnext _)⟩
  · rintro ⟨front, m, back, rfl, hfront, hm, hsource, hline⟩
    exact ⟨l :: front, m, back, rfl, List.forall_mem_cons.2 ⟨hl, hfront⟩, hm, hsource, hline.trans (hnext _).symm⟩

/-- The first line is broken, and so the first fault is its. -/
theorem firstFault_of_faulty {source : String} {line : UInt32} {l : Text} {ls : List Text} {fault : ParseFault}
    (hl : Faulty l fault) {e : ParseError} : FirstFault source line (l :: ls) e ↔ e = ⟨source, line, fault⟩ := by
  constructor
  · rintro ⟨front, m, back, heq, hfront, hm, hsource, hline⟩
    cases front with
    | nil =>
      cases heq
      have hfault : e.fault = fault := hm.unique hl
      have hline : e.line = line := hline.trans (Text.lineAfter_zero line)
      rw [← hsource, ← hline, ← hfault]
    | cons l' front =>
      cases heq
      exact absurd (Directive.broken_iff.2 ⟨_, hl⟩) (List.forall_mem_cons.1 hfront).1
  · rintro rfl
    exact ⟨[], l, ls, rfl, fun _ hm => absurd hm List.not_mem_nil, hl, rfl, (Text.lineAfter_zero line).symm⟩

/-- Scanning lines fails just at the first broken one. -/
theorem scanLines_eq_error_iff {source : String} {line : UInt32} (offset : Nat) {ls : List Text} {e : ParseError} :
    scanLines source line offset ls = .error e ↔ FirstFault source line ls e := by
  induction ls generalizing line offset with
  | nil =>
    refine ⟨nofun, ?_⟩
    rintro ⟨front, l, back, heq, -⟩
    exact absurd heq.symm (List.append_ne_nil_of_right_ne_nil front (List.cons_ne_nil l back))
  | cons l ls ih =>
    rw [scanLines]
    split
    · next argument hd =>
      split
      · next fault hsplit =>
        rw [firstFault_of_faulty (Directive.faulty_of_splitInclude hd hsplit), Except.error.injEq, eq_comm]
      · next before name after hsplit =>
        obtain ⟨hbefore, piece, hpiece, hl⟩ := Directive.spells_of_splitInclude hd hsplit
        rw [firstFault_cons fun hb => hb.2 name ⟨before, piece, after, hbefore, hpiece, hl⟩, ← ih]
        split
        · next e' he => rw [he]
        · next rest others hrest => rw [hrest]; exact iff_of_false nofun nofun
    · next hd =>
      have hl : ¬ Broken l := fun hb => hb.1.elim fun behind hi => hd _ (Directive.ofLine?_of_includeLine hi)
      rw [firstFault_cons hl, ← ih]
      split
      · next e' he => rw [he]
      · next rest others hrest => rw [hrest]; exact iff_of_false nofun nofun

/-! ## Sources -/

/-- What scanning keeps of a source that starts on line `firstLine` : with the include directives put back where the
includes stand it is the source, and every directive stood on the line of its include. -/
structure Recovers (t : Text) (firstLine : UInt32) (scanned : Scanned) (pieces : List Text) : Prop where
  length : pieces.length = scanned.includes.length
  restored : scanned.text.insertPieces ((scanned.includes.map (·.offset)).zip pieces) = t
  stood : ∀ k i piece, scanned.includes[k]? = some i → pieces[k]? = some piece → ∃ before after,
    t = before ++ (piece ++ after) ∧
      before.byteLength = i.offset + Text.byteLength (pieces.take k).flatten ∧ i.Stood firstLine before piece
  ordered : (scanned.includes.map (·.offset)).Pairwise (· ≤ ·)
  within : ∀ i ∈ scanned.includes, i.offset ≤ scanned.text.byteLength
  boundary : ∀ i ∈ scanned.includes, ∃ before : Text, before <+: scanned.text ∧ before.byteLength = i.offset
  newlines : scanned.text.newlines = t.newlines

theorem recovers_of_ofText {source : String} {t : Text} {firstLine : UInt32} {scanned : Scanned}
    (h : ofText source t firstLine = .ok scanned) : ∃ pieces, Recovers t firstLine scanned pieces := by
  unfold ofText at h
  split at h
  · cases h
  · next text is hlines =>
    cases h
    have hls := Text.areLines_splitLines t
    obtain ⟨pieces, hcut⟩ := cut_of_scanLines hlines
    obtain ⟨hplaces, -, hordered⟩ := placed_of_scanLines [] hlines rfl
    have hstart : firstLine = firstLine + UInt32.ofNat (Text.newlines []) := (Text.lineAfter_nil firstLine).symm
    refine ⟨pieces, hcut.length_eq, ?_, fun k i piece hi hp => ?_, hordered, fun i hi => ?_, hplaces, ?_⟩
    · rw [← Text.flatten_splitLines t]
      exact hcut.restores [] rfl
    · obtain ⟨before, after, heq, hlen, hstood⟩ :=
        hcut.stands hls [] 0 rfl (fun _ => ⟨.inl rfl, hstart⟩) hi hp
      rw [List.nil_append, Text.flatten_splitLines] at heq
      exact ⟨before, after, heq, hlen, hstood⟩
    · obtain ⟨before, ⟨after, hafter⟩, hlen⟩ := hplaces i hi
      rw [← hlen]
      show before.byteLength ≤ ([] ++ text : Text).byteLength
      rw [← hafter, Text.byteLength_append]
      exact Nat.le_add_right _ _
    · rw [hcut.newlines_eq hls, Text.flatten_splitLines]

theorem ofText_eq_error_iff {source : String} {t : Text} {firstLine : UInt32} {e : ParseError} :
    ofText source t firstLine = .error e ↔ FirstFault source firstLine t.splitLines e := by
  rw [← scanLines_eq_error_iff 0, ofText]
  split
  · next e' he => rw [he, Except.error.injEq, Except.error.injEq]
  · next text is hlines => rw [hlines]; exact iff_of_false nofun nofun

/-- Scanning loses nothing but the include directives. It fails just if some line is an include directive without a name
between marks, and reports the first such line. -/
theorem ofText_exact (source : String) (t : Text) (firstLine : UInt32) :
    (∀ scanned, ofText source t firstLine = .ok scanned → ∃ pieces, Recovers t firstLine scanned pieces) ∧
      ((∃ e, ofText source t firstLine = .error e) ↔ ∃ l ∈ t.splitLines, Broken l) ∧
        ∀ e, ofText source t firstLine = .error e ↔ FirstFault source firstLine t.splitLines e := by
  refine ⟨fun scanned => recovers_of_ofText, ⟨?_, ?_⟩, fun e => ofText_eq_error_iff⟩
  · rintro ⟨e, he⟩
    obtain ⟨front, l, back, hlines, -, hl, -⟩ := ofText_eq_error_iff.1 he
    exact ⟨l, hlines ▸ List.mem_append_right front List.mem_cons_self, Directive.broken_iff.2 ⟨_, hl⟩⟩
  · rintro ⟨l, hl, hbroken⟩
    cases hlines : scanLines source firstLine 0 t.splitLines with
    | error e => exact ⟨e, by rw [ofText, hlines]⟩
    | ok p =>
      obtain ⟨pieces, hcut⟩ := cut_of_scanLines hlines
      exact absurd hbroken (hcut.not_broken l hl)

/-- Three includes: behind white space that takes two bytes, between angle marks, and with another one behind on its
line. -/
def mixedText : Text := "a\n\u00a0# include\t\" b c \" ü\r\n#include<d>\n #include \"e\"#include \"f\"".toList

def mixedScan : Scanned :=
  ⟨"a\n\u00a0 ü\r\n\n #include \"f\"".toList, [⟨"b c", 4, 8⟩, ⟨"d", 9, 9⟩, ⟨"e", 11, 10⟩], []⟩

theorem ofText_exact_mixedText :
    ofText "mixed" mixedText 7 = .ok mixedScan ∧ ∃ pieces, Recovers mixedText 7 mixedScan pieces :=
  have h : ofText "mixed" mixedText 7 = .ok mixedScan := by decide +kernel
  ⟨h, (ofText_exact "mixed" mixedText 7).1 mixedScan h⟩

end Scanned

end ShaderVariant
