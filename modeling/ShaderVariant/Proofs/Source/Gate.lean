import ShaderVariant.Proofs.Text
import ShaderVariant.Source.Gate

/-!
# Gating for all masks at once

Whether gating fails, and which flags decide about a line, does not depend on the mask.

* `Gate.Test`, `Gate.Branch` : a flag and the value that is wanted of it, and an open conditional without a mask;
* `Gate.Row`, `Gate.rows` : the lines of a text, each with the tests of the conditionals around it;
* `gate_eq` : gating keeps the rows whose tests hold for the mask;
* `gate_restrict_iff` : gating does not see that a mask is restricted to some flags just if every line that can be kept
  is tested for those only.
-/

namespace ShaderVariant

namespace Gate

/-! ## Conditionals without a mask -/

/-- A flag bit and the value that is wanted of it. -/
structure Test where
  bit : Nat
  wanted : Bool
  deriving DecidableEq, Repr

namespace Test

def holds (m : Mask) (t : Test) : Bool := m.isSet t.bit == t.wanted

def negated (t : Test) : Test := ⟨t.bit, !t.wanted⟩

theorem holds_negated (m : Mask) (t : Test) : t.negated.holds m = !t.holds m := by
  unfold holds negated
  cases m.isSet t.bit <;> cases t.wanted <;> rfl

end Test

/-- An open conditional: on a flag, with the test of the branch in force and whether `#else` was seen, or on something
else. -/
inductive Branch where
  | flag (test : Test) (seenElse : Bool) (line : UInt32)
  | foreign (line : UInt32)
  deriving DecidableEq, Repr

def Branch.test? : Branch → Option Test
  | flag test _ _ => some test
  | foreign _ => none

def Branch.line : Branch → UInt32
  | flag _ _ line => line
  | foreign line => line

def tests (stack : List Branch) : List Test := stack.filterMap Branch.test?

def frames (m : Mask) : List Branch → List Frame
  | [] => []
  | .flag test seenElse line :: stack =>
    .flag (test.holds m) seenElse (isActive (frames m stack)) line :: frames m stack
  | .foreign line :: stack => .foreign (isActive (frames m stack)) line :: frames m stack

/-- Text is kept where all tests hold. -/
theorem isActive_frames (m : Mask) (stack : List Branch) :
    isActive (frames m stack) = (tests stack).all (Test.holds m) := by
  induction stack with
  | nil => rfl
  | cons b stack ih =>
    cases b with
    | flag test seenElse line =>
      show (test.holds m && isActive (frames m stack)) = _
      rw [ih]
      rfl
    | foreign line =>
      show isActive (frames m stack) = _
      rw [ih]
      rfl

def openBranch (v : Vocabulary) (wanted : Bool) (name : Option String) (line : UInt32) (stack : List Branch) :
    Bool × List Branch :=
  match bitOf? v name with
  | some bit => (false, .flag ⟨bit, wanted⟩ false line :: stack)
  | none => (true, .foreign line :: stack)

/-- What a line does under the open conditionals: whether it stays where they hold, and the conditionals behind it. -/
def stepBranches (v : Vocabulary) (line : UInt32) (stack : List Branch) :
    Option Directive → Except ConditionalFault (Bool × List Branch)
  | some (.ifdef name) => .ok (openBranch v true name line stack)
  | some (.ifndef name) => .ok (openBranch v false name line stack)
  | some .ifExpr => .ok (true, .foreign line :: stack)
  | some .elifExpr =>
    match stack with
    | .flag .. :: _ => .error .elifOnFlag
    | .foreign _ :: _ => .ok (true, stack)
    | [] => .error .unmatchedElif
  | some .elseBranch =>
    match stack with
    | .flag _ true _ :: _ => .error .duplicateElse
    | .flag test false opened :: rest => .ok (false, .flag test.negated true opened :: rest)
    | .foreign _ :: _ => .ok (true, stack)
    | [] => .error .unmatchedElse
  | some .endif =>
    match stack with
    | .flag .. :: rest => .ok (false, rest)
    | .foreign _ :: rest => .ok (true, rest)
    | [] => .error .unmatchedEndif
  | some (.inclusion _) => .ok (true, stack)
  | some .other => .ok (true, stack)
  | none => .ok (true, stack)

/-- The step for a mask is the step for all of them. -/
theorem step_frames (v : Vocabulary) (m : Mask) (line : UInt32) (stack : List Branch) (d : Option Directive) :
    step v m line (frames m stack) d =
      (stepBranches v line stack d).map fun r => (r.1 && isActive (frames m stack), frames m r.2) := by
  have hopen : ∀ wanted name, openConditional v m wanted name line (frames m stack) =
      ((openBranch v wanted name line stack).1 && isActive (frames m stack),
        frames m (openBranch v wanted name line stack).2) := by
    intro wanted name
    unfold openConditional openBranch
    cases bitOf? v name <;> rfl
  match d with
  | none => rfl
  | some (.ifdef name) => exact congrArg Except.ok (hopen true name)
  | some (.ifndef name) => exact congrArg Except.ok (hopen false name)
  | some .ifExpr => rfl
  | some .elifExpr =>
    match stack with
    | [] => rfl
    | .flag .. :: _ => rfl
    | .foreign _ :: _ => rfl
  | some .elseBranch =>
    match stack with
    | [] => rfl
    | .flag _ true _ :: _ => rfl
    | .flag test false opened :: rest =>
      show Except.ok (false, Frame.flag (!test.holds m) true _ opened :: frames m rest) = _
      rw [← Test.holds_negated]
      rfl
    | .foreign _ :: _ => rfl
  | some .endif =>
    match stack with
    | [] => rfl
    | .flag .. :: _ => rfl
    | .foreign _ :: _ => rfl
  | some (.inclusion _) => rfl
  | some .other => rfl

/-! ## Rows -/

/-- A line with the tests of the conditionals around it; none if it is a directive of a conditional on a flag. -/
structure Row where
  line : Text
  tests? : Option (List Test)
  deriving DecidableEq, Repr

namespace Row

def tests (r : Row) : List Test := r.tests?.getD []

def isKept (m : Mask) (r : Row) : Bool := r.tests?.isSome && r.tests.all (Test.holds m)

def gated (m : Mask) (r : Row) : Text := if r.isKept m then r.line else reduce r.line

end Row

/-- The lines of a text from the line `line` on, inside open conditionals. -/
def rows (v : Vocabulary) (line : UInt32) (stack : List Branch) :
    List Text → Except (UInt32 × ConditionalFault) (List Row)
  | [] =>
    match stack with
    | [] => .ok []
    | b :: _ => .error (b.line, .unterminated)
  | l :: ls =>
    match stepBranches v line stack (Directive.ofLine? l) with
    | .error fault => .error (line, fault)
    | .ok (stays, after) =>
      match rows v (line + 1) after ls with
      | .error e => .error e
      | .ok rs => .ok (⟨l, if stays then some (tests stack) else none⟩ :: rs)

theorem gateLines_frames (v : Vocabulary) (m : Mask) (line : UInt32) (stack : List Branch) (ls : List Text) :
    gateLines v m line (frames m stack) ls = (rows v line stack ls).map (·.map (Row.gated m)) := by
  induction ls generalizing line stack with
  | nil =>
    match stack with
    | [] => rfl
    | .flag .. :: _ => rfl
    | .foreign _ :: _ => rfl
  | cons l ls ih =>
    rw [gateLines, rows, step_frames]
    cases stepBranches v line stack (Directive.ofLine? l) with
    | error fault => rfl
    | ok r =>
      obtain ⟨stays, after⟩ := r
      simp only [Except.map, ih (line + 1) after]
      cases rows v (line + 1) after ls with
      | error e => rfl
      | ok rs =>
        simp only [List.map_cons, Except.ok.injEq, List.cons.injEq, and_true, Row.gated, Row.isKept,
          isActive_frames]
        cases stays <;> rfl

theorem map_line_rows {v : Vocabulary} {line : UInt32} {stack : List Branch} {ls : List Text} {rs : List Row}
    (h : rows v line stack ls = .ok rs) : rs.map Row.line = ls := by
  induction ls generalizing line stack rs with
  | nil =>
    cases stack with
    | nil =>
      cases h
      rfl
    | cons b stack => cases h
  | cons l ls ih =>
    rw [rows] at h
    split at h
    · cases h
    · next stays after _ =>
      cases hr : rows v (line + 1) after ls with
      | error e =>
        rw [hr] at h
        cases h
      | ok rest =>
        rw [hr] at h
        cases h
        rw [List.map_cons, ih hr]

theorem bit_of_mem_openBranch {v : Vocabulary} {wanted : Bool} {name : Option String} {line : UInt32}
    {stack : List Branch} {P : Nat → Prop} (hstack : ∀ t ∈ tests stack, P t.bit)
    (hname : ∀ i, bitOf? v name = some i → P i) : ∀ t ∈ tests (openBranch v wanted name line stack).2, P t.bit := by
  unfold openBranch
  split
  · next bit hbit => exact List.forall_mem_cons.2 ⟨hname bit hbit, hstack⟩
  · exact hstack

/-- A step opens a test of the flag that the line refers to, if any. -/
theorem bit_of_mem_stepBranches {v : Vocabulary} {line : UInt32} {stack after : List Branch} {l : Text} {stays : Bool}
    (h : stepBranches v line stack (Directive.ofLine? l) = .ok (stays, after)) {P : Nat → Prop}
    (hstack : ∀ t ∈ tests stack, P t.bit) (href : ∀ i, bitOf? v (Directive.flagRef? l) = some i → P i) :
    ∀ t ∈ tests after, P t.bit := by
  unfold Directive.flagRef? at href
  generalize Directive.ofLine? l = d at h href
  match d with
  | none | some .other | some (.inclusion _) | some .ifExpr =>
    cases h
    exact hstack
  | some (.ifdef name) =>
    have hafter : (openBranch v true name line stack).2 = after := congrArg Prod.snd (Except.ok.inj h)
    exact hafter ▸ bit_of_mem_openBranch hstack href
  | some (.ifndef name) =>
    have hafter : (openBranch v false name line stack).2 = after := congrArg Prod.snd (Except.ok.inj h)
    exact hafter ▸ bit_of_mem_openBranch hstack href
  | some .elifExpr =>
    match stack with
    | [] | .flag .. :: _ => cases h
    | .foreign _ :: _ =>
      cases h
      exact hstack
  | some .elseBranch =>
    match stack with
    | [] | .flag _ true _ :: _ => cases h
    | .flag test false _ :: _ =>
      cases h
      obtain ⟨htest, hrest⟩ := List.forall_mem_cons.1 hstack
      exact List.forall_mem_cons.2 ⟨htest, hrest⟩
    | .foreign _ :: _ =>
      cases h
      exact hstack
  | some .endif =>
    match stack with
    | [] => cases h
    | .flag .. :: _ =>
      cases h
      exact (List.forall_mem_cons.1 hstack).2
    | .foreign _ :: _ =>
      cases h
      exact hstack

/-- Every test is for a flag that some line refers to, or one of a conditional that was open before. -/
theorem bit_of_mem_tests {v : Vocabulary} {line : UInt32} {stack : List Branch} {ls : List Text} {rs : List Row}
    (h : rows v line stack ls = .ok rs) {P : Nat → Prop} (hstack : ∀ t ∈ tests stack, P t.bit)
    (hrefs : ∀ l ∈ ls, ∀ i, bitOf? v (Directive.flagRef? l) = some i → P i) :
    ∀ r ∈ rs, ∀ t ∈ r.tests, P t.bit := by
  induction ls generalizing line stack rs with
  | nil =>
    cases stack with
    | nil =>
      cases h
      exact fun r hr => absurd hr List.not_mem_nil
    | cons b stack => cases h
  | cons l ls ih =>
    rw [rows] at h
    split at h
    · cases h
    · next stays after hstep =>
      cases hr : rows v (line + 1) after ls with
      | error e =>
        rw [hr] at h
        cases h
      | ok rest =>
        rw [hr] at h
        cases h
        have hafter := bit_of_mem_stepBranches hstep hstack (hrefs l List.mem_cons_self)
        refine List.forall_mem_cons.2 ⟨fun t ht => ?_, ih hr hafter fun l' hl' => hrefs l' (List.mem_cons_of_mem _ hl')⟩
        cases stays with
        | true => exact hstack t ht
        | false => exact absurd ht List.not_mem_nil

/-! ## Equal results -/

namespace Row

theorem isKept_eq_true_iff {m : Mask} {r : Row} :
    r.isKept m = true ↔ r.tests?.isSome = true ∧ ∀ t ∈ r.tests, t.holds m = true := by
  unfold isKept
  rw [Bool.and_eq_true, List.all_eq_true]

/-- A line is kept for a mask just if it is kept for a part of the mask, when no mask keeps it or the part holds all
that is tested. -/
theorem isKept_restrict_iff {B : Mask} {r : Row} (hr : ∀ t ∈ r.tests, t.bit < 32) :
    (∀ m, r.isKept m = r.isKept (m &&& B)) ↔
      ((∃ m, r.isKept m = true) → ∀ t ∈ r.tests, B.isSet t.bit = true) := by
  constructor
  · rintro h ⟨m, hm⟩ t ht
    by_contra hB
    rw [Bool.not_eq_true] at hB
    have hmB := (h m).symm.trans hm
    -- The test wants the flag unset, so the line goes when the flag is set as well; the part does not see that.
    have hwanted : t.wanted = false := by
      have := (isKept_eq_true_iff.1 hmB).2 t ht
      rw [Test.holds, Mask.isSet_and, hB, Bool.and_false, beq_iff_eq] at this
      exact this.symm
    have hpart : (m ||| Mask.bit t.bit) &&& B = m &&& B := by
      refine Mask.ext_isSet fun i _ => ?_
      rw [Mask.isSet_and, Mask.isSet_or, Mask.isSet_and, Mask.isSet_bit]
      by_cases hi : t.bit = i
      · rw [← hi, hB, Bool.and_false, Bool.and_false]
      · rw [decide_eq_false hi, Bool.and_false, Bool.or_false]
    have hset := h (m ||| Mask.bit t.bit)
    rw [hpart, hmB] at hset
    have := (isKept_eq_true_iff.1 hset).2 t ht
    rw [Test.holds, hwanted, Mask.isSet_or, Mask.isSet_bit, decide_eq_true (hr t ht), decide_eq_true rfl] at this
    simp at this
  · intro h m
    by_cases hk : ∃ m, r.isKept m = true
    · have hB := h hk
      unfold isKept
      have hall : r.tests.all (Test.holds m) = r.tests.all (Test.holds (m &&& B)) := by
        rw [Bool.eq_iff_iff, List.all_eq_true, List.all_eq_true]
        refine forall₂_congr fun t ht => ?_
        rw [Test.holds, Test.holds, Mask.isSet_and, hB t ht, Bool.and_true]
      rw [hall]
    · have hnone : ∀ m, r.isKept m = false := fun m => Bool.eq_false_iff.2 fun hm => hk ⟨m, hm⟩
      rw [hnone, hnone]

/-- A line shows whether it was kept, unless it is empty. -/
theorem gated_eq_iff {m n : Mask} {r : Row} (hr : r.line ≠ []) :
    r.gated m = r.gated n ↔ r.line = ['\n'] ∨ r.isKept m = r.isKept n := by
  have hreduce : r.line = reduce r.line ↔ r.line = ['\n'] := by
    unfold reduce
    constructor
    · intro h
      split at h
      · exact h
      · exact absurd h hr
    · intro h
      rw [h]
      rfl
  unfold gated
  cases r.isKept m <;> cases r.isKept n <;> simp [hreduce, eq_comm (a := reduce r.line)]

/-- A line that ends in a line feed does so when gated. -/
theorem exists_gated_eq (m : Mask) {r : Row} (h : Text.AreLines [r.line]) (he : Text.endsLine r.line = true) :
    ∃ t, '\n' ∉ t ∧ r.gated m = t ++ ['\n'] := by
  obtain ⟨t, ht, hcase⟩ := h.exists_eq
  rcases hcase with ⟨hend, -⟩ | ⟨-, hline⟩
  · rw [he] at hend
    cases hend
  · unfold gated reduce
    rw [if_pos he]
    split
    · exact ⟨t, ht, hline⟩
    · exact ⟨[], List.not_mem_nil, rfl⟩

end Row

/-- Gated texts are equal just if they are equal line by line. -/
theorem flatten_gated_eq_iff {m n : Mask} {rs : List Row} (h : Text.AreLines (rs.map Row.line)) :
    (rs.map (Row.gated m)).flatten = (rs.map (Row.gated n)).flatten ↔ ∀ r ∈ rs, r.gated m = r.gated n := by
  constructor
  · intro he
    induction rs with
    | nil => exact fun r hr => absurd hr List.not_mem_nil
    | cons r rs ih =>
      obtain ⟨hline, hrest, hcase⟩ := h.of_cons
      rw [List.map_cons, List.map_cons, List.flatten_cons, List.flatten_cons] at he
      have hboth : r.gated m = r.gated n ∧ (rs.map (Row.gated m)).flatten = (rs.map (Row.gated n)).flatten := by
        rcases hcase with hend | hnil
        · obtain ⟨s, hs, hm⟩ := r.exists_gated_eq m hline hend
          obtain ⟨t, ht, hn⟩ := r.exists_gated_eq n hline hend
          rw [hm, hn, List.append_assoc, List.append_assoc, List.singleton_append, List.singleton_append] at he
          obtain ⟨hst, htail⟩ := Text.eq_of_append_cons hs ht he
          exact ⟨by rw [hm, hn, hst], htail⟩
        · cases List.map_eq_nil_iff.1 hnil
          rw [List.map_nil, List.map_nil, List.flatten_nil, List.append_nil, List.append_nil] at he
          exact ⟨he, rfl⟩
      exact List.forall_mem_cons.2 ⟨hboth.1, ih hrest hboth.2⟩
  · intro he
    rw [List.map_congr_left he]

theorem Row.newlines_gated (m : Mask) {r : Row} (h : Text.AreLines [r.line]) :
    (r.gated m).newlines = r.line.newlines := by
  obtain ⟨t, ht, hcase⟩ := h.exists_eq
  have hcount : Text.newlines t = 0 := List.count_eq_zero.2 ht
  unfold gated reduce
  split
  · rfl
  · rcases hcase with ⟨hend, hline⟩ | ⟨hend, hline⟩
    · rw [hend, if_neg Bool.false_ne_true, hline, hcount]
      rfl
    · rw [hend, if_pos rfl, hline]
      show 1 = List.count '\n' (t ++ ['\n'])
      rw [List.count_append, List.count_eq_zero.2 ht]
      rfl

end Gate

/-! ## Gated texts -/

def gateRows (v : Vocabulary) (t : Text) : Except (UInt32 × ConditionalFault) (List Gate.Row) :=
  Gate.rows v 1 [] t.splitLines

/-- Gating for a mask keeps the lines whose tests hold. It fails for every mask or for none. -/
theorem gate_eq (v : Vocabulary) (m : Mask) (t : Text) :
    gate v m t =
      match gateRows v t with
      | .error (line, fault) => .error (.conditional line fault)
      | .ok rs => .ok (rs.map (Gate.Row.gated m)).flatten := by
  unfold gate gateRows
  have h := Gate.gateLines_frames v m 1 [] t.splitLines
  rw [Gate.frames] at h
  rw [h]
  cases Gate.rows v 1 [] t.splitLines <;> rfl

theorem areLines_gateRows {v : Vocabulary} {t : Text} {rs : List Gate.Row} (h : gateRows v t = .ok rs) :
    Text.AreLines (rs.map Gate.Row.line) := by
  rw [Gate.map_line_rows h]
  exact Text.areLines_splitLines t

/-- The tests in a text are for declared flags that its lines refer to. -/
theorem bit_of_gateRows {v : Vocabulary} {t : Text} {rs : List Gate.Row} (h : gateRows v t = .ok rs) {P : Nat → Prop}
    (hrefs : ∀ l ∈ t.splitLines, ∀ i, Gate.bitOf? v (Directive.flagRef? l) = some i → P i) :
    ∀ r ∈ rs, ∀ t ∈ r.tests, P t.bit :=
  Gate.bit_of_mem_tests h (fun _ ht => absurd ht List.not_mem_nil) hrefs

theorem Vocabulary.lt_of_bitOf? {v : Vocabulary} {name : String} {i : Nat} (h : v.bitOf? name = some i) : i < 32 := by
  obtain ⟨s, hs, -⟩ := Option.bind_eq_some_iff.1 (bitOf?_eq_some_iff.1 h)
  have := (List.getElem?_eq_some_iff.1 hs).1
  have := v.size_le
  unfold maxFlags at this
  omega

/-- A text is gated alike for a mask and for the part of it in `B`, for every mask, just if `B` has every flag that is
tested around a line. Lines that are empty anyway or that no mask keeps do not count. -/
theorem gate_restrict_iff (v : Vocabulary) (B : Mask) (t : Text) :
    (∀ m, gate v m t = gate v (m &&& B) t) ↔
      ∀ rs, gateRows v t = .ok rs → ∀ r ∈ rs, r.line ≠ ['\n'] → (∃ m, r.isKept m = true) →
        ∀ test ∈ r.tests, B.isSet test.bit = true := by
  cases hrows : gateRows v t with
  | error e =>
    constructor
    · rintro - rs h
      cases h
    · intro _ m
      rw [gate_eq, gate_eq, hrows]
  | ok rs =>
    have hlines := areLines_gateRows hrows
    have hlt := bit_of_gateRows hrows (P := (· < 32)) fun l _ i hi => by
      obtain ⟨name, -, h⟩ := Option.bind_eq_some_iff.1 hi
      exact Vocabulary.lt_of_bitOf? h
    have hne : ∀ r ∈ rs, r.line ≠ [] := fun r hr h => by
      have := Text.nil_not_mem_splitLines t
      rw [← Gate.map_line_rows hrows, ← h] at this
      exact this (List.mem_map_of_mem hr)
    have hgate : (∀ m, gate v m t = gate v (m &&& B) t) ↔
        ∀ r ∈ rs, r.line ≠ ['\n'] → ∀ m, r.isKept m = r.isKept (m &&& B) := by
      simp only [gate_eq, hrows, Except.ok.injEq, Gate.flatten_gated_eq_iff hlines]
      constructor
      · intro h r hr hnl m
        exact ((Gate.Row.gated_eq_iff (hne r hr)).1 (h m r hr)).resolve_left hnl
      · intro h m r hr
        refine (Gate.Row.gated_eq_iff (hne r hr)).2 ?_
        by_cases hnl : r.line = ['\n']
        · exact Or.inl hnl
        · exact Or.inr (h r hr hnl m)
    rw [hgate]
    constructor
    · rintro h _ ⟨⟩ r hr hnl
      exact (Gate.Row.isKept_restrict_iff (hlt r hr)).1 (h r hr hnl)
    · intro h r hr hnl
      exact (Gate.Row.isKept_restrict_iff (hlt r hr)).2 (h rs rfl r hr hnl)

/-- That masks are gated like their parts in `B` says that masks with the same part are gated alike. -/
theorem gate_restrict_iff_shared (v : Vocabulary) (B : Mask) (t : Text) :
    (∀ m, gate v m t = gate v (m &&& B) t) ↔ ∀ m n, m &&& B = n &&& B → gate v m t = gate v n t := by
  constructor
  · intro h m n hshared
    rw [h m, h n, hshared]
  · intro h m
    refine h m (m &&& B) ?_
    rw [BitVec.and_assoc, BitVec.and_self]

theorem newlines_gate {v : Vocabulary} {m : Mask} {t out : Text} (h : gate v m t = .ok out) :
    out.newlines = t.newlines := by
  rw [gate_eq] at h
  cases hrows : gateRows v t with
  | error e =>
    rw [hrows] at h
    cases h
  | ok rs =>
    rw [hrows] at h
    cases h
    have hlines := areLines_gateRows hrows
    have ht : (rs.map Gate.Row.line).flatten = t := by
      rw [Gate.map_line_rows hrows, Text.flatten_splitLines]
    rw [← ht]
    unfold Text.newlines
    rw [List.count_flatten, List.count_flatten, List.map_map, List.map_map]
    refine congrArg List.sum (List.map_congr_left fun r hr => ?_)
    exact r.newlines_gated m (hlines.of_mem (List.mem_map_of_mem hr))

/-- Whether gating succeeds does not depend on the mask. -/
theorem exists_gate_iff (v : Vocabulary) (m n : Mask) (t : Text) :
    (∃ out, gate v m t = .ok out) ↔ ∃ out, gate v n t = .ok out := by
  rw [gate_eq, gate_eq]
  cases gateRows v t <;> simp

end ShaderVariant
