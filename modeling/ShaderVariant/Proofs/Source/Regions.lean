import ShaderVariant.Proofs.Source.Nesting

/-!
# Selected regions

Gating follows the tree of conditionals: a line stays just if every branch on a declared flag around it is the one that
the mask selects, and it is no line of such a conditional itself.

* `Gate.Runs` : what the lines of a text do to the open conditionals, with the row of each line;
* `Nesting.runs_block`, `runs_branches` : over a block the open conditionals stay as they are, if each conditional on a
  flag has one `#else` at most and no `#elif`;
* `Nesting.Opened` : lines as a tree whose open conditionals are those of the gate;
* `gate_selects` : gating in terms of the tree.
-/

namespace ShaderVariant

open Nesting (Role Separator Block Branches Conditional flagTest?)

namespace Gate

/-! ## Steps by the role of a line -/

namespace Branch

def ofOpening (v : Vocabulary) (l : Text) (line : UInt32) : Branch :=
  match flagTest? v l with
  | some test => flag test false line
  | none => foreign line

/-- Whether another branch may follow a separator: on a flag behind the first `#else` only. -/
def admits : Branch → Separator → Bool
  | flag _ seenElse _, .otherwise => !seenElse
  | flag .., .elif => false
  | foreign _, _ => true

def switched : Branch → Branch
  | flag test _ line => flag test.negated true line
  | foreign line => foreign line

def behind (c : Branch) : List Separator → Branch
  | [] => c
  | _ :: ks => c.switched.behind ks

def allows (c : Branch) : List Separator → Prop
  | [] => True
  | k :: ks => c.admits k = true ∧ c.switched.allows ks

theorem allows_append (c : Branch) (ks : List Separator) (k : Separator) :
    c.allows (ks ++ [k]) ↔ c.allows ks ∧ (c.behind ks).admits k = true := by
  induction ks generalizing c with
  | nil => simp [allows, behind]
  | cons j ks ih => rw [List.cons_append, allows, allows, behind, ih, and_assoc]

theorem test?_ofOpening (v : Vocabulary) (l : Text) (line : UInt32) : (ofOpening v l line).test? = flagTest? v l := by
  unfold ofOpening
  cases flagTest? v l <;> rfl

theorem line_ofOpening (v : Vocabulary) (l : Text) (line : UInt32) : (ofOpening v l line).line = line := by
  unfold ofOpening
  cases flagTest? v l <;> rfl

theorem test?_switched (c : Branch) : c.switched.test? = c.test?.map Test.negated := by
  cases c <;> rfl

theorem isSome_test?_behind (c : Branch) (ks : List Separator) : (c.behind ks).test?.isSome = c.test?.isSome := by
  induction ks generalizing c with
  | nil => rfl
  | cons k ks ih => rw [behind, ih, test?_switched, Option.isSome_map]

theorem behind_append (c : Branch) (ks js : List Separator) : c.behind (ks ++ js) = (c.behind ks).behind js := by
  induction ks generalizing c with
  | nil => rfl
  | cons k ks ih => exact ih c.switched

theorem line_behind (c : Branch) (ks : List Separator) : (c.behind ks).line = c.line := by
  induction ks generalizing c with
  | nil => rfl
  | cons k ks ih =>
    rw [behind, ih]
    cases c <;> rfl

end Branch

theorem tests_cons (c : Branch) (stack : List Branch) : tests (c :: stack) = c.test?.toList ++ tests stack := by
  cases c <;> rfl

section Steps

variable {v : Vocabulary} {l : Text} (line : UInt32) (c : Branch) (stack : List Branch)

theorem step_plain (h : Role.ofLine l = .plain) :
    stepBranches v line stack (Directive.ofLine? l) = .ok (true, stack) := by
  unfold Role.ofLine at h
  generalize Directive.ofLine? l = d at h ⊢
  match d with
  | none | some .other | some (.inclusion _) => rfl
  | some (.ifdef _) | some (.ifndef _) | some .ifExpr | some .elifExpr | some .elseBranch | some .endif => cases h

theorem step_opening (h : Role.ofLine l = .opening) :
    stepBranches v line stack (Directive.ofLine? l) = .ok ((flagTest? v l).isNone, .ofOpening v l line :: stack) := by
  unfold Branch.ofOpening flagTest?
  unfold Role.ofLine at h
  generalize Directive.ofLine? l = d at h ⊢
  match d with
  | some (.ifdef name) | some (.ifndef name) =>
    simp only [stepBranches, openBranch]
    cases bitOf? v name <;> rfl
  | some .ifExpr => rfl
  | none | some .other | some (.inclusion _) | some .elifExpr | some .elseBranch | some .endif => cases h

theorem step_separator {k : Separator} (h : Role.ofLine l = .separator k) :
    stepBranches v line (c :: stack) (Directive.ofLine? l) =
      if c.admits k then .ok (c.test?.isNone, c.switched :: stack) else .error k.refused := by
  unfold Role.ofLine at h
  generalize Directive.ofLine? l = d at h ⊢
  match d with
  | some .elifExpr =>
    cases h
    cases c <;> rfl
  | some .elseBranch =>
    cases h
    match c with
    | .flag _ true _ | .flag _ false _ | .foreign _ => rfl
  | none | some .other | some (.inclusion _) | some (.ifdef _) | some (.ifndef _) | some .ifExpr | some .endif =>
    cases h

theorem step_separator_outside {k : Separator} (h : Role.ofLine l = .separator k) :
    stepBranches v line [] (Directive.ofLine? l) = .error k.unmatched := by
  unfold Role.ofLine at h
  generalize Directive.ofLine? l = d at h ⊢
  match d with
  | some .elifExpr | some .elseBranch =>
    cases h
    rfl
  | none | some .other | some (.inclusion _) | some (.ifdef _) | some (.ifndef _) | some .ifExpr | some .endif =>
    cases h

theorem step_closing (h : Role.ofLine l = .closing) :
    stepBranches v line (c :: stack) (Directive.ofLine? l) = .ok (c.test?.isNone, stack) := by
  unfold Role.ofLine at h
  generalize Directive.ofLine? l = d at h ⊢
  match d with
  | some .endif => cases c <;> rfl
  | none | some .other | some (.inclusion _) | some (.ifdef _) | some (.ifndef _) | some .ifExpr | some .elifExpr
  | some .elseBranch => cases h

theorem step_closing_outside (h : Role.ofLine l = .closing) :
    stepBranches v line [] (Directive.ofLine? l) = .error .unmatchedEndif := by
  unfold Role.ofLine at h
  generalize Directive.ofLine? l = d at h ⊢
  match d with
  | some .endif => rfl
  | none | some .other | some (.inclusion _) | some (.ifdef _) | some (.ifndef _) | some .ifExpr | some .elifExpr
  | some .elseBranch => cases h

end Steps

/-! ## Separators that are allowed -/

namespace Branch

theorem allows_foreign (line : UInt32) (ks : List Separator) : (foreign line).allows ks := by
  induction ks with
  | nil => trivial
  | cons k ks ih => exact ⟨rfl, ih⟩

theorem allows_flag_iff (test : Test) (line : UInt32) (ks : List Separator) :
    (flag test false line).allows ks ↔ Separator.elif ∉ ks ∧ ks.count .otherwise ≤ 1 := by
  match ks with
  | [] => simp [allows]
  | .elif :: ks => simp [allows, admits]
  | [.otherwise] => simp [allows, admits]
  | .otherwise :: .elif :: ks => simp [allows, admits, switched]
  | .otherwise :: .otherwise :: ks => simp [allows, admits, switched]

/-- The separators of a conditional are allowed just if it is proper. -/
theorem allows_ofOpening_iff (v : Vocabulary) (c : Conditional) (line : UInt32) :
    (ofOpening v c.opening line).allows c.separators ↔ c.Proper v := by
  unfold ofOpening Conditional.Proper
  cases flagTest? v c.opening with
  | none => exact iff_of_true (allows_foreign line _) fun h => absurd h Bool.false_ne_true
  | some test => exact (allows_flag_iff test line _).trans ⟨fun h _ => h, fun h => h rfl⟩

end Branch

/-! ## Runs -/

def rowOf (stays : Bool) (stack : List Branch) (l : Text) : Row := ⟨l, if stays then some (tests stack) else none⟩

/-- The lines have these rows, the first line having the number `line`, and leave the conditionals `last` open. -/
def Runs (v : Vocabulary) (line : UInt32) (stack : List Branch) : List Text → List Row → List Branch → Prop
  | [], rs, last => rs = [] ∧ last = stack
  | l :: ls, rs, last => ∃ stays after rest, stepBranches v line stack (Directive.ofLine? l) = .ok (stays, after) ∧
      Runs v (line + 1) after ls rest last ∧ rs = rowOf stays stack l :: rest

section Runs

variable {v : Vocabulary} {line : UInt32} {stack last : List Branch} {ls : List Text} {rs : List Row}

theorem runs_cons {l : Text} {stays : Bool} {after : List Branch}
    (h : stepBranches v line stack (Directive.ofLine? l) = .ok (stays, after)) :
    Runs v line stack (l :: ls) rs last ↔
      ∃ rest, Runs v (line + 1) after ls rest last ∧ rs = rowOf stays stack l :: rest := by
  constructor
  · rintro ⟨_, _, rest, hstep, hrun, rfl⟩
    cases h.symm.trans hstep
    exact ⟨rest, hrun, rfl⟩
  · rintro ⟨rest, hrun, rfl⟩
    exact ⟨stays, after, rest, h, hrun, rfl⟩

theorem rows_cons {l : Text} {stays : Bool} {after : List Branch}
    (h : stepBranches v line stack (Directive.ofLine? l) = .ok (stays, after)) :
    rows v line stack (l :: ls) = (rows v (line + 1) after ls).map (rowOf stays stack l :: ·) := by
  simp only [rows, h]
  cases rows v (line + 1) after ls <;> rfl

theorem rows_cons_error {l : Text} {fault : ConditionalFault}
    (h : stepBranches v line stack (Directive.ofLine? l) = .error fault) :
    rows v line stack (l :: ls) = .error (line, fault) := by
  rw [rows, h]

/-- A text has rows just if its lines leave nothing open. -/
theorem rows_eq_ok_iff : rows v line stack ls = .ok rs ↔ Runs v line stack ls rs [] := by
  induction ls generalizing line stack rs with
  | nil =>
    cases stack with
    | nil => exact Iff.intro (fun h => ⟨(Except.ok.inj h).symm, rfl⟩) fun h => congrArg Except.ok h.1.symm
    | cons c stack => exact Iff.intro nofun fun h => nomatch h.2
  | cons l ls ih =>
    cases hstep : stepBranches v line stack (Directive.ofLine? l) with
    | error fault =>
      rw [rows_cons_error hstep]
      refine Iff.intro nofun ?_
      rintro ⟨_, _, _, hok, -⟩
      cases hstep.symm.trans hok
    | ok r =>
      rw [rows_cons hstep, runs_cons hstep]
      simp only [← ih]
      cases rows v (line + 1) r.2 ls with
      | error e => exact Iff.intro nofun fun ⟨_, h, _⟩ => nomatch h
      | ok rest => simp [Except.map, eq_comm]

theorem runs_append {xs ys : List Text} :
    Runs v line stack (xs ++ ys) rs last ↔
      ∃ rs₁ mid rs₂, Runs v line stack xs rs₁ mid ∧ Runs v (line + UInt32.ofNat xs.length) mid ys rs₂ last ∧
        rs = rs₁ ++ rs₂ := by
  induction xs generalizing line stack rs with
  | nil =>
    rw [List.length_nil, Text.lineAfter_zero]
    constructor
    · exact fun h => ⟨[], stack, rs, ⟨rfl, rfl⟩, h, rfl⟩
    · rintro ⟨_, _, _, ⟨rfl, rfl⟩, h, rfl⟩
      exact h
  | cons x xs ih =>
    rw [List.length_cons, ← Text.lineAfter_succ]
    constructor
    · rintro ⟨stays, after, rest, hstep, hrun, rfl⟩
      obtain ⟨rs₁, mid, rs₂, h₁, h₂, rfl⟩ := ih.1 hrun
      exact ⟨_, mid, rs₂, ⟨stays, after, rs₁, hstep, h₁, rfl⟩, h₂, rfl⟩
    · rintro ⟨_, mid, rs₂, ⟨stays, after, rs₁, hstep, h₁, rfl⟩, h₂, rfl⟩
      exact ⟨stays, after, rs₁ ++ rs₂, hstep, ih.2 ⟨rs₁, mid, rs₂, h₁, h₂, rfl⟩, rfl⟩

end Runs

end Gate

/-! ## Runs over trees -/

namespace Nesting

open Gate (Branch Runs tests rowOf runs_cons runs_append)

theorem rowOf_isNone (c : Branch) (stack : List Branch) (l : Text) :
    rowOf c.test?.isNone (c :: stack) l = ⟨l, if c.test?.isSome then none else some (tests stack)⟩ := by
  cases c <;> rfl

theorem rowOf_opening (test? : Option Gate.Test) (stack : List Branch) (l : Text) :
    rowOf test?.isNone stack l = ⟨l, if test?.isSome then none else some (tests stack)⟩ := by
  cases test? <;> rfl

mutual

/-- Over a block the open conditionals stay as they are, and the rows are those of the tree. -/
theorem runs_block (v : Vocabulary) (b : Block) (line : UInt32) (stack last : List Branch) (rs : List Gate.Row) :
    Runs v line stack b.lines rs last ↔
      rs = b.rows v (tests stack) ∧ last = stack ∧ ∀ k ∈ b.conditionals, k.Proper v := by
  match b with
  | .empty => simp [Block.lines, Block.rows, Block.conditionals, Runs]
  | .line l plain rest =>
    rw [Block.lines, Block.rows, Block.conditionals, runs_cons (Gate.step_plain line stack plain)]
    constructor
    · rintro ⟨rs', hrun, rfl⟩
      obtain ⟨rfl, hlast, hproper⟩ := (runs_block v rest _ _ _ _).1 hrun
      exact ⟨rfl, hlast, hproper⟩
    · rintro ⟨rfl, hlast, hproper⟩
      exact ⟨_, (runs_block v rest _ _ _ _).2 ⟨rfl, hlast, hproper⟩, rfl⟩
  | .conditional opening opens branches closing closes rest =>
    rw [Block.lines, Block.rows, Block.conditionals, runs_cons (Gate.step_opening line stack opens),
      List.forall_mem_cons, List.forall_mem_append, ← Branch.allows_ofOpening_iff v _ line]
    have hclose := Gate.step_closing (v := v) (l := closing) (line + 1 + UInt32.ofNat branches.lines.length)
      ((Branch.ofOpening v opening line).behind branches.separators) stack closes
    constructor
    · rintro ⟨rs', hrun, rfl⟩
      obtain ⟨rs₁, mid, rs₂, hbranches, htail, rfl⟩ := runs_append.1 hrun
      obtain ⟨rfl, rfl, hallows, hinner⟩ := (runs_branches v branches _ _ _ _ _).1 hbranches
      obtain ⟨rs₃, hrest, rfl⟩ := (runs_cons hclose).1 htail
      obtain ⟨rfl, hlast, hproper⟩ := (runs_block v rest _ _ _ _).1 hrest
      refine ⟨?_, hlast, hallows, hinner, hproper⟩
      rw [rowOf_isNone, rowOf_opening, Branch.isSome_test?_behind, Branch.test?_ofOpening]
    · rintro ⟨rfl, hlast, hallows, hinner, hproper⟩
      refine ⟨_, runs_append.2 ⟨_, _, _, (runs_branches v branches _ _ _ _ _).2 ⟨rfl, rfl, hallows, hinner⟩,
        (runs_cons hclose).2 ⟨_, (runs_block v rest _ _ _ _).2 ⟨rfl, hlast, hproper⟩, rfl⟩, rfl⟩, ?_⟩
      rw [rowOf_isNone, rowOf_opening, Branch.isSome_test?_behind, Branch.test?_ofOpening]

/-- Over branches the innermost conditional passes their separators, which it has to allow. -/
theorem runs_branches (v : Vocabulary) (b : Branches) (c : Branch) (line : UInt32) (stack last : List Branch)
    (rs : List Gate.Row) :
    Runs v line (c :: stack) b.lines rs last ↔
      rs = b.rows v c.test? (tests stack) ∧ last = c.behind b.separators :: stack ∧ c.allows b.separators ∧
        ∀ k ∈ b.conditionals, k.Proper v := by
  match b with
  | .last body =>
    rw [Branches.lines, Branches.rows, Branches.conditionals, runs_block v body, Gate.tests_cons]
    simp [Branches.separators, Branch.behind, Branch.allows]
  | .more body separator kind separates others =>
    rw [Branches.lines, Branches.rows, Branches.conditionals, Branches.separators, List.forall_mem_append,
      Branch.behind, Branch.allows, ← Gate.tests_cons, ← Branch.test?_switched]
    have hstep := Gate.step_separator (v := v) (line + UInt32.ofNat body.lines.length) c stack separates
    constructor
    · intro hrun
      obtain ⟨rs₁, mid, rs₂, hbody, htail, rfl⟩ := runs_append.1 hrun
      obtain ⟨rfl, rfl, hinner⟩ := (runs_block v body _ _ _ _).1 hbody
      cases hadmits : c.admits kind with
      | false =>
        rw [hadmits, if_neg Bool.false_ne_true] at hstep
        simp [Runs, hstep] at htail
      | true =>
        rw [hadmits, if_pos rfl] at hstep
        obtain ⟨rs₃, hothers, rfl⟩ := (runs_cons hstep).1 htail
        obtain ⟨rfl, hlast, hallows, hproper⟩ := (runs_branches v others _ _ _ _ _).1 hothers
        exact ⟨by rw [rowOf_isNone], hlast, ⟨rfl, hallows⟩, hinner, hproper⟩
    · rintro ⟨rfl, hlast, ⟨hadmits, hallows⟩, hinner, hproper⟩
      rw [hadmits, if_pos rfl] at hstep
      refine runs_append.2 ⟨_, _, _, (runs_block v body _ _ _ _).2 ⟨rfl, rfl, hinner⟩, (runs_cons hstep).2
        ⟨_, (runs_branches v others _ _ _ _ _).2 ⟨rfl, hlast, hallows, hproper⟩, rfl⟩, ?_⟩
      rw [rowOf_isNone]

end

/-! ## The tree of lines that were read -/

/-- Lines as a tree with the open conditionals `stack`: a block, or lines in which the last conditional is not closed
and that line and what follows it. -/
inductive Opened (v : Vocabulary) : List Text → List Branch → Prop
  | outside (b : Block) : Opened v b.lines []
  | inside {outer : List Text} {stack : List Branch} (h : Opened v outer stack) {opening : Text}
      (opens : Role.ofLine opening = .opening) (branches : Branches)
      (allowed : (Branch.ofOpening v opening (UInt32.ofNat (outer.length + 1))).allows branches.separators) :
      Opened v (outer ++ opening :: branches.lines)
        ((Branch.ofOpening v opening (UInt32.ofNat (outer.length + 1))).behind branches.separators :: stack)

namespace Opened

variable {v : Vocabulary} {before : List Text} {stack : List Branch}

theorem append (h : Opened v before stack) (b : Block) : Opened v (before ++ b.lines) stack := by
  cases h with
  | outside c =>
    rw [← Block.lines_append]
    exact .outside _
  | inside h opens branches allowed =>
    rw [← Branches.separators_append branches b] at allowed ⊢
    rw [List.append_assoc, List.cons_append, ← Branches.lines_append]
    exact h.inside opens _ allowed

/-- A line that the gate passes continues the tree as the gate continues its conditionals. -/
theorem step (h : Opened v before stack) {l : Text} {stays : Bool} {after : List Branch}
    (hstep : Gate.stepBranches v (UInt32.ofNat (before.length + 1)) stack (Directive.ofLine? l) = .ok (stays, after)) :
    Opened v (before ++ [l]) after := by
  cases hrole : Role.ofLine l with
  | plain =>
    cases (Gate.step_plain _ _ hrole).symm.trans hstep
    exact h.append (.line l hrole .empty)
  | opening =>
    cases (Gate.step_opening _ _ hrole).symm.trans hstep
    exact h.inside hrole (.last .empty) trivial
  | separator kind =>
    cases h with
    | outside b => cases (Gate.step_separator_outside _ hrole).symm.trans hstep
    | inside h opens branches allowed =>
      rw [Gate.step_separator _ _ _ hrole] at hstep
      split at hstep
      · next hadmits =>
        cases hstep
        have hinside := h.inside opens (branches.separate l kind hrole) (by
          rw [Branches.separators_separate, Branch.allows_append]
          exact ⟨allowed, hadmits⟩)
        rw [Branches.lines_separate, Branches.separators_separate, Branch.behind_append] at hinside
        rwa [List.append_assoc]
      · cases hstep
  | closing =>
    cases h with
    | outside b => cases (Gate.step_closing_outside _ hrole).symm.trans hstep
    | inside h opens branches allowed =>
      cases (Gate.step_closing _ _ _ hrole).symm.trans hstep
      have hclosed := h.append (.conditional _ opens branches l hrole .empty)
      rw [Block.lines, Block.lines] at hclosed
      rwa [List.append_assoc]

theorem run (h : Opened v before stack) {ls : List Text} {rs : List Gate.Row} {last : List Branch}
    (hrun : Runs v (UInt32.ofNat (before.length + 1)) stack ls rs last) : Opened v (before ++ ls) last := by
  induction ls generalizing before stack rs with
  | nil =>
    obtain ⟨-, rfl⟩ := hrun
    rwa [List.append_nil]
  | cons l ls ih =>
    obtain ⟨stays, after, rest, hstep, hrun, rfl⟩ := hrun
    rw [← List.singleton_append, ← List.append_assoc]
    refine ih (h.step hstep) (?_ : Runs v _ after ls rest last)
    rwa [List.length_append, List.length_singleton, UInt32.ofNat_add]

end Opened

/-- The lines of a text that the gate has passed. -/
theorem opened_of_runs {v : Vocabulary} {ls : List Text} {rs : List Gate.Row} {last : List Branch}
    (h : Runs v 1 [] ls rs last) : Opened v ls last :=
  (Opened.outside .empty).run h

/-- The gate passes a text just if it is a block whose conditionals are proper; the rows are those of the tree. -/
theorem gateRows_eq_ok_iff {v : Vocabulary} {t : Text} {rs : List Gate.Row} :
    gateRows v t = .ok rs ↔
      ∃ b : Block, b.lines = t.splitLines ∧ (∀ k ∈ b.conditionals, k.Proper v) ∧ rs = b.rows v [] := by
  unfold gateRows
  rw [Gate.rows_eq_ok_iff]
  constructor
  · intro h
    generalize hlines : t.splitLines = ls at h
    cases opened_of_runs h with
    | outside b =>
      obtain ⟨hrows, -, hproper⟩ := (runs_block v b _ _ _ _).1 h
      exact ⟨b, rfl, hproper, hrows⟩
  · rintro ⟨b, hlines, hproper, rfl⟩
    rw [← hlines]
    exact (runs_block v b _ _ _ _).2 ⟨rfl, rfl, hproper⟩

end Nesting

/-! ## Gated texts -/

theorem gate_eq_ok_iff {v : Vocabulary} {m : Mask} {t out : Text} :
    gate v m t = .ok out ↔ ∃ rs, gateRows v t = .ok rs ∧ out = (rs.map (Gate.Row.gated m)).flatten := by
  rw [gate_eq]
  cases gateRows v t <;> simp [eq_comm]

/-- A gated text is that of its one tree of conditionals: line for line, a line is there as it was if it is no line of a
conditional on a declared flag itself and the mask selects every branch of such a conditional that holds it, and of
every other line nothing but its line feed is left. Other conditionals have no part in that. -/
theorem gate_selects {v : Vocabulary} {m : Mask} {t out : Text} (h : gate v m t = .ok out) :
    ∃ b : Block, b.lines = t.splitLines ∧ (∀ c : Block, c.lines = t.splitLines → c = b) ∧
      (b.rows v []).map Gate.Row.line = t.splitLines ∧
      out = ((b.rows v []).map fun r =>
        if r.tests?.any (fun tests => tests.all fun test => m.isSet test.bit == test.wanted) then r.line
        else if r.line.endsLine then ['\n'] else []).flatten ∧
      out.newlines = t.newlines := by
  obtain ⟨rs, hrows, rfl⟩ := gate_eq_ok_iff.1 h
  obtain ⟨b, hlines, hproper, rfl⟩ := Nesting.gateRows_eq_ok_iff.1 hrows
  refine ⟨b, hlines, fun c hc => Block.eq_of_lines_eq (hc.trans hlines.symm), Gate.map_line_rows hrows, ?_,
    newlines_gate h⟩
  congr 2
  funext r
  unfold Gate.Row.gated Gate.Row.isKept Gate.Row.tests
  cases r.tests? <;> rfl

def twoFlags : Vocabulary := ((Vocabulary.ofNames ["SKINNING", "SHADOWS"]).toOption).getD .empty

/-- Conditionals on flags and others inside each other, and a last line without a line feed. -/
def nestedText : Text :=
  "#if X\n#ifdef SKINNING\nskin\n#else\nrigid\n#endif\n#endif\n#ifndef SHADOWS\n#if X\nlight\n#endif\n#endif".toList

theorem gate_selects_nestedText :
    ∃ out, gate twoFlags 1 nestedText = .ok out ∧
      out = "#if X\n\nskin\n\n\n\n#endif\n\n#if X\nlight\n#endif\n".toList ∧
      ∃ b : Block, b.lines = nestedText.splitLines ∧ (∀ c : Block, c.lines = nestedText.splitLines → c = b) ∧
        (b.rows twoFlags []).map Gate.Row.line = nestedText.splitLines ∧
        out = ((b.rows twoFlags []).map fun r =>
          if r.tests?.any (fun tests => tests.all fun test => Mask.isSet 1 test.bit == test.wanted) then r.line
          else if r.line.endsLine then ['\n'] else []).flatten ∧
        out.newlines = nestedText.newlines := by
  have h : gate twoFlags 1 nestedText = .ok "#if X\n\nskin\n\n\n\n#endif\n\n#if X\nlight\n#endif\n".toList := by
    decide +kernel
  exact ⟨_, h, rfl, gate_selects h⟩

end ShaderVariant
