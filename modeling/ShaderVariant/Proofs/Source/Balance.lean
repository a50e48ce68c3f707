import ShaderVariant.Proofs.Source.Regions

/-!
# Which texts are gated

Whether a text is gated, and where it goes wrong if not, does not depend on the mask.

* `Nesting.Offends` : a line that cannot stand behind the lines before it, and what is wrong with it;
* `Nesting.not_offends`, `offends_of_step` : the gate fails at a line just if it offends;
* `gate_accepts` : the texts that are gated are those with balanced lines and proper conditionals on flags; for all
  others the first line that offends is reported, or the innermost conditional that stays open.
-/

namespace ShaderVariant

open Nesting (Role Separator Block Branches Conditional flagTest? Balanced)

namespace Nesting

open Gate (Branch Runs runs_cons runs_append)

variable {v : Vocabulary}

/-- The innermost conditional that is open behind some lines is on a declared flag; `ks` are its separators so far. -/
def InFlag (v : Vocabulary) (before : List Text) (ks : List Separator) : Prop :=
  ∃ outer opening, ∃ branches : Branches, before = outer ++ opening :: branches.lines ∧
    (flagTest? v opening).isSome = true ∧ branches.separators = ks

/-- A line cannot stand behind some lines: it belongs to a conditional where none is open, or it is an `#elif` or
another `#else` of a conditional on a declared flag. -/
inductive Offends (v : Vocabulary) (before : List Text) (l : Text) : ConditionalFault → Prop
  | elifOutside (h : Role.ofLine l = .separator .elif) (closed : Balanced before) : Offends v before l .unmatchedElif
  | elseOutside (h : Role.ofLine l = .separator .otherwise) (closed : Balanced before) :
      Offends v before l .unmatchedElse
  | endifOutside (h : Role.ofLine l = .closing) (closed : Balanced before) : Offends v before l .unmatchedEndif
  | elifOnFlag (h : Role.ofLine l = .separator .elif) {ks : List Separator} (opened : InFlag v before ks) :
      Offends v before l .elifOnFlag
  | secondElse (h : Role.ofLine l = .separator .otherwise) {ks : List Separator} (opened : InFlag v before ks)
      (first : Separator.otherwise ∈ ks) : Offends v before l .duplicateElse

def NoOffence (v : Vocabulary) (ls : List Text) : Prop :=
  ∀ before l after fault, ls = before ++ l :: after → ¬ Offends v before l fault

/-! ## Conditionals on flags -/

theorem admits_elif (c : Branch) : c.admits .elif = c.test?.isNone := by
  cases c <;> rfl

/-- A conditional on a flag admits no `#elif`, wherever it stands. -/
theorem admits_elif_behind {c : Branch} (h : c.test?.isSome = true) (ks : List Separator) :
    (c.behind ks).admits .elif = false := by
  rw [admits_elif, ← Option.not_isSome, Branch.isSome_test?_behind, h]
  rfl

theorem admits_of_foreign {c : Branch} (h : c.test? = none) (k : Separator) : c.admits k = true := by
  cases c with
  | flag => cases h
  | foreign => rfl

/-- Behind a separator a conditional on a flag admits no `#else`. -/
theorem admits_otherwise_switched {c : Branch} (h : c.test?.isSome = true) (ks : List Separator) :
    (c.switched.behind ks).admits .otherwise = false := by
  induction ks generalizing c with
  | nil =>
    cases c with
    | flag => rfl
    | foreign => cases h
  | cons k ks ih =>
    refine ih ?_
    rwa [Branch.test?_switched, Option.isSome_map]

theorem admits_otherwise_ofOpening (v : Vocabulary) (l : Text) (line : UInt32) :
    (Branch.ofOpening v l line).admits .otherwise = true := by
  unfold Branch.ofOpening
  cases flagTest? v l <;> rfl

/-! ## Faults of the gate -/

theorem not_offends {before after : List Text} {l : Text} {rs : List Gate.Row} {last : List Branch}
    (hrun : Runs v 1 [] (before ++ l :: after) rs last) (fault : ConditionalFault) : ¬ Offends v before l fault := by
  obtain ⟨rs₁, mid, rs₂, hbefore, hl, -⟩ := runs_append.1 hrun
  obtain ⟨stays, next, -, hstep, -, -⟩ := hl
  have houtside : Balanced before → mid = [] := by
    rintro ⟨b, rfl⟩
    exact ((runs_block v b _ _ _ _).1 hbefore).2.1
  have hinside : ∀ ks, InFlag v before ks →
      ∃ (c : Branch) (stack : List Branch), c.test?.isSome = true ∧ mid = c.behind ks :: stack := by
    rintro ks ⟨outer, opening, branches, rfl, hflag, rfl⟩
    obtain ⟨_, stack, _, -, hinner, -⟩ := runs_append.1 hbefore
    obtain ⟨_, hbranches, -⟩ := (runs_cons (Gate.step_opening _ _ (role_of_flagTest? hflag))).1 hinner
    obtain ⟨-, hmid, -⟩ := (runs_branches v branches _ _ _ _ _).1 hbranches
    exact ⟨_, stack, by rwa [Branch.test?_ofOpening], hmid⟩
  rintro (⟨h, hclosed⟩ | ⟨h, hclosed⟩ | ⟨h, hclosed⟩ | ⟨h, hflag⟩ | ⟨h, hflag, hfirst⟩)
  · cases houtside hclosed
    cases (Gate.step_separator_outside _ h).symm.trans hstep
  · cases houtside hclosed
    cases (Gate.step_separator_outside _ h).symm.trans hstep
  · cases houtside hclosed
    cases (Gate.step_closing_outside _ h).symm.trans hstep
  · obtain ⟨c, stack, hc, rfl⟩ := hinside _ hflag
    rw [Gate.step_separator _ _ _ h, admits_elif_behind hc] at hstep
    cases hstep
  · obtain ⟨c, stack, hc, rfl⟩ := hinside _ hflag
    obtain ⟨k, ks, rfl⟩ := List.exists_cons_of_ne_nil (List.ne_nil_of_mem hfirst)
    rw [Gate.step_separator _ _ _ h, Branch.behind, admits_otherwise_switched hc] at hstep
    cases hstep

theorem noOffence_of_runs {ls : List Text} {rs : List Gate.Row} {last : List Branch} (h : Runs v 1 [] ls rs last) :
    NoOffence v ls := fun _ _ _ fault hls => not_offends (hls ▸ h) fault

theorem offends_of_step {before : List Text} {stack : List Branch} {line : UInt32} {l : Text} {fault : ConditionalFault}
    (h : Opened v before stack) (hstep : Gate.stepBranches v line stack (Directive.ofLine? l) = .error fault) :
    Offends v before l fault := by
  cases hrole : Role.ofLine l with
  | plain => cases (Gate.step_plain _ _ hrole).symm.trans hstep
  | opening => cases (Gate.step_opening _ _ hrole).symm.trans hstep
  | separator kind =>
    cases h with
    | outside b =>
      cases (Gate.step_separator_outside _ hrole).symm.trans hstep
      cases kind with
      | elif => exact .elifOutside hrole ⟨b, rfl⟩
      | otherwise => exact .elseOutside hrole ⟨b, rfl⟩
    | @inside outer stack _ opening opens branches allowed =>
      rw [Gate.step_separator _ _ _ hrole] at hstep
      split at hstep
      · cases hstep
      · next hrefuses =>
        cases hstep
        have hflag : (flagTest? v opening).isSome = true := by
          rw [← Branch.test?_ofOpening v opening (UInt32.ofNat (outer.length + 1)),
            ← Branch.isSome_test?_behind _ branches.separators]
          by_contra hforeign
          exact hrefuses (admits_of_foreign (Option.not_isSome_iff_eq_none.1 hforeign) kind)
        cases kind with
        | elif => exact .elifOnFlag hrole ⟨outer, opening, branches, rfl, hflag, rfl⟩
        | otherwise =>
          refine .secondElse hrole ⟨outer, opening, branches, rfl, hflag, rfl⟩ ?_
          -- The separators so far were admitted, and an `#elif` never is.
          cases hks : branches.separators with
          | nil =>
            rw [hks] at hrefuses
            exact absurd (admits_otherwise_ofOpening v opening _) hrefuses
          | cons k ks =>
            cases k with
            | otherwise => exact List.mem_cons_self
            | elif =>
              rw [hks, Branch.allows, admits_elif, Branch.test?_ofOpening, Option.isNone_iff_eq_none] at allowed
              rw [allowed.1] at hflag
              cases hflag
  | closing =>
    cases h with
    | outside b =>
      cases (Gate.step_closing_outside _ hrole).symm.trans hstep
      exact .endifOutside hrole ⟨b, rfl⟩
    | inside h opens branches allowed => cases (Gate.step_closing _ _ _ hrole).symm.trans hstep

end Nesting

namespace Gate

/-- Rows fail at a line that the gate refuses, or behind the last one with a conditional still open. -/
theorem rows_error {v : Vocabulary} {line : UInt32} {stack : List Branch} {ls : List Text}
    {e : UInt32 × ConditionalFault} (h : rows v line stack ls = .error e) :
    (∃ before l after rs mid fault, ls = before ++ l :: after ∧ Runs v line stack before rs mid ∧
      stepBranches v (line + UInt32.ofNat before.length) mid (Directive.ofLine? l) = .error fault ∧
      e = (line + UInt32.ofNat before.length, fault)) ∨
    ∃ rs c rest, Runs v line stack ls rs (c :: rest) ∧ e = (c.line, .unterminated) := by
  induction ls generalizing line stack with
  | nil =>
    cases stack with
    | nil => cases h
    | cons c rest =>
      cases h
      exact Or.inr ⟨[], c, rest, ⟨rfl, rfl⟩, rfl⟩
  | cons l ls ih =>
    cases hstep : stepBranches v line stack (Directive.ofLine? l) with
    | error fault =>
      cases (rows_cons_error hstep).symm.trans h
      have hline := Text.lineAfter_zero line
      exact Or.inl ⟨[], l, ls, [], stack, fault, rfl, ⟨rfl, rfl⟩, by rwa [List.length_nil, hline],
        by rw [List.length_nil, hline]⟩
    | ok r =>
      obtain ⟨stays, after⟩ := r
      rw [rows_cons hstep] at h
      cases hrest : rows v (line + 1) after ls with
      | ok rs =>
        rw [hrest] at h
        cases h
      | error e' =>
        rw [hrest] at h
        cases h
        rcases ih hrest with ⟨before, m, rest, rs, mid, fault, rfl, hrun, hfault, rfl⟩ | ⟨rs, c, rest, hrun, rfl⟩
        · rw [Text.lineAfter_succ] at hfault ⊢
          exact Or.inl ⟨l :: before, m, rest, _, mid, fault, rfl, (runs_cons hstep).2 ⟨rs, hrun, rfl⟩, hfault, rfl⟩
        · exact Or.inr ⟨_, c, rest, (runs_cons hstep).2 ⟨rs, hrun, rfl⟩, rfl⟩

end Gate

open Nesting (Offends NoOffence)

/-- Masks have no part in whether a text is gated and in what is wrong with it. A text is gated just if its lines are
balanced and no conditional on a declared flag has an `#elif` or a second `#else` at its own level. If it is not, the
first line that offends is reported, or, if none does, the opening line of the innermost conditional that stays open. -/
theorem gate_accepts (v : Vocabulary) (m n : Mask) (t : Text) :
    (∀ e, gate v m t = .error e ↔ gate v n t = .error e) ∧
    ((∃ out, gate v m t = .ok out) ↔ ∃ b : Block, b.lines = t.splitLines ∧
      ∀ k ∈ b.conditionals, (flagTest? v k.opening).isSome = true →
        Separator.elif ∉ k.separators ∧ k.separators.count .otherwise ≤ 1) ∧
    ∀ e, gate v m t = .error e →
      (∃ before l after fault, t.splitLines = before ++ l :: after ∧ NoOffence v before ∧ Offends v before l fault ∧
        e = .conditional (UInt32.ofNat (before.length + 1)) fault) ∨
      (NoOffence v t.splitLines ∧ ∃ outer opening, ∃ branches : Branches,
        t.splitLines = outer ++ opening :: branches.lines ∧ Role.ofLine opening = .opening ∧
        e = .conditional (UInt32.ofNat (outer.length + 1)) .unterminated) := by
  refine ⟨fun e => ?_, ?_, fun e h => ?_⟩
  · rw [gate_eq, gate_eq]
    cases gateRows v t with
    | error => rfl
    | ok => exact iff_of_false nofun nofun
  · constructor
    · rintro ⟨out, h⟩
      obtain ⟨rs, hrows, -⟩ := gate_eq_ok_iff.1 h
      obtain ⟨b, hlines, hproper, -⟩ := Nesting.gateRows_eq_ok_iff.1 hrows
      exact ⟨b, hlines, hproper⟩
    · rintro ⟨b, hlines, hproper⟩
      exact ⟨_, gate_eq_ok_iff.2 ⟨_, Nesting.gateRows_eq_ok_iff.2 ⟨b, hlines, hproper, rfl⟩, rfl⟩⟩
  · rw [gate_eq] at h
    cases hrows : gateRows v t with
    | ok rs =>
      rw [hrows] at h
      cases h
    | error fault =>
      rw [hrows] at h
      cases h
      rcases Gate.rows_error hrows with ⟨before, l, after, rs, mid, fault, hlines, hrun, hstep, rfl⟩ |
        ⟨rs, c, rest, hrun, rfl⟩
      · have hline : 1 + UInt32.ofNat before.length = UInt32.ofNat (before.length + 1) := by
          rw [UInt32.ofNat_add, UInt32.add_comm]
          rfl
        rw [hline]
        exact Or.inl ⟨before, l, after, fault, hlines, Nesting.noOffence_of_runs hrun,
          Nesting.offends_of_step (Nesting.opened_of_runs hrun) hstep, rfl⟩
      · refine Or.inr ⟨Nesting.noOffence_of_runs hrun, ?_⟩
        generalize t.splitLines = ls at hrun ⊢
        cases Nesting.opened_of_runs hrun with
        | @inside outer _ _ opening opens branches allowed =>
          refine ⟨outer, opening, branches, rfl, opens, ?_⟩
          rw [Gate.Branch.line_behind, Gate.Branch.line_ofOpening]

end ShaderVariant
