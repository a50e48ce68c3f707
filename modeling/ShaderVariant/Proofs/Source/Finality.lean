import ShaderVariant.Proofs.Source.Regions

/-!
# Gated texts are final

A gated text holds conditionals on other names only, each as a whole, so that gating it again changes nothing.

* `Gate.keptOpen` : the open conditionals whose lines are kept;
* `Gate.step_kept`, `runs_kept` : the gate goes through its own output with those conditionals open and keeps it all;
* `Gate.pieces_eq` : the pieces that the gate puts together are the lines of its output;
* `gate_final` : gating a gated text, for whatever mask, gives the same text.
-/

namespace ShaderVariant

open Nesting (Role Separator Block Balanced flagTest?)

namespace Gate

/-! ## Open conditionals in the output -/

/-- The open conditionals on other names that stand in text that is kept. -/
def keptOpen (m : Mask) : List Branch → List Branch
  | [] => []
  | .flag .. :: stack => keptOpen m stack
  | .foreign line :: stack =>
    if (tests stack).all (Test.holds m) then .foreign line :: keptOpen m stack else keptOpen m stack

theorem tests_keptOpen (m : Mask) (stack : List Branch) : tests (keptOpen m stack) = [] := by
  induction stack with
  | nil => rfl
  | cons c stack ih =>
    cases c with
    | flag => exact ih
    | foreign line =>
      rw [keptOpen]
      split
      · exact ih
      · exact ih

theorem role_reduce (l : Text) : Role.ofLine (reduce l) = .plain := by
  unfold reduce
  split <;> rfl

theorem gated_rowOf (m : Mask) (stays : Bool) (stack : List Branch) (l : Text) :
    (rowOf stays stack l).gated m = if stays && (tests stack).all (Test.holds m) then l else reduce l := by
  cases stays <;> rfl

section Kept

variable {v : Vocabulary} (m : Mask) {line : UInt32} {stack after last : List Branch} {l : Text} {stays : Bool}

/-- What is left of a line does to the conditionals in the output what the line does to all of them, and it stays. -/
theorem step_kept (h : stepBranches v line stack (Directive.ofLine? l) = .ok (stays, after)) :
    stepBranches v line (keptOpen m stack) (Directive.ofLine? ((rowOf stays stack l).gated m)) =
      .ok (true, keptOpen m after) := by
  have hreduce := step_plain (v := v) line (keptOpen m stack) (role_reduce l)
  rw [gated_rowOf]
  cases hrole : Role.ofLine l with
  | plain =>
    cases (step_plain _ _ hrole).symm.trans h
    split
    · exact step_plain _ _ hrole
    · exact hreduce
  | opening =>
    cases (step_opening _ _ hrole).symm.trans h
    have hstep := step_opening (v := v) line (keptOpen m stack) hrole
    unfold Branch.ofOpening at hstep ⊢
    cases htest : flagTest? v l with
    | some test => exact hreduce
    | none =>
      rw [htest] at hstep
      simp only [keptOpen, Option.isNone_none, Bool.true_and]
      split
      · exact hstep
      · exact hreduce
  | separator kind =>
    cases stack with
    | nil => cases (step_separator_outside _ hrole).symm.trans h
    | cons c stack =>
      rw [step_separator _ _ _ hrole] at h
      split at h
      · cases h
        cases c with
        | flag => exact hreduce
        | foreign opened =>
          have hstep := step_separator (v := v) line (.foreign opened) (keptOpen m stack) hrole
          rw [tests_cons]
          simp only [Branch.switched, keptOpen, Branch.test?, Option.isNone_none, Bool.true_and, Option.toList_none,
            List.nil_append] at hreduce ⊢
          split
          · exact hstep
          · next hall => rwa [if_neg hall] at hreduce
      · cases h
  | closing =>
    cases stack with
    | nil => cases (step_closing_outside _ hrole).symm.trans h
    | cons c stack =>
      cases (step_closing _ _ _ hrole).symm.trans h
      cases c with
      | flag => exact hreduce
      | foreign opened =>
        have hstep := step_closing (v := v) line (.foreign opened) (keptOpen m after) hrole
        rw [tests_cons]
        simp only [keptOpen, Branch.test?, Option.isNone_none, Bool.true_and, Option.toList_none,
          List.nil_append] at hreduce ⊢
        split
        · exact hstep
        · next hall => rwa [if_neg hall] at hreduce

/-- The gate goes through what it has left of lines as it went through the lines, and no test stands around any. -/
theorem runs_kept {ls : List Text} {rs : List Row} (h : Runs v line stack ls rs last) :
    Runs v line (keptOpen m stack) (rs.map (Row.gated m)) (rs.map fun r => ⟨r.gated m, some []⟩) (keptOpen m last) := by
  induction ls generalizing line stack rs with
  | nil =>
    obtain ⟨rfl, rfl⟩ := h
    exact ⟨rfl, rfl⟩
  | cons l ls ih =>
    obtain ⟨stays, after, rest, hstep, hrun, rfl⟩ := h
    refine (runs_cons (step_kept m hstep)).2 ⟨_, ih hrun, ?_⟩
    show _ = (⟨_, some (tests (keptOpen m stack))⟩ : Row) :: _
    rw [tests_keptOpen]
    rfl

end Kept

/-! ## Lines of the output -/

/-- Put together, the pieces that are left of lines have these pieces as their lines, apart from an empty last one. -/
theorem pieces_eq (m : Mask) {rs : List Row} (h : Text.AreLines (rs.map Row.line)) :
    rs.map (Row.gated m) = Text.splitLines (rs.map (Row.gated m)).flatten ∨
      rs.map (Row.gated m) = Text.splitLines (rs.map (Row.gated m)).flatten ++ [[]] := by
  induction rs with
  | nil => exact Or.inl rfl
  | cons r rs ih =>
    obtain ⟨hline, hrest, hcase⟩ := h.of_cons
    rw [List.map_cons, List.flatten_cons]
    by_cases hend : r.line.endsLine = true
    · obtain ⟨s, hs, hgated⟩ := r.exists_gated_eq m hline hend
      have hpiece : Text.AreLines [r.gated m] := hgated ▸ Text.areLines_append_newline hs
      have hends : (r.gated m).endsLine = true := by
        rw [hgated]
        exact Text.endsLine_append s rfl
      rw [Text.splitLines_append_of_endsLine (Or.inl hends), Text.areLines_singleton_iff.1 hpiece, List.cons_append,
        List.nil_append, List.cons_append]
      exact (ih hrest).imp (congrArg (r.gated m :: ·)) (congrArg (r.gated m :: ·))
    · cases List.map_eq_nil_iff.1 (hcase.resolve_left hend)
      rw [List.map_nil, List.flatten_nil, List.append_nil]
      unfold Row.gated reduce
      split
      · exact Or.inl (Text.areLines_singleton_iff.1 hline).symm
      · exact Or.inr rfl

theorem runs_append_empty {v : Vocabulary} {line : UInt32} {stack last : List Branch} {ls : List Text} {rs : List Row}
    (h : Runs v line stack (ls ++ [[]]) rs last) : ∃ rs', Runs v line stack ls rs' last ∧ ∀ r ∈ rs', r ∈ rs := by
  obtain ⟨rs₁, mid, rs₂, hrun, hempty, rfl⟩ := runs_append.1 h
  obtain ⟨_, ⟨-, rfl⟩, -⟩ := (runs_cons (step_plain _ _ (by rfl))).1 hempty
  exact ⟨rs₁, hrun, fun r hr => List.mem_append_left _ hr⟩

/-- A line that opens a conditional on a flag is never kept. -/
theorem flagTest?_of_runs {v : Vocabulary} {line : UInt32} {stack last : List Branch} {ls : List Text} {rs : List Row}
    (h : Runs v line stack ls rs last) (hrows : ∀ r ∈ rs, r.tests?.isSome = true) : ∀ l ∈ ls, flagTest? v l = none := by
  induction ls generalizing line stack rs with
  | nil => exact fun l hl => absurd hl List.not_mem_nil
  | cons l ls ih =>
    obtain ⟨stays, after, rest, hstep, hrun, rfl⟩ := h
    obtain ⟨hl, hrest⟩ := List.forall_mem_cons.1 hrows
    refine List.forall_mem_cons.2 ⟨?_, ih hrun hrest⟩
    by_contra hflag
    have hsome := Option.isSome_iff_ne_none.2 hflag
    cases (step_opening _ _ (Nesting.role_of_flagTest? hsome)).symm.trans hstep
    rw [← Option.not_isSome, hsome] at hl
    cases hl

end Gate

/-- A gated text is gated to itself for every mask. It holds no conditional on a declared flag, and its conditionals are
balanced. -/
theorem gate_final {v : Vocabulary} {m : Mask} {t out : Text} (h : gate v m t = .ok out) :
    (∀ n, gate v n out = .ok out) ∧ (∀ l ∈ out.splitLines, flagTest? v l = none) ∧ Balanced out.splitLines := by
  obtain ⟨rs, hrows, rfl⟩ := gate_eq_ok_iff.1 h
  have hrun := Gate.runs_kept m (Gate.rows_eq_ok_iff.1 hrows)
  have hkept : ∀ r ∈ rs.map fun r : Gate.Row => (⟨r.gated m, some []⟩ : Gate.Row), r.tests? = some [] := by
    simp
  obtain ⟨rs', hout, hfree⟩ : ∃ rs', Gate.Runs v 1 [] (Text.splitLines (rs.map (Gate.Row.gated m)).flatten) rs' [] ∧
      ∀ r ∈ rs', r.tests? = some [] := by
    rcases Gate.pieces_eq m (areLines_gateRows hrows) with hpieces | hpieces
    · exact ⟨_, hpieces ▸ hrun, hkept⟩
    · obtain ⟨rs', hout, hsub⟩ := Gate.runs_append_empty (hpieces ▸ hrun)
      exact ⟨rs', hout, fun r hr => hkept r (hsub r hr)⟩
  have hgate : gateRows v (rs.map (Gate.Row.gated m)).flatten = .ok rs' := Gate.rows_eq_ok_iff.2 hout
  refine ⟨fun n => gate_eq_ok_iff.2 ⟨rs', hgate, ?_⟩, ?_, ?_⟩
  · have hsame : rs'.map (Gate.Row.gated n) = rs'.map Gate.Row.line := List.map_congr_left fun r hr => by
      unfold Gate.Row.gated Gate.Row.isKept Gate.Row.tests
      rw [hfree r hr]
      rfl
    rw [hsame, Gate.map_line_rows hgate, Text.flatten_splitLines]
  · exact Gate.flagTest?_of_runs hout fun r hr => by rw [hfree r hr]; rfl
  · obtain ⟨b, hlines, -⟩ := Nesting.gateRows_eq_ok_iff.1 hgate
    exact ⟨b, hlines⟩

theorem gate_final_nestedText :
    ∃ out, gate twoFlags 1 nestedText = .ok out ∧ (∀ n, gate twoFlags n out = .ok out) ∧
      (∀ l ∈ out.splitLines, flagTest? twoFlags l = none) ∧ Balanced out.splitLines := by
  have h : gate twoFlags 1 nestedText = .ok "#if X\n\nskin\n\n\n\n#endif\n\n#if X\nlight\n#endif\n".toList := by
    decide +kernel
  exact ⟨_, h, gate_final h⟩

end ShaderVariant
