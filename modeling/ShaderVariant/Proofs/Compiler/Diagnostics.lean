import ShaderVariant.Compiler.DryRun
import ShaderVariant.Proofs.Text

/-!
# Where a dry run fails

* `DryRun.FirstError` : the first `#error` line of a text, by its place;
* `DryRun.stageError?_eq_some_iff`, `stageError?_eq_none_iff` : what a dry run reports of a stage, and when it does not.
-/

namespace ShaderVariant.DryRun

/-- The line `l` at place `n`, counted from zero, is the first `#error` line. -/
structure FirstError (ls : List Text) (n : Nat) (l : Text) (text : String) : Prop where
  line : ls[n]? = some l
  error : errorLine? l = some text
  first : ∀ i < n, ∀ l', ls[i]? = some l' → errorLine? l' = none

variable {ls : List Text} {l : Text} {f : CompileFailure}

theorem firstError_head {text : String} (h : errorLine? l = some text) : FirstError (l :: ls) 0 l text :=
  ⟨rfl, h, fun _ hi => absurd hi (Nat.not_lt_zero _)⟩

theorem firstError_cons {l' : Text} {n : Nat} {text : String} (h : errorLine? l' = none) :
    FirstError (l' :: ls) (n + 1) l text ↔ FirstError ls n l text := by
  constructor
  · intro hf
    exact ⟨hf.line, hf.error, fun i hi => hf.first (i + 1) (Nat.succ_lt_succ hi)⟩
  · intro hf
    refine ⟨hf.line, hf.error, fun i hi m hm => ?_⟩
    cases i with
    | zero =>
      cases hm
      exact h
    | succ i => exact hf.first i (Nat.lt_of_succ_lt_succ hi) m hm

theorem firstErrorLine?_eq_some_iff {stage : Stage} {line : UInt32} :
    firstErrorLine? stage line ls = some f ↔
      ∃ n l text, FirstError ls n l text ∧ f = ⟨some stage, some (line + UInt32.ofNat n), text⟩ := by
  induction ls generalizing line with
  | nil =>
    refine iff_of_false nofun ?_
    rintro ⟨n, l, text, hf, -⟩
    cases hf.line
  | cons l' ls ih =>
    rw [firstErrorLine?]
    cases herror : errorLine? l' with
    | some text =>
      simp only [Option.some.injEq]
      constructor
      · rintro rfl
        exact ⟨0, l', text, firstError_head herror, by rw [Text.lineAfter_zero]⟩
      · rintro ⟨n, l, text', hf, rfl⟩
        cases n with
        | zero =>
          cases hf.line
          cases herror.symm.trans hf.error
          rw [Text.lineAfter_zero]
        | succ n => cases herror.symm.trans (hf.first 0 (Nat.succ_pos n) l' rfl)
    | none =>
      simp only [ih, Text.lineAfter_succ]
      constructor
      · rintro ⟨n, l, text, hf, rfl⟩
        exact ⟨n + 1, l, text, (firstError_cons herror).2 hf, rfl⟩
      · rintro ⟨n, l, text, hf, rfl⟩
        cases n with
        | zero =>
          cases hf.line
          cases herror.symm.trans hf.error
        | succ n => exact ⟨n, l, text, (firstError_cons herror).1 hf, rfl⟩

theorem firstErrorLine?_eq_none_iff {stage : Stage} {line : UInt32} :
    firstErrorLine? stage line ls = none ↔ ∀ l ∈ ls, errorLine? l = none := by
  induction ls generalizing line with
  | nil => simp [firstErrorLine?]
  | cons l ls ih =>
    rw [firstErrorLine?, List.forall_mem_cons]
    cases herror : errorLine? l with
    | some text => simp
    | none => simp [ih]

variable {x : StageSource}

/-- A dry run reports the first `#error` line of a stage, counted from 1. -/
theorem stageError?_eq_some_iff :
    stageError? x = some f ↔
      ∃ n l text, FirstError x.source.lines n l text ∧ f = ⟨some x.stage, some (UInt32.ofNat (n + 1)), text⟩ := by
  have hline (n : Nat) : 1 + UInt32.ofNat n = UInt32.ofNat (n + 1) := by
    rw [UInt32.ofNat_add, UInt32.add_comm]
    rfl
  unfold stageError?
  simp only [firstErrorLine?_eq_some_iff, hline]

theorem stageError?_eq_none_iff : stageError? x = none ↔ ∀ l ∈ x.source.lines, errorLine? l = none :=
  firstErrorLine?_eq_none_iff

end ShaderVariant.DryRun
