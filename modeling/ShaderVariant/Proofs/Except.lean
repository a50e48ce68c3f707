/-!
# Mapped results

A result that is mapped succeeds or fails as it did before: `exists_map_eq_ok_iff`, `map_eq_ok_congr` and
`map_cons_eq_ok_iff` for successes, `map_eq_error_iff` for failures.
-/

namespace ShaderVariant

variable {ε α β : Type} {x : Except ε α}

theorem exists_map_eq_ok_iff (f : α → β) : (∃ b, x.map f = .ok b) ↔ ∃ a, x = .ok a := by
  cases x with
  | ok a => exact iff_of_true ⟨_, rfl⟩ ⟨_, rfl⟩
  | error e => exact iff_of_false nofun nofun

theorem map_eq_ok_congr {y : Except ε α} (h : ∀ a, x = .ok a ↔ y = .ok a) (f : α → β) {b : β} :
    x.map f = .ok b ↔ y.map f = .ok b := by
  cases x with
  | ok a => rw [(h a).1 rfl]
  | error e =>
    cases y with
    | ok a => cases (h a).2 rfl
    | error e => exact iff_of_false nofun nofun

theorem map_cons_eq_ok_iff {x : Except ε (List α)} {a : α} {l : List α} :
    x.map (a :: ·) = .ok l ↔ ∃ l', x = .ok l' ∧ l = a :: l' := by
  cases x with
  | ok l' => simp [Except.map, eq_comm]
  | error e => simp [Except.map]

theorem map_eq_error_iff {f : α → β} {e : ε} : x.map f = .error e ↔ x = .error e := by
  cases x <;> simp [Except.map]

end ShaderVariant
