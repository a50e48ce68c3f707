import Std.Data.HashSet

/-!
# Distinct items

* `distinct` : the items of a list in order of first occurrence, each once; what was met is looked up by hash;
* `distinct_eq_eraseDups` : they are those that the plain comparison of all items leaves.
-/

namespace ShaderVariant

variable {α : Type} [BEq α] [Hashable α]

/-- The items that are not in `seen`, each once. -/
def distinctFrom (seen : Std.HashSet α) : List α → List α
  | [] => []
  | a :: as => if seen.contains a then distinctFrom seen as else a :: distinctFrom (seen.insert a) as

/-- The items of a list in order of first occurrence. -/
def distinct (as : List α) : List α := distinctFrom ∅ as

theorem distinctFrom_eq_eraseDups [LawfulBEq α] [LawfulHashable α] (seen : Std.HashSet α) (as : List α) :
    distinctFrom seen as = (as.filter fun a => !seen.contains a).eraseDups := by
  induction as generalizing seen with
  | nil => simp [distinctFrom]
  | cons a as ih =>
    by_cases h : seen.contains a
    · simp [distinctFrom, h, ih]
    · simp only [Bool.not_eq_true] at h
      rw [distinctFrom, if_neg (by simp [h]), ih, List.filter_cons, if_pos (by simp [h]), List.eraseDups_cons,
        List.filter_filter]
      congr 2
      refine List.filter_congr fun b _ => ?_
      simp only [Std.HashSet.contains_insert, Bool.not_or]
      rw [Bool.beq_comm]

/-- Looking items up by hash leaves the same ones. -/
theorem distinct_eq_eraseDups [LawfulBEq α] [LawfulHashable α] (as : List α) : distinct as = as.eraseDups := by
  rw [distinct, distinctFrom_eq_eraseDups, List.filter_eq_self.2]
  simp

end ShaderVariant
