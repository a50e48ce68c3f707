/-!
# Association lists

Finite maps as lists of keys and values in the order in which the keys came.

* `Assoc.get?`, `Assoc.set`, `Assoc.erase` : look-up, write (in place if the key is there, else at the end), removal;
* `get?_set_self`, `get?_set_of_ne`, `get?_erase_self`, `get?_erase_of_ne` : what each does to the look-up.
-/

namespace ShaderVariant

/-- A finite map, by its keys and values. -/
abbrev Assoc (κ α : Type) := List (κ × α)

namespace Assoc

variable {κ α : Type} [DecidableEq κ]

def get? : Assoc κ α → κ → Option α
  | [], _ => none
  | (k, a) :: m, key => if k = key then some a else get? m key

def has (m : Assoc κ α) (key : κ) : Bool := (get? m key).isSome

def set : Assoc κ α → κ → α → Assoc κ α
  | [], key, a => [(key, a)]
  | (k, b) :: m, key, a => if k = key then (k, a) :: m else (k, b) :: set m key a

def erase : Assoc κ α → κ → Assoc κ α
  | [], _ => []
  | (k, a) :: m, key => if k = key then erase m key else (k, a) :: erase m key

@[simp] theorem get?_nil (key : κ) : get? ([] : Assoc κ α) key = none := rfl

theorem get?_cons (k : κ) (a : α) (m : Assoc κ α) (key : κ) :
    get? ((k, a) :: m) key = if k = key then some a else get? m key := rfl

@[simp] theorem get?_set_self (m : Assoc κ α) (key : κ) (a : α) : get? (set m key a) key = some a := by
  induction m with
  | nil => simp [set, get?]
  | cons p m ih =>
    obtain ⟨k, b⟩ := p
    by_cases h : k = key <;> simp [set, get?, h, ih]

theorem get?_set_of_ne {key key' : κ} (h : key ≠ key') (m : Assoc κ α) (a : α) :
    get? (set m key a) key' = get? m key' := by
  induction m with
  | nil => simp [set, get?, h]
  | cons p m ih =>
    obtain ⟨k, b⟩ := p
    by_cases hk : k = key
    · subst hk
      simp [set, get?, h]
    · simp only [set, if_neg hk, get?, ih]

@[simp] theorem get?_erase_self (m : Assoc κ α) (key : κ) : get? (erase m key) key = none := by
  induction m with
  | nil => rfl
  | cons p m ih =>
    obtain ⟨k, b⟩ := p
    by_cases hk : k = key <;> simp [erase, get?, hk, ih]

theorem get?_erase_of_ne {key key' : κ} (h : key ≠ key') (m : Assoc κ α) :
    get? (erase m key) key' = get? m key' := by
  induction m with
  | nil => rfl
  | cons p m ih =>
    obtain ⟨k, b⟩ := p
    by_cases hk : k = key
    · subst hk
      simp [erase, get?, h, ih]
    · simp only [erase, if_neg hk, get?, ih]

end Assoc

end ShaderVariant
