/-!
# Flag masks

A `Mask` is a set of 32 flag bits. Bit `i` stands for the flag declared in place `i`.

* `Mask.bit`, `Mask.isSet` : one bit, out of range for 32 and more;
* `Mask.setBits` : the positions of the set bits, lowest first; `mem_setBits`;
* `Mask.contains` : inclusion of sets, `contains_iff`;
* `Mask.union` : the union of many masks, `isSet_union`;
* `Mask.display` : the binary text.
-/

namespace ShaderVariant

/-- A set of flag bits. -/
abbrev Mask := BitVec 32

namespace Mask

def empty : Mask := 0#32

def all : Mask := BitVec.allOnes 32

/-- The mask with only bit `i`, empty when there is no such bit. -/
def bit (i : Nat) : Mask := if i < 32 then BitVec.twoPow 32 i else empty

def isSet (m : Mask) (i : Nat) : Bool := m.getLsbD i

def isEmpty (m : Mask) : Bool := m == empty

/-- Whether every bit of `n` is set in `m`. -/
def contains (m n : Mask) : Bool := m &&& n == n

/-- The positions of the set bits, lowest first. -/
def setBits (m : Mask) : List Nat := (List.range 32).filter m.isSet

def union (ms : List Mask) : Mask := ms.foldl (· ||| ·) empty

/-- The binary text, `0b` and the digits without leading zeros. -/
def display (m : Mask) : String := "0b" ++ String.ofList (Nat.toDigits 2 m.toNat)

@[simp] theorem isSet_empty (i : Nat) : isSet empty i = false := by simp [isSet, empty]

@[simp] theorem isSet_or (m n : Mask) (i : Nat) : isSet (m ||| n) i = (isSet m i || isSet n i) := by simp [isSet]

@[simp] theorem isSet_and (m n : Mask) (i : Nat) : isSet (m &&& n) i = (isSet m i && isSet n i) := by simp [isSet]

theorem isSet_bit (i j : Nat) : isSet (bit i) j = (decide (j < 32) && decide (i = j)) := by
  by_cases hi : i < 32
  · simp only [isSet, bit, if_pos hi, BitVec.getLsbD_twoPow]
    by_cases h : i = j
    · subst h; simp
    · simp [h]
  · by_cases h : i = j
    · subst h; simp [bit, hi]
    · simp [bit, hi, h]

theorem isSet_lt {m : Mask} {i : Nat} (h : m.isSet i = true) : i < 32 := BitVec.lt_of_getLsbD h

theorem ext_isSet {m n : Mask} (h : ∀ i, i < 32 → isSet m i = isSet n i) : m = n :=
  BitVec.eq_of_getLsbD_eq h

@[simp] theorem mem_setBits {m : Mask} {i : Nat} : i ∈ m.setBits ↔ m.isSet i = true := by
  simp only [setBits, List.mem_filter, List.mem_range, and_iff_right_iff_imp]
  exact isSet_lt

theorem contains_iff {m n : Mask} : m.contains n = true ↔ ∀ i, n.isSet i = true → m.isSet i = true := by
  simp only [contains, beq_iff_eq]
  constructor
  · intro h i hi
    have := congrArg (fun x => isSet x i) h
    simp only [isSet_and, hi, Bool.and_true] at this
    exact this
  · intro h
    refine ext_isSet fun i _ => ?_
    cases hn : isSet n i
    · simp [hn]
    · simp [hn, h i hn]

theorem isSet_foldl_or (ms : List Mask) (m : Mask) (i : Nat) :
    isSet (ms.foldl (· ||| ·) m) i = (isSet m i || ms.any (isSet · i)) := by
  induction ms generalizing m with
  | nil => simp
  | cons n ms ih => simp [ih, Bool.or_assoc]

/-- A bit of a union is a bit of one of its parts. -/
theorem isSet_union (ms : List Mask) (i : Nat) : isSet (union ms) i = ms.any (isSet · i) := by
  simp [union, isSet_foldl_or]

/-- The bits of a union of single bits are those bits, as far as there are such. -/
theorem isSet_union_bit (is : List Nat) (i : Nat) : isSet (union (is.map bit)) i = true ↔ i < 32 ∧ i ∈ is := by
  rw [and_comm]
  simp [isSet_union, isSet_bit]

end Mask

end ShaderVariant
