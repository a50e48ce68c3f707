import ShaderVariant.Flag.Symbol
import ShaderVariant.Flag.Mask

/-!
# Flag vocabularies

A vocabulary lists up to 32 flag names; the place of a name is its bit. Beside the list it keeps the symbols in
ascending order, each with its bit, so that a look-up compares numbers only.

* `Vocabulary.push` : declares the next flag, or says why not;
* `Vocabulary.bitOf?`, `Vocabulary.nameOf?` : from names to bits and back;
* `Vocabulary.encode`, `encodeStrict`, `unknownNames` : masks of requested names;
* `Vocabulary.namesIn`, `fullMask` : names of a mask, mask of all names;
* the order index and the list agree: `bitOfSymbol?_eq_some_iff`, `bitOf?_eq_some_iff`.
-/

namespace ShaderVariant

/-- The number of flags that a vocabulary can declare. -/
def maxFlags : Nat := 32

/-- Why a flag cannot be declared. -/
inductive VocabularyError where
  | duplicate (name : String)
  | tooMany
  deriving DecidableEq, Repr

def VocabularyError.message : VocabularyError → String
  | .duplicate name => s!"flag '{name}' is declared twice"
  | .tooMany => s!"too many flags (at most {maxFlags} are supported)"

/-! ## The ordered index -/

/-- Symbols in ascending order, each with its bit. -/
abbrev FlagIndex := List (Symbol × Nat)

namespace FlagIndex

/-- The bit of a symbol. The search ends at the first greater symbol. -/
def find? (s : Symbol) : FlagIndex → Option Nat
  | [] => none
  | (k, i) :: rest => if k = s then some i else if s < k then none else find? s rest

def insert (s : Symbol) (i : Nat) : FlagIndex → FlagIndex
  | [] => [(s, i)]
  | (k, j) :: rest => if s < k then (s, i) :: (k, j) :: rest else (k, j) :: insert s i rest

def Sorted (x : FlagIndex) : Prop := x.Pairwise (·.1 < ·.1)

theorem mem_insert {s : Symbol} {i : Nat} {x : FlagIndex} {e : Symbol × Nat} :
    e ∈ insert s i x ↔ e = (s, i) ∨ e ∈ x := by
  induction x with
  | nil => simp [insert]
  | cons a x ih =>
    obtain ⟨k, j⟩ := a
    unfold insert
    split
    · simp
    · simp only [List.mem_cons, ih]
      constructor
      · rintro (h | h | h) <;> simp [h]
      · rintro (h | h | h) <;> simp [h]

theorem sorted_insert {s : Symbol} {i : Nat} {x : FlagIndex} (hx : Sorted x) (hs : ∀ e ∈ x, e.1 ≠ s) :
    Sorted (insert s i x) := by
  induction x with
  | nil => exact List.pairwise_singleton _ _
  | cons a x ih =>
    obtain ⟨k, j⟩ := a
    have hx' := List.pairwise_cons.1 hx
    unfold insert
    split
    · rename_i h
      refine List.pairwise_cons.2 ⟨fun e he => ?_, hx⟩
      rcases List.mem_cons.1 he with rfl | he
      · exact h
      · exact Nat.lt_trans h (hx'.1 e he)
    · rename_i h
      refine List.pairwise_cons.2 ⟨fun e he => ?_, ih hx'.2 fun e he => hs e (List.mem_cons_of_mem _ he)⟩
      rcases mem_insert.1 he with rfl | he
      · have hk : k ≠ s := hs (k, j) List.mem_cons_self
        exact Nat.lt_of_le_of_ne (Nat.le_of_not_lt h) hk
      · exact hx'.1 e he

/-- In an ascending index a look-up finds exactly the entries. -/
theorem find?_eq_some_iff {s : Symbol} {i : Nat} {x : FlagIndex} (hx : Sorted x) :
    find? s x = some i ↔ (s, i) ∈ x := by
  induction x with
  | nil => simp [find?]
  | cons a x ih =>
    obtain ⟨k, j⟩ := a
    have hx' := List.pairwise_cons.1 hx
    have hgt : ∀ n, (s, n) ∈ x → k < s := fun n h => hx'.1 _ h
    unfold find?
    by_cases h : k = s
    · subst h
      simp only [if_true, List.mem_cons, Prod.mk.injEq, true_and]
      constructor
      · rintro h; cases h; exact Or.inl rfl
      · rintro (h | h)
        · rw [h]
        · exact absurd (hgt _ h) (Nat.lt_irrefl _)
    · have hsk : ¬ (s = k ∧ i = j) := fun e => h e.1.symm
      by_cases hlt : s < k
      · simp only [h, if_false, hlt, if_true, List.mem_cons, Prod.mk.injEq, hsk, false_or]
        constructor
        · intro e; cases e
        · intro e; exact absurd (hgt _ e) (Nat.lt_asymm hlt)
      · simp only [h, if_false, hlt, List.mem_cons, Prod.mk.injEq, hsk, false_or]
        exact ih hx'.2

end FlagIndex

/-! ## Vocabularies -/

/-- The flags of a shader, in order. `symbols` numbers their names and may know more names than are declared. -/
structure Vocabulary where
  symbols : SymbolTable
  declared : List Symbol
  index : FlagIndex
  sorted : index.Sorted
  mem_index : ∀ s i, (s, i) ∈ index ↔ declared[i]? = some s
  known : ∀ s ∈ declared, s < symbols.names.length
  size_le : declared.length ≤ maxFlags

namespace Vocabulary

/-- No flags, over a table of names that may be in use already. -/
def ofSymbols (t : SymbolTable) : Vocabulary :=
  { symbols := t, declared := [], index := [], sorted := List.Pairwise.nil, mem_index := by simp, known := by simp,
    size_le := by simp }

def empty : Vocabulary := ofSymbols .empty

instance : Inhabited Vocabulary := ⟨empty⟩

def size (v : Vocabulary) : Nat := v.declared.length

def isEmpty (v : Vocabulary) : Bool := v.declared.isEmpty

def bitOfSymbol? (v : Vocabulary) (s : Symbol) : Option Nat := v.index.find? s

def bitOf? (v : Vocabulary) (name : String) : Option Nat := (v.symbols.find? name).bind v.bitOfSymbol?

def nameOf? (v : Vocabulary) (i : Nat) : Option String := (v.declared[i]?).bind v.symbols.resolve?

def names (v : Vocabulary) : List String := v.declared.filterMap v.symbols.resolve?

theorem bitOfSymbol?_eq_some_iff {v : Vocabulary} {s : Symbol} {i : Nat} :
    v.bitOfSymbol? s = some i ↔ v.declared[i]? = some s :=
  (FlagIndex.find?_eq_some_iff v.sorted).trans (v.mem_index s i)

/-- A name has the bit at which it was declared. -/
theorem bitOf?_eq_some_iff {v : Vocabulary} {name : String} {i : Nat} :
    v.bitOf? name = some i ↔ v.nameOf? i = some name := by
  simp only [bitOf?, nameOf?, Option.bind_eq_some_iff, bitOfSymbol?_eq_some_iff, SymbolTable.find?_eq_some_iff]
  exact ⟨fun ⟨s, h₁, h₂⟩ => ⟨s, h₂, h₁⟩, fun ⟨s, h₁, h₂⟩ => ⟨s, h₂, h₁⟩⟩

/-- Whether two vocabularies give the same names to the same bits. -/
def sameFlags (v w : Vocabulary) : Bool := v.names == w.names

/-! ## Declaring -/

/-- The symbol of a name, given out now if the name is new. No flag is declared. -/
def intern (v : Vocabulary) (name : String) : Symbol × Vocabulary :=
  ((v.symbols.intern name).1,
    { v with
      symbols := (v.symbols.intern name).2
      known := fun s hs => by
        have h := v.known s hs
        cases hf : v.symbols.find? name with
        | some s' => rw [SymbolTable.intern_of_find? hf]; exact h
        | none =>
          rw [(SymbolTable.intern_of_not_mem hf).2, List.length_append]
          exact Nat.lt_of_lt_of_le h (Nat.le_add_right _ _) })

theorem not_mem_declared {v : Vocabulary} {s : Symbol} (h : v.bitOfSymbol? s = none) : s ∉ v.declared := by
  intro hm
  obtain ⟨i, hi, he⟩ := List.getElem_of_mem hm
  have := bitOfSymbol?_eq_some_iff.2 (List.getElem?_eq_some_iff.2 ⟨hi, he⟩)
  rw [h] at this
  cases this

/-- A vocabulary with one more flag, for a symbol of the table that is not declared yet. -/
def declare (v : Vocabulary) (s : Symbol) (known : s < v.symbols.names.length) (new : v.bitOfSymbol? s = none)
    (room : v.size < maxFlags) : Vocabulary :=
  { v with
    declared := v.declared ++ [s]
    index := v.index.insert s v.size
    sorted := FlagIndex.sorted_insert v.sorted fun e he hs =>
      not_mem_declared new (hs ▸ List.mem_of_getElem? ((v.mem_index e.1 e.2).1 he))
    mem_index := fun t i => by
      rw [FlagIndex.mem_insert, v.mem_index]
      unfold size
      by_cases h : i < v.declared.length
      · rw [List.getElem?_append_left h]
        simp only [Prod.mk.injEq, or_iff_right_iff_imp]
        rintro ⟨-, rfl⟩
        exact absurd h (Nat.lt_irrefl _)
      · rw [List.getElem?_eq_none (l := v.declared) (by omega), List.getElem?_append_right (by omega)]
        by_cases hi : i = v.declared.length
        · subst hi
          simp [eq_comm]
        · rw [List.getElem?_eq_none (by simp; omega)]
          simp [hi]
    known := fun t ht => by
      rcases List.mem_append.1 ht with ht | ht
      · exact v.known t ht
      · exact List.mem_singleton.1 ht ▸ known
    size_le := by simpa [size] using Nat.succ_le_of_lt room }

theorem intern_known (v : Vocabulary) (name : String) : (v.intern name).1 < (v.intern name).2.symbols.names.length :=
  (List.getElem?_eq_some_iff.1 (SymbolTable.resolve?_intern v.symbols name)).1

/-- Declares the next flag: its bit and the vocabulary that has it. A name that is declared is refused before the
number of flags is looked at. -/
def push (v : Vocabulary) (name : String) : Except VocabularyError (Nat × Vocabulary) :=
  match h : (v.intern name).2.bitOfSymbol? (v.intern name).1 with
  | some _ => .error (.duplicate name)
  | none =>
    if room : (v.intern name).2.size < maxFlags then
      .ok (v.size, (v.intern name).2.declare (v.intern name).1 (v.intern_known name) h room)
    else .error .tooMany

/-- Declares names in order, after those of `v`. -/
def pushAll (v : Vocabulary) : List String → Except VocabularyError Vocabulary
  | [] => .ok v
  | name :: names =>
    match v.push name with
    | .error e => .error e
    | .ok (_, v) => v.pushAll names

def ofNames (names : List String) : Except VocabularyError Vocabulary := empty.pushAll names

/-! ## Masks -/

/-- The mask of requested names. Unknown names add nothing. -/
def encode (v : Vocabulary) (requested : List String) : Mask :=
  Mask.union ((requested.filterMap v.bitOf?).map Mask.bit)

def unknownNames (v : Vocabulary) (requested : List String) : List String :=
  requested.filter fun name => (v.bitOf? name).isNone

/-- The worker of `encodeStrict`: `m` is the mask of the names before. -/
def encodeStrictFrom (v : Vocabulary) (m : Mask) : List String → Except String Mask
  | [] => .ok m
  | name :: names =>
    match v.bitOf? name with
    | none => .error name
    | some i => v.encodeStrictFrom (m ||| Mask.bit i) names

/-- The mask of requested names, or the first of them that is not declared. -/
def encodeStrict (v : Vocabulary) (requested : List String) : Except String Mask :=
  v.encodeStrictFrom .empty requested

/-- The mask of symbols. Symbols that are not declared add nothing. -/
def maskOfSymbols (v : Vocabulary) (symbols : List Symbol) : Mask :=
  Mask.union ((symbols.filterMap v.bitOfSymbol?).map Mask.bit)

/-- The names of the bits set in a mask, in bit order. -/
def namesIn (v : Vocabulary) (m : Mask) : List String := m.setBits.filterMap v.nameOf?

def fullMask (v : Vocabulary) : Mask := BitVec.ofNat 32 (1 <<< v.size - 1)

end Vocabulary

end ShaderVariant
