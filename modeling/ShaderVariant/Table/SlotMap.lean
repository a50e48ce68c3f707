/-!
# Slot maps

A slot map gives out a key for each value put into it. A key names a slot and the use of that slot; once its value
is removed the key is void for good, because the slot's next use has another version.

* `SlotMap.insert` : takes the slot freed last, or opens a new one; the first use of a slot has version 1 and every
  later one adds 2;
* `SlotMap.get?`, `SlotMap.remove`, `SlotMap.modify`, `SlotMap.mapValues` : look-up, removal, change of values;
* `SlotMap.entries` : the live values in the order of their slots.
-/

namespace ShaderVariant

/-- A slot and the use of it. -/
structure SlotKey where
  index : Nat
  version : Nat
  deriving DecidableEq, Repr, Inhabited

namespace SlotKey

/-- The key of given parts. Only odd versions are in use, so an even one counts as the next. -/
def ofParts (index version : Nat) : SlotKey := ⟨index, if version % 2 = 0 then version + 1 else version⟩

/-- The index that is never a slot's. -/
def noIndex : Nat := 0xFFFFFFFF

def display (k : SlotKey) : String := if k.index = noIndex then "null" else s!"{k.index}v{k.version}"

def reused (k : SlotKey) : SlotKey := ⟨k.index, k.version + 2⟩

end SlotKey

/-- Values under versioned keys. `entries` are the live ones by ascending slot; `free` are the keys that the free
slots will give out next, the slot freed last first; `opened` is the number of slots. -/
structure SlotMap (α : Type) where
  entries : List (SlotKey × α)
  free : List SlotKey
  opened : Nat
  ordered : entries.Pairwise (·.1.index < ·.1.index)
  free_nodup : free.Pairwise (·.index ≠ ·.index)
  free_unused : ∀ k ∈ free, ∀ e ∈ entries, e.1.index ≠ k.index
  entries_le : ∀ e ∈ entries, e.1.index ≤ opened
  free_le : ∀ k ∈ free, k.index ≤ opened

namespace SlotMap

variable {α : Type}

def empty : SlotMap α :=
  { entries := [], free := [], opened := 0, ordered := .nil, free_nodup := .nil, free_unused := by simp,
    entries_le := by simp, free_le := by simp }

instance : Inhabited (SlotMap α) := ⟨empty⟩

def size (m : SlotMap α) : Nat := m.entries.length

/-- The live keys in the order of their slots. -/
def keys (m : SlotMap α) : List SlotKey := m.entries.map (·.1)

def values (m : SlotMap α) : List α := m.entries.map (·.2)

def lookup (k : SlotKey) : List (SlotKey × α) → Option α
  | [] => none
  | (key, a) :: es => if key = k then some a else lookup k es

def get? (m : SlotMap α) (k : SlotKey) : Option α := lookup k m.entries

def contains (m : SlotMap α) (k : SlotKey) : Bool := (m.get? k).isSome

/-! ## Changing values -/

/-- Entries whose values are changed, each in the light of its key. -/
def mapEntries (f : SlotKey → α → α) (es : List (SlotKey × α)) : List (SlotKey × α) :=
  es.map fun e => (e.1, f e.1 e.2)

def mapValues (m : SlotMap α) (f : SlotKey → α → α) : SlotMap α :=
  { m with
    entries := mapEntries f m.entries
    ordered := by simpa [mapEntries, List.pairwise_map] using m.ordered
    free_unused := fun k hk e he => by
      obtain ⟨e', he', rfl⟩ := List.mem_map.1 he
      exact m.free_unused k hk e' he'
    entries_le := fun e he => by
      obtain ⟨e', he', rfl⟩ := List.mem_map.1 he
      exact m.entries_le e' he' }

def modify (m : SlotMap α) (k : SlotKey) (f : α → α) : SlotMap α :=
  m.mapValues fun key a => if key = k then f a else a

def set (m : SlotMap α) (k : SlotKey) (a : α) : SlotMap α := m.modify k fun _ => a

/-! ## Removing -/

/-- Removes the value of a key and frees its slot. -/
def remove (m : SlotMap α) (k : SlotKey) : SlotMap α :=
  if h : ∃ e ∈ m.entries, e.1 = k then
    { entries := m.entries.filter (·.1 ≠ k)
      free := k.reused :: m.free
      opened := m.opened
      ordered := m.ordered.filter _
      free_nodup := by
        obtain ⟨e, he, rfl⟩ := h
        exact List.pairwise_cons.2 ⟨fun f hf => m.free_unused f hf e he, m.free_nodup⟩
      free_unused := fun f hf e he => by
        have he' := List.mem_filter.1 he
        rcases List.mem_cons.1 hf with rfl | hf
        · obtain ⟨e₀, he₀, rfl⟩ := h
          have hne : e.1 ≠ e₀.1 := by simpa using he'.2
          intro hidx
          have := List.Pairwise.forall_of_forall_of_flip
            (R := fun a b : SlotKey × α => a.1.index = b.1.index → a = b) (fun _ _ _ => rfl)
            (m.ordered.imp fun h e => absurd e (Nat.ne_of_lt h))
            (m.ordered.imp fun h e => absurd e.symm (Nat.ne_of_lt h)) he'.1 he₀ hidx
          exact hne (congrArg Prod.fst this)
        · exact m.free_unused f hf e he'.1
      entries_le := fun e he => m.entries_le e (List.mem_filter.1 he).1
      free_le := fun f hf => by
        rcases List.mem_cons.1 hf with rfl | hf
        · obtain ⟨e, he, rfl⟩ := h
          exact m.entries_le e he
        · exact m.free_le f hf }
  else m

/-! ## Inserting -/

/-- Puts an entry at its place in the order of slots. -/
def insertEntry (k : SlotKey) (a : α) : List (SlotKey × α) → List (SlotKey × α)
  | [] => [(k, a)]
  | e :: es => if k.index < e.1.index then (k, a) :: e :: es else e :: insertEntry k a es

theorem mem_insertEntry {k : SlotKey} {a : α} {es : List (SlotKey × α)} {e : SlotKey × α} :
    e ∈ insertEntry k a es ↔ e = (k, a) ∨ e ∈ es := by
  induction es with
  | nil => simp [insertEntry]
  | cons x es ih =>
    unfold insertEntry
    split
    · simp
    · simp only [List.mem_cons, ih]
      constructor
      · rintro (h | h | h) <;> simp [h]
      · rintro (h | h | h) <;> simp [h]

theorem pairwise_insertEntry {k : SlotKey} {a : α} {es : List (SlotKey × α)}
    (ho : es.Pairwise (·.1.index < ·.1.index)) (hk : ∀ e ∈ es, e.1.index ≠ k.index) :
    (insertEntry k a es).Pairwise (·.1.index < ·.1.index) := by
  induction es with
  | nil => exact List.pairwise_singleton _ _
  | cons x es ih =>
    have ho' := List.pairwise_cons.1 ho
    unfold insertEntry
    split
    · rename_i h
      refine List.pairwise_cons.2 ⟨fun e he => ?_, ho⟩
      rcases List.mem_cons.1 he with rfl | he
      · exact h
      · exact Nat.lt_trans h (ho'.1 e he)
    · rename_i h
      refine List.pairwise_cons.2 ⟨fun e he => ?_, ih ho'.2 fun e he => hk e (List.mem_cons_of_mem _ he)⟩
      rcases mem_insertEntry.1 he with rfl | he
      · have := hk x List.mem_cons_self
        show x.1.index < k.index
        omega
      · exact ho'.1 e he

/-- Puts a value into the slot freed last, or into a new slot. -/
def insert (m : SlotMap α) (a : α) : SlotKey × SlotMap α :=
  match h : m.free with
  | k :: ks =>
    (k,
      { entries := insertEntry k a m.entries
        free := ks
        opened := m.opened
        ordered := pairwise_insertEntry m.ordered fun e he => m.free_unused k (h ▸ List.mem_cons_self) e he
        free_nodup := (List.pairwise_cons.1 (h ▸ m.free_nodup)).2
        free_unused := fun f hf e he => by
          rcases mem_insertEntry.1 he with rfl | he
          · have hp := List.pairwise_cons.1 (h ▸ m.free_nodup)
            exact hp.1 f hf
          · exact m.free_unused f (h ▸ List.mem_cons_of_mem _ hf) e he
        entries_le := fun e he => by
          rcases mem_insertEntry.1 he with rfl | he
          · exact m.free_le k (h ▸ List.mem_cons_self)
          · exact m.entries_le e he
        free_le := fun f hf => m.free_le f (h ▸ List.mem_cons_of_mem _ hf) })
  | [] =>
    (⟨m.opened + 1, 1⟩,
      { entries := insertEntry ⟨m.opened + 1, 1⟩ a m.entries
        free := []
        opened := m.opened + 1
        ordered := pairwise_insertEntry m.ordered fun e he => by
          have := m.entries_le e he
          show e.1.index ≠ m.opened + 1
          omega
        free_nodup := .nil
        free_unused := by simp
        entries_le := fun e he => by
          rcases mem_insertEntry.1 he with rfl | he
          · exact Nat.le_refl _
          · exact Nat.le_succ_of_le (m.entries_le e he)
        free_le := by simp })

end SlotMap

end ShaderVariant
