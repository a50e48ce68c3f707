import Mathlib.Data.List.Perm.Basic
import ShaderVariant.Table.Assoc
import ShaderVariant.Table.SlotMap

/-!
# Laws of the tables

* `Assoc` : `get?_set`, `mem_of_get?`, `exists_split_of_get?` (writing a key that is there changes one place),
  `set_eq_append` (writing a new key appends), `erase_eq_filter`, `erase_comm`;
* `SlotMap` : `mem_entries_iff`, `entries_eq_of_get?`, and what each operation does to the look-up (`get?_mapValues`,
  `get?_set`, `get?_remove`, `get?_insert`, `set_set`); the key that `insert` gives out is not live before
  (`get?_insert_fst`);
* `SlotMap.exists_split_of_get?` : the entries around a live key, which `set` and `remove` leave alone;
* `SlotMap.map` : every value in another form; the operations are those on the other form (`map_set`, `map_insert`,
  `map_remove`);
* `SlotMap.NamedBy` : names beside a slot map, one for each value, kept by every operation on both.
-/

namespace ShaderVariant

namespace Assoc

variable {κ α : Type} [DecidableEq κ]

theorem get?_set (m : Assoc κ α) (key key' : κ) (a : α) :
    get? (set m key a) key' = if key = key' then some a else get? m key' := by
  split
  · next h => rw [← h, get?_set_self]
  · next h => exact get?_set_of_ne h m a

theorem mem_of_get? {m : Assoc κ α} {key : κ} {a : α} (h : get? m key = some a) : (key, a) ∈ m := by
  induction m with
  | nil => simp at h
  | cons p m ih =>
    obtain ⟨k, b⟩ := p
    by_cases hk : k = key
    · rw [get?_cons, if_pos hk] at h
      cases h
      exact hk ▸ List.mem_cons_self
    · rw [get?_cons, if_neg hk] at h
      exact List.mem_cons_of_mem _ (ih h)

/-- Writing a key that is there changes one place. -/
theorem exists_split_of_get? {m : Assoc κ α} {key : κ} {a : α} (h : get? m key = some a) :
    ∃ xs ys, m = xs ++ (key, a) :: ys ∧ ∀ b, set m key b = xs ++ (key, b) :: ys := by
  induction m with
  | nil => simp at h
  | cons p m ih =>
    obtain ⟨k, b⟩ := p
    by_cases hk : k = key
    · rw [get?_cons, if_pos hk] at h
      cases h
      exact ⟨[], m, by rw [hk]; rfl, fun b => by simp [set, hk]⟩
    · rw [get?_cons, if_neg hk] at h
      obtain ⟨xs, ys, hm, hs⟩ := ih h
      exact ⟨(k, b) :: xs, ys, by rw [hm]; rfl, fun b => by rw [set, if_neg hk, hs b]; rfl⟩

theorem set_eq_append {m : Assoc κ α} {key : κ} (h : get? m key = none) (a : α) : set m key a = m ++ [(key, a)] := by
  induction m with
  | nil => rfl
  | cons p m ih =>
    obtain ⟨k, b⟩ := p
    by_cases hk : k = key
    · rw [get?_cons, if_pos hk] at h
      cases h
    · rw [get?_cons, if_neg hk] at h
      rw [set, if_neg hk, ih h]
      rfl

theorem get?_eq_none_iff {m : Assoc κ α} {key : κ} : get? m key = none ↔ key ∉ m.map Prod.fst := by
  induction m with
  | nil => simp
  | cons p m ih =>
    obtain ⟨k, b⟩ := p
    rw [get?_cons, List.map_cons, List.mem_cons]
    by_cases hk : k = key
    · simp [hk]
    · have hk' : key ≠ k := fun h => hk h.symm
      rw [if_neg hk, ih]
      simp [hk']

theorem has_iff {m : Assoc κ α} {key : κ} : has m key = true ↔ key ∈ m.map Prod.fst := by
  rw [has, Option.isSome_iff_ne_none, ne_eq, get?_eq_none_iff, not_not]

theorem erase_eq_filter (m : Assoc κ α) (key : κ) : erase m key = m.filter (·.1 ≠ key) := by
  induction m with
  | nil => rfl
  | cons p m ih =>
    obtain ⟨k, b⟩ := p
    by_cases hk : k = key <;> simp [erase, hk, ih]

theorem erase_comm (m : Assoc κ α) (key key' : κ) : erase (erase m key) key' = erase (erase m key') key := by
  simp only [erase_eq_filter, List.filter_filter, Bool.and_comm]

end Assoc

namespace SlotMap

variable {α : Type}

/-! ## Look-up among entries -/

theorem mem_of_lookup {k : SlotKey} {a : α} {es : List (SlotKey × α)} (h : lookup k es = some a) : (k, a) ∈ es := by
  induction es with
  | nil => cases h
  | cons e es ih =>
    obtain ⟨key, b⟩ := e
    by_cases hk : key = k
    · rw [lookup, if_pos hk] at h
      cases h
      exact hk ▸ List.mem_cons_self
    · rw [lookup, if_neg hk] at h
      exact List.mem_cons_of_mem _ (ih h)

theorem lookup_of_mem {k : SlotKey} {a : α} {es : List (SlotKey × α)} (ho : es.Pairwise (·.1.index < ·.1.index))
    (h : (k, a) ∈ es) : lookup k es = some a := by
  induction es with
  | nil => cases h
  | cons e es ih =>
    obtain ⟨key, b⟩ := e
    obtain ⟨hlt, ho⟩ := List.pairwise_cons.1 ho
    rcases List.mem_cons.1 h with h | h
    · cases h
      rw [lookup, if_pos rfl]
    · have hk : key ≠ k := fun he => Nat.lt_irrefl _ (he ▸ hlt _ h)
      rw [lookup, if_neg hk, ih ho h]

theorem lookup_eq_none_iff {k : SlotKey} {es : List (SlotKey × α)} : lookup k es = none ↔ ∀ e ∈ es, e.1 ≠ k := by
  induction es with
  | nil => simp [lookup]
  | cons e es ih =>
    obtain ⟨key, b⟩ := e
    by_cases hk : key = k <;> simp [lookup, hk, ih]

/-- The entries are the live keys with their values. -/
theorem mem_entries_iff {m : SlotMap α} {k : SlotKey} {a : α} : (k, a) ∈ m.entries ↔ m.get? k = some a :=
  ⟨lookup_of_mem m.ordered, mem_of_lookup⟩

theorem mem_values_iff {m : SlotMap α} {a : α} : a ∈ m.values ↔ ∃ k, m.get? k = some a := by
  simp only [values, List.mem_map, Prod.exists, exists_eq_right, mem_entries_iff]

theorem contains_iff {m : SlotMap α} {k : SlotKey} : m.contains k = true ↔ ∃ a, m.get? k = some a := by
  rw [contains, Option.isSome_iff_exists]

theorem get?_eq_none_iff {m : SlotMap α} {k : SlotKey} : m.get? k = none ↔ ∀ e ∈ m.entries, e.1 ≠ k :=
  lookup_eq_none_iff

/-- The entries are known from the look-up. -/
theorem entries_eq_of_get? {m n : SlotMap α} (h : ∀ k, m.get? k = n.get? k) : m.entries = n.entries := by
  have nodup (x : SlotMap α) : x.entries.Nodup := by
    refine x.ordered.imp fun hlt he => ?_
    rw [he] at hlt
    exact Nat.lt_irrefl _ hlt
  have hperm : m.entries.Perm n.entries := by
    refine (List.perm_ext_iff_of_nodup (nodup m) (nodup n)).2 fun e => ?_
    rw [mem_entries_iff, mem_entries_iff, h]
  refine hperm.eq_of_pairwise (fun a b _ _ hab hba => ?_) m.ordered n.ordered
  exact absurd hba (Nat.lt_asymm hab)

@[simp] theorem get?_empty (k : SlotKey) : (empty : SlotMap α).get? k = none := rfl

/-! ## Changing values -/

theorem lookup_mapEntries (f : SlotKey → α → α) (k : SlotKey) (es : List (SlotKey × α)) :
    lookup k (mapEntries f es) = (lookup k es).map (f k) := by
  induction es with
  | nil => rfl
  | cons e es ih =>
    obtain ⟨key, a⟩ := e
    rw [mapEntries, List.map_cons, lookup, lookup]
    by_cases hk : key = k
    · rw [if_pos hk, if_pos hk, hk]
      rfl
    · rw [if_neg hk, if_neg hk]
      exact ih

theorem get?_mapValues (m : SlotMap α) (f : SlotKey → α → α) (k : SlotKey) :
    (m.mapValues f).get? k = (m.get? k).map (f k) :=
  lookup_mapEntries f k m.entries

theorem get?_modify (m : SlotMap α) (k k' : SlotKey) (f : α → α) :
    (m.modify k f).get? k' = if k = k' then (m.get? k').map f else m.get? k' := by
  rw [modify, get?_mapValues]
  by_cases h : k = k'
  · subst h
    simp
  · have h' : k' ≠ k := fun he => h he.symm
    cases m.get? k' <;> simp [h, h']

theorem get?_set (m : SlotMap α) (k k' : SlotKey) (a : α) :
    (m.set k a).get? k' = if k = k' then (m.get? k').map fun _ => a else m.get? k' :=
  get?_modify m k k' _

theorem ext_parts {m n : SlotMap α} (he : m.entries = n.entries) (hf : m.free = n.free) (ho : m.opened = n.opened) :
    m = n := by
  cases m
  cases n
  cases he
  cases hf
  cases ho
  rfl

theorem set_set (m : SlotMap α) (k : SlotKey) (a b : α) : (m.set k a).set k b = m.set k b := by
  refine ext_parts ?_ rfl rfl
  show List.map _ (List.map _ m.entries) = List.map _ m.entries
  rw [List.map_map]
  refine List.map_congr_left fun e _ => ?_
  by_cases h : e.1 = k <;> simp [h]

theorem set_eq_self {m : SlotMap α} {k : SlotKey} {a : α} (h : m.get? k = some a) : m.set k a = m := by
  refine ext_parts ?_ rfl rfl
  show List.map _ m.entries = m.entries
  refine (List.map_congr_left fun e he => ?_).trans (List.map_id _)
  obtain ⟨key, b⟩ := e
  by_cases hk : key = k
  · have hb : m.get? k = some b := hk ▸ lookup_of_mem m.ordered he
    cases h.symm.trans hb
    simp
  · simp [hk]

/-! ## Removing -/

theorem entries_remove (m : SlotMap α) (k : SlotKey) : (m.remove k).entries = m.entries.filter (·.1 ≠ k) := by
  unfold remove
  split
  · rfl
  · next h =>
    refine (List.filter_eq_self.2 fun e he => ?_).symm
    have : e.1 ≠ k := fun hk => h ⟨e, he, hk⟩
    simpa using this

theorem get?_remove (m : SlotMap α) (k k' : SlotKey) :
    (m.remove k).get? k' = if k = k' then none else m.get? k' := by
  ext a
  rw [← mem_entries_iff, entries_remove, List.mem_filter, mem_entries_iff]
  by_cases h : k = k'
  · simp [h]
  · have h' : k' ≠ k := fun he => h he.symm
    simp [h, h']

/-! ## Inserting -/

theorem mem_entries_insert {m : SlotMap α} {a : α} {e : SlotKey × α} :
    e ∈ (m.insert a).2.entries ↔ e = ((m.insert a).1, a) ∨ e ∈ m.entries := by
  unfold insert
  split <;> exact mem_insertEntry

/-- The key that is given out was not live. -/
theorem get?_insert_fst (m : SlotMap α) (a : α) : m.get? (m.insert a).1 = none := by
  rw [get?_eq_none_iff]
  intro e he hk
  unfold insert at hk
  split at hk
  · next k ks hf =>
    exact m.free_unused k (hf ▸ List.mem_cons_self) e he (congrArg SlotKey.index hk)
  · have := m.entries_le e he
    rw [hk] at this
    exact Nat.lt_irrefl _ this

theorem get?_insert (m : SlotMap α) (a : α) (k : SlotKey) :
    (m.insert a).2.get? k = if (m.insert a).1 = k then some a else m.get? k := by
  have hnone := get?_insert_fst m a
  ext b
  rw [← mem_entries_iff, mem_entries_insert, mem_entries_iff]
  by_cases h : (m.insert a).1 = k
  · subst h
    simp [hnone, eq_comm]
  · have h' : k ≠ (m.insert a).1 := fun he => h he.symm
    simp [h, h']

theorem perm_insertEntry (k : SlotKey) (a : α) (es : List (SlotKey × α)) :
    (insertEntry k a es).Perm ((k, a) :: es) := by
  induction es with
  | nil => exact .refl _
  | cons e es ih =>
    unfold insertEntry
    split
    · exact .refl _
    · exact (ih.cons e).trans (.swap _ _ _)

theorem perm_values_insert (m : SlotMap α) (a : α) : (m.insert a).2.values.Perm (a :: m.values) := by
  unfold insert
  split <;> exact (perm_insertEntry _ a m.entries).map Prod.snd

/-! ## Around one key -/

/-- The entries before and behind a live key stay when its value is replaced or removed. -/
theorem exists_split_of_get? {m : SlotMap α} {k : SlotKey} {a : α} (h : m.get? k = some a) :
    ∃ xs ys, m.entries = xs ++ (k, a) :: ys ∧ (∀ e ∈ xs ++ ys, e.1 ≠ k) ∧
      (∀ b, (m.set k b).entries = xs ++ (k, b) :: ys) ∧ (m.remove k).entries = xs ++ ys := by
  obtain ⟨xs, ys, hm⟩ := List.append_of_mem (mem_entries_iff.2 h)
  have ho := hm ▸ m.ordered
  have hne : ∀ e ∈ xs ++ ys, e.1 ≠ k := by
    intro e he hk
    rw [List.pairwise_append, List.pairwise_cons] at ho
    rcases List.mem_append.1 he with he | he
    · exact Nat.lt_irrefl _ (hk ▸ ho.2.2 e he (k, a) List.mem_cons_self)
    · exact Nat.lt_irrefl _ (hk ▸ ho.2.1.1 e he)
  have hmap : ∀ (b : α) (es : List (SlotKey × α)), (∀ e ∈ es, e.1 ≠ k) →
      es.map (fun e => (e.1, if e.1 = k then b else e.2)) = es := by
    intro b es hes
    refine (List.map_congr_left fun e he => ?_).trans (List.map_id es)
    rw [if_neg (hes e he)]
    rfl
  have hx : ∀ e ∈ xs, e.1 ≠ k := fun e he => hne e (List.mem_append_left _ he)
  have hy : ∀ e ∈ ys, e.1 ≠ k := fun e he => hne e (List.mem_append_right _ he)
  refine ⟨xs, ys, hm, hne, fun b => ?_, ?_⟩
  · show mapEntries (fun key c => if key = k then b else c) m.entries = xs ++ (k, b) :: ys
    rw [hm, mapEntries, List.map_append, List.map_cons, if_pos rfl]
    exact congrArg₂ _ (hmap b xs hx) (congrArg _ (hmap b ys hy))
  · have hfilter : ∀ es : List (SlotKey × α), (∀ e ∈ es, e.1 ≠ k) → es.filter (·.1 ≠ k) = es :=
      fun es hes => List.filter_eq_self.2 fun e he => by simpa using hes e he
    rw [entries_remove, hm, List.filter_append, List.filter_cons, if_neg (by simp), hfilter xs hx, hfilter ys hy]

/-! ## Changing every value -/

def map (f : α → α) (m : SlotMap α) : SlotMap α := m.mapValues fun _ => f

theorem get?_map (f : α → α) (m : SlotMap α) (k : SlotKey) : (m.map f).get? k = (m.get? k).map f :=
  get?_mapValues m _ k

theorem entries_map (f : α → α) (m : SlotMap α) : (m.map f).entries = m.entries.map fun e => (e.1, f e.2) := rfl

theorem keys_map (f : α → α) (m : SlotMap α) : (m.map f).keys = m.keys := by
  rw [keys, keys, entries_map, List.map_map]
  rfl

theorem values_map (f : α → α) (m : SlotMap α) : (m.map f).values = m.values.map f := by
  rw [values, values, entries_map, List.map_map, List.map_map]
  rfl

/-- Changes of values are made in the other form. -/
theorem map_mapValues {f : α → α} {g h : SlotKey → α → α} (hgh : ∀ k a, f (g k a) = h k (f a)) (m : SlotMap α) :
    (m.mapValues g).map f = (m.map f).mapValues h := by
  refine ext_parts ?_ rfl rfl
  show mapEntries (fun _ => f) (mapEntries g m.entries) = mapEntries h (mapEntries (fun _ => f) m.entries)
  simp only [mapEntries, List.map_map]
  refine List.map_congr_left fun e _ => ?_
  simp [hgh]

theorem map_set (f : α → α) (m : SlotMap α) (k : SlotKey) (a : α) : (m.set k a).map f = (m.map f).set k (f a) := by
  refine map_mapValues (fun key b => ?_) m
  split <;> rfl

theorem map_insertEntry (f : α → α) (k : SlotKey) (a : α) (es : List (SlotKey × α)) :
    (insertEntry k a es).map (fun e => (e.1, f e.2)) = insertEntry k (f a) (es.map fun e => (e.1, f e.2)) := by
  induction es with
  | nil => rfl
  | cons e es ih =>
    rw [insertEntry, List.map_cons, insertEntry]
    split
    · rfl
    · rw [List.map_cons, ih]

/-- What an insertion makes of each part. -/
theorem insert_parts (m : SlotMap α) (a : α) :
    (m.insert a).1 = m.free.head?.getD ⟨m.opened + 1, 1⟩ ∧
      (m.insert a).2.entries = insertEntry (m.insert a).1 a m.entries ∧ (m.insert a).2.free = m.free.tail ∧
        (m.insert a).2.opened = if m.free.isEmpty then m.opened + 1 else m.opened := by
  unfold insert
  split <;> next h => simp [h]

theorem map_insert (f : α → α) (m : SlotMap α) (a : α) :
    (m.map f).insert (f a) = ((m.insert a).1, (m.insert a).2.map f) := by
  obtain ⟨hkey, hentries, hfree, hopened⟩ := m.insert_parts a
  obtain ⟨hkey', hentries', hfree', hopened'⟩ := (m.map f).insert_parts (f a)
  have hk : ((m.map f).insert (f a)).1 = (m.insert a).1 := hkey'.trans hkey.symm
  refine Prod.ext hk (ext_parts ?_ (hfree'.trans hfree.symm) (hopened'.trans hopened.symm))
  rw [hentries', hk, entries_map, entries_map, hentries, map_insertEntry]

theorem free_remove (m : SlotMap α) (k : SlotKey) :
    (m.remove k).free = if m.contains k then k.reused :: m.free else m.free := by
  have hlive : (∃ e ∈ m.entries, e.1 = k) ↔ m.contains k = true := by
    rw [contains_iff]
    constructor
    · rintro ⟨⟨key, a⟩, he, rfl⟩
      exact ⟨a, mem_entries_iff.1 he⟩
    · rintro ⟨a, ha⟩
      exact ⟨(k, a), mem_entries_iff.2 ha, rfl⟩
  unfold remove
  split
  · next h => rw [if_pos (hlive.1 h)]
  · next h => rw [if_neg (mt hlive.2 h)]

theorem opened_remove (m : SlotMap α) (k : SlotKey) : (m.remove k).opened = m.opened := by
  unfold remove
  split <;> rfl

theorem map_remove (f : α → α) (m : SlotMap α) (k : SlotKey) : (m.remove k).map f = (m.map f).remove k := by
  refine ext_parts ?_ ?_ ((opened_remove m k).trans (opened_remove (m.map f) k).symm)
  · rw [entries_map, entries_remove, entries_remove, entries_map, List.filter_map]
    rfl
  · show (m.remove k).free = _
    rw [free_remove, free_remove, contains, contains, get?_map, Option.isSome_map]
    rfl

/-! ## Names of values -/

/-- A name stands for the live key whose value has it. -/
def NamedBy (m : SlotMap α) (nameOf : α → String) (names : Assoc String SlotKey) : Prop :=
  ∀ name k, names.get? name = some k ↔ ∃ a, m.get? k = some a ∧ nameOf a = name

namespace NamedBy

variable {m : SlotMap α} {nameOf : α → String} {names : Assoc String SlotKey}

theorem empty (nameOf : α → String) : (SlotMap.empty : SlotMap α).NamedBy nameOf [] := by
  intro name k
  simp

theorem find?_of_get? (h : m.NamedBy nameOf names) {k : SlotKey} {a : α} (ha : m.get? k = some a) :
    names.get? (nameOf a) = some k :=
  (h _ k).2 ⟨a, ha, rfl⟩

theorem insert (h : m.NamedBy nameOf names) {a : α} (ha : names.get? (nameOf a) = none) :
    (m.insert a).2.NamedBy nameOf (names.set (nameOf a) (m.insert a).1) := by
  intro name k
  rw [Assoc.get?_set, get?_insert]
  by_cases hk : (m.insert a).1 = k
  · have hnone : m.get? k = none := hk ▸ get?_insert_fst m a
    by_cases hn : nameOf a = name <;> simp [hn, hk, h name k, hnone]
  · rw [if_neg hk]
    by_cases hn : nameOf a = name
    · rw [if_pos hn]
      constructor
      · intro he
        exact absurd (Option.some.inj he) hk
      · rintro ⟨b, hb, hbn⟩
        have := h.find?_of_get? hb
        rw [hbn, ← hn, ha] at this
        cases this
    · rw [if_neg hn]
      exact h name k

theorem remove (h : m.NamedBy nameOf names) {k : SlotKey} {a : α} (ha : m.get? k = some a) :
    (m.remove k).NamedBy nameOf (names.erase (nameOf a)) := by
  intro name x
  rw [get?_remove]
  by_cases hn : nameOf a = name
  · rw [hn, Assoc.get?_erase_self]
    constructor
    · intro he
      cases he
    · rintro ⟨b, hb, hbn⟩
      split at hb
      · cases hb
      · next hne =>
        have := h.find?_of_get? hb
        rw [hbn, ← hn, h.find?_of_get? ha] at this
        exact absurd (Option.some.inj this) hne
  · rw [Assoc.get?_erase_of_ne hn, h name x]
    by_cases hx : k = x
    · subst hx
      simp [ha, hn]
    · rw [if_neg hx]

theorem mapValues (h : m.NamedBy nameOf names) {f : SlotKey → α → α} (hf : ∀ k a, nameOf (f k a) = nameOf a) :
    (m.mapValues f).NamedBy nameOf names := by
  intro name k
  rw [h name k, get?_mapValues]
  cases m.get? k <;> simp [hf]

theorem set (h : m.NamedBy nameOf names) {k : SlotKey} {a b : α} (ha : m.get? k = some a) (hb : nameOf b = nameOf a) :
    (m.set k b).NamedBy nameOf names := by
  intro name x
  rw [h name x, get?_set]
  by_cases hx : k = x
  · subst hx
    simp [ha, hb]
  · rw [if_neg hx]

end NamedBy

end SlotMap

end ShaderVariant
