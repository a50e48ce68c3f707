import ShaderVariant.Proofs.Table

/-!
# Keys that were given out

The versions of a slot only grow, so a key that is not live any more is void for good.

* `SlotMap.Issued` : a key was given out. All live keys were (`issued_of_get?`), and the next one was not
  (`not_issued_insert_fst`);
* `SlotMap.Later` : a map after operations. What was given out stays so, and no void key comes back (`later_mapValues`,
  `later_insert`, `later_remove`).
-/

namespace ShaderVariant.SlotMap

variable {α : Type} {m n o : SlotMap α} {k : SlotKey}

/-- A key was given out: its slot is open, holds no earlier version, and goes on with a later one. -/
structure Issued (m : SlotMap α) (k : SlotKey) : Prop where
  opened : k.index ≤ m.opened
  live : ∀ e ∈ m.entries, e.1.index = k.index → k.version ≤ e.1.version
  free : ∀ f ∈ m.free, f.index = k.index → k.version < f.version

/-- A slot has one live value at most. -/
theorem eq_of_index_eq {e f : SlotKey × α} (he : e ∈ m.entries) (hf : f ∈ m.entries) (h : e.1.index = f.1.index) :
    e = f :=
  List.Pairwise.forall_of_forall_of_flip (R := fun a b : SlotKey × α => a.1.index = b.1.index → a = b) (fun _ _ _ => rfl)
    (m.ordered.imp fun hlt he => absurd he (Nat.ne_of_lt hlt))
    (m.ordered.imp fun hlt he => absurd he.symm (Nat.ne_of_lt hlt)) he hf h

theorem issued_of_get? {a : α} (h : m.get? k = some a) : m.Issued k := by
  have hk := mem_entries_iff.2 h
  refine ⟨m.entries_le _ hk, fun e he hi => ?_, fun f hf hi => ?_⟩
  · exact Nat.le_of_eq (congrArg (fun e : SlotKey × α => e.1.version) (eq_of_index_eq he hk hi).symm)
  · exact absurd hi.symm (m.free_unused f hf _ hk)

/-- A new slot is behind all open ones, and a free one goes on with a later version. -/
theorem not_issued_insert_fst (m : SlotMap α) (a : α) : ¬m.Issued (m.insert a).1 := by
  intro h
  rw [(m.insert_parts a).1] at h
  cases hf : m.free with
  | nil =>
    rw [hf] at h
    exact Nat.lt_irrefl _ h.opened
  | cons f fs =>
    rw [hf] at h
    exact Nat.lt_irrefl _ (h.free f (hf ▸ List.mem_cons_self) rfl)

structure Later (m n : SlotMap α) : Prop where
  issued : ∀ k, m.Issued k → n.Issued k
  void : ∀ k, m.Issued k → m.get? k = none → n.get? k = none

theorem Later.refl (m : SlotMap α) : m.Later m := ⟨fun _ h => h, fun _ _ h => h⟩

theorem Later.trans (h : m.Later n) (h' : n.Later o) : m.Later o :=
  ⟨fun k hk => h'.issued k (h.issued k hk), fun k hk hv => h'.void k (h.issued k hk) (h.void k hk hv)⟩

theorem later_mapValues (m : SlotMap α) (f : SlotKey → α → α) : m.Later (m.mapValues f) := by
  refine ⟨fun k h => ⟨h.opened, fun e he hi => ?_, h.free⟩, fun k _ hv => ?_⟩
  · obtain ⟨e', he', rfl⟩ := List.mem_map.1 he
    exact h.live e' he' hi
  · rw [get?_mapValues, hv]
    rfl

theorem later_insert (m : SlotMap α) (a : α) : m.Later (m.insert a).2 := by
  obtain ⟨hkey, -, hfree, hopened⟩ := m.insert_parts a
  refine ⟨fun k h => ⟨?_, fun e he hi => ?_, fun f hf => h.free f (List.mem_of_mem_tail (hfree ▸ hf))⟩, fun k h hv => ?_⟩
  · have := h.opened
    rw [hopened]
    split <;> omega
  · rcases mem_entries_insert.1 he with rfl | he
    · rw [hkey] at hi ⊢
      cases hf : m.free with
      | nil =>
        rw [hf] at hi
        have := h.opened
        exact absurd hi (by simp only [List.head?_nil, Option.getD_none]; omega)
      | cons f fs =>
        rw [hf] at hi
        exact Nat.le_of_lt (h.free f (hf ▸ List.mem_cons_self) hi)
    · exact h.live e he hi
  · rw [get?_insert, if_neg, hv]
    rintro rfl
    exact not_issued_insert_fst m a h

theorem later_remove (m : SlotMap α) (x : SlotKey) : m.Later (m.remove x) := by
  refine ⟨fun k h => ⟨?_, fun e he hi => ?_, fun f hf hi => ?_⟩, fun k _ hv => ?_⟩
  · rw [opened_remove]
    exact h.opened
  · rw [entries_remove] at he
    exact h.live e (List.mem_of_mem_filter he) hi
  · rw [free_remove] at hf
    split at hf
    · next hx =>
      rcases List.mem_cons.1 hf with rfl | hf
      · obtain ⟨a, ha⟩ := contains_iff.1 hx
        have : k.version ≤ x.version := h.live (x, a) (mem_entries_iff.2 ha) hi
        show k.version < x.version + 2
        omega
      · exact h.free f hf hi
    · exact h.free f hf hi
  · rw [get?_remove, hv]
    split <;> rfl

end ShaderVariant.SlotMap
