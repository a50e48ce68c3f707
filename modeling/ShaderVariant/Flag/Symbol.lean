/-!
# Symbols

A symbol stands for a name. A `SymbolTable` numbers the names it has seen in the order in which they came.

* `SymbolTable.intern` : the symbol of a name, given out now if the name is new;
* `SymbolTable.find?`, `SymbolTable.resolve?` : from names to symbols and back, `find?_eq_some_iff`;
* interning keeps every symbol given out before (`resolve?_intern_of_some`).
-/

namespace ShaderVariant

/-- The number that stands for a name. -/
abbrev Symbol := Nat

/-- The names seen so far, each at its symbol. -/
structure SymbolTable where
  names : List String
  nodup : names.Nodup

namespace SymbolTable

def empty : SymbolTable := ⟨[], List.nodup_nil⟩

instance : Inhabited SymbolTable := ⟨empty⟩

def resolve? (t : SymbolTable) (s : Symbol) : Option String := t.names[s]?

def find? (t : SymbolTable) (name : String) : Option Symbol := t.names.findIdx? (· == name)

theorem find?_eq_some_iff {t : SymbolTable} {name : String} {s : Symbol} :
    t.find? name = some s ↔ t.resolve? s = some name := by
  constructor
  · intro h
    obtain ⟨hs, hn, -⟩ := List.findIdx?_eq_some_iff_getElem.1 h
    simp only [resolve?, List.getElem?_eq_getElem hs]
    simpa using hn
  · intro h
    obtain ⟨hs, hn⟩ := List.getElem?_eq_some_iff.1 h
    refine List.findIdx?_eq_some_iff_getElem.2 ⟨hs, by simpa using hn, fun j hj => ?_⟩
    have hlt : j < t.names.length := by omega
    have hne : t.names[j] ≠ t.names[s] := fun he => absurd ((List.getElem_inj t.nodup).1 he) (by omega)
    simpa [hn] using hne

theorem find?_eq_none_iff {t : SymbolTable} {name : String} : t.find? name = none ↔ name ∉ t.names := by
  simp [find?, List.findIdx?_eq_none_iff]
  constructor
  · exact fun h hm => h name hm rfl
  · exact fun h x hx he => h (he ▸ hx)

/-- The symbol of a name, and the table that knows it. -/
def intern (t : SymbolTable) (name : String) : Symbol × SymbolTable :=
  match h : t.find? name with
  | some s => (s, t)
  | none =>
    (t.names.length, ⟨t.names ++ [name], by
      simp [List.nodup_append, t.nodup]
      exact fun a ha he => find?_eq_none_iff.1 h (he ▸ ha)⟩)

/-- A name that was seen keeps its symbol, and the table stays as it is. -/
theorem intern_of_find? {t : SymbolTable} {name : String} {s : Symbol} (h : t.find? name = some s) :
    t.intern name = (s, t) := by
  unfold intern
  split
  · rename_i s' h'
    rw [h] at h'
    cases h'
    rfl
  · rename_i h'
    rw [h] at h'
    cases h'

theorem intern_of_not_mem {t : SymbolTable} {name : String} (h : t.find? name = none) :
    (t.intern name).1 = t.names.length ∧ (t.intern name).2.names = t.names ++ [name] := by
  unfold intern
  split
  · rename_i s' h'
    rw [h] at h'
    cases h'
  · exact ⟨rfl, rfl⟩

theorem resolve?_intern (t : SymbolTable) (name : String) :
    (t.intern name).2.resolve? (t.intern name).1 = some name := by
  cases h : t.find? name with
  | some s => rw [intern_of_find? h]; exact find?_eq_some_iff.1 h
  | none =>
    obtain ⟨h₁, h₂⟩ := intern_of_not_mem h
    simp [resolve?, h₁, h₂]

/-- Interning keeps every symbol given out before. -/
theorem resolve?_intern_of_some {t : SymbolTable} {s : Symbol} {n : String} (h : t.resolve? s = some n)
    (name : String) : (t.intern name).2.resolve? s = some n := by
  cases hf : t.find? name with
  | some s' => rw [intern_of_find? hf]; exact h
  | none =>
    obtain ⟨-, h₂⟩ := intern_of_not_mem hf
    have hs : s < t.names.length := (List.getElem?_eq_some_iff.1 h).1
    simp only [resolve?] at h
    simp only [resolve?, h₂]
    rw [List.getElem?_append_left hs, h]

end SymbolTable

end ShaderVariant
