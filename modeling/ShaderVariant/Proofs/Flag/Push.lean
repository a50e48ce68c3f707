import ShaderVariant.Flag.Vocabulary
import Mathlib.Data.List.Basic

/-!
# Declaring flags

Whatever names a vocabulary's table knows, another flag is refused if its name is declared already, and then if there are
32 flags (`push_eq_answer`, `push_ok_iff`), and otherwise its name comes behind the others (`names_of_push`).
-/

namespace ShaderVariant.Vocabulary

variable {v : Vocabulary} {name : String}

theorem exists_resolve? {s : Symbol} (h : s ∈ v.declared) : ∃ n, v.symbols.resolve? s = some n :=
  ⟨_, List.getElem?_eq_getElem (v.known s h)⟩

theorem length_names (v : Vocabulary) : v.names.length = v.size := by
  have hlen : ∀ ss : List Symbol, (∀ s ∈ ss, ∃ n, v.symbols.resolve? s = some n) →
      (ss.filterMap v.symbols.resolve?).length = ss.length := by
    intro ss hss
    induction ss with
    | nil => rfl
    | cons s ss ih =>
      obtain ⟨⟨n, hn⟩, hss⟩ := List.forall_mem_cons.1 hss
      rw [List.filterMap_cons_some hn, List.length_cons, List.length_cons, ih hss]
  exact hlen v.declared fun s hs => exists_resolve? hs

/-- A name is declared just if its symbol is, be it new or not. -/
theorem mem_names_iff : name ∈ v.names ↔ (v.intern name).1 ∈ v.declared := by
  constructor
  · intro h
    obtain ⟨s, hs, hname⟩ := List.mem_filterMap.1 h
    have hintern := SymbolTable.intern_of_find? (SymbolTable.find?_eq_some_iff.2 hname)
    show (v.symbols.intern name).1 ∈ v.declared
    rwa [hintern]
  · intro h
    obtain ⟨n, hn⟩ := exists_resolve? h
    have hsame := (SymbolTable.resolve?_intern_of_some hn name).symm.trans (SymbolTable.resolve?_intern v.symbols name)
    exact List.mem_filterMap.2 ⟨_, h, hn.trans hsame⟩

theorem bitOfSymbol?_eq_none_iff {s : Symbol} : v.bitOfSymbol? s = none ↔ s ∉ v.declared := by
  refine ⟨not_mem_declared, fun h => ?_⟩
  cases hbit : v.bitOfSymbol? s with
  | none => rfl
  | some i => exact absurd (List.mem_of_getElem? (bitOfSymbol?_eq_some_iff.1 hbit)) h

/-- What a push answers when `names` are declared: a name that is among them is refused, and then more than 32. -/
def answer (names : List String) (name : String) : Except VocabularyError Nat :=
  if name ∈ names then .error (.duplicate name) else if names.length < maxFlags then .ok names.length else .error .tooMany

/-- A push answers by the names declared before, whatever other names the table knows. -/
theorem push_eq_answer (v : Vocabulary) (name : String) : (v.push name).map Prod.fst = answer v.names name := by
  have hbit : (v.intern name).2.bitOfSymbol? (v.intern name).1 = none ↔ name ∉ v.names :=
    bitOfSymbol?_eq_none_iff.trans (not_congr mem_names_iff.symm)
  unfold push answer
  rw [length_names]
  split
  · next i hi =>
    rw [if_pos (by_contra fun hnew => by cases (hbit.2 hnew).symm.trans hi)]
    rfl
  · next hnone =>
    rw [if_neg (hbit.1 hnone)]
    split
    · next room => exact (if_pos (show v.size < maxFlags from room)).symm
    · next full => exact (if_neg (show ¬ v.size < maxFlags from full)).symm

/-- A flag is declared just if its name is new and there is room. -/
theorem push_ok_iff : (∃ i w, v.push name = .ok (i, w)) ↔ name ∉ v.names ∧ v.names.length < maxFlags := by
  have hanswer := v.push_eq_answer name
  unfold answer at hanswer
  split at hanswer
  · next hmem => exact iff_of_false (fun ⟨i, w, h⟩ => by rw [h] at hanswer; cases hanswer) fun h => h.1 hmem
  · next hnew =>
    split at hanswer
    · next room =>
      refine iff_of_true ?_ ⟨hnew, room⟩
      cases hpush : v.push name with
      | error e => rw [hpush] at hanswer; cases hanswer
      | ok r => exact ⟨r.1, r.2, rfl⟩
    · next full => exact iff_of_false (fun ⟨i, w, h⟩ => by rw [h] at hanswer; cases hanswer) fun h => full h.2

theorem names_intern (v : Vocabulary) (name : String) : (v.intern name).2.names = v.names :=
  List.filterMap_congr fun s hs => by
    obtain ⟨n, hn⟩ := v.exists_resolve? hs
    exact (SymbolTable.resolve?_intern_of_some hn name).trans hn.symm

/-- The name of another flag comes behind those before. -/
theorem names_of_push {i : Nat} {w : Vocabulary} (h : v.push name = .ok (i, w)) : w.names = v.names ++ [name] := by
  unfold push at h
  split at h
  · cases h
  · split at h
    · cases h
      have hnew : [(v.intern name).1].filterMap (v.symbols.intern name).2.resolve? = [name] :=
        List.filterMap_cons_some (SymbolTable.resolve?_intern v.symbols name)
      show (v.declared ++ [(v.intern name).1]).filterMap (v.symbols.intern name).2.resolve? = _
      rw [List.filterMap_append, hnew]
      exact congrArg (· ++ [name]) (v.names_intern name)
    · cases h

end ShaderVariant.Vocabulary
