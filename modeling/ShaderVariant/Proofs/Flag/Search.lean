import ShaderVariant.Proofs.Flag.Push
import Mathlib.Data.List.Nodup

/-!
# The index of a vocabulary

The symbols of a vocabulary are looked up in ascending order, the bits follow the order of declaration.

* `FlagIndex.Search` : what a search in ascending order may answer, by halves or one by one. It finds what `find?` finds
  (`Search.find?_eq_some`) and tells the place at which `insert` puts a new entry (`Search.insert_eq`);
* `Vocabulary.push_of_search` : what is declared, by the answer of a search;
* `Vocabulary.Agrees` : look-ups by symbol, by name and by bit agree with the list of names; `agrees` : they do.
-/

namespace ShaderVariant

namespace FlagIndex

/-- What a search for a symbol may answer: the place of its entry, or the place between the lesser and the greater
entries. -/
inductive Search (s : Symbol) (x : FlagIndex) : Except Nat Nat → Prop
  | found {k i : Nat} (entry : x[k]? = some (s, i)) : Search s x (.ok k)
  | missing {k : Nat} (le : k ≤ x.length) (before : ∀ e ∈ x.take k, e.1 < s) (after : ∀ e ∈ x.drop k, s < e.1) :
      Search s x (.error k)

variable {s : Symbol} {x : FlagIndex} {k : Nat}

theorem Search.find?_eq_some (hx : x.Sorted) (h : Search s x (.ok k)) : find? s x = (x[k]?).map Prod.snd := by
  cases h with
  | found entry => rw [entry, (find?_eq_some_iff hx).2 (List.mem_of_getElem? entry)]; rfl

theorem Search.find?_eq_none (hx : x.Sorted) (h : Search s x (.error k)) : find? s x = none := by
  cases h with
  | missing le before after =>
    rw [Option.eq_none_iff_forall_ne_some]
    intro i hi
    have hmem := (find?_eq_some_iff hx).1 hi
    rw [← List.take_append_drop k x, List.mem_append] at hmem
    rcases hmem with hmem | hmem
    · exact Nat.lt_irrefl _ (before _ hmem)
    · exact Nat.lt_irrefl _ (after _ hmem)

/-- A new entry is put behind the lesser ones and before the greater ones. -/
theorem insert_eq_insertIdx (i : Nat) (le : k ≤ x.length) (before : ∀ e ∈ x.take k, e.1 < s)
    (after : ∀ e ∈ x.drop k, s < e.1) : insert s i x = x.insertIdx k (s, i) := by
  induction k generalizing x with
  | zero =>
    cases x with
    | nil => rfl
    | cons e x =>
      have hlt : s < e.1 := after e List.mem_cons_self
      rw [insert, if_pos hlt]
      rfl
  | succ k ih =>
    cases x with
    | nil => cases le
    | cons e x =>
      obtain ⟨hlt, hbefore⟩ := List.forall_mem_cons.1 before
      rw [insert, if_neg (Nat.lt_asymm hlt), ih (Nat.le_of_succ_le_succ le) hbefore after]
      rfl

/-- A new entry is put at the place that a search tells. -/
theorem Search.insert_eq (h : Search s x (.error k)) (i : Nat) : insert s i x = x.insertIdx k (s, i) := by
  cases h with
  | missing le before after => exact insert_eq_insertIdx i le before after

end FlagIndex

namespace Vocabulary

variable {v : Vocabulary} {name : String}

/-- A push looks the symbol up, refuses what is found, then more than 32 flags, and otherwise puts the symbol where the
search says, with the next bit. -/
theorem push_of_search {r : Except Nat Nat} (h : FlagIndex.Search (v.intern name).1 v.index r) :
    match r with
    | .ok _ => v.push name = .error (.duplicate name)
    | .error k =>
      if v.size < maxFlags then
        ∃ w, v.push name = .ok (v.size, w) ∧ w.declared = v.declared ++ [(v.intern name).1] ∧
          w.index = v.index.insertIdx k ((v.intern name).1, v.size)
      else v.push name = .error .tooMany := by
  have hfind : (v.intern name).2.bitOfSymbol? (v.intern name).1 = v.index.find? (v.intern name).1 := rfl
  cases r with
  | ok k =>
    simp only
    rw [h.find?_eq_some v.sorted] at hfind
    cases h with
    | found entry =>
      rw [entry] at hfind
      unfold push
      split
      · rfl
      · next hnone => cases hfind.symm.trans hnone
  | error k =>
    simp only
    rw [h.find?_eq_none v.sorted] at hfind
    split
    · next room =>
      unfold push
      split
      · next hsome => cases hfind.symm.trans hsome
      · rw [dif_pos (show (v.intern name).2.size < maxFlags from room)]
        exact ⟨_, rfl, rfl, h.insert_eq v.size⟩
    · next full =>
      unfold push
      split
      · next hsome => cases hfind.symm.trans hsome
      · exact dif_neg full

theorem nameOf?_eq (v : Vocabulary) (i : Nat) : v.nameOf? i = v.names[i]? := by
  have hlist : ∀ ss : List Symbol, (∀ s ∈ ss, ∃ n, v.symbols.resolve? s = some n) →
      ∀ i : Nat, (ss[i]?).bind v.symbols.resolve? = (ss.filterMap v.symbols.resolve?)[i]? := by
    intro ss hss
    induction ss with
    | nil => exact fun i => rfl
    | cons s ss ih =>
      obtain ⟨⟨n, hn⟩, hss⟩ := List.forall_mem_cons.1 hss
      rw [List.filterMap_cons_some hn]
      intro i
      cases i with
      | zero => exact hn
      | succ i => exact ih hss i
  exact hlist v.declared (fun s hs => exists_resolve? hs) i

/-- A symbol is declared at a bit just if it stands for the name there. -/
theorem bitOfSymbol?_eq_some_iff_names {s : Symbol} {i : Nat} :
    v.bitOfSymbol? s = some i ↔ ∃ n, v.symbols.resolve? s = some n ∧ v.names[i]? = some n := by
  rw [bitOfSymbol?_eq_some_iff, ← nameOf?_eq]
  unfold nameOf?
  constructor
  · intro h
    obtain ⟨n, hn⟩ := exists_resolve? (List.mem_of_getElem? h)
    exact ⟨n, hn, by rw [h]; exact hn⟩
  · rintro ⟨n, hn, hname⟩
    obtain ⟨s', hs', hn'⟩ := Option.bind_eq_some_iff.1 hname
    have hsame := (SymbolTable.find?_eq_some_iff.2 hn).symm.trans (SymbolTable.find?_eq_some_iff.2 hn')
    rwa [Option.some.inj hsame]

theorem length_names_le (v : Vocabulary) : v.names.length ≤ 32 := by
  rw [length_names]
  exact v.size_le

theorem nodup_names (v : Vocabulary) : v.names.Nodup := by
  refine List.nodup_iff_injective_get.2 fun i j hij => ?_
  have hbit (i : Fin v.names.length) : v.bitOf? (v.names.get i) = some i.val :=
    bitOf?_eq_some_iff.2 ((nameOf?_eq v i).trans (List.getElem?_eq_getElem i.isLt))
  exact Fin.ext (Option.some.inj ((hbit i).symm.trans (hij ▸ hbit j)))

/-- The index holds the declared symbols with their bits, each once. -/
theorem index_perm (v : Vocabulary) : v.index.Perm v.declared.zipIdx := by
  have hindex : v.index.Nodup := v.sorted.imp fun hlt heq => Nat.ne_of_lt hlt (congrArg Prod.fst heq)
  have hdeclared : v.declared.zipIdx.Nodup := by
    refine List.Nodup.of_map Prod.snd ?_
    rw [List.zipIdx_map_snd]
    exact List.nodup_range'
  exact (List.perm_ext_iff_of_nodup hindex hdeclared).2 fun e =>
    (v.mem_index e.1 e.2).trans List.mem_zipIdx_iff_getElem?.symm

/-- The bits of a mask of symbols are those of the declared names among them. -/
theorem isSet_maskOfSymbols (v : Vocabulary) (ss : List Symbol) (i : Nat) : (v.maskOfSymbols ss).isSet i = true ↔
    ∃ s ∈ ss, ∃ name, v.symbols.resolve? s = some name ∧ v.names[i]? = some name := by
  unfold maskOfSymbols
  rw [Mask.isSet_union_bit, List.mem_filterMap]
  simp only [bitOfSymbol?_eq_some_iff_names]
  refine and_iff_right_of_imp ?_
  rintro ⟨s, -, name, -, hi⟩
  exact Nat.lt_of_lt_of_le (List.getElem?_eq_some_iff.1 hi).1 v.length_names_le

/-- The index holds the declared symbols in ascending order, and every look-up answers by the list of names. -/
structure Agrees (v : Vocabulary) : Prop where
  sorted : v.index.Sorted
  content : v.index.Perm v.declared.zipIdx
  search (s : Symbol) (r : Except Nat Nat) : FlagIndex.Search s v.index r →
    v.bitOfSymbol? s = r.toOption.bind fun k => (v.index[k]?).map Prod.snd
  distinct : v.names.Nodup
  bitOf? (name : String) (i : Nat) : v.bitOf? name = some i ↔ v.names[i]? = some name
  nameOf? (i : Nat) : v.nameOf? i = v.names[i]?
  maskOfSymbols (ss : List Symbol) (i : Nat) : (v.maskOfSymbols ss).isSet i = true ↔
    ∃ s ∈ ss, ∃ name, v.symbols.resolve? s = some name ∧ v.names[i]? = some name

theorem agrees (v : Vocabulary) : v.Agrees where
  sorted := v.sorted
  content := v.index_perm
  search s r h := by
    cases r with
    | ok k => exact h.find?_eq_some v.sorted
    | error k => exact h.find?_eq_none v.sorted
  distinct := v.nodup_names
  bitOf? name i := by rw [bitOf?_eq_some_iff, nameOf?_eq]
  nameOf? := v.nameOf?_eq
  maskOfSymbols := v.isSet_maskOfSymbols

end Vocabulary

end ShaderVariant
