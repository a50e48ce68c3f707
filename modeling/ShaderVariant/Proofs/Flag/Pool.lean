import ShaderVariant.Proofs.Flag.Search

/-!
# Vocabularies over one table of names

All vocabularies number their names by one table, which grows with every name that anybody looks at.

* `Pool` : a table and vocabularies over it; `Pool.Call`, `Pool.run` : names are interned, vocabularies are started and
  flags are pushed, in any order;
* `Call.step`, `Call.run` : what calls answer and leave, by the lists of names alone. `step_names` says it of one call,
  `run_names` of a run;
* `Vocabulary.declared_eq_iff`, `sameAnswers_of_names_eq` : two vocabularies over one table, or over two;
* `Pool.entries_of_rejected` : a push that is rejected leaves every vocabulary as it was;
* `Pool.run_exact` : what vocabularies answer after a run, whatever the table knew before.
-/

namespace ShaderVariant

namespace Vocabulary

variable {v w : Vocabulary} {name : String}

theorem symbols_of_push {i : Nat} (h : v.push name = .ok (i, w)) : w.symbols = (v.symbols.intern name).2 := by
  unfold push at h
  split at h
  · cases h
  · split at h
    · cases h
      rfl
    · cases h

/-! ## Two vocabularies -/

/-- Over one table two vocabularies hold the same symbols just if they hold the same names. -/
theorem declared_eq_iff (h : v.symbols = w.symbols) : v.declared = w.declared ↔ v.names = w.names := by
  constructor
  · intro hdeclared
    unfold names
    rw [h, hdeclared]
  · intro hnames
    refine List.ext_getElem? fun i => Option.ext fun s => ?_
    rw [← bitOfSymbol?_eq_some_iff, ← bitOfSymbol?_eq_some_iff, bitOfSymbol?_eq_some_iff_names,
      bitOfSymbol?_eq_some_iff_names, h, hnames]

/-- Two vocabularies, over tables of their own, give the same answers to questions about names. -/
structure SameAnswers (v w : Vocabulary) : Prop where
  bitOf? (name : String) : v.bitOf? name = w.bitOf? name
  nameOf? (i : Nat) : v.nameOf? i = w.nameOf? i
  maskOfSymbols (ss ts : List Symbol) : ss.map v.symbols.resolve? = ts.map w.symbols.resolve? →
    v.maskOfSymbols ss = w.maskOfSymbols ts

/-- What is answered depends on the names alone. -/
theorem sameAnswers_of_names_eq (h : v.names = w.names) : SameAnswers v w where
  bitOf? name := Option.ext fun i => by rw [v.agrees.bitOf?, w.agrees.bitOf?, h]
  nameOf? i := by rw [nameOf?_eq, nameOf?_eq, h]
  maskOfSymbols ss ts hst := by
    refine Mask.ext_isSet fun i _ => Bool.eq_iff_iff.2 ?_
    have hmem (x : Vocabulary) (us : List Symbol) : (x.maskOfSymbols us).isSet i = true ↔
        ∃ n, some n ∈ us.map x.symbols.resolve? ∧ x.names[i]? = some n := by
      rw [isSet_maskOfSymbols]
      simp only [List.mem_map]
      exact ⟨fun ⟨s, hs, n, hn, hi⟩ => ⟨n, ⟨s, hs, hn⟩, hi⟩, fun ⟨n, ⟨s, hs, hn⟩, hi⟩ => ⟨s, hs, n, hn, hi⟩⟩
    rw [hmem, hmem, hst, h]

end Vocabulary

/-! ## Pools -/

/-- A table of names, and vocabularies over it. -/
structure Pool where
  symbols : SymbolTable
  vocabularies : List Vocabulary
  shared : ∀ v ∈ vocabularies, v.symbols = symbols

namespace Pool

open Vocabulary

/-- What is done: a name is interned, a vocabulary is started, or a flag is pushed to the vocabulary in place `k`. -/
inductive Call where
  | intern (name : String)
  | start
  | push (k : Nat) (name : String)

def ofTable (t : SymbolTable) : Pool := ⟨t, [], List.forall_mem_nil _⟩

def intern (p : Pool) (name : String) : Pool where
  symbols := (p.symbols.intern name).2
  vocabularies := p.vocabularies.map fun v => (v.intern name).2
  shared := by
    intro w hw
    obtain ⟨v, hv, rfl⟩ := List.mem_map.1 hw
    rw [← p.shared v hv]
    rfl

def start (p : Pool) : Pool :=
  { p with
    vocabularies := p.vocabularies ++ [.ofSymbols p.symbols]
    shared := List.forall_mem_append.2 ⟨p.shared, List.forall_mem_singleton.2 rfl⟩ }

def put (p : Pool) (k : Nat) (w : Vocabulary) (h : w.symbols = p.symbols) : Pool :=
  { p with
    vocabularies := p.vocabularies.set k w
    shared := fun v hv => (List.mem_or_eq_of_mem_set hv).elim (p.shared v) fun he => he ▸ h }

theorem symbols_eq_intern {p : Pool} {k i : Nat} {name : String} {v w : Vocabulary} (hk : p.vocabularies[k]? = some v)
    (hv : v.push name = .ok (i, w)) : w.symbols = (p.intern name).symbols := by
  rw [symbols_of_push hv, p.shared v (List.mem_of_getElem? hk)]
  rfl

/-- A flag is pushed. Its name is interned, also if the push is rejected. -/
def push (p : Pool) (k : Nat) (name : String) : Pool × Option (Except VocabularyError Nat) :=
  match hk : p.vocabularies[k]? with
  | none => (p, none)
  | some v =>
    match hv : v.push name with
    | .error e => (p.intern name, some (.error e))
    | .ok (i, w) => ((p.intern name).put k w (symbols_eq_intern hk hv), some (.ok i))

section

variable {p : Pool} {k : Nat} {name : String} {v : Vocabulary}

theorem push_of_none (hk : p.vocabularies[k]? = none) : p.push k name = (p, none) := by
  unfold push
  split
  · rfl
  · next v hv => cases hk.symm.trans hv

theorem push_of_error {e : VocabularyError} (hk : p.vocabularies[k]? = some v) (hv : v.push name = .error e) :
    p.push k name = (p.intern name, some (.error e)) := by
  unfold push
  split
  · next hnone => cases hk.symm.trans hnone
  · next v' hk' =>
    cases hk.symm.trans hk'
    split
    · next e' hv' =>
      cases hv.symm.trans hv'
      rfl
    · next hv' => cases hv.symm.trans hv'

theorem push_of_ok {i : Nat} {w : Vocabulary} (hk : p.vocabularies[k]? = some v) (hv : v.push name = .ok (i, w)) :
    p.push k name = ((p.intern name).put k w (symbols_eq_intern hk hv), some (.ok i)) := by
  unfold push
  split
  · next hnone => cases hk.symm.trans hnone
  · next v' hk' =>
    cases hk.symm.trans hk'
    split
    · next hv' => cases hv.symm.trans hv'
    · next i' w' hv' =>
      cases hv.symm.trans hv'
      rfl

end

def step (p : Pool) : Call → Pool × Option (Except VocabularyError Nat)
  | .intern name => (p.intern name, none)
  | .start => (p.start, none)
  | .push k name => p.push k name

def run (p : Pool) : List Call → Pool × List (Except VocabularyError Nat)
  | [] => (p, [])
  | c :: cs => (((p.step c).1.run cs).1, (p.step c).2.toList ++ ((p.step c).1.run cs).2)

def names (p : Pool) : List (List String) := p.vocabularies.map Vocabulary.names

/-! ## The same by names -/

/-- What a call makes of lists of names, and the answer if it is a push. Interning makes nothing. -/
def Call.step (nss : List (List String)) : Call → List (List String) × Option (Except VocabularyError Nat)
  | .intern _ => (nss, none)
  | .start => (nss ++ [[]], none)
  | .push k name =>
    match nss[k]? with
    | none => (nss, none)
    | some names => (if (answer names name).isOk then nss.set k (names ++ [name]) else nss, some (answer names name))

def Call.run (nss : List (List String)) : List Call → List (List String) × List (Except VocabularyError Nat)
  | [] => (nss, [])
  | c :: cs => ((Call.run (c.step nss).1 cs).1, (c.step nss).2.toList ++ (Call.run (c.step nss).1 cs).2)

theorem names_intern (p : Pool) (name : String) : (p.intern name).names = p.names := by
  unfold names intern
  rw [List.map_map]
  exact List.map_congr_left fun v _ => v.names_intern name

theorem push_names (p : Pool) (k : Nat) (name : String) :
    ((p.push k name).1.names, (p.push k name).2) = (Call.push k name).step p.names := by
  rw [Call.step, show p.names[k]? = (p.vocabularies[k]?).map Vocabulary.names from List.getElem?_map]
  cases hk : p.vocabularies[k]? with
  | none => rw [push_of_none hk, Option.map_none]
  | some v =>
    rw [Option.map_some]
    have hanswer := v.push_eq_answer name
    cases hv : v.push name with
    | error e =>
      rw [hv] at hanswer
      simp only [push_of_error hk hv, ← hanswer, names_intern]
      rfl
    | ok r =>
      obtain ⟨i, w⟩ := r
      rw [hv] at hanswer
      simp only [push_of_ok hk hv, ← hanswer, ← names_of_push hv]
      refine Prod.ext ?_ rfl
      show ((p.intern name).vocabularies.set k w).map Vocabulary.names = p.names.set k w.names
      rw [List.map_set, ← names_intern p name]
      rfl

theorem step_names (p : Pool) (c : Call) : ((p.step c).1.names, (p.step c).2) = c.step p.names := by
  cases c with
  | intern name => exact Prod.ext (p.names_intern name) rfl
  | start => exact Prod.ext List.map_append rfl
  | push k name => exact p.push_names k name

/-- Calls in a row do what they do to the names. -/
theorem run_names (p : Pool) (cs : List Call) : ((p.run cs).1.names, (p.run cs).2) = Call.run p.names cs := by
  induction cs generalizing p with
  | nil => rfl
  | cons c cs ih =>
    have hstep := p.step_names c
    rw [Prod.ext_iff] at hstep
    obtain ⟨hnames, hanswer⟩ := hstep
    simp only at hnames hanswer
    rw [run, Call.run, ← hnames, ← hanswer, ← ih]

def entries (p : Pool) : List (List Symbol × FlagIndex) := p.vocabularies.map fun v => (v.declared, v.index)

theorem entries_intern (p : Pool) (name : String) : (p.intern name).entries = p.entries := by
  unfold entries intern
  rw [List.map_map]
  rfl

/-- A push that is rejected leaves every vocabulary as it was. -/
theorem entries_of_rejected {p : Pool} {k : Nat} {name : String} {e : VocabularyError}
    (h : (p.push k name).2 = some (.error e)) : (p.push k name).1.entries = p.entries := by
  cases hk : p.vocabularies[k]? with
  | none => rw [push_of_none hk]
  | some v =>
    cases hv : v.push name with
    | error e' => rw [push_of_error hk hv, entries_intern]
    | ok r =>
      rw [push_of_ok hk hv] at h
      cases h

/-- After any calls on vocabularies over any table, pushes have answered by the names declared before them, and each
vocabulary answers by its list of accepted names. Vocabularies hold the same symbols just if their names are the same;
a push that is rejected leaves all of them as they are; and over another table the same is answered. -/
theorem run_exact (p : Pool) (cs : List Call) :
    (p.run cs).1.names = (Call.run p.names cs).1 ∧ (p.run cs).2 = (Call.run p.names cs).2 ∧
    (∀ v ∈ (p.run cs).1.vocabularies, v.Agrees) ∧
    (∀ v ∈ (p.run cs).1.vocabularies, ∀ w ∈ (p.run cs).1.vocabularies,
      (v.declared = w.declared ↔ v.names = w.names) ∧ (v.sameFlags w = true ↔ v.names = w.names)) ∧
    (∀ k name e, ((p.run cs).1.push k name).2 = some (.error e) →
      ((p.run cs).1.push k name).1.entries = (p.run cs).1.entries) ∧
    ∀ q : Pool, q.names = p.names → (q.run cs).2 = (p.run cs).2 ∧
      ∀ (k : Nat) (v w : Vocabulary), (p.run cs).1.vocabularies[k]? = some v →
        (q.run cs).1.vocabularies[k]? = some w → SameAnswers v w := by
  have hrun := Prod.ext_iff.1 (p.run_names cs)
  refine ⟨hrun.1, hrun.2, fun v _ => v.agrees, fun v hv w hw => ⟨?_, beq_iff_eq⟩,
    fun k name e => entries_of_rejected, fun q hq => ?_⟩
  · exact declared_eq_iff (((p.run cs).1.shared v hv).trans ((p.run cs).1.shared w hw).symm)
  · have hrun' := Prod.ext_iff.1 (q.run_names cs)
    rw [hq] at hrun'
    refine ⟨hrun'.2.trans hrun.2.symm, fun k v w hv hw => sameAnswers_of_names_eq ?_⟩
    have hnames : (q.run cs).1.names = (p.run cs).1.names := hrun'.1.trans hrun.1.symm
    have hk := congrArg (fun nss : List (List String) => nss[k]?) hnames
    simp only [names, List.getElem?_map, hv, hw, Option.map_some] at hk
    exact (Option.some.inj hk).symm

/-- Bits follow the order of declaration, not that of the table. -/
example : ((ofTable ⟨["B", "A"], by decide⟩).run [.start, .push 0 "A", .push 0 "B", .push 0 "A"]).2 =
    [.ok 0, .ok 1, .error (.duplicate "A")] := by
  decide +kernel

end Pool

end ShaderVariant
