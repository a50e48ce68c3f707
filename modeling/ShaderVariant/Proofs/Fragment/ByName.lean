import ShaderVariant.Proofs.Fragment.Store

/-!
# Fragment tables by name

The keys of a table tell in which order it was filled. What is in it is seen by name.

* `FragmentStore.Has` : the names of a table;
* `FragmentStore.content?` : the content of the fragment with a name, with what it includes by name. A table that is
  added to keeps it (`Keeps.content?`);
* `FragmentStore.Matches` : tables with the same content by name. What is expanded in them is the same text or the same
  error, if it includes the same names (`Matches.expand_congr`).
-/

namespace ShaderVariant

/-- What a fragment is, with what it includes by name. -/
structure Content where
  name : String
  text : Text
  includes : List (String × Nat)
  flagRefs : List String
  version : Generation
  deriving DecidableEq, Repr

namespace FragmentStore

variable {s t : FragmentStore}

/-! ## Names -/

def Has (s : FragmentStore) (name : String) : Prop := ∃ k, s.find? name = some k

theorem not_has_iff {name : String} : ¬ s.Has name ↔ s.find? name = none := by
  unfold Has
  cases s.find? name <;> simp

theorem Named.has_of_get? (h : Named s) {k : FragmentKey} {f : Fragment} (hf : s.get? k = some f) : s.Has f.name :=
  ⟨k, h.find?_of_get? hf⟩

theorem find?_insertNew (s : FragmentStore) (f : Fragment) (name : String) :
    (s.insertNew f).2.find? name = if f.name = name then some (s.insertNew f).1 else s.find? name :=
  Assoc.get?_set s.names f.name name _

theorem has_insertNew {f : Fragment} {name : String} : (s.insertNew f).2.Has name ↔ f.name = name ∨ s.Has name := by
  unfold Has
  rw [find?_insertNew]
  split
  · next h => simp [h]
  · next h => simp [h]

theorem find?_replaceContent {k : FragmentKey} {f : Fragment} (h : s.replaceContent k f = .ok t) (name : String) :
    t.find? name = s.find? name := by
  obtain ⟨-, rfl⟩ := replaceContent_eq h
  rfl

theorem Keeps.find? (h : Keeps s t) (hs : Named s) (ht : Named t) {name : String} {k : FragmentKey}
    (hk : s.find? name = some k) : t.find? name = some k := by
  obtain ⟨f, hf, rfl⟩ := (hs name k).1 hk
  exact ht.find?_of_get? (h k f hf)

theorem Keeps.has (h : Keeps s t) (hs : Named s) (ht : Named t) {name : String} (hn : s.Has name) : t.Has name := by
  obtain ⟨k, hk⟩ := hn
  exact ⟨k, h.find? hs ht hk⟩

theorem displayName_of_get? {k : FragmentKey} {f : Fragment} (hf : s.get? k = some f) : s.displayName k = f.name := by
  rw [displayName, hf]

theorem Named.has_displayName (h : Named s) {k : FragmentKey} (hk : s.contains k = true) : s.Has (s.displayName k) := by
  obtain ⟨f, hf⟩ := contains_iff.1 hk
  rw [displayName_of_get? hf]
  exact h.has_of_get? hf

theorem Keeps.displayName (h : Keeps s t) {k : FragmentKey} (hk : s.contains k = true) :
    t.displayName k = s.displayName k := by
  unfold FragmentStore.displayName
  rw [h.get? hk]

theorem Named.key_eq (h : Named s) {k x : FragmentKey} (hk : s.contains k = true) (hx : s.contains x = true)
    (hn : s.displayName k = s.displayName x) : k = x := by
  obtain ⟨f, hf⟩ := contains_iff.1 hk
  obtain ⟨g, hg⟩ := contains_iff.1 hx
  rw [displayName_of_get? hf, displayName_of_get? hg] at hn
  exact Option.some.inj ((h.find?_of_get? hf).symm.trans (hn ▸ h.find?_of_get? hg))

/-! ## Content -/

def includedNames (s : FragmentStore) (is : List Include) : List (String × Nat) :=
  is.map fun i => (s.displayName i.target, i.offset)

def contentOf (s : FragmentStore) (f : Fragment) : Content :=
  { name := f.name, text := f.text, includes := s.includedNames f.includes, flagRefs := f.flagRefs,
    version := f.version }

theorem includedNames_ofScanned (name : String) {scanned : Scanned} {targets : List FragmentKey}
    (h : targets.map s.displayName = scanned.includes.map (·.name)) :
    s.includedNames (Fragment.ofScanned name scanned targets).includes =
      scanned.includes.map fun i => (i.name, i.offset) := by
  show s.includedNames (List.zipWith _ scanned.includes targets) = _
  generalize scanned.includes = includes at h ⊢
  induction includes generalizing targets with
  | nil => rfl
  | cons i includes ih =>
    obtain ⟨k, targets, rfl⟩ : ∃ k ks, targets = k :: ks := List.exists_cons_of_ne_nil fun hnil => by
      rw [hnil] at h
      cases h
    have hhead : s.displayName k = i.name := List.head_eq_of_cons_eq h
    rw [List.zipWith_cons_cons, includedNames, List.map_cons, List.map_cons, hhead]
    exact congrArg _ (ih (List.tail_eq_of_cons_eq h))

def content? (s : FragmentStore) (name : String) : Option Content := ((s.find? name).bind s.get?).map s.contentOf

theorem Named.content?_of_get? (h : Named s) {k : FragmentKey} {f : Fragment} (hf : s.get? k = some f) :
    s.content? f.name = some (s.contentOf f) := by
  rw [content?, h.find?_of_get? hf, Option.bind_some, hf, Option.map_some]

theorem Named.exists_of_content? (h : Named s) {name : String} {c : Content} (hc : s.content? name = some c) :
    ∃ k f, s.get? k = some f ∧ f.name = name ∧ s.contentOf f = c := by
  obtain ⟨f, hf, rfl⟩ := Option.map_eq_some_iff.1 hc
  obtain ⟨k, hk, hf⟩ := Option.bind_eq_some_iff.1 hf
  obtain ⟨g, hg, hn⟩ := (h name k).1 hk
  cases hf.symm.trans hg
  exact ⟨k, f, hf, hn, rfl⟩

theorem content?_eq_none {name : String} (h : ¬ s.Has name) : s.content? name = none := by
  rw [content?, not_has_iff.1 h]
  rfl

theorem Keeps.includedNames (h : Keeps s t) {is : List Include} (his : ∀ i ∈ is, s.contains i.target = true) :
    t.includedNames is = s.includedNames is :=
  List.map_congr_left fun i hi => by rw [h.displayName (his i hi)]

theorem Keeps.contentOf (h : Keeps s t) {f : Fragment} (hf : ∀ x ∈ f.targets, s.contains x = true) :
    t.contentOf f = s.contentOf f := by
  unfold FragmentStore.contentOf
  rw [h.includedNames fun i hi => hf _ (List.mem_map_of_mem hi)]

theorem Keeps.content? (h : Keeps s t) (hs : WellFormed s) (ht : Named t) {name : String} (hn : s.Has name) :
    t.content? name = s.content? name := by
  obtain ⟨k, hk⟩ := hn
  obtain ⟨f, hf, rfl⟩ := (hs.named name k).1 hk
  rw [hs.named.content?_of_get? hf, ht.content?_of_get? (h k f hf), h.contentOf (hs.closed k f hf)]

/-! ### Replaced content -/

theorem displayName_replaceContent {k : FragmentKey} {f : Fragment} (h : s.replaceContent k f = .ok t)
    (x : FragmentKey) : t.displayName x = s.displayName x := by
  unfold displayName
  rw [get?_replaceContent h]
  by_cases hk : k = x
  · rw [if_pos hk]
    cases s.get? x <;> rfl
  · rw [if_neg hk]

theorem includedNames_replaceContent {k : FragmentKey} {f : Fragment} (h : s.replaceContent k f = .ok t)
    (is : List Include) : t.includedNames is = s.includedNames is :=
  List.map_congr_left fun i _ => by rw [displayName_replaceContent h]

theorem content?_replaceContent {k : FragmentKey} {f : Fragment} (h : s.replaceContent k f = .ok t) {name : String}
    (hne : s.find? name ≠ some k) : t.content? name = s.content? name := by
  unfold content?
  rw [find?_replaceContent h]
  cases hx : s.find? name with
  | none => rfl
  | some x =>
    have hget : t.get? x = s.get? x := by
      rw [get?_replaceContent h, if_neg]
      rintro rfl
      exact hne hx
    rw [Option.bind_some, Option.bind_some, hget]
    refine congrArg (Option.map · (s.get? x)) (funext fun g => ?_)
    unfold contentOf
    rw [includedNames_replaceContent h]

/-! ## Tables that match -/

def Matches (s t : FragmentStore) : Prop := ∀ name, t.content? name = s.content? name

/-- Keys of fragments with the same names, one by one. -/
structure SameNames (s t : FragmentStore) (ks ks' : List FragmentKey) : Prop where
  stored : ∀ k ∈ ks, s.contains k = true
  stored' : ∀ k ∈ ks', t.contains k = true
  names : ks'.map t.displayName = ks.map s.displayName

namespace SameNames

variable {k k' : FragmentKey} {ks ks' ls ls' : List FragmentKey}

theorem nil : SameNames s t [] [] :=
  ⟨fun _ hk => absurd hk List.not_mem_nil, fun _ hk => absurd hk List.not_mem_nil, rfl⟩

theorem append (h : SameNames s t ks ks') (h' : SameNames s t ls ls') : SameNames s t (ks ++ ls) (ks' ++ ls') :=
  ⟨List.forall_mem_append.2 ⟨h.stored, h'.stored⟩, List.forall_mem_append.2 ⟨h.stored', h'.stored'⟩,
    by rw [List.map_append, List.map_append, h.names, h'.names]⟩

theorem head (h : SameNames s t (k :: ks) (k' :: ks')) : SameNames s t [k] [k'] :=
  ⟨List.forall_mem_singleton.2 (h.stored k List.mem_cons_self),
    List.forall_mem_singleton.2 (h.stored' k' List.mem_cons_self),
    congrArg (fun n => [n]) (List.head_eq_of_cons_eq h.names)⟩

theorem tail (h : SameNames s t (k :: ks) (k' :: ks')) : SameNames s t ks ks' :=
  ⟨fun x hx => h.stored x (List.mem_cons_of_mem k hx), fun x hx => h.stored' x (List.mem_cons_of_mem k' hx),
    List.tail_eq_of_cons_eq h.names⟩

theorem mem_iff (hs : Named s) (ht : Named t) (hp : SameNames s t ks ks') (hk : SameNames s t [k] [k']) :
    k' ∈ ks' ↔ k ∈ ks := by
  have hname : t.displayName k' = s.displayName k := List.head_eq_of_cons_eq hk.names
  have hk' := hk.stored' k' List.mem_cons_self
  have hk := hk.stored k List.mem_cons_self
  constructor
  · intro h
    obtain ⟨x, hx, he⟩ := List.mem_map.1 (hp.names ▸ List.mem_map_of_mem h)
    exact hs.key_eq (hp.stored x hx) hk (he.trans hname) ▸ hx
  · intro h
    obtain ⟨x, hx, he⟩ := List.mem_map.1 (hp.names.symm ▸ List.mem_map_of_mem h)
    exact ht.key_eq (hp.stored' x hx) hk' (he.trans hname.symm) ▸ hx

theorem cycleNames_eq (hs : Named s) (ht : Named t) (hp : SameNames s t ks ks') (hk : SameNames s t [k] [k']) :
    t.cycleNames ks' k' = s.cycleNames ks k := by
  have hname := hk.names
  induction ks generalizing ks' with
  | nil =>
    cases List.map_eq_nil_iff.1 (hp.names.trans List.map_nil)
    exact hname
  | cons x ks ih =>
    obtain ⟨x', ks', rfl⟩ : ∃ x' ls', ks' = x' :: ls' := List.exists_cons_of_ne_nil fun hnil => by
      have := hp.names
      rw [hnil] at this
      cases this
    have hx := hp.head
    have heq : k' = x' ↔ k = x := by
      simpa only [List.mem_singleton] using mem_iff hs ht hx hk
    by_cases he : k = x
    · obtain rfl := heq.2 he
      subst he
      have hall := (hp.append hk).names
      simpa [cycleNames] using hall
    · have he' : ¬ k' = x' := fun h => he (heq.1 h)
      have hrest := ih hp.tail
      unfold cycleNames at hrest ⊢
      rw [List.dropWhile_cons_of_pos (by simpa using Ne.symm he'),
        List.dropWhile_cons_of_pos (by simpa using Ne.symm he)]
      exact hrest

end SameNames

/-- Includes of fragments with the same names at the same places. -/
structure SameIncludes (s t : FragmentStore) (is is' : List Include) : Prop where
  targets : SameNames s t (is.map (·.target)) (is'.map (·.target))
  offsets : is'.map (·.offset) = is.map (·.offset)

namespace SameIncludes

variable {i : Include} {is is' : List Include}

theorem of_includedNames (hs : ∀ i ∈ is, s.contains i.target = true) (ht : ∀ i ∈ is', t.contains i.target = true)
    (h : t.includedNames is' = s.includedNames is) : SameIncludes s t is is' := by
  unfold includedNames at h
  refine ⟨⟨List.forall_mem_map.2 hs, List.forall_mem_map.2 ht, ?_⟩, ?_⟩
  · have hnames := congrArg (List.map Prod.fst) h
    rw [List.map_map, List.map_map] at hnames ⊢
    exact hnames
  · have hoffsets := congrArg (List.map Prod.snd) h
    rw [List.map_map, List.map_map] at hoffsets
    exact hoffsets

theorem of_cons (h : SameIncludes s t (i :: is) is') :
    ∃ i' more, is' = i' :: more ∧ i'.offset = i.offset ∧ SameNames s t [i.target] [i'.target] ∧
      SameIncludes s t is more := by
  obtain ⟨i', more, rfl⟩ : ∃ i' more, is' = i' :: more := List.exists_cons_of_ne_nil fun hnil => by
    have := h.offsets
    rw [hnil] at this
    cases this
  exact ⟨i', more, rfl, List.head_eq_of_cons_eq h.offsets, h.targets.head, h.targets.tail,
    List.tail_eq_of_cons_eq h.offsets⟩

end SameIncludes

namespace Matches

/-- Fragments of the same name have the same text and include the same names. -/
theorem nested (h : Matches s t) (hs : WellFormed s) (ht : WellFormed t) {k k' : FragmentKey}
    (hk : SameNames s t [k] [k']) {f : Fragment} (hf : s.get? k = some f) :
    ∃ f', t.get? k' = some f' ∧ f'.text = f.text ∧ SameIncludes s t f.includes f'.includes := by
  obtain ⟨f', hf'⟩ := contains_iff.1 (hk.stored' k' List.mem_cons_self)
  have hname : t.displayName k' = s.displayName k := List.head_eq_of_cons_eq hk.names
  rw [displayName_of_get? hf, displayName_of_get? hf'] at hname
  have hcontent := h f.name
  rw [hs.named.content?_of_get? hf, ← hname, ht.named.content?_of_get? hf'] at hcontent
  have heq := Option.some.inj hcontent
  exact ⟨f', hf', congrArg Content.text heq, .of_includedNames (List.forall_mem_map.1 (hs.closed k f hf))
    (List.forall_mem_map.1 (ht.closed k' f' hf')) (congrArg Content.includes heq)⟩

/-- What is expanded is the same text or the same error. -/
theorem expand_congr (h : Matches s t) (hs : WellFormed s) (ht : WellFormed t) {path path' : List FragmentKey}
    {is is' : List Include} (start : Nat) (rest : Text) (hp : SameNames s t path path') (hi : SameIncludes s t is is') :
    t.expand path' start rest is' = s.expand path start rest is := by
  fun_induction expand s path start rest is generalizing path' is' with
  | case1 path start rest =>
    cases List.map_eq_nil_iff.1 (hi.offsets.trans List.map_nil)
    rw [expand]
  | case2 path start rest i more hmem =>
    obtain ⟨i', more', rfl, hoff, hk, hi⟩ := hi.of_cons
    rw [expand_cons, if_pos ((SameNames.mem_iff hs.named ht.named hp hk).2 hmem),
      SameNames.cycleNames_eq hs.named ht.named hp hk]
  | case3 path start rest i more hmem hnone =>
    have hstored := hi.targets.stored i.target List.mem_cons_self
    obtain ⟨f, hf⟩ := contains_iff.1 hstored
    cases hnone.symm.trans hf
  | case4 path start rest i more hmem f hf e he ihf =>
    obtain ⟨i', more', rfl, hoff, hk, hi⟩ := hi.of_cons
    obtain ⟨f', hf', htext, hf⟩ := h.nested hs ht hk hf
    rw [expand_cons, if_neg (mt (SameNames.mem_iff hs.named ht.named hp hk).1 hmem), hf']
    simp only [htext, ihf (hp.append hk) hf, he]
  | case5 path start rest i more hmem f hf inner hin e he ihf ihm =>
    obtain ⟨i', more', rfl, hoff, hk, hi⟩ := hi.of_cons
    obtain ⟨f', hf', htext, hf⟩ := h.nested hs ht hk hf
    rw [expand_cons, if_neg (mt (SameNames.mem_iff hs.named ht.named hp hk).1 hmem), hf']
    simp only [htext, ihf (hp.append hk) hf, hin, hoff, ihm hp hi, he]
  | case6 path start rest i more hmem f hf inner hin outer hout ihf ihm =>
    obtain ⟨i', more', rfl, hoff, hk, hi⟩ := hi.of_cons
    obtain ⟨f', hf', htext, hf⟩ := h.nested hs ht hk hf
    rw [expand_cons, if_neg (mt (SameNames.mem_iff hs.named ht.named hp hk).1 hmem), hf']
    simp only [htext, ihf (hp.append hk) hf, hin, hoff, ihm hp hi, hout]

/-- Sections that include the same names have the same text. -/
theorem assembleFragment_congr (h : Matches s t) (hs : WellFormed s) (ht : WellFormed t) {f f' : Fragment}
    (htext : f'.text = f.text) (hi : SameIncludes s t f.includes f'.includes) :
    t.assembleFragment f' none = s.assembleFragment f none := by
  rw [assembleFragment_none, assembleFragment_none, htext]
  exact h.expand_congr hs ht 0 f.text .nil hi

end Matches

end FragmentStore

end ShaderVariant
