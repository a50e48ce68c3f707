import ShaderVariant.Proofs.Fragment.ByName
import ShaderVariant.Proofs.Library.Inclusion

/-!
# Loading with more fragments

Includes that are resolved with some fragments, and with more of them that the loader could have supplied, come out the
same.

* `Inclusion.Fetch` : an include that is loaded with its own includes;
* `Inclusion.Supplied` : the loader has a source that includes only certain names. If that holds of all that is included
  and not stored, resolving succeeds and adds nothing else (`resolve_supplied`);
* `Inclusion.Behind` : what one table has more than another is supplied. Then both fail with the same error, or both
  succeed and the one is behind the other again (`resolve_follows`);
* `Inclusion.Stocks` : what resolving adds has the content of its source (`stocks_resolve`);
* `Library.resolveSections_follows`, `Library.stocksSections_resolveSections` : the same of the sections of a shader.
-/

namespace ShaderVariant

open FragmentStore (WellFormed Keeps)

def Scanned.content (s : Scanned) (name : String) (version : Generation) : Content :=
  { name, text := s.text, includes := s.includes.map fun i => (i.name, i.offset), flagRefs := s.flagRefs, version }

namespace Inclusion

variable {fault : String → IoError} {sources : Assoc String Bytes} {owner : String} {s t u : Inclusion}

/-! ## One step -/

def consKey (k : FragmentKey) (p : Except ShaderError (List FragmentKey) × Inclusion) :
    Except ShaderError (List FragmentKey) × Inclusion :=
  (p.1.map (k :: ·), p.2)

theorem consKey_eq (k : FragmentKey) (p : Except ShaderError (List FragmentKey) × Inclusion) :
    consKey k p =
      match p with
      | (.error e, s) => (.error e, s)
      | (.ok ks, s) => (.ok (k :: ks), s) := by
  rcases p with ⟨_ | _, _⟩ <;> rfl

theorem resolve_cons (fault : String → IoError) (sources : Assoc String Bytes) (owner : String) (s : Inclusion)
    (i : PendingInclude) (more : List PendingInclude) :
    s.resolve fault sources owner (i :: more) =
      match s.fragments.find? i.name with
      | some k => consKey k (s.resolve fault sources owner more)
      | none =>
        match sources.get? i.name with
        | none => (.error (.parse ⟨owner, i.line, .unresolvedInclude i.name (fault i.name)⟩), s)
        | some bytes =>
          match scan i.name bytes with
          | .error e => (.error e, s.noteRead)
          | .ok scanned =>
            match s.noteRead.register i.name with
            | (k, s) =>
              match s.resolve fault (sources.erase i.name) i.name scanned.includes with
              | (.error e, s) => (.error e, s)
              | (.ok targets, s) =>
                match s.fill k (.ofScanned i.name scanned targets) with
                | .error e => (.error e, s)
                | .ok s => consKey k (s.resolve fault sources owner more) := by
  rw [resolve]
  simp only [consKey_eq]
  cases s.fragments.find? i.name with
  | some k => rfl
  | none =>
    cases sources.get? i.name with
    | none => rfl
    | some bytes =>
      simp only
      cases scan i.name bytes <;> rfl

theorem has_register {name : String} {k : FragmentKey} (h : s.fragments.find? name = none)
    (he : s.noteRead.register name = (k, t)) (n : String) : t.fragments.Has n ↔ name = n ∨ s.fragments.Has n := by
  rw [register_eq (s := s.noteRead) h] at he
  cases he
  exact FragmentStore.has_insertNew

theorem fill_eq {k : FragmentKey} {f : Fragment} (he : s.fill k f = .ok t) :
    s.fragments.replaceContent k f = .ok t.fragments := by
  unfold fill at he
  split at he
  · cases he
  · next hr =>
    cases he
    exact hr

theorem has_fill {k : FragmentKey} {f : Fragment} (he : s.fill k f = .ok t) (n : String) :
    t.fragments.Has n ↔ s.fragments.Has n := by
  unfold FragmentStore.Has
  rw [FragmentStore.find?_replaceContent (fill_eq he)]

/-- After its includes are resolved, a fragment that was registered can be filled. -/
theorem exists_fill (hw : WellFormed s.fragments) {name : String} (hn : s.fragments.find? name = none) {k : FragmentKey}
    (hreg : s.noteRead.register name = (k, t)) {includes : List PendingInclude} {targets : List FragmentKey}
    (hr : t.resolve fault sources owner includes = (.ok targets, u)) (f : Fragment) : ∃ v, u.fill k f = .ok v := by
  obtain ⟨hw₁, -, hk⟩ := register_spec (s := s.noteRead) hw hn hreg
  obtain ⟨new, hg⟩ := (resolve_spec fault sources owner t includes hw₁).grows
  rw [hr] at hg
  exact fill_of_contains (hg.keeps.contains hk) f

theorem get?_register {name : String} {k : FragmentKey} (h : s.fragments.find? name = none)
    (he : s.noteRead.register name = (k, t)) : t.fragments.get? k = some (.blank name) := by
  rw [register_eq (s := s.noteRead) h] at he
  cases he
  exact (FragmentStore.get?_insertNew ..).trans (if_pos rfl)

theorem get?_fill {k : FragmentKey} {f g : Fragment} (he : s.fill k f = .ok t) (hg : s.fragments.get? k = some g) :
    t.fragments.get? k = some (g.replacedBy f) := by
  rw [FragmentStore.get?_replaceContent (fill_eq he), if_pos rfl, hg, Option.map_some]

/-- A name without a fragment is loaded: a source is read, registered under `k`, its own includes are resolved, and then
it gets its content. -/
structure Fetch (fault : String → IoError) (sources : Assoc String Bytes) (s : Inclusion) (name : String)
    (scanned : Scanned) (k : FragmentKey) (t : Inclusion) (targets : List FragmentKey) (u v : Inclusion) : Prop where
  absent : s.fragments.find? name = none
  source : ∃ bytes, sources.get? name = some bytes ∧ scan name bytes = .ok scanned
  registered : s.noteRead.register name = (k, t)
  resolved : t.resolve fault (sources.erase name) name scanned.includes = (.ok targets, u)
  filled : u.fill k (.ofScanned name scanned targets) = .ok v

namespace Fetch

variable {name : String} {scanned : Scanned} {k : FragmentKey} {targets : List FragmentKey} {v : Inclusion}

/-- What is loaded with all that it includes is stored under its name, and what was stored is kept. -/
theorem spec (h : Fetch fault sources s name scanned k t targets u v) (hw : WellFormed s.fragments) :
    WellFormed v.fragments ∧ Keeps s.fragments v.fragments ∧
      v.fragments.get? k = some ((Fragment.blank name).replacedBy (.ofScanned name scanned targets)) := by
  obtain ⟨bytes, -, hscan⟩ := h.source
  obtain ⟨hw₁, hg₁, hk₁⟩ := register_spec (s := s.noteRead) hw h.absent h.registered
  have hr := resolve_spec fault (sources.erase name) name t scanned.includes hw₁
  rw [h.resolved] at hr
  obtain ⟨new, hg⟩ := hr.grows
  obtain ⟨hw', ⟨new', hg'⟩, -⟩ := hr.filled hscan ((Grows.noteRead s).trans hg₁) hk₁ h.filled
  exact ⟨hw', hg'.keeps, get?_fill h.filled (hg.keeps k _ (get?_register h.absent h.registered))⟩

theorem wf (h : Fetch fault sources s name scanned k t targets u v) (hw : WellFormed s.fragments) :
    WellFormed v.fragments :=
  (h.spec hw).1

theorem wf_registered (h : Fetch fault sources s name scanned k t targets u v) (hw : WellFormed s.fragments) :
    WellFormed t.fragments :=
  (register_spec (s := s.noteRead) hw h.absent h.registered).1

theorem mono (h : Fetch fault sources s name scanned k t targets u v) (hw : WellFormed s.fragments) (n : String)
    (hn : s.fragments.Has n) : v.fragments.Has n :=
  (h.spec hw).2.1.has hw.named (h.wf hw).named hn

theorem has_name (h : Fetch fault sources s name scanned k t targets u v) (hw : WellFormed s.fragments) :
    v.fragments.Has name :=
  (h.wf hw).named.has_of_get? (h.spec hw).2.2

/-- The name is new, or it is one of those that were there or that its includes have brought. -/
theorem has_cases (h : Fetch fault sources s name scanned k t targets u v) {P : String → Prop}
    (hin : ∀ n, u.fragments.Has n → t.fragments.Has n ∨ P n) (n : String) (hn : v.fragments.Has n) :
    name = n ∨ s.fragments.Has n ∨ P n := by
  rcases hin n ((has_fill h.filled n).1 hn) with ht | hp
  · exact ((has_register h.absent h.registered n).1 ht).imp_right Or.inl
  · exact Or.inr (Or.inr hp)

/-- Resolving goes on behind it. -/
theorem resolve_cons (h : Fetch fault sources s name scanned k t targets u v) (owner : String) {i : PendingInclude}
    (hi : i.name = name) (more : List PendingInclude) :
    s.resolve fault sources owner (i :: more) = consKey k (v.resolve fault sources owner more) := by
  obtain ⟨bytes, hb, hscan⟩ := h.source
  subst hi
  simp only [Inclusion.resolve_cons, h.absent, hb, hscan, h.registered, h.resolved, h.filled]

end Fetch

theorem has_resolve (fault : String → IoError) (sources : Assoc String Bytes) (owner : String)
    (hw : WellFormed s.fragments) (includes : List PendingInclude) {n : String} (hn : s.fragments.Has n) :
    (s.resolve fault sources owner includes).2.fragments.Has n := by
  have hspec := resolve_spec fault sources owner s includes hw
  obtain ⟨new, hg⟩ := hspec.grows
  exact hg.keeps.has hw.named hspec.wf.named hn

/-! ## Supplied names -/

/-- The source with a name can be read and scanned, and it includes only certain names. -/
def Supplied (sources : Assoc String Bytes) (P : String → Prop) (name : String) : Prop :=
  ∃ bytes scanned, sources.get? name = some bytes ∧ scan name bytes = .ok scanned ∧ ∀ i ∈ scanned.includes, P i.name

theorem Supplied.mono {P Q : String → Prop} (hpq : ∀ n, P n → Q n) {name : String} (h : Supplied sources P name) :
    Supplied sources Q name := by
  obtain ⟨bytes, scanned, hb, hs, hi⟩ := h
  exact ⟨bytes, scanned, hb, hs, fun i him => hpq _ (hi i him)⟩

theorem Supplied.erase {P : String → Prop} {name other : String} (hne : other ≠ name) (h : Supplied sources P name) :
    Supplied (sources.erase other) P name := by
  obtain ⟨bytes, scanned, hb, hs, hi⟩ := h
  exact ⟨bytes, scanned, (Assoc.get?_erase_of_ne hne sources).trans hb, hs, hi⟩

def Supplies (sources : Assoc String Bytes) (s : Inclusion) (P : String → Prop) : Prop :=
  ∀ n, P n → s.fragments.Has n ∨ Supplied sources P n

theorem Supplies.of_has {P : String → Prop} (h : Supplies sources s P)
    (hst : ∀ n, s.fragments.Has n → t.fragments.Has n) : Supplies sources t P :=
  fun n hn => (h n hn).imp_left (hst n)

/-- The source of a name that is not stored includes only names with the property. -/
theorem Supplies.includes {P : String → Prop} (h : Supplies sources s P) {name : String}
    (hn : s.fragments.find? name = none) {bytes : Bytes} (hb : sources.get? name = some bytes) {scanned : Scanned}
    (hs : scan name bytes = .ok scanned) (hp : P name) : ∀ i ∈ scanned.includes, P i.name := by
  rcases h name hp with hhas | ⟨bytes', scanned', hb', hs', hi⟩
  · exact absurd hhas (FragmentStore.not_has_iff.2 hn)
  · cases hb.symm.trans hb'
    cases hs.symm.trans hs'
    exact hi

/-- A name that is registered needs no source any more. -/
theorem Supplies.register {P : String → Prop} (h : Supplies sources s P) {name : String} {k : FragmentKey}
    (hn : s.fragments.find? name = none) (he : s.noteRead.register name = (k, t)) :
    Supplies (sources.erase name) t P := by
  intro n hp
  rw [has_register hn he]
  by_cases hne : name = n
  · exact Or.inl (Or.inl hne)
  · exact (h n hp).imp Or.inr (Supplied.erase hne)

/-- Where only names are included that are stored or can be supplied, resolving succeeds, and adds no other name. -/
theorem resolve_supplied (fault : String → IoError) (owner : String) {P : String → Prop} (hw : WellFormed s.fragments)
    (hp : Supplies sources s P) {includes : List PendingInclude} (hi : ∀ i ∈ includes, P i.name) :
    ∃ ks t, s.resolve fault sources owner includes = (.ok ks, t) ∧
      ∀ n, t.fragments.Has n → s.fragments.Has n ∨ P n := by
  fun_induction resolve fault sources owner s includes with
  | case1 sources owner s => exact ⟨[], s, rfl, fun n hn => Or.inl hn⟩
  | case2 sources owner s i more k hfind e t he ih =>
    obtain ⟨ks, t', ht, -⟩ := ih hw hp fun j hj => hi j (List.mem_cons_of_mem i hj)
    cases he.symm.trans ht
  | case3 sources owner s i more k hfind ks t he ih =>
    obtain ⟨ks', t', ht, hn⟩ := ih hw hp fun j hj => hi j (List.mem_cons_of_mem i hj)
    cases he.symm.trans ht
    exact ⟨k :: ks, t, rfl, hn⟩
  | case4 sources owner s i more hfind hsource =>
    rcases hp i.name (hi i List.mem_cons_self) with hs | ⟨bytes, scanned, hb, -⟩
    · exact absurd hs (FragmentStore.not_has_iff.2 hfind)
    · cases hsource.symm.trans hb
  | case5 sources owner s i more hfind bytes hsource e hscan =>
    rcases hp i.name (hi i List.mem_cons_self) with hs | ⟨bytes', scanned, hb, hs, -⟩
    · exact absurd hs (FragmentStore.not_has_iff.2 hfind)
    · cases hsource.symm.trans hb
      cases hscan.symm.trans hs
  | case6 sources owner s i more hfind bytes hsource scanned hscan k s₁ hreg e t he ih =>
    obtain ⟨hw₁, -, -⟩ := register_spec (s := s.noteRead) hw hfind hreg
    obtain ⟨ks, t', ht, -⟩ :=
      ih hw₁ (hp.register hfind hreg) (hp.includes hfind hsource hscan (hi i List.mem_cons_self))
    cases he.symm.trans ht
  | case7 sources owner s i more hfind bytes hsource scanned hscan k s₁ hreg targets s₂ hr e hfill ih =>
    obtain ⟨v, hv⟩ := exists_fill hw hfind hreg hr (.ofScanned i.name scanned targets)
    cases hfill.symm.trans hv
  | case8 sources owner s i more hfind bytes hsource scanned hscan k s₁ hreg targets s₂ hr s₃ hfill e t he ihn ihm =>
    have hf : Fetch fault sources s i.name scanned k s₁ targets s₂ s₃ :=
      ⟨hfind, ⟨bytes, hsource, hscan⟩, hreg, hr, hfill⟩
    obtain ⟨ks, t', ht, -⟩ := ihm (hf.wf hw) (hp.of_has (hf.mono hw)) fun j hj => hi j (List.mem_cons_of_mem i hj)
    cases he.symm.trans ht
  | case9 sources owner s i more hfind bytes hsource scanned hscan k s₁ hreg targets s₂ hr s₃ hfill ks t he ihn ihm =>
    have hf : Fetch fault sources s i.name scanned k s₁ targets s₂ s₃ :=
      ⟨hfind, ⟨bytes, hsource, hscan⟩, hreg, hr, hfill⟩
    obtain ⟨ks', t', ht, hrest⟩ := ihm (hf.wf hw) (hp.of_has (hf.mono hw)) fun j hj => hi j (List.mem_cons_of_mem i hj)
    cases he.symm.trans ht
    obtain ⟨targets', t', ht', hin⟩ := ihn (hf.wf_registered hw) (hp.register hfind hreg)
      (hp.includes hfind hsource hscan (hi i List.mem_cons_self))
    cases hr.symm.trans ht'
    refine ⟨k :: ks, t, rfl, fun n hn => ?_⟩
    rcases hrest n hn with hn | hn
    · rcases hf.has_cases hin n hn with rfl | hold
      · exact Or.inr (hi i List.mem_cons_self)
      · exact hold
    · exact Or.inr hn

/-! ## Two runs -/

/-- What `s'` has more than `s` can be supplied. -/
structure Behind (sources : Assoc String Bytes) (s s' : Inclusion) : Prop where
  names : ∀ n, s.fragments.Has n → s'.fragments.Has n
  supplies : Supplies sources s s'.fragments.Has

/-- Both outcomes are failures with the same error, or the second one has the names of the first one and those of
`s'`. -/
inductive Follows {α β : Type} (s' : Inclusion) :
    Except ShaderError α × Inclusion → Except ShaderError β × Inclusion → Prop
  | failed (e : ShaderError) (t t' : Inclusion) : Follows s' (.error e, t) (.error e, t')
  | done (a : α) (b : β) {t t' : Inclusion} (h : ∀ n, t'.fragments.Has n ↔ t.fragments.Has n ∨ s'.fragments.Has n) :
      Follows s' (.ok a, t) (.ok b, t')

variable {s' t' : Inclusion}

namespace Follows

variable {α β γ δ : Type} {p : Except ShaderError α × Inclusion} {p' : Except ShaderError β × Inclusion}

theorem map (h : Follows s' p p') (f : α → γ) (g : β → δ) : Follows s' (p.1.map f, p.2) (p'.1.map g, p'.2) := by
  cases h with
  | failed e t t' => exact .failed e t t'
  | done a b h => exact .done (f a) (g b) h

theorem of_more (h : Follows t' p p') (ht : ∀ n, t'.fragments.Has n ↔ t.fragments.Has n ∨ s'.fragments.Has n)
    (hp : ∀ n, t.fragments.Has n → p.2.fragments.Has n) : Follows s' p p' := by
  cases h with
  | failed e t t' => exact .failed e t t'
  | @done a b u u' hu =>
    refine .done a b fun n => ?_
    rw [hu n, ht n]
    constructor
    · rintro (hn | hn | hn)
      · exact Or.inl hn
      · exact Or.inl (hp n hn)
      · exact Or.inr hn
    · exact Or.imp_right Or.inr

end Follows

/-- The one stays behind the other when both go on. -/
theorem Behind.after (h : Behind sources s s') (hst : ∀ n, s.fragments.Has n → t.fragments.Has n)
    (ht : ∀ n, t'.fragments.Has n ↔ t.fragments.Has n ∨ s'.fragments.Has n) : Behind sources t t' := by
  refine ⟨fun n hn => (ht n).2 (Or.inl hn), fun n hn => ?_⟩
  rcases (ht n).1 hn with hn | hn
  · exact Or.inl hn
  · exact (h.supplies n hn).imp (hst n) (Supplied.mono fun m hm => (ht m).2 (Or.inr hm))

theorem Behind.register (h : Behind sources s s') {name : String} (hn : s.fragments.find? name = none)
    (hn' : s'.fragments.find? name = none) {k k' : FragmentKey} (hreg : s.noteRead.register name = (k, t))
    (hreg' : s'.noteRead.register name = (k', t')) : Behind (sources.erase name) t t' := by
  have hs := has_register hn hreg
  have hs' := has_register hn' hreg'
  refine ⟨fun n ht => (hs' n).2 (((hs n).1 ht).imp_right (h.names n)), fun n ht => ?_⟩
  have hmono : ∀ m, s'.fragments.Has m → t'.fragments.Has m := fun m hm => (hs' m).2 (Or.inr hm)
  by_cases hne : name = n
  · exact Or.inl ((hs n).2 (Or.inl hne))
  · have hold := h.supplies n (((hs' n).1 ht).resolve_left hne)
    exact hold.imp (fun hm => (hs n).2 (Or.inr hm)) fun hm => (hm.mono hmono).erase hne

/-- What cannot be supplied is in neither. -/
theorem Behind.find?_eq_none (h : Behind sources s s') {name : String} (hn : s.fragments.find? name = none)
    (hs : ¬ Supplied sources s'.fragments.Has name) : s'.fragments.find? name = none := by
  refine FragmentStore.not_has_iff.1 fun hhas => hs ?_
  exact (h.supplies name hhas).resolve_left (FragmentStore.not_has_iff.2 hn)

/-- What only `s'` has can be loaded behind `s`, and brings nothing that `s'` does not have. -/
theorem Behind.nested (h : Behind sources s s') (fault : String → IoError) (hw : WellFormed s.fragments) {name : String}
    (hn : s.fragments.find? name = none) {bytes : Bytes} (hb : sources.get? name = some bytes) {scanned : Scanned}
    (hscan : scan name bytes = .ok scanned) {k : FragmentKey} (hreg : s.noteRead.register name = (k, t))
    (hhas : s'.fragments.Has name) :
    ∃ targets u, t.resolve fault (sources.erase name) name scanned.includes = (.ok targets, u) ∧
      ∀ n, u.fragments.Has n → s'.fragments.Has n := by
  obtain ⟨hw₁, -, -⟩ := register_spec (s := s.noteRead) hw hn hreg
  obtain ⟨targets, u, hu, hnames⟩ :=
    resolve_supplied fault name hw₁ (h.supplies.register hn hreg) (h.supplies.includes hn hb hscan hhas)
  refine ⟨targets, u, hu, fun n hun => ?_⟩
  rcases hnames n hun with ht | hs'
  · rcases (has_register hn hreg n).1 ht with rfl | hs
    · exact hhas
    · exact h.names n hs
  · exact hs'

/-- What is loaded behind `s` is loaded for `s'` too, if it is not there. -/
theorem Behind.fetch (h : Behind sources s s') (hw : WellFormed s.fragments) (hw' : WellFormed s'.fragments)
    {name : String} {scanned : Scanned} {k : FragmentKey} {targets : List FragmentKey} {v : Inclusion}
    (hf : Fetch fault sources s name scanned k t targets u v) (hn' : s'.fragments.find? name = none)
    (hin : ∀ {t'}, WellFormed t'.fragments → Behind (sources.erase name) t t' →
      Follows t' (t.resolve fault (sources.erase name) name scanned.includes)
        (t'.resolve fault (sources.erase name) name scanned.includes)) :
    ∃ k' t' targets' u' v', Fetch fault sources s' name scanned k' t' targets' u' v' ∧
      ∀ n, v'.fragments.Has n ↔ v.fragments.Has n ∨ s'.fragments.Has n := by
  cases hreg' : s'.noteRead.register name with
  | mk k' t' =>
    obtain ⟨hwt', -, -⟩ := register_spec (s := s'.noteRead) hw' hn' hreg'
    have hfollows := hin hwt' (h.register hf.absent hn' hf.registered hreg')
    rw [hf.resolved] at hfollows
    cases hr' : t'.resolve fault (sources.erase name) name scanned.includes with
    | mk r' u' =>
      rw [hr'] at hfollows
      cases hfollows with
      | @done _ targets' _ _ hu =>
        obtain ⟨v', hfill'⟩ := exists_fill hw' hn' hreg' hr' (.ofScanned name scanned targets')
        refine ⟨k', t', targets', u', v', ⟨hn', hf.source, hreg', hr', hfill'⟩, fun n => ?_⟩
        rw [has_fill hfill' n, hu n, has_fill hf.filled n, has_register hn' hreg' n]
        constructor
        · rintro (hun | rfl | hs')
          · exact Or.inl hun
          · exact Or.inl ((has_fill hf.filled _).1 (hf.has_name hw))
          · exact Or.inr hs'
        · exact Or.imp_right Or.inr

/-- When an include was loaded behind `s`, then either `s'` has it, or it is loaded there too. Either way the one stays
behind the other. -/
theorem Behind.first (h : Behind sources s s') (owner : String) (hw : WellFormed s.fragments)
    (hw' : WellFormed s'.fragments) {i : PendingInclude} {scanned : Scanned} {k : FragmentKey}
    {targets : List FragmentKey} {v : Inclusion} (hf : Fetch fault sources s i.name scanned k t targets u v)
    (hin : ∀ {t'}, WellFormed t'.fragments → Behind (sources.erase i.name) t t' →
      Follows t' (t.resolve fault (sources.erase i.name) i.name scanned.includes)
        (t'.resolve fault (sources.erase i.name) i.name scanned.includes)) :
    ∃ k' v', WellFormed v'.fragments ∧ Behind sources v v' ∧
      (∀ n, v'.fragments.Has n ↔ v.fragments.Has n ∨ s'.fragments.Has n) ∧
      ∀ more, s'.resolve fault sources owner (i :: more) = consKey k' (v'.resolve fault sources owner more) := by
  cases hfind' : s'.fragments.find? i.name with
  | some k' =>
    obtain ⟨bytes, hb, hscan⟩ := hf.source
    obtain ⟨targets', u', hu, hnames⟩ := h.nested fault hw hf.absent hb hscan hf.registered ⟨k', hfind'⟩
    cases hf.resolved.symm.trans hu
    have hall : ∀ n, s'.fragments.Has n ↔ v.fragments.Has n ∨ s'.fragments.Has n := fun n =>
      ⟨Or.inr, fun hn => hn.elim (fun hv => hnames n ((has_fill hf.filled n).1 hv)) id⟩
    refine ⟨k', s', hw', h.after (hf.mono hw) hall, hall, fun more => ?_⟩
    simp only [resolve_cons, hfind']
  | none =>
    obtain ⟨k', t', targets', u', v', hf', hall⟩ := h.fetch hw hw' hf hfind' hin
    exact ⟨k', v', hf'.wf hw', h.after (hf.mono hw) hall, hall, hf'.resolve_cons owner rfl⟩

/-- With more that can be supplied, resolving fails alike or succeeds alike. -/
theorem resolve_follows (fault : String → IoError) (owner : String) (hw : WellFormed s.fragments)
    (hw' : WellFormed s'.fragments) (h : Behind sources s s') (includes : List PendingInclude) :
    Follows s' (s.resolve fault sources owner includes) (s'.resolve fault sources owner includes) := by
  fun_induction resolve fault sources owner s includes generalizing s' with
  | case1 sources owner s =>
    rw [resolve]
    exact .done [] [] fun n => ⟨Or.inr, fun hn => hn.elim (h.names n) id⟩
  | case2 sources owner s i more k hfind r t he ih
  | case3 sources owner s i more k hfind r t he ih =>
    obtain ⟨k', hk'⟩ := h.names i.name ⟨k, hfind⟩
    have hrest := ih hw hw' h
    rw [he] at hrest
    simp only [resolve_cons, hk']
    exact hrest.map (k :: ·) (k' :: ·)
  | case4 sources owner s i more hfind hsource =>
    have hfind' : s'.fragments.find? i.name = none := by
      refine h.find?_eq_none hfind ?_
      rintro ⟨bytes, scanned, hb, -⟩
      cases hsource.symm.trans hb
    simp only [resolve_cons, hfind', hsource]
    exact .failed _ s s'
  | case5 sources owner s i more hfind bytes hsource e hscan =>
    have hfind' : s'.fragments.find? i.name = none := by
      refine h.find?_eq_none hfind ?_
      rintro ⟨bytes', scanned, hb, hs, -⟩
      cases hsource.symm.trans hb
      cases hscan.symm.trans hs
    simp only [resolve_cons, hfind', hsource, hscan]
    exact .failed e s.noteRead s'.noteRead
  | case6 sources owner s i more hfind bytes hsource scanned hscan k s₁ hreg e t he ih =>
    -- What `s'` has would be loaded without a failure.
    have hfind' : s'.fragments.find? i.name = none := by
      refine FragmentStore.not_has_iff.1 fun hhas => ?_
      obtain ⟨targets, u, hu, -⟩ := h.nested fault hw hfind hsource hscan hreg hhas
      cases he.symm.trans hu
    cases hreg' : s'.noteRead.register i.name with
    | mk k' s₁' =>
      obtain ⟨hw₁, -, -⟩ := register_spec (s := s.noteRead) hw hfind hreg
      obtain ⟨hw₁', -, -⟩ := register_spec (s := s'.noteRead) hw' hfind' hreg'
      have hin := ih hw₁ hw₁' (h.register hfind hfind' hreg hreg')
      rw [he] at hin
      simp only [resolve_cons, hfind', hsource, hscan, hreg']
      generalize s₁'.resolve fault (sources.erase i.name) i.name scanned.includes = p at hin ⊢
      cases hin with
      | failed e t t' => exact .failed e t t'
  | case7 sources owner s i more hfind bytes hsource scanned hscan k s₁ hreg targets s₂ hr e hfill ih =>
    obtain ⟨v, hv⟩ := exists_fill hw hfind hreg hr (.ofScanned i.name scanned targets)
    cases hfill.symm.trans hv
  | case8 sources owner s i more hfind bytes hsource scanned hscan k s₁ hreg targets s₂ hr s₃ hfill r t he ihn ihm
  | case9 sources owner s i more hfind bytes hsource scanned hscan k s₁ hreg targets s₂ hr s₃ hfill r t he ihn ihm =>
    have hf : Fetch fault sources s i.name scanned k s₁ targets s₂ s₃ :=
      ⟨hfind, ⟨bytes, hsource, hscan⟩, hreg, hr, hfill⟩
    -- The include is behind both now, wherever `s'` has it from. The rest follows.
    obtain ⟨k', v', hwv', hv, hnames, heq⟩ := h.first owner hw hw' hf (ihn (hf.wf_registered hw))
    have hrest := (ihm (hf.wf hw) hwv' hv).of_more hnames fun n => has_resolve fault sources owner (hf.wf hw) more
    rw [he] at hrest
    rw [heq more]
    exact hrest.map (k :: ·) (k' :: ·)

/-! ## What is added -/

/-- The fragment with a name has the content of its source, as it is after it was loaded once. -/
def FromSource (sources : Assoc String Bytes) (s : FragmentStore) (name : String) : Prop :=
  ∃ bytes scanned, sources.get? name = some bytes ∧ scan name bytes = .ok scanned ∧
    s.content? name = some (scanned.content name Generation.zero.next)

theorem FromSource.keeps {s t : FragmentStore} {name : String} (h : FromSource sources s name) (hk : Keeps s t)
    (hs : WellFormed s) (ht : FragmentStore.Named t) : FromSource sources t name := by
  obtain ⟨bytes, scanned, hb, hscan, hc⟩ := h
  have hhas : s.Has name := by
    by_contra hn
    rw [FragmentStore.content?_eq_none hn] at hc
    cases hc
  exact ⟨bytes, scanned, hb, hscan, (hk.content? hs ht hhas).trans hc⟩

theorem FromSource.of_erase {s : FragmentStore} {name other : String} (h : FromSource (sources.erase other) s name) :
    other ≠ name ∧ FromSource sources s name := by
  obtain ⟨bytes, scanned, hb, hscan, hc⟩ := h
  have hne : other ≠ name := by
    rintro rfl
    rw [Assoc.get?_erase_self] at hb
    cases hb
  exact ⟨hne, bytes, scanned, (Assoc.get?_erase_of_ne hne sources).symm.trans hb, hscan, hc⟩

theorem FromSource.fill {name : String} (h : FromSource sources s.fragments name) {k : FragmentKey}
    (hk : s.fragments.find? name ≠ some k) {f : Fragment} (he : s.fill k f = .ok t) :
    FromSource sources t.fragments name := by
  obtain ⟨bytes, scanned, hb, hscan, hc⟩ := h
  exact ⟨bytes, scanned, hb, hscan, (FragmentStore.content?_replaceContent (fill_eq he) hk).trans hc⟩

/-- A fragment that was filled comes from its source. -/
theorem fromSource_filled (ht : FragmentStore.Named t.fragments) {name : String} {bytes : Bytes} {scanned : Scanned}
    (hb : sources.get? name = some bytes) (hscan : scan name bytes = .ok scanned) {targets : List FragmentKey}
    (hn : targets.map s.fragments.displayName = scanned.includes.map (·.name)) {k : FragmentKey}
    (he : s.fill k (.ofScanned name scanned targets) = .ok t)
    (hk : t.fragments.get? k = some ((Fragment.blank name).replacedBy (.ofScanned name scanned targets))) :
    FromSource sources t.fragments name := by
  refine ⟨bytes, scanned, hb, hscan, (ht.content?_of_get? hk).trans ?_⟩
  have hnames : targets.map t.fragments.displayName = scanned.includes.map (·.name) := by
    rw [← hn]
    exact List.map_congr_left fun x _ => FragmentStore.displayName_replaceContent (fill_eq he) x
  have hincludes := FragmentStore.includedNames_ofScanned name hnames
  exact congrArg (fun is => some (⟨name, scanned.text, is, scanned.flagRefs, Generation.zero.next⟩ : Content)) hincludes

/-- Includes were resolved to keys of fragments with their names, and what was added comes from the sources. -/
structure Stocks (sources : Assoc String Bytes) (s : Inclusion) (includes : List PendingInclude)
    (ks : List FragmentKey) (t : Inclusion) : Prop where
  names : ks.map t.fragments.displayName = includes.map (·.name)
  content : ∀ n, t.fragments.Has n → s.fragments.Has n ∨ FromSource sources t.fragments n

theorem stocks_resolve (fault : String → IoError) (sources : Assoc String Bytes) (owner : String)
    (hw : WellFormed s.fragments) (includes : List PendingInclude) :
    ∀ ks, (s.resolve fault sources owner includes).1 = .ok ks →
      Stocks sources s includes ks (s.resolve fault sources owner includes).2 := by
  fun_induction resolve fault sources owner s includes with
  | case1 sources owner s =>
    rintro ks ⟨⟩
    exact ⟨rfl, fun n hn => Or.inl hn⟩
  | case3 sources owner s i more k hfind ks t he ih =>
    rintro _ ⟨⟩
    have hrest := ih hw
    rw [he] at hrest
    obtain ⟨hnames, hcontent⟩ := hrest ks rfl
    obtain ⟨new, hg⟩ := (resolve_spec fault sources owner s more hw).grows
    rw [he] at hg
    obtain ⟨f, hf, hname⟩ := (hw.named i.name k).1 hfind
    refine ⟨?_, hcontent⟩
    rw [List.map_cons, List.map_cons, FragmentStore.displayName_of_get? (hg.keeps k f hf), hname, hnames]
  | case9 sources owner s i more hfind bytes hsource scanned hscan k s₁ hreg targets s₂ hr s₃ hfill ks t he ihn ihm =>
    rintro _ ⟨⟩
    have hf : Fetch fault sources s i.name scanned k s₁ targets s₂ s₃ :=
      ⟨hfind, ⟨bytes, hsource, hscan⟩, hreg, hr, hfill⟩
    obtain ⟨hw₃, -, hself⟩ := hf.spec hw
    have hin := ihn (hf.wf_registered hw)
    rw [hr] at hin
    obtain ⟨hnames₂, hcontent₂⟩ := hin targets rfl
    have hrest := ihm hw₃
    have hspec := resolve_spec fault sources owner s₃ more hw₃
    rw [he] at hrest hspec
    obtain ⟨hnames, hcontent⟩ := hrest ks rfl
    obtain ⟨new, hg⟩ := hspec.grows
    have ht := hspec.wf.named
    refine ⟨?_, fun n hn => ?_⟩
    · rw [List.map_cons, List.map_cons, FragmentStore.displayName_of_get? (hg.keeps k _ hself), hnames]
      rfl
    · rcases hcontent n hn with hs₃ | hfrom
      · rcases hf.has_cases hcontent₂ n hs₃ with rfl | hs | hfrom
        · right
          exact (fromSource_filled hw₃.named hsource hscan hnames₂ hfill hself).keeps hg.keeps hw₃ ht
        · exact Or.inl hs
        · obtain ⟨hne, hfrom⟩ := hfrom.of_erase
          refine Or.inr ((hfrom.fill (fun hk => hne ?_) hfill).keeps hg.keeps hw₃ ht)
          rw [← FragmentStore.find?_replaceContent (fill_eq hfill)] at hk
          obtain ⟨f, hf, hname⟩ := (hw₃.named n k).1 hk
          cases hself.symm.trans hf
          exact hname
      · exact Or.inr hfrom
  | _ =>
    intro ks hks
    cases hks

end Inclusion

/-! ## Sections of a shader -/

namespace Library

open Inclusion (Behind Follows FromSource)

variable {l l' : Library} {owner : String}

theorem resolveSections_cons (l : Library) (owner : String) (s : Inclusion) (c : CodeSection) (cs : List CodeSection) :
    l.resolveSections owner s (c :: cs) =
      match s.resolve l.loader.fault l.loader.sources owner c.source.includes with
      | (.error e, t) => (.error e, t)
      | (.ok targets, t) =>
        ((l.resolveSections owner t cs).1.map (Fragment.ofScanned c.name c.source targets :: ·),
          (l.resolveSections owner t cs).2) := by
  rw [resolveSections]
  unfold resolve
  rcases s.resolve l.loader.fault l.loader.sources owner c.source.includes with ⟨e | targets, t⟩
  · rfl
  · simp only
    rcases l.resolveSections owner t cs with ⟨_ | _, _⟩ <;> rfl

/-- With more that can be supplied, the sections of a shader fail alike or succeed alike. -/
theorem resolveSections_follows (owner : String) (hsources : l'.loader.sources = l.loader.sources)
    (hfault : l'.loader.fault = l.loader.fault) {s s' : Inclusion} (h : Behind l.loader.sources s s')
    (hw : WellFormed s.fragments) (hw' : WellFormed s'.fragments) {sections : List CodeSection}
    (hs : ∀ c ∈ sections, ∃ source t line, Scanned.ofText source t line = .ok c.source) :
    Follows s' (l.resolveSections owner s sections) (l'.resolveSections owner s' sections) := by
  induction sections generalizing s s' with
  | nil => exact .done [] [] fun n => ⟨Or.inr, fun hn => hn.elim (h.names n) id⟩
  | cons c cs ih =>
    have hfirst := Inclusion.resolve_follows l.loader.fault owner hw hw' h c.source.includes
    have hspec := Inclusion.resolve_spec l.loader.fault l.loader.sources owner s c.source.includes hw
    have hspec' := Inclusion.resolve_spec l.loader.fault l.loader.sources owner s' c.source.includes hw'
    rw [resolveSections_cons, resolveSections_cons, hsources, hfault]
    generalize s.resolve l.loader.fault l.loader.sources owner c.source.includes = p at hfirst hspec ⊢
    generalize s'.resolve l.loader.fault l.loader.sources owner c.source.includes = p' at hfirst hspec' ⊢
    cases hfirst with
    | failed e t t' => exact .failed e t t'
    | @done targets targets' t t' ht =>
      obtain ⟨new, hg⟩ := hspec.grows
      have hmono : ∀ n, s.fragments.Has n → t.fragments.Has n := fun n => hg.keeps.has hw.named hspec.wf.named
      have hmore := fun c' hc' => hs c' (List.mem_cons_of_mem c hc')
      obtain ⟨hwu, ⟨new', hg'⟩, -, -⟩ := resolveSections_spec l owner t cs hspec.wf hmore
      have hrest := (ih (h.after hmono ht) hspec.wf hspec'.wf hmore).of_more ht fun n =>
        hg'.keeps.has hspec.wf.named hwu.named
      exact hrest.map (Fragment.ofScanned c.name c.source targets :: ·)
        (Fragment.ofScanned c.name c.source targets' :: ·)

/-- The sections of a shader have the content that was scanned, and what was added comes from the sources. -/
structure StocksSections (sources : Assoc String Bytes) (s : Inclusion) (sections : List CodeSection)
    (fs : List Fragment) (t : Inclusion) : Prop where
  sections : fs.map t.fragments.contentOf = sections.map fun c => c.source.content c.name .zero
  content : ∀ n, t.fragments.Has n → s.fragments.Has n ∨ FromSource sources t.fragments n

theorem stocksSections_resolveSections (l : Library) (owner : String) {s : Inclusion} (hw : WellFormed s.fragments)
    {sections : List CodeSection} (hs : ∀ c ∈ sections, ∃ source t line, Scanned.ofText source t line = .ok c.source) :
    ∀ fs, (l.resolveSections owner s sections).1 = .ok fs →
      StocksSections l.loader.sources s sections fs (l.resolveSections owner s sections).2 := by
  fun_induction resolveSections l owner s sections with
  | case1 s =>
    rintro fs ⟨⟩
    exact ⟨rfl, fun n hn => Or.inl hn⟩
  | case4 s c cs targets t he fs u hrest ih =>
    rintro _ ⟨⟩
    have hmore := fun c' hc' => hs c' (List.mem_cons_of_mem c hc')
    have hspec := resolve_spec (l := l) owner c.source.includes hw
    have hfirst := Inclusion.stocks_resolve l.loader.fault l.loader.sources owner hw c.source.includes
    unfold resolve at he hspec
    rw [he] at hspec hfirst
    obtain ⟨hnames, hadded⟩ := hfirst targets rfl
    obtain ⟨hwu, ⟨new, hg⟩, -, -⟩ := resolveSections_spec l owner t cs hspec.wf hmore
    have hlater := ih hspec.wf hmore
    rw [hrest] at hlater hwu hg
    obtain ⟨hsections, hcontent⟩ := hlater fs rfl
    refine ⟨?_, fun n hn => ?_⟩
    · have hnames' : targets.map u.fragments.displayName = c.source.includes.map (·.name) := by
        rw [← hnames]
        exact List.map_congr_left fun x hx => hg.keeps.displayName (hspec.stored targets rfl x hx)
      have hincludes := FragmentStore.includedNames_ofScanned c.name hnames'
      rw [List.map_cons, List.map_cons, hsections]
      exact congrArg (fun is => (⟨c.name, c.source.text, is, c.source.flagRefs, .zero⟩ : Content) :: _) hincludes
    · rcases hcontent n hn with ht | hfrom
      · exact (hadded n ht).imp_right fun hfrom => hfrom.keeps hg.keeps hspec.wf hwu.named
      · exact Or.inr hfrom
  | _ =>
    intro fs hfs
    cases hfs

end Library

end ShaderVariant
