import ShaderVariant.Library.Fragments
import ShaderVariant.Proofs.Fragment.Store

/-!
# Loading of fragments

* `Inclusion.Grows` : loading adds fragments under new keys and keeps the others;
* `Inclusion.resolve_spec` : resolving includes grows the table, and its keys are stored. It fails for a source only
  (`ShaderError.OfSource`);
* `Inclusion.get?_rollback` : a rollback restores every look-up;
* `Library.Loaded` : what a library may read and add while a source is loaded, whether that succeeds or not;
* `Library.Resolves`, `Library.Contents` : what is stored after a success, of a fragment and of a shader;
* `Library.Failed`, `Library.Attempt` : loading that fails takes back what it has added (`attempt_readSource`,
  `attempt_buildFragment`, `attempt_loadNewFragment`, `attempt_buildShader`).
-/

namespace ShaderVariant

open FragmentStore (WellFormed Keeps Named)

/-- A failure to read a source, or to make sense of it. -/
inductive ShaderError.OfSource : ShaderError → Prop
  | parse (cause : ParseError) : OfSource (.parse cause)
  | io (name : String) (cause : IoError) : OfSource (.io name cause)

namespace Inclusion

/-! ## Growth -/

/-- `new` are the keys added from `s` on, the latest first. -/
structure Grows (s t : Inclusion) (new : List FragmentKey) : Prop where
  added : t.added = new ++ s.added
  keeps : Keeps s.fragments t.fragments
  fresh : ∀ k ∈ new, s.fragments.get? k = none
  only : ∀ k, t.fragments.contains k = true → k ∈ new ∨ s.fragments.contains k = true

namespace Grows

variable {s t u : Inclusion} {new new' : List FragmentKey}

theorem refl (s : Inclusion) : Grows s s [] :=
  ⟨rfl, .refl _, fun _ hk => absurd hk List.not_mem_nil, fun _ hk => Or.inr hk⟩

theorem trans (h : Grows s t new) (h' : Grows t u new') : Grows s u (new' ++ new) := by
  refine ⟨by rw [h'.added, h.added, List.append_assoc], h.keeps.trans h'.keeps, fun k hk => ?_, fun k hk => ?_⟩
  · rcases List.mem_append.1 hk with hk | hk
    · have hnone := h'.fresh k hk
      cases hs : s.fragments.get? k with
      | none => rfl
      | some f =>
        rw [h.keeps k f hs] at hnone
        cases hnone
    · exact h.fresh k hk
  · rcases h'.only k hk with hk | hk
    · exact Or.inl (List.mem_append_left _ hk)
    · exact (h.only k hk).imp_left (List.mem_append_right _)

theorem noteRead (s : Inclusion) : Grows s s.noteRead [] :=
  ⟨rfl, .refl _, fun _ hk => absurd hk List.not_mem_nil, fun _ hk => Or.inr hk⟩

theorem fill (h : Grows s t new) {k : FragmentKey} (hk : k ∈ new) {f : Fragment} (he : t.fill k f = .ok u) :
    Grows s u new := by
  unfold Inclusion.fill at he
  split at he
  · cases he
  · next fragments hr =>
    cases he
    refine ⟨h.added, h.keeps.replaceContent (h.fresh k hk) hr, h.fresh, fun x hx => h.only x ?_⟩
    rwa [FragmentStore.contains_replaceContent hr] at hx

end Grows

/-! ## Resolving -/

theorem register_eq {s : Inclusion} {name : String} (h : s.fragments.find? name = none) :
    s.register name = ((s.fragments.insertNew (.blank name)).1,
      { s with
        fragments := (s.fragments.insertNew (.blank name)).2
        added := (s.fragments.insertNew (.blank name)).1 :: s.added }) := by
  have hi : s.fragments.insert (.blank name) = s.fragments.insertNew (.blank name) :=
    FragmentStore.insert_of_find?_eq_none h
  rw [register, hi]

theorem register_spec {s t : Inclusion} {name : String} {k : FragmentKey} (hw : WellFormed s.fragments)
    (h : s.fragments.find? name = none) (he : s.register name = (k, t)) :
    WellFormed t.fragments ∧ Grows s t [k] ∧ t.fragments.contains k = true := by
  rw [register_eq h] at he
  cases he
  refine ⟨hw.insertNew h ?_ (Fragment.sourced_blank name), ⟨rfl, Keeps.insertNew _ _, fun k hk => ?_, fun k hk => ?_⟩, ?_⟩
  · rw [Fragment.targets_blank]
    exact fun x hx => absurd hx List.not_mem_nil
  · rw [List.mem_singleton.1 hk]
    exact FragmentStore.get?_insertNew_fst _ _
  · obtain ⟨f, hf⟩ := FragmentStore.contains_iff.1 hk
    rw [FragmentStore.get?_insertNew] at hf
    split at hf
    · next he => exact Or.inl (List.mem_singleton.2 he.symm)
    · exact Or.inr (FragmentStore.contains_iff.2 ⟨f, hf⟩)
  · exact FragmentStore.contains_iff.2 ⟨_, by rw [FragmentStore.get?_insertNew, if_pos rfl]⟩

theorem wellFormed_fill {s t : Inclusion} (hw : WellFormed s.fragments) {k : FragmentKey} {f : Fragment}
    (he : s.fill k f = .ok t) (ht : ∀ x ∈ f.targets, s.fragments.contains x = true) (hf : f.Sourced) :
    WellFormed t.fragments := by
  unfold fill at he
  split at he
  · cases he
  · next fragments hr =>
    cases he
    exact hw.replaceContent hr ht hf

theorem exists_of_scan {name : String} {bytes : Bytes} {scanned : Scanned} (h : scan name bytes = .ok scanned) :
    ∃ t, Scanned.ofText name t 1 = .ok scanned := by
  unfold scan at h
  split at h
  · cases h
  · next t _ =>
    split at h
    · cases h
    · next hs =>
      cases h
      exact ⟨t, hs⟩

theorem ofSource_scan {name : String} {bytes : Bytes} {e : ShaderError} (h : scan name bytes = .error e) :
    e.OfSource := by
  unfold scan at h
  split at h
  · cases h
    exact .parse _
  · split at h
    · cases h
      exact .parse _
    · cases h

theorem fill_of_contains {s : Inclusion} {k : FragmentKey} (hk : s.fragments.contains k = true) (f : Fragment) :
    ∃ t, s.fill k f = .ok t := by
  obtain ⟨fragments, hf⟩ := FragmentStore.replaceContent_of_contains f hk
  exact ⟨_, by rw [fill, hf]⟩

structure Resolved (s : Inclusion) (n : Nat) (r : Except ShaderError (List FragmentKey)) (t : Inclusion) : Prop where
  wf : WellFormed t.fragments
  grows : ∃ new, Grows s t new
  length : ∀ ks, r = .ok ks → ks.length = n
  stored : ∀ ks, r = .ok ks → ∀ k ∈ ks, t.fragments.contains k = true
  fails : ∀ e, r = .error e → e.OfSource

theorem Resolved.error {s t : Inclusion} {n : Nat} {new : List FragmentKey} (hw : WellFormed t.fragments)
    (hg : Grows s t new) {e : ShaderError} (he : e.OfSource) : Resolved s n (.error e) t :=
  ⟨hw, ⟨new, hg⟩, fun _ h => (nomatch h), fun _ h => (nomatch h), fun _ h => Except.error.inj h ▸ he⟩

theorem Resolved.cons {s t u : Inclusion} {n : Nat} {ks : List FragmentKey} {k : FragmentKey} {new : List FragmentKey}
    (h : Resolved t n (.ok ks) u) (hg : Grows s t new) (hk : t.fragments.contains k = true) :
    Resolved s (n + 1) (.ok (k :: ks)) u := by
  obtain ⟨new', hg'⟩ := h.grows
  refine ⟨h.wf, ⟨_, hg.trans hg'⟩, fun l hl => ?_, fun l hl x hx => ?_, fun _ he => (nomatch he)⟩
  · cases hl
    rw [List.length_cons, h.length ks rfl]
  · cases hl
    rcases List.mem_cons.1 hx with rfl | hx
    · exact hg'.keeps.contains hk
    · exact h.stored ks rfl x hx

/-- The content of a fragment that was scanned, once its includes are resolved. -/
theorem Resolved.ofScanned {s t : Inclusion} {scanned : Scanned} {targets : List FragmentKey}
    (h : Resolved s scanned.includes.length (.ok targets) t) {source : String} {text : Text} {line : UInt32}
    (hs : Scanned.ofText source text line = .ok scanned) (name : String) :
    (Fragment.ofScanned name scanned targets).Sourced ∧
      ∀ x ∈ (Fragment.ofScanned name scanned targets).targets, t.fragments.contains x = true := by
  have hlen := h.length targets rfl
  refine ⟨Fragment.sourced_ofScanned hs name hlen, ?_⟩
  rw [Fragment.targets_ofScanned hlen]
  exact h.stored targets rfl

/-- A fragment that was registered has got its content. -/
theorem Resolved.filled {s t u v : Inclusion} {name : String} {k : FragmentKey} {scanned : Scanned}
    {targets : List FragmentKey} {bytes : Bytes} (hs : scan name bytes = .ok scanned) (hg : Grows s t [k])
    (hk : t.fragments.contains k = true) (h : Resolved t scanned.includes.length (.ok targets) u)
    (he : u.fill k (.ofScanned name scanned targets) = .ok v) :
    WellFormed v.fragments ∧ (∃ new, Grows s v new) ∧ v.fragments.contains k = true := by
  obtain ⟨text, htext⟩ := exists_of_scan hs
  obtain ⟨hf, hlive⟩ := h.ofScanned htext name
  obtain ⟨new, hg'⟩ := h.grows
  have hall : Grows s v (new ++ [k]) := (hg.trans hg').fill (List.mem_append_right _ List.mem_cons_self) he
  refine ⟨wellFormed_fill h.wf he hlive hf, ⟨_, hall⟩, ?_⟩
  unfold fill at he
  split at he
  · cases he
  · next hr =>
    cases he
    rw [FragmentStore.contains_replaceContent hr]
    exact hg'.keeps.contains hk

theorem resolve_spec (fault : String → IoError) (sources : Assoc String Bytes) (owner : String) (s : Inclusion)
    (includes : List PendingInclude) (hw : WellFormed s.fragments) :
    Resolved s includes.length (s.resolve fault sources owner includes).1
      (s.resolve fault sources owner includes).2 := by
  -- A source that is read is registered, its own includes are resolved, and then it is filled.
  fun_induction resolve fault sources owner s includes with
  | case1 =>
    exact ⟨hw, ⟨[], .refl _⟩, fun _ h => by cases h; rfl, fun _ h => by cases h; simp, fun _ h => (nomatch h)⟩
  | case2 sources owner s i more k hfind e t he ih =>
    have h := ih hw
    rw [he] at h
    obtain ⟨new, hg⟩ := h.grows
    exact .error h.wf hg (h.fails e rfl)
  | case3 sources owner s i more k hfind ks t he ih =>
    have h := ih hw
    rw [he] at h
    exact h.cons (.refl s) (hw.named.contains_of_find? hfind)
  | case4 => exact .error hw (.refl _) (.parse _)
  | case5 sources owner s i more hfind bytes hsource e hscan =>
    exact .error (t := s.noteRead) hw (.noteRead s) (ofSource_scan hscan)
  | case6 sources owner s i more hfind bytes hsource scanned hscan k s₁ hreg e t he ih =>
    obtain ⟨hw₁, hg₁, hk₁⟩ := register_spec (s := s.noteRead) hw hfind hreg
    have h := ih hw₁
    rw [he] at h
    obtain ⟨new, hg⟩ := h.grows
    exact .error h.wf (((Grows.noteRead s).trans hg₁).trans hg) (h.fails e rfl)
  | case7 sources owner s i more hfind bytes hsource scanned hscan k s₁ hreg targets s₂ hr e hfill ih =>
    -- The key was registered before the includes were resolved, and resolving keeps what is stored.
    obtain ⟨hw₁, -, hk₁⟩ := register_spec (s := s.noteRead) hw hfind hreg
    have h := ih hw₁
    rw [hr] at h
    obtain ⟨new, hg⟩ := h.grows
    obtain ⟨t, ht⟩ := fill_of_contains (hg.keeps.contains hk₁) (.ofScanned i.name scanned targets)
    cases hfill.symm.trans ht
  | case8 sources owner s i more hfind bytes hsource scanned hscan k s₁ hreg targets s₂ hr s₃ hfill e t he ihn ihm =>
    obtain ⟨hw₁, hg₁, hk₁⟩ := register_spec (s := s.noteRead) hw hfind hreg
    have hn := ihn hw₁
    rw [hr] at hn
    obtain ⟨hw₃, ⟨new, hg₃⟩, hk₃⟩ := hn.filled hscan ((Grows.noteRead s).trans hg₁) hk₁ hfill
    have hm := ihm hw₃
    rw [he] at hm
    obtain ⟨new', hg⟩ := hm.grows
    exact .error hm.wf (hg₃.trans hg) (hm.fails e rfl)
  | case9 sources owner s i more hfind bytes hsource scanned hscan k s₁ hreg targets s₂ hr s₃ hfill ks t he ihn ihm =>
    obtain ⟨hw₁, hg₁, hk₁⟩ := register_spec (s := s.noteRead) hw hfind hreg
    have hn := ihn hw₁
    rw [hr] at hn
    obtain ⟨hw₃, ⟨new, hg₃⟩, hk₃⟩ := hn.filled hscan ((Grows.noteRead s).trans hg₁) hk₁ hfill
    have hm := ihm hw₃
    rw [he] at hm
    exact hm.cons hg₃ hk₃

/-! ## Rollback -/

theorem get?_removeAll (ks : List FragmentKey) (s : FragmentStore) (k : FragmentKey) :
    (removeAll ks s).get? k = if k ∈ ks then none else s.get? k := by
  induction ks generalizing s with
  | nil => simp [removeAll]
  | cons x ks ih =>
    show (removeAll ks (s.remove x).2).get? k = _
    rw [ih, FragmentStore.get?_remove]
    by_cases hk : k ∈ ks
    · simp [hk]
    · by_cases hx : x = k
      · simp [hx]
      · have hx' : k ≠ x := fun he => hx he.symm
        simp [hk, hx, hx']

theorem named_removeAll (ks : List FragmentKey) {s : FragmentStore} (h : Named s) : Named (removeAll ks s) := by
  induction ks generalizing s with
  | nil => exact h
  | cons x ks ih => exact ih (h.remove x)

/-- A rollback restores every look-up. -/
theorem get?_rollback {l : Library} {s : Inclusion} {new : List FragmentKey} (h : Grows (ofLibrary l) s new)
    (k : FragmentKey) : (s.rollback l).fragments.get? k = l.fragments.get? k := by
  have hadded : s.added = new := by rw [h.added]; exact List.append_nil new
  show (removeAll s.added s.fragments).get? k = _
  rw [get?_removeAll, hadded]
  split
  · next hk => exact (h.fresh k hk).symm
  · next hk =>
    cases hs : s.fragments.get? k with
    | some f =>
      have hl := (h.only k (FragmentStore.contains_iff.2 ⟨f, hs⟩)).resolve_left hk
      rw [← hs, h.keeps.get? hl]
      rfl
    | none =>
      cases hl : l.fragments.get? k with
      | none => rfl
      | some f =>
        rw [h.keeps k f hl] at hs
        cases hs

end Inclusion

namespace Library

/-! ## Loading -/

/-- A library that has at most read sources and added fragments. -/
structure Loaded (l l' : Library) : Prop where
  shaders : l'.shaders = l.shaders
  names : l'.names = l.names
  settings : l'.settings = l.settings
  keeps : Keeps l.fragments l'.fragments
  wf : WellFormed l'.fragments

namespace Loaded

variable {l l' l'' : Library}

theorem refl (h : WellFormed l.fragments) : Loaded l l := ⟨rfl, rfl, rfl, .refl _, h⟩

theorem trans (h : Loaded l l') (h' : Loaded l' l'') : Loaded l l'' :=
  ⟨h'.shaders.trans h.shaders, h'.names.trans h.names, h'.settings.trans h.settings, h.keeps.trans h'.keeps, h'.wf⟩

theorem withLoader (h : WellFormed l.fragments) (loader : Loader) : Loaded l { l with loader } :=
  ⟨rfl, rfl, rfl, .refl _, h⟩

theorem commit {s : Inclusion} {new : List FragmentKey} (h : Inclusion.Grows (.ofLibrary l) s new)
    (hw : WellFormed s.fragments) : Loaded l (s.commit l) :=
  ⟨rfl, rfl, rfl, h.keeps, hw⟩

theorem rollback {s : Inclusion} {new : List FragmentKey} (h : Inclusion.Grows (.ofLibrary l) s new)
    (hl : WellFormed l.fragments) (hw : WellFormed s.fragments) : Loaded l (s.rollback l) :=
  ⟨rfl, rfl, rfl, fun k _ hf => (Inclusion.get?_rollback h k).trans hf,
    hl.congr (Inclusion.named_removeAll _ hw.named) (Inclusion.get?_rollback h)⟩

end Loaded

/-- A fragment or section whose content was scanned and whose includes are stored. -/
structure Resolves (l : Library) (f : Fragment) : Prop where
  sourced : f.Sourced
  stored : ∀ x ∈ f.targets, l.fragments.contains x = true

/-- What a text declares under a name, with sections whose includes are stored. -/
structure Contents (l : Library) (name : String) (source : ShaderSource) (sections : List Fragment) : Prop where
  parsed : ∃ t, ShaderSource.parse name t = .ok source
  named : sections.map Fragment.name = source.sections.map CodeSection.name
  resolves : ∀ f ∈ sections, l.Resolves f

theorem resolve_spec {l : Library} (owner : String) {s : Inclusion} (includes : List PendingInclude)
    (hw : WellFormed s.fragments) :
    Inclusion.Resolved s includes.length (l.resolve owner s includes).1 (l.resolve owner s includes).2 :=
  Inclusion.resolve_spec _ _ owner s includes hw

/-- Loading has failed for a source, and what was added is removed again. -/
inductive Failed (l : Library) : ShaderError → Library → Prop
  | mk {e : ShaderError} {s : Inclusion} {new : List FragmentKey} (loader : Loader)
      (h : Inclusion.Grows (.ofLibrary { l with loader }) s new) (hw : WellFormed s.fragments)
      (he : e.OfSource) : Failed l e (s.rollback { l with loader })

namespace Failed

variable {l l' : Library} {e : ShaderError}

theorem refused (hl : WellFormed l.fragments) (loader : Loader) (he : e.OfSource) :
    Failed l e { l with loader } :=
  .mk loader (.refl _) hl he

theorem of_withLoader {loader : Loader} (h : Failed { l with loader } e l') : Failed l e l' := by
  cases h with
  | mk loader' hg hw he => exact .mk loader' hg hw he

theorem loaded (h : Failed l e l') (hl : WellFormed l.fragments) : Loaded l l' := by
  cases h with
  | mk loader hg hw he => exact (Loaded.withLoader hl loader).trans (.rollback hg hl hw)

theorem ofSource (h : Failed l e l') : e.OfSource := by
  cases h with
  | mk loader hg hw he => exact he

end Failed

inductive Attempt {α : Type} (l : Library) (Q : α → Library → Prop) : Except ShaderError α × Library → Prop
  | failed {e : ShaderError} {l' : Library} (h : l.Failed e l') : Attempt l Q (.error e, l')
  | done {a : α} {l' : Library} (h : l.Loaded l') (hq : Q a l') : Attempt l Q (.ok a, l')

theorem Attempt.loaded {α : Type} {l : Library} {Q : α → Library → Prop} {p : Except ShaderError α × Library}
    (h : l.Attempt Q p) (hl : WellFormed l.fragments) : l.Loaded p.2 := by
  cases h with
  | failed h => exact h.loaded hl
  | done h hq => exact h

theorem attempt_readSource {l : Library} (hl : WellFormed l.fragments) (name : String) :
    l.Attempt (fun _ l' => ∃ loader, l' = { l with loader }) (l.readSource name) := by
  unfold readSource
  split
  · exact .failed (.refused hl _ (.io _ _))
  · next bytes loader _ =>
    split
    · exact .failed (.refused hl loader (.parse _))
    · exact .done (.withLoader hl loader) ⟨loader, rfl⟩

theorem attempt_buildFragment {l : Library} (hl : WellFormed l.fragments) (name : String) (t : Text) :
    l.Attempt (fun f l' => f.name = name ∧ l'.Resolves f) (l.buildFragment name t) := by
  unfold buildFragment
  split
  · exact .failed (.refused hl l.loader (.parse _))
  · next scanned hs =>
    have hr := resolve_spec (l := l) name (s := .ofLibrary l) scanned.includes hl
    obtain ⟨new, hg⟩ := hr.grows
    split
    · next he =>
      rw [he] at hr hg
      exact .failed (.mk l.loader hg hr.wf (hr.fails _ rfl))
    · next he =>
      rw [he] at hr hg
      obtain ⟨hf, hlive⟩ := hr.ofScanned hs name
      exact .done (.commit hg hr.wf) ⟨rfl, hf, hlive⟩

/-- A new fragment is registered before its includes are resolved. -/
theorem attempt_loadNewFragment {l : Library} (hl : WellFormed l.fragments) {name : String}
    (hn : l.fragments.find? name = none) : l.Attempt (fun _ _ => True) (l.loadNewFragment name) := by
  unfold loadNewFragment
  split
  · exact .failed (.refused hl _ (.io _ _))
  · next bytes loader _ =>
    simp only
    split
    · next he => exact .failed (.refused hl loader (Inclusion.ofSource_scan he))
    · next scanned hscan =>
      cases hreg : (Inclusion.ofLibrary { l with loader }).register name with
      | mk k s =>
        obtain ⟨hw, hg, hk⟩ := Inclusion.register_spec hl hn hreg
        have hr := resolve_spec (l := { l with loader }) name scanned.includes hw
        obtain ⟨new, hg'⟩ := hr.grows
        simp only
        split
        · next he =>
          rw [he] at hr hg'
          exact .failed (.mk loader (hg.trans hg') hr.wf (hr.fails _ rfl))
        · next targets t he =>
          rw [he] at hr hg'
          obtain ⟨u, hu⟩ := Inclusion.fill_of_contains (hg'.keeps.contains hk) (.ofScanned name scanned targets)
          obtain ⟨hw', ⟨new', hall⟩, -⟩ := hr.filled hscan hg hk hu
          rw [hu]
          exact .done ((Loaded.withLoader hl loader).trans (.commit hall hw')) trivial

theorem resolveSections_spec (l : Library) (owner : String) (s : Inclusion) (sections : List CodeSection)
    (hw : WellFormed s.fragments)
    (hs : ∀ c ∈ sections, ∃ source t line, Scanned.ofText source t line = .ok c.source) :
    WellFormed (l.resolveSections owner s sections).2.fragments ∧
      (∃ new, Inclusion.Grows s (l.resolveSections owner s sections).2 new) ∧
      (∀ e, (l.resolveSections owner s sections).1 = .error e → e.OfSource) ∧
      ∀ fs, (l.resolveSections owner s sections).1 = .ok fs → ∀ f ∈ fs, f.Sourced ∧
        ∀ x ∈ f.targets, (l.resolveSections owner s sections).2.fragments.contains x = true := by
  fun_induction resolveSections l owner s sections with
  | case1 s => exact ⟨hw, ⟨[], .refl s⟩, fun _ h => (nomatch h), fun fs h => by cases h; simp⟩
  | case2 s c cs e t he =>
    have hc := resolve_spec (l := l) owner c.source.includes hw
    rw [he] at hc
    exact ⟨hc.wf, hc.grows, fun e' h => Except.error.inj h ▸ hc.fails e rfl, fun _ h => (nomatch h)⟩
  | case3 s c cs targets t he e u hrest ih =>
    have hc := resolve_spec (l := l) owner c.source.includes hw
    rw [he] at hc
    obtain ⟨new, hg⟩ := hc.grows
    obtain ⟨hwu, ⟨new', hg'⟩, hfails, -⟩ := ih hc.wf fun c' hc' => hs c' (List.mem_cons_of_mem _ hc')
    rw [hrest] at hwu hg' hfails
    exact ⟨hwu, ⟨_, hg.trans hg'⟩, fun e' h => Except.error.inj h ▸ hfails e rfl, fun _ h => (nomatch h)⟩
  | case4 s c cs targets t he fs u hrest ih =>
    have hc := resolve_spec (l := l) owner c.source.includes hw
    rw [he] at hc
    obtain ⟨new, hg⟩ := hc.grows
    obtain ⟨hwu, ⟨new', hg'⟩, -, hfs⟩ := ih hc.wf fun c' hc' => hs c' (List.mem_cons_of_mem _ hc')
    rw [hrest] at hwu hg' hfs
    refine ⟨hwu, ⟨_, hg.trans hg'⟩, fun _ h => (nomatch h), fun fs' h => ?_⟩
    cases h
    obtain ⟨source, text, line, htext⟩ := hs c List.mem_cons_self
    obtain ⟨hf, hlive⟩ := hc.ofScanned htext c.name
    intro f hm
    rcases List.mem_cons.1 hm with rfl | hm
    · exact ⟨hf, fun x hx => hg'.keeps.contains (hlive x hx)⟩
    · exact hfs fs rfl f hm

theorem names_resolveSections {l : Library} {owner : String} {s : Inclusion} {sections : List CodeSection}
    {fs : List Fragment} (h : (l.resolveSections owner s sections).1 = .ok fs) :
    fs.map Fragment.name = sections.map CodeSection.name := by
  fun_induction resolveSections l owner s sections generalizing fs with
  | case1 =>
    cases h
    rfl
  | case2 | case3 => cases h
  | case4 s c cs targets t he gs u hrest ih =>
    cases h
    rw [hrest] at ih
    exact congrArg (c.name :: ·) (ih rfl)

end Library

/-! ## Sections of a shader -/

namespace ShaderSource

theorem scanned_scanSections {source : String} {ss : List Section} {code : List CodeSection}
    (h : scanSections source ss = .ok code) :
    ∀ c ∈ code, ∃ source t line, Scanned.ofText source t line = .ok c.source := by
  induction ss generalizing code with
  | nil =>
    cases h
    exact fun c hc => absurd hc List.not_mem_nil
  | cons s ss ih =>
    unfold scanSections at h
    split at h
    · cases h
    · next scanned hs =>
      cases hrest : scanSections source ss with
      | error e =>
        rw [hrest] at h
        cases h
      | ok rest =>
        rw [hrest] at h
        cases h
        intro c hc
        rcases List.mem_cons.1 hc with rfl | hc
        · exact ⟨source, s.body, s.firstLine, hs⟩
        · exact ih hrest c hc

theorem scanned_parse {source : String} {t : Text} {x : ShaderSource} (h : parse source t = .ok x) :
    ∀ c ∈ x.sections, ∃ source t line, Scanned.ofText source t line = .ok c.source := by
  unfold parse at h
  split at h
  · cases h
  · split at h
    · cases h
    · split at h
      · cases h
      · next code hcode =>
        split at h
        · cases h
        · next d _ =>
          unfold ofDeclarations at h
          split at h
          · cases h
          · cases h
            exact scanned_scanSections hcode

end ShaderSource

namespace Library

theorem attempt_buildShader {l : Library} (hl : WellFormed l.fragments) (name : String) (t : Text) :
    l.Attempt (fun content l' => l'.Contents name content.1 content.2) (l.buildShader name t) := by
  unfold buildShader
  split
  · exact .failed (.refused hl l.loader (.parse _))
  · next source hs =>
    obtain ⟨hw, ⟨new, hg⟩, hfails, hfs⟩ :=
      resolveSections_spec l name (.ofLibrary l) source.sections hl (ShaderSource.scanned_parse hs)
    split
    · next he =>
      rw [he] at hw hg hfails
      exact .failed (.mk l.loader hg hw (hfails _ rfl))
    · next sections s he =>
      have hnames := names_resolveSections (congrArg Prod.fst he)
      rw [he] at hw hg hfs
      exact .done (.commit hg hw)
        ⟨⟨t, hs⟩, hnames, fun f hf => ⟨(hfs sections rfl f hf).1, (hfs sections rfl f hf).2⟩⟩

end Library

end ShaderVariant
