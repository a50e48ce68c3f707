import ShaderVariant.Proofs.Library.Standing
import ShaderVariant.Proofs.Table.Issued

/-!
# Keys of a library

* `Inclusion.Later` : loading gives out keys, and brings none back that is void (`later_resolve`);
* `Library.Loading` : what loading from a library may have come to. A rollback makes all keys void that were given out
  on the way (`void_rollback`);
* `Library.Later` : the same for a library. Every operation leads to a later one (`later_step`);
* `Library.Leads` : one operation on a library, with any compiler (`later_of_leads`).
-/

namespace ShaderVariant

open Relation (ReflTransGen)

/-! ## Keys of fragments -/

namespace FragmentStore

variable {s t : FragmentStore}

theorem later_insertNew (s : FragmentStore) (f : Fragment) : s.table.Later (s.insertNew f).2.table :=
  SlotMap.later_insert s.table f

theorem later_insert (s : FragmentStore) (f : Fragment) : s.table.Later (s.insert f).2.table := by
  unfold insert
  split
  · exact later_insertNew s f
  · split
    · exact SlotMap.later_mapValues s.table _
    · exact later_insertNew s f

theorem issued_insert_fst (s : FragmentStore) (f : Fragment) : (s.insert f).2.table.Issued (s.insert f).1 := by
  have hnew : (s.insertNew f).2.table.Issued (s.insertNew f).1 :=
    SlotMap.issued_of_get? ((s.get?_insertNew f _).trans (if_pos rfl))
  unfold insert
  split
  · exact hnew
  · split
    · next hk =>
      obtain ⟨g, hg⟩ := contains_iff.1 hk
      exact (SlotMap.later_mapValues s.table _).issued _ (SlotMap.issued_of_get? hg)
    · exact hnew

theorem later_remove (s : FragmentStore) (k : FragmentKey) : s.table.Later (s.remove k).2.table := by
  unfold remove
  split
  · exact .refl _
  · exact SlotMap.later_remove s.table k

theorem later_replaceContent {k : FragmentKey} {f : Fragment} (h : s.replaceContent k f = .ok t) :
    s.table.Later t.table := by
  obtain ⟨-, rfl⟩ := replaceContent_eq h
  exact SlotMap.later_mapValues s.table _

end FragmentStore

namespace Inclusion

variable {s t u : Inclusion}

/-- Loading after some steps: the table is a later one, and what was added was given out. -/
structure Later (s t : Inclusion) : Prop where
  table : s.fragments.table.Later t.fragments.table
  added : ∀ k ∈ t.added, k ∈ s.added ∨ t.fragments.table.Issued k

theorem Later.refl (s : Inclusion) : s.Later s := ⟨.refl _, fun _ hk => Or.inl hk⟩

theorem Later.trans (h : s.Later t) (h' : t.Later u) : s.Later u := by
  refine ⟨h.table.trans h'.table, fun k hk => ?_⟩
  rcases h'.added k hk with hk | hk
  · exact (h.added k hk).imp_right (h'.table.issued k)
  · exact Or.inr hk

theorem later_noteRead (s : Inclusion) : s.Later s.noteRead := ⟨.refl _, fun _ hk => Or.inl hk⟩

theorem later_register (s : Inclusion) (name : String) : s.Later (s.register name).2 := by
  refine ⟨s.fragments.later_insert (.blank name), fun k hk => ?_⟩
  rcases List.mem_cons.1 hk with rfl | hk
  · exact Or.inr (s.fragments.issued_insert_fst (.blank name))
  · exact Or.inl hk

theorem later_fill {k : FragmentKey} {f : Fragment} (h : s.fill k f = .ok t) : s.Later t := by
  unfold fill at h
  split at h
  · cases h
  · next hr =>
    cases h
    exact ⟨FragmentStore.later_replaceContent hr, fun _ hk => Or.inl hk⟩

theorem later_resolve (fault : String → IoError) (sources : Assoc String Bytes) (owner : String) (s : Inclusion)
    (includes : List PendingInclude) : s.Later (s.resolve fault sources owner includes).2 := by
  have registered {name : String} {k : FragmentKey} {s t : Inclusion} (h : s.noteRead.register name = (k, t)) :
      s.Later t := by
    have := s.noteRead.later_register name
    rw [h] at this
    exact (later_noteRead s).trans this
  fun_induction resolve fault sources owner s includes with
  | case1 => exact .refl _
  | case2 sources owner s i more k hfind e t he ih => rwa [he] at ih
  | case3 sources owner s i more k hfind ks t he ih => rwa [he] at ih
  | case4 => exact .refl _
  | case5 sources owner s => exact later_noteRead s
  | case6 sources owner s i more hfind bytes hsource scanned hscan k s₁ hreg e t he ih =>
    rw [he] at ih
    exact (registered hreg).trans ih
  | case7 sources owner s i more hfind bytes hsource scanned hscan k s₁ hreg targets s₂ hr e hfill ih =>
    rw [hr] at ih
    exact (registered hreg).trans ih
  | case8 sources owner s i more hfind bytes hsource scanned hscan k s₁ hreg targets s₂ hr s₃ hfill e t he ihn ihm =>
    rw [hr] at ihn
    rw [he] at ihm
    exact (((registered hreg).trans ihn).trans (later_fill hfill)).trans ihm
  | case9 sources owner s i more hfind bytes hsource scanned hscan k s₁ hreg targets s₂ hr s₃ hfill ks t he ihn ihm =>
    rw [hr] at ihn
    rw [he] at ihm
    exact (((registered hreg).trans ihn).trans (later_fill hfill)).trans ihm

theorem later_removeAll (ks : List FragmentKey) (fragments : FragmentStore) :
    fragments.table.Later (removeAll ks fragments).table := by
  induction ks generalizing fragments with
  | nil => exact .refl _
  | cons k ks ih => exact (fragments.later_remove k).trans (ih _)

end Inclusion

namespace Library

variable {l l' l'' : Library}

/-! ## Later libraries -/

structure Later (l l' : Library) : Prop where
  fragments : l.fragments.table.Later l'.fragments.table
  shaders : l.shaders.Later l'.shaders

namespace Later

theorem refl (l : Library) : l.Later l := ⟨.refl _, .refl _⟩

theorem trans (h : l.Later l') (h' : l'.Later l'') : l.Later l'' :=
  ⟨h.fragments.trans h'.fragments, h.shaders.trans h'.shaders⟩

theorem withLoader (l : Library) (loader : Loader) : l.Later { l with loader } := ⟨.refl _, .refl _⟩

theorem setShader (l : Library) (k : ShaderKey) (s : Shader) : l.Later (l.setShader k s) :=
  ⟨.refl _, SlotMap.later_mapValues l.shaders _⟩

theorem registerShader (l : Library) (s : Shader) : l.Later (l.registerShader s).2 :=
  ⟨.refl _, SlotMap.later_insert l.shaders s⟩

theorem fragmentChanged (l : Library) (k : FragmentKey) : l.Later (l.fragmentChanged k).2 :=
  ⟨.refl _, SlotMap.later_mapValues l.shaders _⟩

theorem commit {s : Inclusion} (h : (Inclusion.ofLibrary l).Later s) : l.Later (s.commit l) := ⟨h.table, .refl _⟩

theorem rollback {s : Inclusion} (h : (Inclusion.ofLibrary l).Later s) : l.Later (s.rollback l) :=
  ⟨h.table.trans (Inclusion.later_removeAll s.added s.fragments), .refl _⟩

end Later

/-- What was added is void after a rollback. -/
theorem void_rollback {s : Inclusion} (h : (Inclusion.ofLibrary l).Later s) {k : FragmentKey} (hk : k ∈ s.added) :
    (s.rollback l).fragments.table.Issued k ∧ (s.rollback l).fragments.get? k = none := by
  refine ⟨(Inclusion.later_removeAll s.added s.fragments).issued k ?_, ?_⟩
  · exact (h.added k hk).resolve_left List.not_mem_nil
  · show (Inclusion.removeAll s.added s.fragments).get? k = none
    rw [Inclusion.get?_removeAll, if_pos hk]

/-! ## Loading -/

theorem later_resolveSections (l : Library) (owner : String) (s : Inclusion) (sections : List CodeSection) :
    s.Later (l.resolveSections owner s sections).2 := by
  have resolved (s : Inclusion) (includes : List PendingInclude) : s.Later (l.resolve owner s includes).2 :=
    Inclusion.later_resolve _ _ owner s includes
  fun_induction resolveSections l owner s sections with
  | case1 s => exact .refl s
  | case2 s c cs e t he =>
    have hc := resolved s c.source.includes
    rwa [he] at hc
  | case3 s c cs targets t he e u hrest ih =>
    have hc := resolved s c.source.includes
    rw [he] at hc
    rw [hrest] at ih
    exact hc.trans ih
  | case4 s c cs targets t he fs u hrest ih =>
    have hc := resolved s c.source.includes
    rw [he] at hc
    rw [hrest] at ih
    exact hc.trans ih

/-- What loading from a library may have come to: the includes of a source, those of a fragment that is new itself, or
the sections of a shader. -/
inductive Loading (l : Library) : Inclusion → Prop
  | source (owner : String) (includes : List PendingInclude) : Loading l (l.resolve owner (.ofLibrary l) includes).2
  | fragment (name : String) (includes : List PendingInclude) :
      Loading l (l.resolve name ((Inclusion.ofLibrary l).register name).2 includes).2
  | sections (owner : String) (sections : List CodeSection) :
      Loading l (l.resolveSections owner (.ofLibrary l) sections).2

theorem Loading.later {s : Inclusion} (h : l.Loading s) : (Inclusion.ofLibrary l).Later s := by
  cases h with
  | source owner includes => exact Inclusion.later_resolve _ _ owner _ includes
  | fragment name includes =>
    exact ((Inclusion.ofLibrary l).later_register name).trans (Inclusion.later_resolve _ _ name _ includes)
  | sections owner sections => exact later_resolveSections l owner _ sections

theorem later_buildFragment (l : Library) (name : String) (t : Text) : l.Later (l.buildFragment name t).2 := by
  unfold buildFragment
  split
  · exact .refl l
  · next scanned _ =>
    have h := (Loading.source (l := l) name scanned.includes).later
    split
    · next he =>
      rw [he] at h
      exact .rollback h
    · next he =>
      rw [he] at h
      exact .commit h

theorem later_buildShader (l : Library) (name : String) (t : Text) : l.Later (l.buildShader name t).2 := by
  unfold buildShader
  split
  · exact .refl l
  · next source _ =>
    have h := (Loading.sections (l := l) name source.sections).later
    split
    · next he =>
      rw [he] at h
      exact .rollback h
    · next he =>
      rw [he] at h
      exact .commit h

theorem later_readSource (l : Library) (name : String) : l.Later (l.readSource name).2 := by
  unfold readSource
  split
  · exact .withLoader l _
  · split <;> exact .withLoader l _

theorem later_loadNewFragment (l : Library) (name : String) : l.Later (l.loadNewFragment name).2 := by
  unfold loadNewFragment
  split
  · exact .withLoader l _
  · next bytes loader _ =>
    simp only
    split
    · exact .withLoader l loader
    · next scanned _ =>
      have h := (Loading.fragment (l := { l with loader }) name scanned.includes).later
      split
      · next he =>
        rw [he] at h
        exact (Later.withLoader l loader).trans (.rollback h)
      · next he =>
        rw [he] at h
        split
        · exact (Later.withLoader l loader).trans (.rollback h)
        · next hfill => exact (Later.withLoader l loader).trans (.commit (h.trans (Inclusion.later_fill hfill)))

/-! ## Fragments -/

theorem later_replaceFragment (l : Library) (k : FragmentKey) (f : Fragment) : l.Later (l.replaceFragment k f).2 := by
  unfold replaceFragment
  split
  · exact .refl l
  · next fragments hr =>
    have hnew : l.Later { l with fragments } := ⟨FragmentStore.later_replaceContent hr, .refl _⟩
    exact hnew.trans (.fragmentChanged _ k)

theorem later_updateFragment (l : Library) (k : FragmentKey) (t : Text) : l.Later (l.updateFragment k t).2 := by
  unfold updateFragment
  split
  · exact .refl l
  · next old _ =>
    have h := later_buildFragment l old.name t
    split
    · next he => rwa [he] at h
    · next he =>
      rw [he] at h
      exact h.trans (later_replaceFragment _ k _)

theorem later_addFragment (l : Library) (name : String) (t : Text) : l.Later (l.addFragment name t).2 := by
  unfold addFragment
  split
  · next k _ =>
    have h := later_updateFragment l k t
    split <;> next he => rwa [he] at h
  · have h := later_buildFragment l name t
    split
    · next he => rwa [he] at h
    · next f l' he =>
      rw [he] at h
      exact h.trans ⟨l'.fragments.later_insert f, .refl _⟩

theorem later_loadFragment (l : Library) (name : String) : l.Later (l.loadFragment name).2 := by
  unfold loadFragment
  split
  · exact .refl l
  · exact later_loadNewFragment l name

theorem later_reloadFragment (l : Library) (k : FragmentKey) : l.Later (l.reloadFragment k).2 := by
  unfold reloadFragment
  split
  · exact .refl l
  · next old _ =>
    have h := later_readSource l old.name
    split
    · next he => rwa [he] at h
    · next t _ he =>
      rw [he] at h
      exact h.trans (later_updateFragment _ k t)

theorem later_removeFragment (l : Library) (k : FragmentKey) : l.Later (l.removeFragment k).2 := by
  unfold removeFragment
  split
  · exact .refl l
  · split
    · exact .refl l
    · exact ⟨l.fragments.later_remove k, .refl _⟩

/-! ## Shaders -/

theorem later_refill (l : Library) (k : ShaderKey) (s : Shader) (t : Text) : l.Later (l.refill k s t).2 := by
  have h := later_buildShader l s.name t
  unfold refill
  split <;>
  · next he =>
    rw [he] at h
    exact h.trans (.setShader _ k _)

theorem later_loadNewShader (l : Library) (name : String) (t : Text) : l.Later (l.loadNewShader name t).2 := by
  have h := later_buildShader l name t
  unfold loadNewShader
  split <;>
  · next he =>
    rw [he] at h
    exact h.trans (.registerShader _ _)

theorem later_loadShaderText (l : Library) (name : String) (t : Text) : l.Later (l.loadShaderText name t).2 := by
  unfold loadShaderText
  split
  · exact later_loadNewShader l name t
  · split
    · exact .refl l
    · exact later_refill l _ _ t

theorem later_loadShader (l : Library) (name : String) : l.Later (l.loadShader name).2 := by
  have h := later_readSource l name
  unfold loadShader
  split
  · split
    · next he =>
      rw [he] at h
      exact h.trans (.registerShader _ _)
    · next t _ he =>
      rw [he] at h
      exact h.trans (later_loadNewShader _ name t)
  · split
    · exact .refl l
    · split
      · next he =>
        rw [he] at h
        exact h.trans (.setShader _ _ _)
      · next t _ he =>
        rw [he] at h
        exact h.trans (later_refill _ _ _ t)

variable {σ : Type} [ProgramCompiler σ]

theorem later_reloadShaderText (l : Library) (k : ShaderKey) (t : Text) (c : σ) :
    l.Later (l.reloadShaderText k t c).2.1 := by
  unfold reloadShaderText
  split
  · exact .refl l
  · next s _ =>
    have h := later_buildShader l s.name t
    split
    · next he _ =>
      rw [he] at h
      exact h.trans (.setShader _ k _)
    · next he _ =>
      rw [he] at h
      simp only
      split <;> exact h.trans (.setShader _ k _)

theorem later_reloadShader (l : Library) (k : ShaderKey) (c : σ) : l.Later (l.reloadShader k c).2.1 := by
  unfold reloadShader
  split
  · exact .refl l
  · next s _ =>
    have h := later_readSource l s.name
    split
    · next he =>
      rw [he] at h
      exact h.trans (.setShader _ k _)
    · next t _ he =>
      rw [he] at h
      exact h.trans (later_reloadShaderText _ k t c)

theorem later_removeShader (l : Library) (k : ShaderKey) (c : σ) : l.Later (l.removeShader k c).2.1 := by
  unfold removeShader
  split
  · exact .refl l
  · exact ⟨.refl _, SlotMap.later_remove l.shaders k⟩

theorem later_preLoadMask (l : Library) (k : ShaderKey) (m : Mask) : l.Later (l.preLoadMask k m).2 := by
  unfold preLoadMask
  split
  · exact .refl l
  · exact .setShader l k _

theorem Works.later (h : l.Works l') : l.Later l' := by
  induction h with
  | refl => exact .refl l
  | tail _ hstep ih =>
    obtain ⟨k, s, s', -, -, rfl⟩ := hstep
    exact ih.trans (.setShader _ k s')

/-! ## All operations -/

/-- Every operation leads to a later library. -/
theorem later_step (x : Session σ) (op : Operation) : x.library.Later (x.step op).library := by
  obtain ⟨l, c⟩ := x
  cases op with
  | setLoader loader => exact .withLoader l loader
  | setSettings settings => exact ⟨.refl _, SlotMap.later_mapValues l.shaders _⟩
  | addFragment name t => exact later_addFragment l name t
  | loadFragment name => exact later_loadFragment l name
  | updateFragment k t => exact later_updateFragment l k t
  | reloadFragment k => exact later_reloadFragment l k
  | removeFragment k => exact later_removeFragment l k
  | fragmentChanged k => exact .fragmentChanged l k
  | loadShader name => exact later_loadShader l name
  | loadShaderText name t => exact later_loadShaderText l name t
  | reloadShader k => exact later_reloadShader l k c
  | reloadShaderText k t => exact later_reloadShaderText l k t c
  | removeShader k => exact later_removeShader l k c
  | invalidateShader k => exact ⟨.refl _, SlotMap.later_mapValues l.shaders _⟩
  | releaseShader k => exact (works_releaseShader l k c).later
  | preLoadMask k m => exact later_preLoadMask l k m
  | compileContexts k => exact (works_compileContexts l k c).later
  | compileAll => exact (works_compileEach _ l c).later
  | getCombination k context m => exact (works_getCombination l k context m c).later
  | program k context m => exact (works_program l k context m c).later
  | assembleStageSources k context m => exact (works_assembleStageSources l k context m).later
  | setFloatParam k kind i param component a => exact (works_setFloatParam l k kind i param component a).later

def Leads (l l' : Library) : Prop :=
  ∃ (σ : Type) (_ : ProgramCompiler σ) (c : σ) (op : Operation), l' = ((⟨l, c⟩ : Session σ).step op).library

theorem leads_step (x : Session σ) (op : Operation) : x.library.Leads (x.step op).library := ⟨σ, _, x.compiler, op, rfl⟩

theorem leads_run (x : Session σ) (ops : List Operation) : ReflTransGen Leads x.library (x.run ops).library := by
  induction ops generalizing x with
  | nil => exact .refl
  | cons op ops ih => exact .head (leads_step x op) (ih (x.step op))

theorem Reachable.leads (h : l.Reachable) (hl : l.Leads l') : l'.Reachable := by
  obtain ⟨σ, _, c, op, rfl⟩ := hl
  exact h.step c op

theorem later_of_leads (h : ReflTransGen Leads l l') : l.Later l' := by
  induction h with
  | refl => exact .refl l
  | tail _ hstep ih =>
    obtain ⟨σ, _, c, op, rfl⟩ := hstep
    exact ih.trans (later_step ⟨_, c⟩ op)

end Library

end ShaderVariant
