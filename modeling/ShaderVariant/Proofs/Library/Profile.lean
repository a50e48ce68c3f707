import ShaderVariant.Proofs.Library.Effect
import ShaderVariant.Proofs.Library.Supply

/-!
# Profiles of shaders

* `Shader.profile` : what a shader is made of, whatever was built for it. Its sections include by name, so the profile
  depends on the names of the included fragments only (`profile_congr`);
* `Library.profile?` : the profile of the loaded shader with a key;
* `Library.SameProfiles` : all profiles are as they were. Fragments that are loaded or edited, invalidation and quiet
  steps leave them (`SameProfiles.loaded`, `SameProfiles.edits`, `SameProfiles.invalidated`, `sameProfiles_of_quiet`);
* `Opened.profile?`, `Reloaded.profile?` : so does loading a shader, but for the one that gets content or loses it;
* `Library.MadeOf` : the profile of a shader is that of a text. It is so for the text that it has got
  (`madeOf_loadNewShader`, `madeOf_refill`, `madeOf_reloadShaderText`).
-/

namespace ShaderVariant

open FragmentStore (WellFormed Keeps)
open Relation (ReflTransGen)

/-! ## Names of what is included -/

namespace FragmentStore

variable {s t : FragmentStore}

theorem contentOf_congr {f : Fragment} (h : ∀ x ∈ f.targets, t.displayName x = s.displayName x) :
    t.contentOf f = s.contentOf f := by
  have hnames : t.includedNames f.includes = s.includedNames f.includes :=
    List.map_congr_left fun i hi => by rw [h i.target (List.mem_map_of_mem hi)]
  unfold contentOf
  rw [hnames]

theorem displayName_remove {k x : FragmentKey} (h : k ≠ x) : (s.remove k).2.displayName x = s.displayName x := by
  unfold displayName
  rw [get?_remove, if_neg h]

end FragmentStore

/-! ## Profiles -/

/-- What a shader is made of: what it declares, and its sections with what they include by name. -/
structure Profile where
  name : String
  vocabulary : Vocabulary
  contexts : List ContextDecl
  sections : List Content
  samplers : List Sampler
  uniforms : List (String × UniformKind)
  buffers : List String

def ShaderSource.profile (x : ShaderSource) (name : String) : Profile :=
  { name, vocabulary := x.vocabulary, contexts := x.contexts,
    sections := x.sections.map fun c => c.source.content c.name .zero, samplers := x.samplers,
    uniforms := x.uniforms.map Uniform.signature, buffers := x.buffers }

namespace Shader

variable {s s' : Shader}

/-- The profile of a shader. Default values, which the host can change, do not count. -/
def profile (s : Shader) (fragments : FragmentStore) : Profile :=
  { name := s.name, vocabulary := s.vocabulary, contexts := s.contexts.map Context.decl,
    sections := s.sections.map fragments.contentOf, samplers := s.samplers,
    uniforms := s.uniforms.map Uniform.signature, buffers := s.buffers }

theorem profile_congr {fragments fragments' : FragmentStore}
    (h : ∀ f ∈ s.sections, ∀ x ∈ f.targets, fragments'.displayName x = fragments.displayName x) :
    s.profile fragments' = s.profile fragments := by
  have hsections : s.sections.map fragments'.contentOf = s.sections.map fragments.contentOf :=
    List.map_congr_left fun f hf => FragmentStore.contentOf_congr (h f hf)
  unfold profile
  rw [hsections]

theorem profile_cleared (s : Shader) (fragments : FragmentStore) :
    ({ s with contexts := s.contexts.map Context.cleared, ready := false } : Shader).profile fragments =
      s.profile fragments := by
  unfold profile
  rw [List.map_map]
  rfl

theorem profile_apply (s : Shader) {source : ShaderSource} {sections : List Fragment} {fragments : FragmentStore}
    (h : sections.map fragments.contentOf = source.sections.map fun c => c.source.content c.name .zero) :
    (s.apply source sections).profile fragments = source.profile s.name := by
  have hdecls : (source.contexts.map Context.ofDecl).map Context.decl = source.contexts := by
    rw [List.map_map]
    exact List.map_id _
  show (⟨s.name, source.vocabulary, (source.contexts.map Context.ofDecl).map Context.decl,
    sections.map fragments.contentOf, source.samplers, source.uniforms.map Uniform.signature, source.buffers⟩ :
      Profile) = _
  rw [hdecls, h]
  rfl

theorem Work.profile {σ : Type} [ProgramCompiler σ] {w : Workspace} {x y : Shader × σ} (h : Work w x y)
    (fragments : FragmentStore) : y.1.profile fragments = x.1.profile fragments := by
  have hframe := h.frame
  unfold Shader.profile
  rw [hframe.name, hframe.vocabulary, hframe.decls, hframe.sections, hframe.samplers, h.signatures, hframe.buffers]

theorem Work.profile_of_steps {σ : Type} [ProgramCompiler σ] {w : Workspace} {x y : Shader × σ}
    (h : ReflTransGen (Work w) x y) (fragments : FragmentStore) : y.1.profile fragments = x.1.profile fragments := by
  induction h with
  | refl => rfl
  | tail _ hstep ih => exact (hstep.profile fragments).trans ih

end Shader

namespace Library

variable {l l' : Library}

def profile? (l : Library) (k : ShaderKey) : Option Profile :=
  (l.shader? k).bind fun s => if s.isLoaded then some (s.profile l.fragments) else none

theorem profile?_eq_some_iff {k : ShaderKey} {p : Profile} :
    l.profile? k = some p ↔ ∃ s, l.shader? k = some s ∧ s.isLoaded = true ∧ s.profile l.fragments = p := by
  unfold profile?
  rw [Option.bind_eq_some_iff]
  refine exists_congr fun s => and_congr_right fun _ => ?_
  split <;> simp_all

theorem profile?_of_shader {k : ShaderKey} {s : Shader} (hs : l.shader? k = some s) (hload : s.isLoaded = true) :
    l.profile? k = some (s.profile l.fragments) :=
  profile?_eq_some_iff.2 ⟨s, hs, hload, rfl⟩

theorem profile?_eq_none {k : ShaderKey} (h : ∀ s, l.shader? k = some s → s.isLoaded = false) : l.profile? k = none := by
  refine Option.eq_none_iff_forall_ne_some.2 fun p hp => ?_
  obtain ⟨s, hs, hload, -⟩ := profile?_eq_some_iff.1 hp
  rw [h s hs] at hload
  cases hload

/-- A profile is that of the shader, as long as the names of what it includes stay. -/
theorem profile?_congr {k : ShaderKey} {f : Shader → Shader} (hs : l'.shader? k = (l.shader? k).map f)
    (hload : ∀ s, l.shader? k = some s → (f s).isLoaded = s.isLoaded)
    (hp : ∀ s, l.shader? k = some s → (f s).profile l'.fragments = s.profile l.fragments) :
    l'.profile? k = l.profile? k := by
  unfold profile?
  rw [hs]
  cases hk : l.shader? k with
  | none => rfl
  | some s => rw [Option.map_some, Option.bind_some, Option.bind_some, hload s hk, hp s hk]

theorem profile?_of_same {k : ShaderKey} (hs : l'.shader? k = l.shader? k)
    (hp : ∀ s, l.shader? k = some s → s.profile l'.fragments = s.profile l.fragments) : l'.profile? k = l.profile? k :=
  profile?_congr (hs.trans Option.map_id'.symm) (fun _ _ => rfl) hp

theorem profile?_setShader_of_ne {k x : ShaderKey} (h : x ≠ k) (t : Shader) : (l.setShader x t).profile? k = l.profile? k :=
  profile?_of_same ((shader?_setShader ..).trans (if_neg h)) fun _ _ => rfl

theorem shader?_registerShader (l : Library) (s : Shader) :
    (l.registerShader s).2.shader? (l.registerShader s).1 = some s :=
  (SlotMap.get?_insert l.shaders s _).trans (if_pos rfl)

theorem profile?_registerShader_of_ne {s : Shader} {k : ShaderKey} (h : (l.registerShader s).1 ≠ k) :
    (l.registerShader s).2.profile? k = l.profile? k :=
  profile?_of_same ((SlotMap.get?_insert l.shaders s k).trans (if_neg h)) fun _ _ => rfl

theorem profile?_markFailed (l : Library) (k : ShaderKey) (s : Shader) (diagnostic : String) :
    (l.setShader k (s.markFailed diagnostic)).profile? k = none := by
  refine profile?_eq_none fun t ht => ?_
  rw [shader?_setShader, if_pos rfl] at ht
  obtain ⟨u, -, rfl⟩ := Option.map_eq_some_iff.1 ht
  rfl

/-! ## What leaves all profiles -/

def SameProfiles (l l' : Library) : Prop := ∀ k, l'.profile? k = l.profile? k

namespace SameProfiles

theorem refl (l : Library) : l.SameProfiles l := fun _ => rfl

theorem trans {l'' : Library} (h : l.SameProfiles l') (h' : l'.SameProfiles l'') : l.SameProfiles l'' :=
  fun k => (h' k).trans (h k)

/-- Fragments that are loaded leave the names of those that are included. -/
theorem loaded (h : l.Loaded l') (hl : l.Regular) : l.SameProfiles l' := fun k =>
  profile?_of_same (Session.shader?_loaded h k) fun s hs =>
    s.profile_congr fun f hf x hx => h.keeps.displayName (((hl.shaders k s hs).resolves f hf).stored x hx)

theorem invalidated (uses : ShaderKey → Shader → Bool)
    (hn : ∀ x, l'.fragments.displayName x = l.fragments.displayName x)
    (h : ∀ k, l'.shader? k = (l.shader? k).map fun s => if uses k s then s.invalidate else s) : l.SameProfiles l' := by
  refine fun k => profile?_congr (h k) (fun s _ => ?_) fun s _ => ?_
  · split <;> rfl
  · split <;> exact s.profile_congr fun _ _ x _ => hn x

theorem edits {k : FragmentKey} {n : Nat} (h : l.Edits l' k n) (hl : l.Regular) : l.SameProfiles l' := by
  obtain ⟨l₁, f, fragments, hload, -, hr, -, rfl⟩ := h
  exact (loaded hload hl).trans (invalidated _ (FragmentStore.displayName_replaceContent hr)
    fun x => Session.shader?_fragmentChanged { l₁ with fragments } k x)

theorem replaced {k : FragmentKey} {p : Except ShaderError Nat × Library} (h : l.Replaced k p) (hl : l.Regular) :
    l.SameProfiles p.2 := by
  cases h with
  | missing => exact refl l
  | failed h => exact loaded (h.loaded hl.fragments) hl
  | edited h => exact edits h hl

theorem setShader {k : ShaderKey} {s t : Shader} (hs : l.shader? k = some s) (hload : t.isLoaded = s.isLoaded)
    (hp : t.profile l.fragments = s.profile l.fragments) : l.SameProfiles (l.setShader k t) := by
  intro x
  by_cases hk : k = x
  · subst hk
    refine profile?_congr (f := fun _ => t) ((shader?_setShader ..).trans (if_pos rfl)) (fun u hu => ?_) fun u hu => ?_
    · cases hs.symm.trans hu
      exact hload
    · cases hs.symm.trans hu
      exact hp
  · exact profile?_setShader_of_ne hk t

theorem added {name : String} {p : Except ShaderError FragmentKey × Library} (h : l.Added name p) (hl : l.Regular) :
    l.SameProfiles p.2 := by
  cases h with
  | failed h => exact loaded (h.loaded hl.fragments) hl
  | edited hk h => exact edits h hl
  | new hn h => exact loaded h hl

end SameProfiles

theorem sameProfiles_setSettings (l : Library) (settings : Settings) : l.SameProfiles (l.setSettings settings) :=
  .invalidated (fun _ _ => true) (fun _ => rfl) (SlotMap.get?_mapValues l.shaders _)

theorem sameProfiles_fragmentChanged (l : Library) (k : FragmentKey) : l.SameProfiles (l.fragmentChanged k).2 :=
  .invalidated (fun _ s => s.dependsOn l.fragments k) (fun _ => rfl) (Session.shader?_fragmentChanged l k)

theorem sameProfiles_invalidateShader (l : Library) (k : ShaderKey) :
    l.SameProfiles (l.modifyShader k Shader.invalidate) := by
  refine .invalidated (fun x _ => decide (x = k)) (fun _ => rfl) fun x => ?_
  refine (SlotMap.get?_mapValues l.shaders _ x).trans ?_
  simp only [decide_eq_true_eq]
  rfl

/-! ## Loading shaders -/

variable {σ : Type} [ProgramCompiler σ]

theorem Opened.profile? {name : String} {p : Except ShaderError ShaderKey × Library} (h : l.Opened name p)
    (hl : l.Regular) (k : ShaderKey) :
    p.2.profile? k = l.profile? k ∨ p.2.profile? k = none ∨
      p.1 = .ok k ∧ ∀ x s, l.registered? name = some (x, s) → s.isLoaded = false := by
  cases h with
  | kept hr hs => exact Or.inl rfl
  | @newFailed e l' hn h =>
    by_cases hk : (l'.registerShader (.failed name e.message)).1 = k
    · subst hk
      refine Or.inr (Or.inl (profile?_eq_none fun s hs => ?_))
      cases (shader?_registerShader l' _).symm.trans hs
      rfl
    · exact Or.inl ((profile?_registerShader_of_ne hk).trans (SameProfiles.loaded (h.loaded hl.fragments) hl k))
  | @oldFailed x s e l' hr hu h =>
    by_cases hk : x = k
    · subst hk
      exact Or.inr (Or.inl (profile?_markFailed l' x s e.message))
    · exact Or.inl ((profile?_setShader_of_ne hk _).trans (SameProfiles.loaded (h.loaded hl.fragments) hl k))
  | @registered source sections l' hn h hq =>
    by_cases hk : (l'.registerShader (.ofSource name source sections)).1 = k
    · refine Or.inr (Or.inr ⟨congrArg Except.ok hk, fun x s hr => ?_⟩)
      rw [hn] at hr
      cases hr
    · exact Or.inl ((profile?_registerShader_of_ne hk).trans (SameProfiles.loaded h hl k))
  | @refilled x s source sections l' hr hu h hq =>
    by_cases hk : x = k
    · subst hk
      refine Or.inr (Or.inr ⟨rfl, fun y t hr' => ?_⟩)
      cases hr.symm.trans hr'
      exact hu
    · exact Or.inl ((profile?_setShader_of_ne hk _).trans (SameProfiles.loaded h hl k))

theorem Reloaded.profile? {x : ShaderKey} {s : Shader} {c : σ}
    {p : Except ShaderError BuildReport × Library × σ} (h : l.Reloaded x s c p) (hl : l.Regular) (k : ShaderKey) :
    p.2.1.profile? k = l.profile? k ∨ p.2.1.profile? k = none ∨ x = k ∧ ∃ report, p.1 = .ok report := by
  by_cases hk : x = k
  · subst hk
    cases h with
    | @failed e l' h => exact Or.inr (Or.inl (profile?_markFailed l' x s e.message))
    | applied => exact Or.inr (Or.inr ⟨rfl, _, rfl⟩)
    | compiled => exact Or.inr (Or.inr ⟨rfl, _, rfl⟩)
  · left
    cases h with
    | failed h => exact (profile?_setShader_of_ne hk _).trans (SameProfiles.loaded (h.loaded hl.fragments) hl k)
    | applied h => exact (profile?_setShader_of_ne hk _).trans (SameProfiles.loaded h hl k)
    | compiled h => exact (profile?_setShader_of_ne hk _).trans (SameProfiles.loaded h hl k)

theorem profile?_removeShader (l : Library) (x : ShaderKey) (c : σ) (k : ShaderKey) :
    (l.removeShader x c).2.1.profile? k = l.profile? k ∨ (l.removeShader x c).2.1.profile? k = none := by
  unfold removeShader
  split
  · exact Or.inl rfl
  · next s hs =>
    have hget := SlotMap.get?_remove l.shaders x k
    by_cases hk : x = k
    · rw [if_pos hk] at hget
      exact Or.inr (profile?_eq_none fun t ht => nomatch hget.symm.trans ht)
    · rw [if_neg hk] at hget
      exact Or.inl (profile?_of_same hget fun _ _ => rfl)

theorem sameProfiles_releaseShader (l : Library) (x : ShaderKey) (c : σ) :
    l.SameProfiles (Session.releaseShader l x c).1 := by
  unfold Session.releaseShader
  split
  · exact .refl l
  · next s hs => exact .setShader hs rfl (s.profile_cleared l.fragments)

/-! ## The text of a shader -/

/-- The shader with a key is made of what a text says. -/
def MadeOf (l : Library) (k : ShaderKey) (t : Text) : Prop :=
  ∃ name source, ShaderSource.parse name t = .ok source ∧ l.profile? k = some (source.profile name)

theorem contents_buildShader {name : String} {t : Text} {source : ShaderSource} {sections : List Fragment}
    (hl : WellFormed l.fragments) (h : l.buildShader name t = (.ok (source, sections), l')) :
    ShaderSource.parse name t = .ok source ∧
      sections.map l'.fragments.contentOf = source.sections.map fun c => c.source.content c.name .zero := by
  unfold buildShader at h
  split at h
  · cases h
  · next parsed hs =>
    have hstocks := stocksSections_resolveSections l name (s := .ofLibrary l) hl (ShaderSource.scanned_parse hs)
    split at h
    · cases h
    · next he =>
      rw [he] at hstocks
      cases h
      exact ⟨hs, (hstocks sections rfl).sections⟩

theorem madeOf_loadNewShader {name : String} {t : Text} {k : ShaderKey} (hl : WellFormed l.fragments)
    (h : (l.loadNewShader name t).1 = .ok k) : (l.loadNewShader name t).2.MadeOf k t := by
  unfold loadNewShader at h ⊢
  cases hb : l.buildShader name t with
  | mk r l₁ =>
    simp only [hb] at h ⊢
    cases r with
    | error e => cases h
    | ok content =>
      obtain ⟨hparse, hsections⟩ := contents_buildShader hl hb
      cases h
      exact ⟨name, content.1, hparse, profile?_eq_some_iff.2
        ⟨_, shader?_registerShader l₁ _, rfl, (Shader.failed name "").profile_apply hsections⟩⟩

theorem madeOf_refill {k x : ShaderKey} {s : Shader} {t : Text} (hl : WellFormed l.fragments)
    (hs : l.shader? x = some s) (h : (l.refill x s t).1 = .ok k) : (l.refill x s t).2.MadeOf k t := by
  have hload := (attempt_buildShader hl s.name t).loaded hl
  unfold refill at h ⊢
  cases hb : l.buildShader s.name t with
  | mk r l₁ =>
    simp only [hb] at h hload ⊢
    cases r with
    | error e => cases h
    | ok content =>
      obtain ⟨hparse, hsections⟩ := contents_buildShader hl hb
      cases h
      exact ⟨s.name, content.1, hparse, profile?_eq_some_iff.2
        ⟨_, shader?_setShader_self ((Session.shader?_loaded hload k).trans hs) _, rfl, s.profile_apply hsections⟩⟩

theorem madeOf_reloadShaderText {k : ShaderKey} {s : Shader} {t : Text} {c : σ}
    {report : BuildReport} (hl : WellFormed l.fragments) (hs : l.shader? k = some s)
    (h : (l.reloadShaderText k t c).1 = .ok report) : (l.reloadShaderText k t c).2.1.MadeOf k t := by
  have hload := (attempt_buildShader hl s.name t).loaded hl
  unfold reloadShaderText at h ⊢
  simp only [hs] at h ⊢
  cases hb : l.buildShader s.name t with
  | mk r l₁ =>
    simp only [hb] at h hload ⊢
    cases r with
    | error e => cases h
    | ok content =>
      obtain ⟨source, sections⟩ := content
      obtain ⟨hparse, hsections⟩ := contents_buildShader hl hb
      have hs₁ := (Session.shader?_loaded hload k).trans hs
      have hprofile := s.profile_apply hsections
      refine ⟨s.name, source, hparse, ?_⟩
      simp only
      split
      · have hremembers : (s.apply source sections).Remembers l₁.workspace := Shader.remembers_of_memo_nil rfl
        have hwork := Shader.compileContexts_work hremembers (s.release c).2
        exact profile?_eq_some_iff.2 ⟨_, shader?_setShader_self hs₁ _, (Shader.Work.frame_of_steps hwork).isLoaded,
          (Shader.Work.profile_of_steps hwork l₁.fragments).trans hprofile⟩
      · exact profile?_eq_some_iff.2 ⟨_, shader?_setShader_self hs₁ _, rfl, hprofile⟩

end Library

namespace Session

variable {σ : Type} [ProgramCompiler σ] {x y : Session σ}

theorem Quiet.sameProfiles (h : Quiet x y) (hx : x.library.Regular) : x.library.SameProfiles y.library := by
  cases h with
  | load c h => exact .loaded h hx
  | work l hs hw => exact .setShader hs hw.frame.isLoaded (hw.profile l.fragments)
  | drop l c h =>
    -- what is removed is not included, so no name is lost
    exact fun k => Library.profile?_of_same rfl fun s hs => s.profile_congr fun f hf x hx =>
      FragmentStore.displayName_remove fun he => (Library.not_included h).2 k s hs f hf (he ▸ hx)

theorem sameProfiles_of_quiet (h : ReflTransGen Quiet x y) (hx : x.library.Regular) :
    x.library.SameProfiles y.library := by
  induction h with
  | refl => exact .refl _
  | tail hsteps hstep ih => exact ih.trans (hstep.sameProfiles (regular_of_quiet hsteps hx))

end Session

end ShaderVariant
