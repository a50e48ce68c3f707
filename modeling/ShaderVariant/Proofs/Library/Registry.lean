import ShaderVariant.Proofs.Library.Atomicity
import ShaderVariant.Proofs.Library.Later

/-!
# The registry of a library

* `fragmentKey_step`, `shaderKey_step` : an operation may take a name away, but gives it no other key;
* `Shader.Bare` : a shader that is not loaded has no content, nothing assembled, and is not ready (`Reachable.bare`);
* `registry_exact` : names and tables are in step, and a key that is void is never used again.
-/

namespace ShaderVariant

open Relation (ReflTransGen)

/-! ## Names of fragments -/

namespace FragmentStore

variable {s t u : FragmentStore}

def Retains (s t : FragmentStore) : Prop := ∀ k f, s.get? k = some f → ∃ g, t.get? k = some g ∧ g.name = f.name

namespace Retains

theorem of_keeps (h : Keeps s t) : s.Retains t := fun k f hf => ⟨f, h k f hf, rfl⟩

theorem trans (h : s.Retains t) (h' : t.Retains u) : s.Retains u := by
  intro k f hf
  obtain ⟨g, hg, hname⟩ := h k f hf
  obtain ⟨g', hg', hname'⟩ := h' k g hg
  exact ⟨g', hg', hname'.trans hname⟩

theorem replaceContent {k : FragmentKey} {f : Fragment} (h : s.replaceContent k f = .ok t) : s.Retains t := by
  intro x g hg
  have hx := get?_replaceContent h x
  rw [hg] at hx
  split at hx
  · exact ⟨g.replacedBy f, hx, rfl⟩
  · exact ⟨g, hx, rfl⟩

theorem find? (h : s.Retains t) (hs : Named s) (ht : Named t) {name : String} {k : FragmentKey}
    (hk : s.find? name = some k) : t.find? name = some k := by
  obtain ⟨f, hf, rfl⟩ := (hs name k).1 hk
  obtain ⟨g, hg, hname⟩ := h k f hf
  exact (ht f.name k).2 ⟨g, hg, hname⟩

end Retains

/-- Removal takes one name away at most. -/
theorem find?_remove (hs : Named s) (x : FragmentKey) {name : String} {k : FragmentKey} (hk : s.find? name = some k) :
    (s.remove x).2.find? name = some k ∨ (s.remove x).2.find? name = none := by
  have ht := hs.remove x
  obtain ⟨f, hf, rfl⟩ := (hs name k).1 hk
  have hget := get?_remove s x k
  rw [hf] at hget
  split at hget
  · next hx =>
    right
    cases hfind : (s.remove x).2.find? f.name with
    | none => rfl
    | some y =>
      -- another fragment of the name would have been there before
      obtain ⟨g, hg, hname⟩ := (ht f.name y).1 hfind
      rw [get?_remove] at hg
      split at hg
      · cases hg
      · next hxy =>
        have := hs.find?_of_get? hg
        rw [hname, hk] at this
        exact absurd (hx.trans (Option.some.inj this)) hxy
  · exact Or.inl ((ht f.name k).2 ⟨f, hget, rfl⟩)

end FragmentStore

namespace Library

open FragmentStore (WellFormed Retains)

variable {l l' : Library}

theorem Edits.retains {k : FragmentKey} {n : Nat} (h : l.Edits l' k n) : l.fragments.Retains l'.fragments := by
  obtain ⟨l₁, f, fragments, hload, -, hr, -, rfl⟩ := h
  exact (Retains.of_keeps hload.keeps).trans (.replaceContent hr)

theorem Replaced.retains {k : FragmentKey} {p : Except ShaderError Nat × Library} (h : l.Replaced k p)
    (hl : WellFormed l.fragments) : l.fragments.Retains p.2.fragments := by
  cases h with
  | missing h => exact .of_keeps (.refl _)
  | failed h => exact .of_keeps (h.loaded hl).keeps
  | edited h => exact h.retains

theorem Added.retains {name : String} {p : Except ShaderError FragmentKey × Library} (h : l.Added name p)
    (hl : WellFormed l.fragments) : l.fragments.Retains p.2.fragments := by
  cases h with
  | failed h => exact .of_keeps (h.loaded hl).keeps
  | edited hk h => exact h.retains
  | new hn h => exact .of_keeps h.keeps

theorem Opened.retains {name : String} {p : Except ShaderError ShaderKey × Library} (h : l.Opened name p)
    (hl : WellFormed l.fragments) : l.fragments.Retains p.2.fragments := by
  cases h with
  | kept hr hs => exact .of_keeps (.refl _)
  | newFailed hn h => exact .of_keeps (h.loaded hl).keeps
  | oldFailed hr hu h => exact .of_keeps (h.loaded hl).keeps
  | registered hn h hq => exact .of_keeps h.keeps
  | refilled hr hu h hq => exact .of_keeps h.keeps

theorem Works.retains (h : l.Works l') : l.fragments.Retains l'.fragments := by
  rw [h.fragments]
  exact .of_keeps (.refl _)

variable {σ : Type} [ProgramCompiler σ]

theorem Reloaded.retains {k : ShaderKey} {s : Shader} {c : σ} {p : Except ShaderError BuildReport × Library × σ}
    (h : l.Reloaded k s c p) (hl : WellFormed l.fragments) : l.fragments.Retains p.2.1.fragments := by
  cases h with
  | failed h => exact .of_keeps (h.loaded hl).keeps
  | applied h hq => exact .of_keeps h.keeps
  | compiled h hq hc => exact .of_keeps h.keeps

theorem retains_reloadShader (hl : WellFormed l.fragments) (k : ShaderKey) (c : σ) :
    l.fragments.Retains (l.reloadShader k c).2.1.fragments := by
  cases hs : l.shader? k with
  | none =>
    unfold reloadShader
    simp only [hs]
    exact .of_keeps (.refl _)
  | some s => exact (reloaded_reloadShader hl hs c).retains hl

theorem retains_reloadShaderText (hl : WellFormed l.fragments) (k : ShaderKey) (t : Text) (c : σ) :
    l.fragments.Retains (l.reloadShaderText k t c).2.1.fragments := by
  cases hs : l.shader? k with
  | none =>
    unfold reloadShaderText
    simp only [hs]
    exact .of_keeps (.refl _)
  | some s => exact (reloaded_reloadShaderText hl l.loader hs t c).retains hl

/-- Only removal takes a fragment away. -/
theorem retains_step {x : Session σ} (hl : WellFormed x.library.fragments) {op : Operation}
    (hop : ∀ k, op ≠ .removeFragment k) : x.library.fragments.Retains (x.step op).library.fragments := by
  obtain ⟨l, c⟩ := x
  have hl : WellFormed l.fragments := hl
  have stays : l.fragments.Retains l.fragments := .of_keeps (.refl _)
  cases op with
  | setLoader loader => exact stays
  | setSettings settings => exact stays
  | addFragment name t => exact (added_addFragment hl name t).retains hl
  | loadFragment name => exact .of_keeps ((attempt_loadFragment hl name).loaded hl).keeps
  | updateFragment k t => exact (replaced_updateFragment hl k t).retains hl
  | reloadFragment k => exact (replaced_reloadFragment hl k).retains hl
  | removeFragment k => exact absurd rfl (hop k)
  | fragmentChanged k => exact stays
  | loadShader name => exact (opened_loadShader hl name).retains hl
  | loadShaderText name t => exact (opened_loadShaderText hl name t).retains hl
  | reloadShader k => exact retains_reloadShader hl k c
  | reloadShaderText k t => exact retains_reloadShaderText hl k t c
  | removeShader k =>
    show l.fragments.Retains (l.removeShader k c).2.1.fragments
    unfold removeShader
    split <;> exact stays
  | invalidateShader k => exact stays
  | releaseShader k => exact (works_releaseShader l k c).retains
  | preLoadMask k m =>
    show l.fragments.Retains (l.preLoadMask k m).2.fragments
    unfold preLoadMask
    split <;> exact stays
  | compileContexts k => exact (works_compileContexts l k c).retains
  | compileAll => exact (works_compileEach _ l c).retains
  | getCombination k context m => exact (works_getCombination l k context m c).retains
  | program k context m => exact (works_program l k context m c).retains
  | assembleStageSources k context m => exact (works_assembleStageSources l k context m).retains
  | setFloatParam k kind i param component a => exact (works_setFloatParam l k kind i param component a).retains

/-- An operation gives no other key to the name of a fragment. -/
theorem fragmentKey_step {x : Session σ} (hl : x.library.Regular) (op : Operation) {name : String} {k : FragmentKey}
    (hk : x.library.fragments.find? name = some k) :
    (x.step op).library.fragments.find? name = some k ∨ (x.step op).library.fragments.find? name = none := by
  have hafter := (Session.effect_step hl op).regular hl
  by_cases hop : ∃ y, op = .removeFragment y
  · obtain ⟨y, rfl⟩ := hop
    show (x.library.removeFragment y).2.fragments.find? name = some k ∨
      (x.library.removeFragment y).2.fragments.find? name = none
    unfold removeFragment
    split
    · exact Or.inl hk
    · split
      · exact Or.inl hk
      · exact FragmentStore.find?_remove hl.fragments.named y hk
  · have hr := retains_step hl.fragments fun y hy => hop ⟨y, hy⟩
    exact Or.inl (hr.find? hl.fragments.named hafter.fragments.named hk)

end Library

/-! ## Names of shaders -/

namespace Session

variable {σ : Type} [ProgramCompiler σ] {x y : Session σ}

theorem Quiet.findShader? (h : Quiet x y) (name : String) : y.library.findShader? name = x.library.findShader? name := by
  unfold Library.findShader?
  cases h with
  | load c h => rw [h.names]
  | work l hs hw => rfl
  | drop l c h => rfl

theorem findShader?_of_quiet (h : ReflTransGen Quiet x y) (name : String) :
    y.library.findShader? name = x.library.findShader? name := by
  induction h with
  | refl => rfl
  | tail _ hstep ih => exact (hstep.findShader? name).trans ih

/-- A shader is registered only under a name that is free. -/
theorem Turn.findShader? (h : Turn x y) (hx : x.library.Named) {name : String} {k : ShaderKey}
    (hk : x.library.findShader? name = some k) :
    y.library.findShader? name = some k ∨ y.library.findShader? name = none := by
  cases h with
  | @register l c s other diagnostic hn h =>
    left
    have hother : s.name = other := by
      rcases h with rfl | h
      · rfl
      · exact h.name
    have hfree := (hx.registered?_eq_none_iff other).1 hn
    show (l.names.set s.name (l.shaders.insert s).1).get? name = some k
    rw [Assoc.get?_set, if_neg]
    · exact hk
    · rintro rfl
      rw [hother, hfree] at hk
      cases hk
  | @discard l c k' s hs =>
    show (l.names.erase s.name).get? name = some k ∨ (l.names.erase s.name).get? name = none
    by_cases hname : s.name = name
    · exact Or.inr (hname ▸ Assoc.get?_erase_self l.names s.name)
    · exact Or.inl ((Assoc.get?_erase_of_ne hname l.names).trans hk)
  | _ => exact Or.inl hk

/-- An operation gives no other key to the name of a shader. -/
theorem shaderKey_step (hl : x.library.Regular) (hn : x.library.Named) (op : Operation) {name : String} {k : ShaderKey}
    (hk : x.library.findShader? name = some k) :
    (x.step op).library.findShader? name = some k ∨ (x.step op).library.findShader? name = none := by
  obtain ⟨u, v, hxu, huv, hvy⟩ := effect_step hl op
  rw [findShader?_of_quiet hvy]
  have hu := (findShader?_of_quiet hxu name).trans hk
  rcases huv with rfl | hturn
  · exact Or.inl hu
  · refine hturn.findShader? ?_ hu
    clear hturn hvy hu
    induction hxu with
    | refl => exact hn
    | tail _ hstep ih => exact hstep.named ih

end Session

/-! ## Shaders that are not loaded -/

namespace Shader

structure Bare (s : Shader) : Prop where
  contexts : s.contexts = []
  sections : s.sections = []
  memo : s.memo = []
  ready : s.ready = false

theorem bare_modifyContext {s : Shader} (h : s.Bare) (i : Nat) (f : Context → Context) : (s.modifyContext i f).Bare := by
  refine ⟨?_, h.sections, h.memo, h.ready⟩
  show s.contexts.modify i f = []
  rw [h.contexts, List.modify_nil]

variable {σ : Type} [ProgramCompiler σ]

/-- Without sections there is nothing to assemble, and only a loaded shader is built. -/
theorem Work.bare {w : Workspace} {x y : Shader × σ} (h : Work w x y) (hx : x.1.isLoaded = false → x.1.Bare) :
    y.1.isLoaded = false → y.1.Bare := by
  intro hy
  have hunloaded : x.1.isLoaded = false := h.frame.isLoaded.symm.trans hy
  have hbare := hx hunloaded
  cases h with
  | link s c i => exact bare_modifyContext hbare i _
  | assemble s c h =>
    obtain ⟨i, t, ht, -⟩ := h
    unfold expandSection at ht
    rw [hbare.sections] at ht
    cases ht
  | fail s c key e hload => exact absurd (hload.symm.trans hunloaded) (by decide)
  | install s c key p sources hload => exact absurd (hload.symm.trans hunloaded) (by decide)
  | cover s c i => exact bare_modifyContext hbare i _
  | ready s c hload => exact absurd (hload.symm.trans hunloaded) (by decide)
  | ask s c m =>
    show (s.preLoadMask m).Bare
    unfold preLoadMask
    split
    · exact hbare
    · exact ⟨hbare.contexts, hbare.sections, hbare.memo, hbare.ready⟩
  | adjust s c uniforms => exact ⟨hbare.contexts, hbare.sections, hbare.memo, hbare.ready⟩

theorem bare_failed (name diagnostic : String) : (failed name diagnostic).Bare := ⟨rfl, rfl, rfl, rfl⟩

end Shader

namespace Session

theorem Refills.bare {l : Library} {s s' : Shader} (h : Refills l s s') (hs : s.isLoaded = false → s.Bare) :
    s'.isLoaded = false → s'.Bare := by
  intro hu
  cases h with
  | cleared =>
    have hbare := hs hu
    refine ⟨?_, hbare.sections, hbare.memo, rfl⟩
    show s.contexts.map Context.cleared = []
    rw [hbare.contexts, List.map_nil]
  | failed diagnostic => exact ⟨rfl, rfl, rfl, rfl⟩
  | applied source sections h => cases hu

end Session

namespace Library

/-- A shader that is not loaded is bare. -/
theorem Reachable.bare {l : Library} (h : l.Reachable) {k : ShaderKey} {s : Shader} (hs : l.shader? k = some s) :
    s.isLoaded = false → s.Bare := by
  refine (h.of_steps (P := fun l => ∀ k s, l.shader? k = some s → s.isLoaded = false → s.Bare)
    (fun _ _ _ _ hs => (nomatch hs)) ?_ ?_).2 k s hs
  · intro σ _ x y hq hx hp k s hs
    obtain ⟨t, ht, ⟨rfl, -⟩ | ⟨-, hwork⟩⟩ := hq.shader hx hs
    · exact hp k s ht
    · exact hwork.bare (hp k t ht)
  · intro σ _ x y ht hx hp k s hs
    cases ht.shader hx hs with
    | stays hs hv => exact hp k s hs
    | @stale t ht hr =>
      intro hu
      have hbare := hp k t ht hu
      exact ⟨hbare.contexts, hbare.sections, rfl, hbare.ready⟩
    | @refilled t _ ht hw h => exact h.bare (hp k t ht)
    | @registered _ name diagnostic hs h =>
      rcases h with rfl | h
      · exact fun _ => Shader.bare_failed name diagnostic
      · exact h.bare fun _ => Shader.bare_failed name diagnostic

/-! ## The registry -/

/-- No later library has a fragment with the key. -/
def FragmentGone (l : Library) (k : FragmentKey) : Prop :=
  ∀ l', ReflTransGen Leads l l' → l'.fragments.get? k = none

def ShaderGone (l : Library) (k : ShaderKey) : Prop := ∀ l', ReflTransGen Leads l l' → l'.shader? k = none

def LeadsWithin (P : Library → Prop) : Library → Library → Prop := ReflTransGen fun l l' => l.Leads l' ∧ P l'

variable {l l' : Library}

theorem fragmentGone_of_issued {k : FragmentKey} (hk : l.fragments.table.Issued k) (hv : l.fragments.get? k = none) :
    l.FragmentGone k :=
  fun _ h => (later_of_leads h).fragments.void k hk hv

theorem shaderGone_of_issued {k : ShaderKey} (hk : l.shaders.Issued k) (hv : l.shader? k = none) : l.ShaderGone k :=
  fun _ h => (later_of_leads h).shaders.void k hk hv

theorem fragmentKey_of_within (h : l.Reachable) {name : String} {k : FragmentKey} (hk : l.fragments.find? name = some k)
    (hl : LeadsWithin (fun l => (l.fragments.find? name).isSome) l l') : l'.fragments.find? name = some k := by
  have hrun : l'.Reachable ∧ l'.fragments.find? name = some k := by
    induction hl with
    | refl => exact ⟨h, hk⟩
    | tail _ hstep ih =>
      obtain ⟨hlead, hsome⟩ := hstep
      refine ⟨ih.1.leads hlead, ?_⟩
      obtain ⟨σ, _, c, op, rfl⟩ := hlead
      rcases fragmentKey_step (x := ⟨_, c⟩) ih.1.regular op ih.2 with hafter | hafter
      · exact hafter
      · rw [hafter] at hsome
        cases hsome
  exact hrun.2

theorem shaderKey_of_within (h : l.Reachable) {name : String} {k : ShaderKey} (hk : l.findShader? name = some k)
    (hl : LeadsWithin (fun l => (l.findShader? name).isSome) l l') : l'.findShader? name = some k := by
  have hrun : l'.Reachable ∧ l'.findShader? name = some k := by
    induction hl with
    | refl => exact ⟨h, hk⟩
    | tail _ hstep ih =>
      obtain ⟨hlead, hsome⟩ := hstep
      refine ⟨ih.1.leads hlead, ?_⟩
      obtain ⟨σ, _, c, op, rfl⟩ := hlead
      rcases Session.shaderKey_step (x := ⟨_, c⟩) ih.1.regular ih.1.named op ih.2 with hafter | hafter
      · exact hafter
      · rw [hafter] at hsome
        cases hsome
  exact hrun.2

end Library

/-- In every reachable library the names of fragments and shaders stand for exactly those that have them. A name keeps
its key as long as it is registered. A key whose fragment or shader was removed, or whose fragment was added by loading
that was rolled back, is never used again. A shader that is not loaded has no contexts, no sections, nothing assembled,
and is not ready. -/
theorem registry_exact {l : Library} (h : l.Reachable) :
    (∀ name k, l.fragments.find? name = some k ↔ ∃ f, l.fragments.get? k = some f ∧ f.name = name) ∧
    (∀ name k, l.findShader? name = some k ↔ ∃ s, l.shader? k = some s ∧ s.name = name) ∧
    (∀ k s, l.shader? k = some s → s.isLoaded = false →
      s.contexts = [] ∧ s.sections = [] ∧ s.memo = [] ∧ s.ready = false) ∧
    (∀ name k, l.fragments.find? name = some k →
      ∀ l', Library.LeadsWithin (fun l => (l.fragments.find? name).isSome) l l' → l'.fragments.find? name = some k) ∧
    (∀ name k, l.findShader? name = some k →
      ∀ l', Library.LeadsWithin (fun l => (l.findShader? name).isSome) l l' → l'.findShader? name = some k) ∧
    (∀ l', ReflTransGen Library.Leads l l' →
      (∀ k f, l.fragments.get? k = some f → l'.fragments.get? k = none → l'.FragmentGone k) ∧
        ∀ k s, l.shader? k = some s → l'.shader? k = none → l'.ShaderGone k) ∧
    ∀ s, l.Loading s → ∀ k ∈ s.added,
      ∀ l' : Library, l'.fragments = (s.rollback l).fragments → l'.FragmentGone k := by
  refine ⟨h.regular.fragments.named, h.named, fun k s hs hu => ?_, fun name k hk l' hl => ?_, fun name k hk l' hl => ?_,
    fun l' hl => ⟨fun k f hf hv => ?_, fun k s hs hv => ?_⟩, fun s hs k hk l' hl => ?_⟩
  · have hbare := h.bare hs hu
    exact ⟨hbare.contexts, hbare.sections, hbare.memo, hbare.ready⟩
  · exact Library.fragmentKey_of_within h hk hl
  · exact Library.shaderKey_of_within h hk hl
  · have hissued := (Library.later_of_leads hl).fragments.issued k (SlotMap.issued_of_get? hf)
    exact Library.fragmentGone_of_issued hissued hv
  · have hissued := (Library.later_of_leads hl).shaders.issued k (SlotMap.issued_of_get? hs)
    exact Library.shaderGone_of_issued hissued hv
  · have hvoid := Library.void_rollback hs.later hk
    rw [← hl] at hvoid
    exact Library.fragmentGone_of_issued hvoid.1 hvoid.2

/-- The shader and the fragment are removed and added again. The new text of the shader lacks its sections. -/
def renewOps : List Operation :=
  [.removeShader ⟨1, 1⟩, .removeFragment ⟨1, 1⟩, .addFragment "skin" (skinSource "mat4"),
    .loadShaderText "lit" (litText [])]

/-- Names keep their keys while they are registered, and get new ones after that. The keys before, and those that loading
gave out before it failed, are never used again. -/
theorem registry_exact_brokenLibrary :
    let x : Session DryRun := ⟨brokenLibrary, .empty⟩
    let y := x.run renewOps
    (∃ f, brokenLibrary.fragments.get? ⟨1, 1⟩ = some f ∧ f.name = "skin") ∧
    (∃ s, brokenLibrary.shader? ⟨1, 1⟩ = some s ∧ s.name = "lit") ∧
    (x.step (.removeShader ⟨1, 1⟩)).library.fragments.find? "skin" = some ⟨1, 1⟩ ∧
    (x.step (.removeFragment ⟨1, 1⟩)).library.findShader? "lit" = some ⟨1, 1⟩ ∧
    y.library.fragments.find? "skin" = some ⟨1, 3⟩ ∧ y.library.FragmentGone ⟨1, 1⟩ ∧
    y.library.findShader? "lit" = some ⟨1, 3⟩ ∧ y.library.ShaderGone ⟨1, 1⟩ ∧
    (∃ s, y.library.shader? ⟨1, 3⟩ = some s ∧ s.isLoaded = false ∧ s.contexts = [] ∧ s.sections = [] ∧ s.memo = [] ∧
      s.ready = false) ∧
    ∃ s, brokenLibrary.Loading s ∧ s.added = [⟨3, 1⟩, ⟨2, 1⟩] ∧
      ∀ k ∈ s.added, (s.rollback brokenLibrary).FragmentGone k := by
  intro x y
  have hreach : brokenLibrary.Reachable :=
    .step (.run (.new default default) litOps) litRun.compiler (.setLoader brokenLibrary.loader)
  have hafter : y.library.Reachable := .run (x := x) hreach renewOps
  have hbefore : brokenLibrary.fragments.find? "skin" = some ⟨1, 1⟩ ∧ brokenLibrary.findShader? "lit" = some ⟨1, 1⟩ ∧
      ((x.step (.removeShader ⟨1, 1⟩)).library.fragments.find? "skin").isSome ∧
        ((x.step (.removeFragment ⟨1, 1⟩)).library.findShader? "lit").isSome := by
    decide +kernel
  have hnew : y.library.fragments.find? "skin" = some ⟨1, 3⟩ ∧ y.library.findShader? "lit" = some ⟨1, 3⟩ ∧
      y.library.fragments.get? ⟨1, 1⟩ = none ∧ (y.library.shader? ⟨1, 1⟩).isNone ∧
        (y.library.shader? ⟨1, 3⟩).any fun s => !s.isLoaded := by
    decide +kernel
  have hadded : (brokenLibrary.resolve "lit" (.ofLibrary brokenLibrary) [⟨"outer", 0, 1⟩]).2.added =
      [⟨3, 1⟩, ⟨2, 1⟩] := by
    decide +kernel
  obtain ⟨hskin, hlit, hskin', hlit'⟩ := hbefore
  obtain ⟨hskinNew, hlitNew, hvoid, hvoid', hunloaded⟩ := hnew
  obtain ⟨s, hs, hu⟩ := (Option.any_eq_true _ _).1 hunloaded
  have hu : s.isLoaded = false := by simpa using hu
  obtain ⟨hfragments, hshaders, -, hkeeps, hkeeps', hgone, hrolled⟩ := registry_exact hreach
  obtain ⟨-, -, hbare, -⟩ := registry_exact hafter
  obtain ⟨f, hf, hfname⟩ := (hfragments "skin" ⟨1, 1⟩).1 hskin
  obtain ⟨t, ht, htname⟩ := (hshaders "lit" ⟨1, 1⟩).1 hlit
  obtain ⟨hgoneFragment, hgoneShader⟩ := hgone y.library (Library.leads_run x renewOps)
  refine ⟨⟨f, hf, hfname⟩, ⟨t, ht, htname⟩, ?_, ?_, hskinNew, hgoneFragment _ f hf hvoid, hlitNew,
    hgoneShader _ t ht (Option.isNone_iff_eq_none.1 hvoid'), ⟨s, hs, hu, hbare _ s hs hu⟩, _, .source "lit" _, hadded,
    fun k hk => hrolled _ (.source "lit" _) k hk _ rfl⟩
  · exact hkeeps "skin" _ hskin _ (.single ⟨Library.leads_step x _, hskin'⟩)
  · exact hkeeps' "lit" _ hlit _ (.single ⟨Library.leads_step x _, hlit'⟩)

end ShaderVariant
