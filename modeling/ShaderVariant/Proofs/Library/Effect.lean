import ShaderVariant.Proofs.Library.Orderly
import ShaderVariant.Proofs.Library.Outcomes

/-!
# Effects of operations

* `Session.Move` : all that an operation does: quiet steps; or loading, one turn, and quiet steps behind it. The turn
  leaves every loaded shader its content and combinations, but for the one that the operation is about
  (`Session.Sparing`);
* `move_step` : every operation on a regular library is such a move, whichever compiler is used. So it is an effect
  (`effect_step`), and what its steps keep, every run keeps (`orderly_run`).
-/

namespace ShaderVariant

open FragmentStore (WellFormed Keeps)
open DryRunBacked (dryRun passes)
open Relation (ReflTransGen)

namespace Session

variable {σ : Type} [ProgramCompiler σ]

/-! ## Moves -/

/-- A turn that at most makes stale what a loaded shader has, unless the key of the shader is `k?`: that one has no
combinations afterwards. -/
structure Sparing (k? : Option ShaderKey) (u v : Session σ) : Prop where
  turn : Turn u v
  keeps : ∀ k s, k? ≠ some k → u.library.shader? k = some s → s.isLoaded = true →
    v.library.shader? k = some s ∨ v.library.shader? k = some s.invalidate
  clears : ∀ k s, k? = some k → v.library.shader? k = some s → ∀ ctx ∈ s.contexts, ctx.combinations = []

/-- What an operation about the shader with the key `k?`, if any, does to a session. -/
inductive Move (k? : Option ShaderKey) : Session σ → Session σ → Prop
  | quiet {x y : Session σ} (hk : ∀ k, k? = some k → x.library.shader? k = none) (h : ReflTransGen Quiet x y) :
      Move k? x y
  | turn {l l' : Library} {c : σ} {v y : Session σ} (hload : l.Loaded l') (h : Sparing k? ⟨l', c⟩ v)
      (hq : ReflTransGen Quiet v y) : Move k? ⟨l, c⟩ y

theorem Move.ofQuiet {x y : Session σ} (h : ReflTransGen Quiet x y) : Move none x y := .quiet (fun _ hk => nomatch hk) h

theorem quiet_load {l l' : Library} (h : l.Loaded l') (c : σ) : ReflTransGen Quiet (⟨l, c⟩ : Session σ) ⟨l', c⟩ :=
  .single (.load c h)

theorem Move.effect {k? : Option ShaderKey} {x y : Session σ} (h : Move k? x y) : Effect x y := by
  cases h with
  | quiet hk h => exact ⟨y, y, h, Or.inl rfl, .refl⟩
  | turn hload h hq => exact ⟨_, _, quiet_load hload _, Or.inr h.turn, hq⟩

/-- A turn that makes some shaders stale spares all. -/
theorem sparing_invalidated {l l' : Library} {c : σ} (ht : Turn (⟨l, c⟩ : Session σ) ⟨l', c⟩)
    (uses : ShaderKey → Shader → Bool)
    (h : ∀ k, l'.shader? k = (l.shader? k).map fun s => if uses k s then s.invalidate else s) :
    Sparing none (⟨l, c⟩ : Session σ) ⟨l', c⟩ := by
  refine ⟨ht, fun k s _ hs _ => ?_, fun k _ hk => nomatch hk⟩
  show l'.shader? k = some s ∨ l'.shader? k = some s.invalidate
  have hs : l.shader? k = some s := hs
  rw [h k, hs, Option.map_some]
  split
  · exact Or.inr rfl
  · exact Or.inl rfl

/-- A turn that puts a shader in the place of one that is not loaded, or of the one that the operation is about. -/
theorem sparing_refill {l : Library} {c : σ} {k : ShaderKey} {s s' : Shader} (hs : l.shader? k = some s)
    (h : Refills l s s') {k? : Option ShaderKey} (hk : k? = some k ∨ k? = none ∧ s.isLoaded = false) :
    Sparing k? (⟨l, c⟩ : Session σ) ⟨l.setShader k s', Shader.releaseAll s.programs c⟩ := by
  refine ⟨.refill l c hs h, fun x t hx ht hload => Or.inl ?_, fun x t hx ht => ?_⟩
  · have hne : k ≠ x := by
      rintro rfl
      cases hs.symm.trans ht
      rcases hk with hk | ⟨-, hu⟩
      · exact hx hk
      · rw [hload] at hu
        cases hu
    rw [Library.shader?_setShader, if_neg hne]
    exact ht
  · rcases hk with rfl | ⟨rfl, -⟩
    · cases hx
      rw [Library.shader?_setShader_self hs] at ht
      cases ht
      exact fun ctx hctx => (h.blank ctx hctx).2
    · cases hx

theorem quiet_work {l : Library} {k : ShaderKey} {s : Shader} {c : σ} (hs : l.shader? k = some s) {p : Shader × σ}
    (h : ReflTransGen (Shader.Work l.workspace) (s, c) p) :
    ReflTransGen Quiet (⟨l, c⟩ : Session σ) ⟨l.setShader k p.1, p.2⟩ := by
  induction h with
  | refl => rw [Library.setShader_eq_self hs]
  | @tail p q _ hstep ih =>
    have hp := Library.shader?_setShader_self hs p.1
    obtain ⟨s', c'⟩ := q
    have := Quiet.work (l.setShader k p.1) hp hstep
    rw [Library.setShader_setShader] at this
    exact ih.tail this

/-! ## Fragments -/

theorem move_edits {l l' : Library} {k : FragmentKey} {n : Nat} (h : l.Edits l' k n) (c : σ) :
    Move none (⟨l, c⟩ : Session σ) ⟨l', c⟩ := by
  obtain ⟨l₁, f, fragments, hload, hf, hr, -, rfl⟩ := h
  exact .turn hload (sparing_invalidated (.edit l₁ c hr hf) _ fun x => shader?_fragmentChanged _ k x) .refl

theorem move_replaced {l : Library} (hl : WellFormed l.fragments) {k : FragmentKey}
    {p : Except ShaderError Nat × Library} (h : l.Replaced k p) (c : σ) : Move none (⟨l, c⟩ : Session σ) ⟨p.2, c⟩ := by
  cases h with
  | missing => exact .ofQuiet .refl
  | failed h => exact .ofQuiet (quiet_load (h.loaded hl) c)
  | edited h => exact move_edits h c

theorem move_added {l : Library} (hl : WellFormed l.fragments) {name : String}
    {p : Except ShaderError FragmentKey × Library} (h : l.Added name p) (c : σ) :
    Move none (⟨l, c⟩ : Session σ) ⟨p.2, c⟩ := by
  cases h with
  | failed h => exact .ofQuiet (quiet_load (h.loaded hl) c)
  | edited hk h => exact move_edits h c
  | new hn h => exact .ofQuiet (quiet_load h c)

theorem quiet_removeFragment (l : Library) (c : σ) (k : FragmentKey) :
    ReflTransGen Quiet (⟨l, c⟩ : Session σ) ⟨(l.removeFragment k).2, c⟩ := by
  unfold Library.removeFragment
  split
  · exact .refl
  · split
    · exact .refl
    · next h => exact .single (.drop l c (by simpa using h))

/-! ## Shaders -/

theorem releaseAll_of_unloaded {l : Library} {c : σ} {k : ShaderKey} {s : Shader} (hl : l.Regular)
    (hs : l.shader? k = some s) (hu : s.isLoaded = false) : Shader.releaseAll s.programs c = c := by
  have : s.programs = [] := by
    unfold Shader.programs
    rw [(hl.shaders k s hs).unloaded hu]
    rfl
  rw [this]
  rfl

theorem shader?_loaded {l l' : Library} (h : l.Loaded l') (k : ShaderKey) : l'.shader? k = l.shader? k := by
  unfold Library.shader?
  rw [h.shaders]

theorem move_refill_unloaded {l l' : Library} {c : σ} {k : ShaderKey} {s s' : Shader} (hl : l.Regular)
    (hs : l.shader? k = some s) (hu : s.isLoaded = false) (hload : l.Loaded l') (h : Refills l' s s') :
    Move none (⟨l, c⟩ : Session σ) ⟨l'.setShader k s', c⟩ := by
  have hturn := sparing_refill (c := c) ((shader?_loaded hload k).trans hs) h (Or.inr ⟨rfl, hu⟩)
  rw [releaseAll_of_unloaded hl hs hu] at hturn
  exact .turn hload hturn .refl

/-- A turn that registers a shader spares those that are there. -/
theorem sparing_register {l : Library} {c : σ} {s : Shader} {name diagnostic : String}
    (hn : l.registered? name = none) (h : s = .failed name diagnostic ∨ Refills l (.failed name diagnostic) s) :
    Sparing none (⟨l, c⟩ : Session σ) ⟨(l.registerShader s).2, c⟩ := by
  refine ⟨.register l c hn h, fun k t _ ht _ => Or.inl ?_, fun k _ hk => nomatch hk⟩
  have hget := SlotMap.get?_insert l.shaders s k
  have hne : (l.shaders.insert s).1 ≠ k := by
    rintro rfl
    cases (SlotMap.get?_insert_fst l.shaders s).symm.trans ht
  rw [if_neg hne] at hget
  exact hget.trans ht

theorem registered?_loaded {l l' : Library} (h : l.Loaded l') (name : String) :
    l'.registered? name = l.registered? name := by
  unfold Library.registered? Library.findShader? Library.shader?
  rw [h.names, h.shaders]

theorem registered?_eq {l : Library} {name : String} {k : ShaderKey} {s : Shader}
    (h : l.registered? name = some (k, s)) : l.shader? k = some s := by
  unfold Library.registered? at h
  obtain ⟨k', -, hk⟩ := Option.bind_eq_some_iff.1 h
  obtain ⟨s', hs, he⟩ := Option.map_eq_some_iff.1 hk
  cases he
  exact hs

theorem move_opened {l : Library} (hl : l.Regular) {name : String} {p : Except ShaderError ShaderKey × Library}
    (h : l.Opened name p) (c : σ) : Move none (⟨l, c⟩ : Session σ) ⟨p.2, c⟩ := by
  cases h with
  | kept => exact .ofQuiet .refl
  | @newFailed e l' hn h =>
    have hload := h.loaded hl.fragments
    exact .turn hload
      (sparing_register (s := .failed name e.message) ((registered?_loaded hload name).trans hn) (Or.inl rfl)) .refl
  | oldFailed hr hu h => exact move_refill_unloaded hl (registered?_eq hr) hu (h.loaded hl.fragments) (.failed _)
  | @registered source sections l' hn h hq =>
    have hnew : Refills l' (.failed name "") _ := .applied source sections hq
    exact .turn h (sparing_register ((registered?_loaded h name).trans hn) (Or.inr hnew)) .refl
  | @refilled k s source sections l' hr hu h hq =>
    exact move_refill_unloaded hl (registered?_eq hr) hu h (.applied source sections hq)

/-! ## Building -/

/-- An operation about a shader that is not there does nothing. -/
theorem Move.missing {x : Session σ} {k : ShaderKey} (h : x.library.shader? k = none) : Move (some k) x x :=
  .quiet (fun _ hk => Option.some.inj hk ▸ h) .refl

theorem move_removeShader {l : Library} (hl : l.Regular) (c : σ) (k : ShaderKey) :
    Move (some k) (⟨l, c⟩ : Session σ) (ofPair (l.removeShader k c).2) := by
  unfold Library.removeShader
  split
  · next hs => exact .missing hs
  · next s hs =>
    have hremove : ∀ x, ({ l with shaders := l.shaders.remove k, names := l.names.erase s.name } : Library).shader? x =
        if k = x then none else l.shader? x := SlotMap.get?_remove l.shaders k
    refine .turn (.refl hl.fragments) ⟨.discard l c hs, fun x t hx ht _ => Or.inl ?_, fun x t hx ht => ?_⟩ .refl
    · rw [hremove, if_neg fun he => hx (congrArg some he)]
      exact ht
    · rw [hremove, if_pos (Option.some.inj hx)] at ht
      cases ht

theorem move_releaseShader {l : Library} (hl : l.Regular) (c : σ) (k : ShaderKey) :
    Move (some k) (⟨l, c⟩ : Session σ) (ofPair (releaseShader l k c)) := by
  unfold releaseShader
  split
  · next hs => exact .missing hs
  · next hs => exact .turn (.refl hl.fragments) (sparing_refill hs .cleared (Or.inl rfl)) .refl

theorem quiet_retainedProgram (l : Library) (c : σ) (k : ShaderKey) (context : String) (m : Mask) :
    ReflTransGen Quiet (⟨l, c⟩ : Session σ) ⟨(l.retainedProgram k context m).2, c⟩ := by
  unfold Library.retainedProgram
  split
  · exact .refl
  · next s hs =>
    split
    · exact .refl
    · next i _ =>
      cases hk : s.combinationKey l.workspace i m with
      | mk key s' =>
        rcases Shader.combinationKey_cases hk with rfl | rfl
        · exact quiet_work hs .refl
        · exact quiet_work hs (.single (.link s c i))

/-- Another default value leaves what is declared of the uniform. -/
theorem signatures_set_withDefault? {us : List Uniform} {i component : Nat} {a : Binary32} {u : Uniform}
    (h : us[i]?.bind (·.withDefault? component a) = some u) :
    (us.set i u).map Uniform.signature = us.map Uniform.signature := by
  obtain ⟨v, hv, hu⟩ := Option.bind_eq_some_iff.1 h
  obtain ⟨hi, -⟩ := List.getElem?_eq_some_iff.1 hv
  unfold Uniform.withDefault? at hu
  split at hu
  · cases hu
    refine List.ext_getElem? fun j => ?_
    rw [List.getElem?_map, List.getElem?_map, List.getElem?_set]
    by_cases hj : i = j
    · subst hj
      rw [if_pos rfl, if_pos hi, hv]
      rfl
    · rw [if_neg hj]
  · cases hu

theorem quiet_setFloatParam (l : Library) (c : σ) (k : ShaderKey) (kind : Int) (i : Nat) (param : Int)
    (component : Nat) (a : Binary32) :
    ReflTransGen Quiet (⟨l, c⟩ : Session σ) ⟨setFloatParam l k kind i param component a, c⟩ := by
  unfold setFloatParam
  split
  · exact .refl
  · next s' h =>
    obtain ⟨s, hs, hset⟩ := Option.bind_eq_some_iff.1 h
    unfold Shader.setFloatParam? at hset
    split at hset
    · obtain ⟨u, hu, rfl⟩ := Option.map_eq_some_iff.1 hset
      exact quiet_work hs (.single (.adjust s c (signatures_set_withDefault? hu)))
    · cases hset

theorem move_reloaded {l : Library} (hl : l.Regular) {k : ShaderKey} {s : Shader} {c : σ} (hs : l.shader? k = some s)
    {p : Except ShaderError BuildReport × Library × σ} (h : l.Reloaded k s c p) :
    Move (some k) (⟨l, c⟩ : Session σ) (ofPair p.2) := by
  cases h with
  | @failed e l' h =>
    have hload := h.loaded hl.fragments
    have hs' := (shader?_loaded hload k).trans hs
    exact .turn hload (sparing_refill hs' (.failed e.message) (Or.inl rfl)) .refl
  | @applied source sections l' h hq =>
    have hs' := (shader?_loaded h k).trans hs
    exact .turn h (sparing_refill hs' (.applied source sections hq) (Or.inl rfl)) .refl
  | @compiled source sections l' report s' c' h hq hc =>
    have hs' := (shader?_loaded h k).trans hs
    have hfresh := Library.shader?_setShader_self hs' (s.apply source sections)
    have hremembers : (s.apply source sections).Remembers l'.workspace := Shader.remembers_of_memo_nil rfl
    have hwork := Shader.compileContexts_work hremembers (Shader.releaseAll s.programs c)
    rw [hc] at hwork
    have hquiet := quiet_work hfresh hwork
    rw [Library.setShader_setShader] at hquiet
    exact .turn h (sparing_refill hs' (.applied source sections hq) (Or.inl rfl)) hquiet

theorem move_reloadShader {l : Library} (hl : l.Regular) (c : σ) (k : ShaderKey) :
    Move (some k) (⟨l, c⟩ : Session σ) (ofPair (l.reloadShader k c).2) := by
  cases hs : l.shader? k with
  | none =>
    unfold Library.reloadShader
    simp only [hs]
    exact .missing hs
  | some s => exact move_reloaded hl hs (Library.reloaded_reloadShader hl.fragments hs c)

theorem move_reloadShaderText {l : Library} (hl : l.Regular) (c : σ) (k : ShaderKey) (t : Text) :
    Move (some k) (⟨l, c⟩ : Session σ) (ofPair (l.reloadShaderText k t c).2) := by
  cases hs : l.shader? k with
  | none =>
    unfold Library.reloadShaderText
    simp only [hs]
    exact .missing hs
  | some s => exact move_reloaded hl hs (Library.reloaded_reloadShaderText hl.fragments l.loader hs t c)

theorem quiet_preLoadMask (l : Library) (c : σ) (k : ShaderKey) (m : Mask) :
    ReflTransGen Quiet (⟨l, c⟩ : Session σ) ⟨(l.preLoadMask k m).2, c⟩ := by
  unfold Library.preLoadMask
  split
  · exact .refl
  · next s hs => exact quiet_work hs (.single (.ask s c m))

theorem quiet_compileContexts {l : Library} (hl : l.Regular) (c : σ) (k : ShaderKey) :
    ReflTransGen Quiet (⟨l, c⟩ : Session σ) (ofPair (l.compileContexts k c).2) := by
  unfold Library.compileContexts
  split
  · exact .refl
  · next s hs => exact quiet_work hs (Shader.compileContexts_work (hl.shaders k s hs).remembers c)

theorem quiet_compileEach (ks : List ShaderKey) {l : Library} (hl : l.Regular) (c : σ) :
    ReflTransGen Quiet (⟨l, c⟩ : Session σ) (ofPair (l.compileEach ks c).2) := by
  induction ks generalizing l c with
  | nil => exact .refl
  | cons k ks ih =>
    unfold Library.compileEach
    split
    · exact ih hl c
    · next s hs =>
      split
      · have hwork := quiet_work hs (Shader.compileContexts_work (hl.shaders k s hs).remembers c)
        exact hwork.trans (ih (regular_of_quiet hwork hl) _)
      · exact ih hl c

theorem quiet_getCombination {l : Library} (hl : l.Regular) (c : σ) (k : ShaderKey)
    (context : String) (m : Mask) :
    ReflTransGen Quiet (⟨l, c⟩ : Session σ) (ofPair (l.getCombination k context m c).2) := by
  unfold Library.getCombination
  split
  · exact .refl
  · next s hs => exact quiet_work hs (Shader.getCombination_work (hl.shaders k s hs).remembers context m c)

theorem quiet_program {l : Library} (hl : l.Regular) (c : σ) (k : ShaderKey) (context : String)
    (m : Mask) : ReflTransGen Quiet (⟨l, c⟩ : Session σ) (ofPair (l.program? k context m c).2) := by
  have hget := quiet_getCombination hl c k context m
  unfold Library.program?
  split
  · next h => rwa [h] at hget
  · next h =>
    rw [h] at hget
    exact hget.trans (quiet_retainedProgram _ _ k context m)

theorem quiet_assembleStageSources {l : Library} (hl : l.Regular) (c : σ) (k : ShaderKey)
    (context : String) (m : Mask) :
    ReflTransGen Quiet (⟨l, c⟩ : Session σ) ⟨(l.assembleStageSources k context m).2, c⟩ := by
  unfold Library.assembleStageSources
  split
  · exact .refl
  · next s hs =>
    split
    · exact .refl
    · exact quiet_work hs (Shader.assembleStageSources_work (hl.shaders k s hs).remembers _ m c)

/-! ## All operations -/

/-- What every operation does. -/
theorem move_step {x : Session σ} (hl : x.library.Regular) (op : Operation) : Move op.shaderKey? x (x.step op) := by
  obtain ⟨l, c⟩ := x
  have hl : l.Regular := hl
  cases op with
  | setLoader loader => exact .ofQuiet (quiet_load (.withLoader hl.fragments loader) c)
  | setSettings settings =>
    refine .turn (.refl hl.fragments) (sparing_invalidated (.settings l c settings) (fun _ _ => true)
      fun k => ?_) .refl
    exact SlotMap.get?_mapValues l.shaders _ k
  | addFragment name t => exact move_added hl.fragments (Library.added_addFragment hl.fragments name t) c
  | loadFragment name => exact .ofQuiet (quiet_load ((Library.attempt_loadFragment hl.fragments name).loaded hl.fragments) c)
  | updateFragment k t => exact move_replaced hl.fragments (Library.replaced_updateFragment hl.fragments k t) c
  | reloadFragment k => exact move_replaced hl.fragments (Library.replaced_reloadFragment hl.fragments k) c
  | removeFragment k => exact .ofQuiet (quiet_removeFragment l c k)
  | fragmentChanged k =>
    refine .turn (.refl hl.fragments) (sparing_invalidated (.notice l c k)
      (fun _ s => s.dependsOn l.fragments k) fun x => ?_) .refl
    exact shader?_fragmentChanged l k x
  | loadShader name => exact move_opened hl (Library.opened_loadShader hl.fragments name) c
  | loadShaderText name t => exact move_opened hl (Library.opened_loadShaderText hl.fragments name t) c
  | reloadShader k => exact move_reloadShader hl c k
  | reloadShaderText k t => exact move_reloadShaderText hl c k t
  | removeShader k => exact move_removeShader hl c k
  | invalidateShader k =>
    refine .turn (.refl hl.fragments) (sparing_invalidated (.invalidate l c k) (fun x _ => decide (x = k))
      fun x => ?_) .refl
    refine (SlotMap.get?_mapValues l.shaders _ x).trans ?_
    simp only [decide_eq_true_eq]
    rfl
  | releaseShader k => exact move_releaseShader hl c k
  | preLoadMask k m => exact .ofQuiet (quiet_preLoadMask l c k m)
  | compileContexts k => exact .ofQuiet (quiet_compileContexts hl c k)
  | compileAll => exact .ofQuiet (quiet_compileEach _ hl c)
  | getCombination k context m => exact .ofQuiet (quiet_getCombination hl c k context m)
  | program k context m => exact .ofQuiet (quiet_program hl c k context m)
  | assembleStageSources k context m => exact .ofQuiet (quiet_assembleStageSources hl c k context m)
  | setFloatParam k kind i param component a => exact .ofQuiet (quiet_setFloatParam l c k kind i param component a)

theorem effect_step {x : Session σ} (hl : x.library.Regular) (op : Operation) : Effect x (x.step op) :=
  (move_step hl op).effect

variable [DryRunBacked σ]

/-- An empty library is orderly with a compiler that has done nothing. -/
theorem orderly_start (loader : Loader) (settings : Settings) {c : σ} (hp : passes c) (hd : dryRun c = .empty)
    (hrel : DryRunBacked.released c = []) : (start loader settings c).Orderly := by
  refine ⟨⟨.empty, fun k s hs => by cases hs⟩, hp, ?_, fun _ => ?_, fun _ => ?_, fun _ p hm => ?_⟩
  · show (dryRun c).failures ≤ (dryRun c).compiles
    rw [hd]
    exact Nat.le_refl 0
  · show (dryRun c).Balanced []
    rw [hd]
    exact .empty
  · show (DryRunBacked.released c).Nodup
    rw [hrel]
    exact .nil
  · have hm' : p ∈ DryRunBacked.released c := hm
    rw [hrel] at hm'
    cases hm'

theorem orderly_run {x : Session σ} (hx : x.Orderly) (ops : List Operation) : (x.run ops).Orderly := by
  induction ops generalizing x with
  | nil => exact hx
  | cons op ops ih => exact ih ((effect_step hx.regular op).orderly hx)

end Session

end ShaderVariant
