import ShaderVariant.Proofs.Compiler.Ledger
import ShaderVariant.Proofs.Shader.Outcome
import ShaderVariant.Shader.Query

/-!
# What work on a shader does

* `Shader.Work` : all that one step of work on a shader does to it and to the compiler, whichever compiler it is. No
  step touches the content or the generation (`Work.frame`), the combinations that come are those that a build failed or
  installed (`Work.combination`), and a shader goes on remembering its text (`Work.remembers`);
* `build_work`, `ensure_work`, `compileContexts_work`, `getCombination_work`, `assembleStageSources_work` : every
  operation is a row of such steps;
* `BuildFails.outcome`, `outcome_of_compile_ok`, `build_error_iff` : with a compiler that a dry run stands behind, a
  build gives its outcome.
-/

namespace ShaderVariant

/-- What a text declares of a uniform, besides the default values. -/
def Uniform.signature (u : Uniform) : String × UniformKind := (u.name, u.kind)

theorem Context.combination?_put (c : Context) (key key' : Mask) (b : Combination) :
    (c.put key b).combination? key' = if key = key' then some b else c.combination? key' :=
  Assoc.get?_set c.combinations key key' b

namespace Shader

open Relation (ReflTransGen)
open DryRunBacked (dryRun passes)

/-! ## Contexts of a shader -/

theorem getElem?_modifyContext (s : Shader) (i j : Nat) (f : Context → Context) :
    (s.modifyContext i f).contexts[j]? = if i = j then s.contexts[j]?.map f else s.contexts[j]? := by
  show (s.contexts.modify i f)[j]? = _
  rw [List.getElem?_modify]
  by_cases h : i = j
  · rw [if_pos h]
    simp [h]
  · rw [if_neg h]
    simp [h]

theorem modifyContext_of_none {s : Shader} {i : Nat} (h : s.contexts[i]? = none) (f : Context → Context) :
    s.modifyContext i f = s := by
  unfold modifyContext
  rw [List.modify_eq_self (List.getElem?_eq_none_iff.1 h)]

/-- Changing a context changes one place. -/
theorem exists_split_modifyContext {s : Shader} {i : Nat} {ctx : Context} (h : s.contexts[i]? = some ctx) :
    ∃ xs ys, s.contexts = xs ++ ctx :: ys ∧ ∀ f, (s.modifyContext i f).contexts = xs ++ f ctx :: ys := by
  obtain ⟨hi, rfl⟩ := List.getElem?_eq_some_iff.1 h
  refine ⟨s.contexts.take i, s.contexts.drop (i + 1), ?_, fun f => ?_⟩
  · rw [← List.drop_eq_getElem_cons hi, List.take_append_drop]
  · exact List.modify_eq_take_cons_drop hi

theorem mem_modifyContext {s : Shader} {i : Nat} {f : Context → Context} {c : Context}
    (h : c ∈ (s.modifyContext i f).contexts) : c ∈ s.contexts ∨ ∃ a, s.contexts[i]? = some a ∧ c = f a := by
  cases hi : s.contexts[i]? with
  | none =>
    rw [modifyContext_of_none hi] at h
    exact Or.inl h
  | some a =>
    obtain ⟨xs, ys, hs, hf⟩ := exists_split_modifyContext hi
    rw [hf] at h
    rw [hs]
    rcases List.mem_append.1 h with h | h
    · exact Or.inl (List.mem_append_left _ h)
    · rcases List.mem_cons.1 h with rfl | h
      · exact Or.inr ⟨a, rfl, rfl⟩
      · exact Or.inl (List.mem_append_right _ (List.mem_cons_of_mem _ h))

theorem decls_modifyContext {f : Context → Context} (hf : ∀ c, (f c).decl = c.decl) (s : Shader) (i : Nat) :
    (s.modifyContext i f).contexts.map Context.decl = s.contexts.map Context.decl := by
  cases hi : s.contexts[i]? with
  | none => rw [modifyContext_of_none hi]
  | some a =>
    obtain ⟨xs, ys, hs, hm⟩ := exists_split_modifyContext hi
    rw [hm, hs]
    simp [hf]

/-! ## Steps -/

variable {σ : Type} [ProgramCompiler σ]

/-- Why the build of a key fails, and the compiler after it: there is no plan, or the compiler refuses it. -/
inductive BuildFails (w : Workspace) (s : Shader) (d : ContextDecl) (key : Mask) (c : σ) : ShaderError → σ → Prop
  | unplanned {e : ShaderError} (h : s.plan w d key = .error e) : BuildFails w s d key c e c
  | refused {sources : List StageSource} {f : CompileFailure} {c' : σ} (h : s.plan w d key = .ok sources)
      (hc : ProgramCompiler.compile (s.request d key sources) c = (.error f, c')) :
      BuildFails w s d key c (.compile s.name d.name key f) c'

/-- A step of work on a shader. A build, which is tried only where there is no combination of the present generation,
keeps a failure or installs a program and releases the one that it replaces. -/
inductive Work (w : Workspace) : Shader × σ → Shader × σ → Prop
  | link (s : Shader) (c : σ) (i : Nat) : Work w (s, c) (s.link w.fragments i, c)
  | assemble (s : Shader) (c : σ) {s' : Shader} (h : Assembles w s s') : Work w (s, c) (s', c)
  | fail (s : Shader) (c : σ) {c' : σ} {i : Nat} {ctx : Context} (key : Mask) (e : ShaderError)
      (hload : s.isLoaded = true) (hctx : s.contexts[i]? = some ctx)
      (hstale : ∀ b, ctx.combination? key = some b → b.isStale s.generation = true)
      (hfails : BuildFails w s ctx.decl key c e c') :
      Work w (s, c) (s.recordFailure i key e, c')
  | install (s : Shader) (c : σ) {c' : σ} {i : Nat} {ctx : Context} (key : Mask) (p : Program)
      (sources : List StageSource) (hload : s.isLoaded = true) (hctx : s.contexts[i]? = some ctx)
      (hstale : ∀ b, ctx.combination? key = some b → b.isStale s.generation = true)
      (hplan : s.plan w ctx.decl key = .ok sources)
      (hc : ProgramCompiler.compile (s.request ctx.decl key sources) c = (.ok p, c')) :
      Work w (s, c)
        (s.modifyContext i
          (·.put key ((ctx.entry key).install p s.generation (digest sources) (s.resolveSlots c' p))),
          releaseReplaced (ctx.entry key).program c')
  | cover (s : Shader) (c : σ) (i : Nat) : Work w (s, c) (s.modifyContext i fun ctx => { ctx with compiled := true }, c)
  | ready (s : Shader) (c : σ) (hload : s.isLoaded = true) : Work w (s, c) ({ s with ready := true }, c)
  | ask (s : Shader) (c : σ) (m : Mask) : Work w (s, c) (s.preLoadMask m, c)
  | adjust (s : Shader) (c : σ) {uniforms : List Uniform}
      (hsame : uniforms.map Uniform.signature = s.uniforms.map Uniform.signature) : Work w (s, c) ({ s with uniforms }, c)

/-- What no work changes. -/
structure Frame (s s' : Shader) : Prop where
  name : s'.name = s.name
  diagnostic : s'.diagnostic = s.diagnostic
  vocabulary : s'.vocabulary = s.vocabulary
  sections : s'.sections = s.sections
  samplers : s'.samplers = s.samplers
  buffers : s'.buffers = s.buffers
  generation : s'.generation = s.generation
  decls : s'.contexts.map Context.decl = s.contexts.map Context.decl

namespace Frame

variable {s s' s'' : Shader}

theorem refl (s : Shader) : Frame s s := ⟨rfl, rfl, rfl, rfl, rfl, rfl, rfl, rfl⟩

theorem trans (h : Frame s s') (h' : Frame s' s'') : Frame s s'' :=
  ⟨h'.name.trans h.name, h'.diagnostic.trans h.diagnostic, h'.vocabulary.trans h.vocabulary,
    h'.sections.trans h.sections, h'.samplers.trans h.samplers, h'.buffers.trans h.buffers,
    h'.generation.trans h.generation, h'.decls.trans h.decls⟩

theorem modifyContext {f : Context → Context} (hf : ∀ c, (f c).decl = c.decl) (s : Shader) (i : Nat) :
    Frame s (s.modifyContext i f) :=
  ⟨rfl, rfl, rfl, rfl, rfl, rfl, rfl, decls_modifyContext hf s i⟩

theorem isLoaded (h : Frame s s') : s'.isLoaded = s.isLoaded := congrArg Option.isNone h.diagnostic

theorem length_contexts (h : Frame s s') : s'.contexts.length = s.contexts.length := by
  simpa only [List.length_map] using congrArg List.length h.decls

theorem sameText (h : Frame s s') (w : Workspace) : SameText w s w s' :=
  sameText_of_eq w h.name h.vocabulary h.sections

theorem usedFlags (h : Frame s s') (fragments : FragmentStore) (d : ContextDecl) :
    s'.usedFlags fragments d = s.usedFlags fragments d := by
  unfold Shader.usedFlags
  rw [h.sections, h.vocabulary]

end Frame

theorem decl_linked (s : Shader) (fragments : FragmentStore) (c : Context) : (s.linked fragments c).decl = c.decl := by
  unfold linked
  split <;> rfl

theorem combinations_linked (s : Shader) (fragments : FragmentStore) (c : Context) :
    (s.linked fragments c).combinations = c.combinations := by
  unfold linked
  split <;> rfl

theorem Work.frame {w : Workspace} {x y : Shader × σ} (h : Work w x y) : Frame x.1 y.1 := by
  cases h with
  | link s c i => exact .modifyContext (decl_linked s w.fragments) s i
  | assemble s c h =>
    obtain ⟨i, t, -, rfl⟩ := h
    exact ⟨rfl, rfl, rfl, rfl, rfl, rfl, rfl, rfl⟩
  | fail s c => exact .modifyContext (by intro; rfl) s _
  | install s c => exact .modifyContext (by intro; rfl) s _
  | cover s c i => exact .modifyContext (by intro; rfl) s i
  | ready s c => exact ⟨rfl, rfl, rfl, rfl, rfl, rfl, rfl, rfl⟩
  | ask s c m =>
    show Frame s (s.preLoadMask m)
    unfold preLoadMask
    split
    · exact .refl s
    · exact ⟨rfl, rfl, rfl, rfl, rfl, rfl, rfl, rfl⟩
  | adjust s c => exact ⟨rfl, rfl, rfl, rfl, rfl, rfl, rfl, rfl⟩

theorem Work.frame_of_steps {w : Workspace} {x y : Shader × σ} (h : ReflTransGen (Work w) x y) : Frame x.1 y.1 := by
  induction h with
  | refl => exact .refl _
  | tail _ hstep ih => exact ih.trans hstep.frame

theorem Work.signatures {w : Workspace} {x y : Shader × σ} (h : Work w x y) :
    y.1.uniforms.map Uniform.signature = x.1.uniforms.map Uniform.signature := by
  cases h with
  | assemble s c h =>
    obtain ⟨i, t, -, rfl⟩ := h
    rfl
  | ask s c m =>
    show (s.preLoadMask m).uniforms.map Uniform.signature = _
    unfold preLoadMask
    split <;> rfl
  | adjust s c hsame => exact hsame
  | _ => rfl

theorem Work.uniformNames {w : Workspace} {x y : Shader × σ} (h : Work w x y) :
    y.1.uniforms.map Uniform.name = x.1.uniforms.map Uniform.name := by
  have hnames := congrArg (List.map Prod.fst) h.signatures
  rw [List.map_map, List.map_map] at hnames
  exact hnames

/-- Every combination after a step was there before, or is an entry for which a build has now failed, or has installed
a program. -/
theorem Work.combination {w : Workspace} {x y : Shader × σ} (h : Work w x y) {ctx : Context} (hm : ctx ∈ y.1.contexts)
    {key : Mask} {b : Combination} (hb : ctx.combination? key = some b) :
    (∃ old ∈ x.1.contexts, old.combination? key = some b) ∨
      (∃ old ∈ x.1.contexts, ∃ e c', b = (old.entry key).fail e x.1.generation ∧
        BuildFails w x.1 old.decl key x.2 e c') ∨
      ∃ i old p sources c', x.1.contexts[i]? = some old ∧ x.1.plan w old.decl key = .ok sources ∧
        ProgramCompiler.compile (x.1.request old.decl key sources) x.2 = (.ok p, c') ∧
        b = (old.entry key).install p x.1.generation (digest sources) (x.1.resolveSlots c' p) ∧
        y = (x.1.modifyContext i (·.put key b), releaseReplaced (old.entry key).program c') := by
  cases h with
  | link s c i =>
    rcases mem_modifyContext hm with hm | ⟨a, ha, rfl⟩
    · exact Or.inl ⟨ctx, hm, hb⟩
    · refine Or.inl ⟨a, List.mem_of_getElem? ha, ?_⟩
      rwa [Context.combination?, combinations_linked] at hb
  | assemble s c h =>
    obtain ⟨i, t, -, rfl⟩ := h
    exact Or.inl ⟨ctx, hm, hb⟩
  | fail s c key' e hload hctx hstale hfails =>
    rcases mem_modifyContext hm with hm | ⟨a, ha, rfl⟩
    · exact Or.inl ⟨ctx, hm, hb⟩
    · cases hctx.symm.trans ha
      have hold := List.mem_of_getElem? hctx
      rw [Context.combination?_put] at hb
      split at hb
      · next hk =>
        subst hk
        cases hb
        exact Or.inr (Or.inl ⟨_, hold, e, _, rfl, hfails⟩)
      · exact Or.inl ⟨_, hold, hb⟩
  | install s c key' p sources hload hctx hstale hplan hc =>
    rcases mem_modifyContext hm with hm | ⟨a, ha, rfl⟩
    · exact Or.inl ⟨ctx, hm, hb⟩
    · rw [Context.combination?_put] at hb
      split at hb
      · next hk =>
        subst hk
        cases hb
        exact Or.inr (Or.inr ⟨_, _, p, sources, _, hctx, hplan, hc, rfl, rfl⟩)
      · exact Or.inl ⟨a, List.mem_of_getElem? ha, hb⟩
  | cover s c i =>
    rcases mem_modifyContext hm with hm | ⟨a, ha, rfl⟩
    · exact Or.inl ⟨ctx, hm, hb⟩
    · exact Or.inl ⟨a, List.mem_of_getElem? ha, hb⟩
  | ready s c => exact Or.inl ⟨ctx, hm, hb⟩
  | ask s c m =>
    have hcontexts : (s.preLoadMask m).contexts = s.contexts := by
      unfold preLoadMask
      split <;> rfl
    exact Or.inl ⟨ctx, hcontexts ▸ hm, hb⟩
  | adjust s c => exact Or.inl ⟨ctx, hm, hb⟩

/-- Every combination after a step was there before, has succeeded now, or keeps why its build has failed now. -/
theorem Work.lastError {w : Workspace} {x y : Shader × σ} (h : Work w x y) {ctx : Context} (hm : ctx ∈ y.1.contexts)
    {key : Mask} {b : Combination} (hb : ctx.combination? key = some b) :
    (∃ old ∈ x.1.contexts, old.combination? key = some b) ∨ b.lastError = none ∨
      ∃ old ∈ x.1.contexts, ∃ e c', b.lastError = some e ∧ BuildFails w x.1 old.decl key x.2 e c' := by
  rcases h.combination hm hb with hold | ⟨old, hold, e, c', rfl, hfails⟩ | ⟨i, old, p, sources, c', -, -, -, rfl, -⟩
  · exact Or.inl hold
  · exact Or.inr (Or.inr ⟨old, hold, e, c', rfl, hfails⟩)
  · exact Or.inr (Or.inl rfl)

/-! ## What is kept stays right -/

theorem remembers_of_frame {w : Workspace} {s s' : Shader} (h : s.Remembers w) (hf : Frame s s')
    (hm : s'.memo = s.memo) : s'.Remembers w := by
  intro i t ht
  rw [(hf.sameText w).sections]
  exact h i t (hm ▸ ht)

theorem Work.remembers {w : Workspace} {x y : Shader × σ} (h : Work w x y) (hr : x.1.Remembers w) :
    y.1.Remembers w := by
  have hframe := h.frame
  cases h with
  | assemble s c h =>
    obtain ⟨i, t, ht, rfl⟩ := h
    exact hr.remember ht
  | ask s c m =>
    refine remembers_of_frame hr hframe ?_
    show (s.preLoadMask m).memo = s.memo
    unfold preLoadMask
    split <;> rfl
  | _ => exact remembers_of_frame hr hframe rfl

theorem Work.remembers_of_steps {w : Workspace} {x y : Shader × σ} (h : ReflTransGen (Work w) x y)
    (hr : x.1.Remembers w) : y.1.Remembers w := by
  induction h with
  | refl => exact hr
  | tail _ hstep ih => exact hstep.remembers ih

/-! ## Operations are rows of steps -/

theorem work_of_assembles {w : Workspace} {s s' : Shader} (h : ReflTransGen (Assembles w) s s') (c : σ) :
    ReflTransGen (Work w) (s, c) (s', c) :=
  h.lift (fun s => (s, c)) fun s _ hs => Work.assemble s c hs

theorem Assembles.contexts {w : Workspace} {s s' : Shader} (h : ReflTransGen (Assembles w) s s') :
    s'.contexts = s.contexts := by
  induction h with
  | refl => rfl
  | tail _ hstep ih =>
    obtain ⟨i, t, -, rfl⟩ := hstep
    exact ih

/-- The preparation of a build gives its plan. -/
theorem prepare_spec {w : Workspace} {s s' : Shader} (hr : s.Remembers w) {i : Nat} {d : ContextDecl} {key : Mask}
    {r : Except ShaderError (List StageSource)} (he : s.prepare w i d key = (r, s')) (c : σ) :
    ReflTransGen (Work w) (s, c) (s', c) ∧ (s' = s ∨ s'.contexts = (s.link w.fragments i).contexts) ∧
      s.plan w d key = r := by
  unfold prepare at he
  split at he
  · next e hd =>
    cases he
    refine ⟨.refl, Or.inl rfl, ?_⟩
    rw [plan, hd]
  · next hd =>
    have hframe : Frame s (s.link w.fragments i) := .modifyContext (decl_linked s w.fragments) s i
    obtain ⟨hfst, hchain⟩ := stageSources_spec key d.stages.toList (remembers_of_frame hr hframe rfl)
    rw [he] at hfst hchain
    rw [(hframe.sameText w).freshSources_congr] at hfst
    refine ⟨.head (.link s c i) (work_of_assembles hchain c), Or.inr (Assembles.contexts hchain), ?_⟩
    rw [plan, hd, ← hfst]

/-- The context that is built is there after preparation, with the combinations that it had. -/
theorem getElem?_prepare {w : Workspace} {s s' : Shader} {i : Nat}
    (h : s' = s ∨ s'.contexts = (s.link w.fragments i).contexts) {ctx : Context} (hctx : s.contexts[i]? = some ctx) :
    ∃ ctx', s'.contexts[i]? = some ctx' ∧ ctx'.decl = ctx.decl ∧ ctx'.combinations = ctx.combinations := by
  rcases h with rfl | h
  · exact ⟨ctx, hctx, rfl, rfl⟩
  · refine ⟨s.linked w.fragments ctx, ?_, decl_linked .., combinations_linked ..⟩
    rw [h, link, getElem?_modifyContext, if_pos rfl, hctx]
    rfl

theorem build_work {w : Workspace} {s : Shader} (hr : s.Remembers w) (hload : s.isLoaded = true) {i : Nat}
    {ctx : Context} (hctx : s.contexts[i]? = some ctx) {key : Mask}
    (hstale : ∀ b, ctx.combination? key = some b → b.isStale s.generation = true) (c : σ) :
    ReflTransGen (Work w) (s, c) (s.build w i ctx.decl key c).2 := by
  cases hp : s.prepare w i ctx.decl key with
  | mk r s₁ =>
    obtain ⟨hwork, hsame, hplan⟩ := prepare_spec hr hp c
    obtain ⟨ctx₁, hctx₁, hdecl, hcomb⟩ := getElem?_prepare hsame hctx
    have hframe := Work.frame_of_steps hwork
    have hload₁ : s₁.isLoaded = true := hframe.isLoaded.trans hload
    -- Preparing keeps combinations and generation, so what is there is as stale as before.
    have hstale₁ : ∀ b, ctx₁.combination? key = some b → b.isStale s₁.generation = true := by
      intro b hb
      rw [hframe.generation]
      exact hstale b (by rwa [Context.combination?, ← hcomb])
    have hplan₁ : s₁.plan w ctx₁.decl key = r := by rw [(hframe.sameText w).plan_congr, hdecl, hplan]
    unfold build
    rw [hp]
    rw [← hdecl]
    cases r with
    | error e => exact hwork.tail (.fail s₁ c key e hload₁ hctx₁ hstale₁ (.unplanned hplan₁))
    | ok stages =>
      cases hc : ProgramCompiler.compile (s₁.request ctx₁.decl key stages) c with
      | mk x c₁ =>
        cases x with
        | error f =>
          simp only [hc]
          exact hwork.tail (.fail s₁ c key _ hload₁ hctx₁ hstale₁ (.refused hplan₁ hc))
        | ok p =>
          have hentry : s₁.entry i key = ctx₁.entry key := by rw [entry, hctx₁]
          simp only [hc, hentry]
          exact hwork.tail (.install s₁ c key p stages hload₁ hctx₁ hstale₁ hplan₁ hc)

theorem loadError?_of_isLoaded {s : Shader} (h : s.isLoaded = true) : s.loadError? = none := by
  rw [isLoaded, Option.isNone_iff_eq_none] at h
  rw [loadError?, h]
  rfl

theorem isLoaded_of_loadError? {s : Shader} (h : s.loadError? = none) : s.isLoaded = true := by
  rw [loadError?, Option.map_eq_none_iff] at h
  rw [isLoaded, h]
  rfl

/-- Reducing a mask links the context at most. -/
theorem combinationKey_cases {w : Workspace} {s s' : Shader} {i : Nat} {m key : Mask}
    (he : s.combinationKey w i m = (key, s')) : s' = s ∨ s' = s.link w.fragments i := by
  unfold combinationKey at he
  split at he
  · cases he
    exact Or.inl rfl
  · split at he
    · cases he
      exact Or.inr rfl
    · cases he
      exact Or.inl rfl

/-- What getting a combination does: it fails at once, gives what is kept, or builds what is missing or stale. -/
theorem ensure_cases (w : Workspace) (i : Nat) (m : Mask) (s : Shader) (c : σ) :
    (∃ e, (s.loadError? = some e ∨ e = s.noContext (displayIndex i) ∧ s.contexts[i]? = none) ∧
      s.ensure w i m c = (.error e, s, c)) ∨
    ∃ ctx key s₁, s.loadError? = none ∧ s.contexts[i]? = some ctx ∧ s.combinationKey w i m = (key, s₁) ∧
      ((∃ b, ctx.combination? key = some b ∧ b.isStale s₁.generation = false ∧
        s.ensure w i m c = ((b.lastError.elim (.ok (b, false)) .error), s₁, c)) ∨
      ((∀ b, ctx.combination? key = some b → b.isStale s₁.generation = true) ∧
        s.ensure w i m c = ((s₁.build w i ctx.decl key c).1.map (·, true), (s₁.build w i ctx.decl key c).2))) := by
  unfold ensure
  cases hload : s.loadError? with
  | some e => exact Or.inl ⟨e, Or.inl rfl, rfl⟩
  | none =>
    cases hctx : s.contexts[i]? with
    | none => exact Or.inl ⟨_, Or.inr ⟨rfl, rfl⟩, rfl⟩
    | some ctx =>
      cases hk : s.combinationKey w i m with
      | mk key s₁ =>
        refine Or.inr ⟨ctx, key, s₁, rfl, rfl, rfl, ?_⟩
        cases hb : ctx.combination? key with
        | none =>
          refine Or.inr ⟨fun b h => absurd h (Option.some_ne_none b).symm, ?_⟩
          simp only [hb]
          rcases s₁.build w i ctx.decl key c with ⟨_ | b, s₂, c₂⟩ <;> rfl
        | some b =>
          cases hstale : b.isStale s₁.generation with
          | true =>
            refine Or.inr ⟨fun b' h => Option.some.inj h ▸ hstale, ?_⟩
            simp only [hb, hstale, if_true]
            rcases s₁.build w i ctx.decl key c with ⟨_ | b', s₂, c₂⟩ <;> rfl
          | false =>
            refine Or.inl ⟨b, rfl, hstale, ?_⟩
            simp only [hb, hstale, Bool.false_eq_true, if_false]
            cases b.lastError <;> rfl

theorem ensure_work {w : Workspace} {s : Shader} (hr : s.Remembers w) (i : Nat) (m : Mask) (c : σ) :
    ReflTransGen (Work w) (s, c) (s.ensure w i m c).2 := by
  rcases ensure_cases w i m s c with ⟨e, -, he⟩ | ⟨ctx, key, s₁, hload, hctx, hk, hcase⟩
  · rw [he]
  · have hkey := combinationKey_cases hk
    have hwork : ReflTransGen (Work w) (s, c) (s₁, c) := by
      rcases hkey with rfl | rfl
      · exact .refl
      · exact .single (.link s c i)
    rcases hcase with ⟨b, -, -, he⟩ | ⟨hstale, he⟩
    · rw [he]
      exact hwork
    · rw [he]
      obtain ⟨ctx₁, hctx₁, hdecl, hcomb⟩ := getElem?_prepare (hkey.imp_right (congrArg contexts)) hctx
      have hload₁ : s₁.isLoaded = true :=
        (Work.frame_of_steps hwork).isLoaded.trans (isLoaded_of_loadError? hload)
      rw [← hdecl]
      refine hwork.trans (build_work (Work.remembers_of_steps hwork hr) hload₁ hctx₁ (fun b hb => hstale b ?_) c)
      rwa [Context.combination?, hcomb] at hb

theorem getCombinationAt_work {w : Workspace} {s : Shader} (hr : s.Remembers w) (i : Nat) (m : Mask) (c : σ) :
    ReflTransGen (Work w) (s, c) (s.getCombinationAt w i m c).2 := by
  have := ensure_work hr i m c
  unfold getCombinationAt
  split <;> next he => rwa [he] at this

theorem getCombination_work {w : Workspace} {s : Shader} (hr : s.Remembers w) (context : String) (m : Mask) (c : σ) :
    ReflTransGen (Work w) (s, c) (s.getCombination w context m c).2 := by
  unfold getCombination
  split
  · exact .refl
  · split
    · exact .refl
    · exact getCombinationAt_work hr _ m c

theorem ensureAll_work {w : Workspace} (i : Nat) (ms : List Mask) {s : Shader} (hr : s.Remembers w) (c : σ) :
    ReflTransGen (Work w) (s, c) (s.ensureAll w i ms c).2 := by
  induction ms generalizing s c with
  | nil => exact .refl
  | cons m ms ih =>
    have hm := ensure_work hr i m c
    exact hm.trans (ih (Work.remembers_of_steps hm hr) _)

theorem compileEach_work {w : Workspace} (masks : List Mask) (is : List Nat) {s : Shader} (hr : s.Remembers w) (c : σ) :
    ReflTransGen (Work w) (s, c) (s.compileEach w masks is c).2 := by
  induction is generalizing s c with
  | nil => exact .refl
  | cons i is ih =>
    have hlink : Work w (s, c) (s.link w.fragments i, c) := .link s c i
    have hall := ensureAll_work i masks (hlink.remembers hr) c
    have hcover := (ReflTransGen.head hlink hall).tail (.cover _ _ i)
    exact hcover.trans (ih (Work.remembers_of_steps hcover hr) _)

theorem compileContexts_work {w : Workspace} {s : Shader} (hr : s.Remembers w) (c : σ) :
    ReflTransGen (Work w) (s, c) (s.compileContexts w c).2 := by
  unfold compileContexts
  cases hload : s.loadError? with
  | some e => exact .refl
  | none =>
    have hall := compileEach_work s.preLoad (List.range s.contexts.length) hr c
    exact hall.tail (.ready _ _ ((Work.frame_of_steps hall).isLoaded.trans (isLoaded_of_loadError? hload)))

theorem assembleStageSources_work {w : Workspace} {s : Shader} (hr : s.Remembers w) (i : Nat) (m : Mask) (c : σ) :
    ReflTransGen (Work w) (s, c) ((s.assembleStageSources w i m).2, c) := by
  unfold assembleStageSources
  split
  · exact .refl
  · split
    · exact .refl
    · exact work_of_assembles (stageSources_spec m _ hr).2 c

/-! ## Outcomes of builds -/

variable [DryRunBacked σ]

/-- The compiler passes calls on, and the shader remembers its text. -/
structure Sound (w : Workspace) (x : Shader × σ) : Prop where
  passes : passes x.2
  remembers : x.1.Remembers w

theorem BuildFails.outcome {w : Workspace} {s : Shader} {d : ContextDecl} {key : Mask} {c c' : σ} {e : ShaderError}
    (h : BuildFails w s d key c e c') (hp : passes c) : s.outcome w d key = .error e := by
  rw [outcome_eq]
  cases h with
  | unplanned h => rw [h]
  | @refused sources f _ h hc =>
    have hf : DryRun.failure? sources = some f := failure?_of_compile_error hp hc
    rw [h]
    simp only [hf]

/-- The sources of a program that was compiled are its outcome. -/
theorem outcome_of_compile_ok {w : Workspace} {s : Shader} {d : ContextDecl} {key : Mask} {c c' : σ} {p : Program}
    {sources : List StageSource} (h : s.plan w d key = .ok sources)
    (hc : ProgramCompiler.compile (s.request d key sources) c = (.ok p, c')) (hp : passes c) :
    s.outcome w d key = .ok sources := by
  have hf : DryRun.failure? sources = none := (failure?_of_compile_ok hp hc).1
  rw [outcome_eq, h]
  simp only [hf]

/-- A build fails just as its outcome says. -/
theorem build_error_iff {w : Workspace} {s : Shader} {c : σ} (hs : Sound w (s, c)) (i : Nat) {d : ContextDecl}
    {key : Mask} {e : ShaderError} : (s.build w i d key c).1 = .error e ↔ s.outcome w d key = .error e := by
  cases hp : s.prepare w i d key with
  | mk r s₁ =>
    obtain ⟨hwork, -, hplan⟩ := prepare_spec hs.remembers hp c
    have hframe := Work.frame_of_steps hwork
    rw [← (hframe.sameText w).outcome_congr]
    rw [← (hframe.sameText w).plan_congr] at hplan
    unfold build
    rw [hp]
    cases r with
    | error e' =>
      rw [BuildFails.outcome (.unplanned hplan) hs.passes]
      simp only [Except.error.injEq]
    | ok stages =>
      cases hc : ProgramCompiler.compile (s₁.request d key stages) c with
      | mk x c₁ =>
        cases x with
        | error f =>
          rw [BuildFails.outcome (.refused hplan hc) hs.passes]
          simp only [hc, Except.error.injEq]
        | ok p =>
          rw [outcome_of_compile_ok hplan hc hs.passes]
          simp only [hc]
          exact iff_of_false nofun nofun

end Shader

end ShaderVariant
