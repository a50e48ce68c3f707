import ShaderVariant.Proofs.Library.Lookup
import ShaderVariant.Proofs.Library.Standing

/-!
# Compiling ahead

* `BuildReport.total` : a pass reports once on every mask in every context (`total_compileEach`);
* `Shader.Covered` : the combination of a mask is of the present generation. Building masks covers them
  (`covered_compileEach`), work leaves them covered (`Covered.of_steps`), and getting one that is covered makes no
  call (`ensure_of_covered`);
* `installed` : the combinations that calls have installed, with their programs. A pass reports how many these are
  (`compiled_compileEach`), and each is installed once and still there (`Installs`).
-/

namespace ShaderVariant

open Relation (ReflTransGen)

/-! ## Reports -/

namespace BuildReport

def total (r : BuildReport) : Nat := r.compiled + r.cached + r.errors.length

theorem total_append (r t : BuildReport) : (r ++ t).total = r.total + t.total := by
  show r.compiled + t.compiled + (r.cached + t.cached) + (r.errors ++ t.errors).length = _
  rw [List.length_append]
  unfold total
  omega

theorem total_ofOutcome (r : Except ShaderError (Combination × Bool)) : (ofOutcome r).total = 1 := by
  rcases r with e | ⟨b, _ | _⟩ <;> rfl

end BuildReport

namespace Shader

variable {σ : Type} [ProgramCompiler σ] {w : Workspace} {s : Shader}

theorem total_ensureAll (w : Workspace) (i : Nat) (ms : List Mask) (s : Shader) (c : σ) :
    (s.ensureAll w i ms c).1.total = ms.length := by
  induction ms generalizing s c with
  | nil => rfl
  | cons m ms ih =>
    show (BuildReport.ofOutcome (s.ensure w i m c).1 ++ _).total = _
    rw [BuildReport.total_append, BuildReport.total_ofOutcome, ih, List.length_cons, Nat.add_comm]

theorem total_compileEach (w : Workspace) (masks : List Mask) (is : List Nat) (s : Shader) (c : σ) :
    (s.compileEach w masks is c).1.total = is.length * masks.length := by
  induction is generalizing s c with
  | nil => exact (Nat.zero_mul _).symm
  | cons i is ih =>
    show (((s.link w.fragments i).ensureAll w i masks c).1 ++ _).total = _
    rw [BuildReport.total_append, total_ensureAll, ih, List.length_cons, Nat.succ_mul, Nat.add_comm]

/-! ## Covered masks -/

/-- The combination of a mask in the context with an index is of the present generation. -/
def Covered (w : Workspace) (s : Shader) (i : Nat) (m : Mask) : Prop :=
  ∃ b, s.kept? i (s.combinationKey w i m).1 = some b ∧ b.isStale s.generation = false

/-- Work leaves what is of the present generation: only what is missing or stale is built. -/
theorem Work.kept? {x y : Shader × σ} (h : Work w x y) {i : Nat} {key : Mask} {b : Combination}
    (hb : x.1.kept? i key = some b) (hfresh : b.isStale x.1.generation = false) : y.1.kept? i key = some b := by
  have other {s : Shader} {j : Nat} {ctx : Context} {key' : Mask} (hctx : s.contexts[j]? = some ctx)
      (hstale : ∀ b, ctx.combination? key' = some b → b.isStale s.generation = true) (hb : s.kept? i key = some b)
      (hfresh : b.isStale s.generation = false) (b' : Combination) :
      (s.modifyContext j (·.put key' b')).kept? i key = some b := by
    rw [kept?_put hctx, if_neg]
    · exact hb
    · rintro ⟨rfl, rfl⟩
      rw [kept?_of_context hctx] at hb
      rw [hstale b hb] at hfresh
      cases hfresh
  cases h with
  | link s c j => exact (kept?_modifyContext (combinations_linked s w.fragments) s j i key).trans hb
  | assemble s c h =>
    obtain ⟨j, t, -, rfl⟩ := h
    exact hb
  | fail s c key' e hload hctx hstale hfails =>
    rw [recordFailure_eq hctx]
    exact other hctx hstale hb hfresh _
  | install s c key' p sources hload hctx hstale hplan hc => exact other hctx hstale hb hfresh _
  | cover s c j =>
    exact (kept?_modifyContext (f := fun ctx => { ctx with compiled := true }) (fun _ => rfl) s j i key).trans hb
  | ready s c hload => exact hb
  | ask s c m =>
    have hsame : (s.preLoadMask m).kept? i key = s.kept? i key := by
      unfold preLoadMask
      split <;> rfl
    exact hsame.trans hb
  | adjust s c uniforms => exact hb

theorem kept?_of_steps {x y : Shader × σ} (h : ReflTransGen (Work w) x y) {i : Nat} {key : Mask} {b : Combination}
    (hb : x.1.kept? i key = some b) (hfresh : b.isStale x.1.generation = false) : y.1.kept? i key = some b := by
  induction h with
  | refl => exact hb
  | tail hsteps hstep ih =>
    refine hstep.kept? ih ?_
    rwa [(Work.frame_of_steps hsteps).generation]

theorem Covered.of_steps {x y : Shader × σ} (h : ReflTransGen (Work w) x y) {i : Nat} {m : Mask}
    (hx : Covered w x.1 i m) : Covered w y.1 i m := by
  obtain ⟨b, hb, hfresh⟩ := hx
  refine ⟨b, ?_, ?_⟩
  · rw [Work.combinationKey_of_steps h]
    exact kept?_of_steps h hb hfresh
  · rwa [(Work.frame_of_steps h).generation]

theorem covered_ensure (hr : s.Remembers w) (hload : s.isLoaded = true) {i : Nat} {ctx : Context}
    (hctx : s.contexts[i]? = some ctx) (m : Mask) (c : σ) : Covered w (s.ensure w i m c).2.1 i m := by
  have hwork := ensure_work hr i m c
  have hsame : (s.getCombinationAt w i m c).2.1 = (s.ensure w i m c).2.1 := by
    unfold getCombinationAt
    split <;> next he => rw [he]
  obtain ⟨b, hb, hfresh, -⟩ := getCombinationAt_entry hr hload hctx m c
  rw [hsame] at hb
  refine ⟨b, ?_, ?_⟩
  · rwa [Work.combinationKey_of_steps hwork]
  · rwa [(Work.frame_of_steps hwork).generation]

theorem covered_ensureAll (hr : s.Remembers w) (hload : s.isLoaded = true) {i : Nat} {ctx : Context}
    (hctx : s.contexts[i]? = some ctx) (ms : List Mask) (c : σ) :
    ∀ m ∈ ms, Covered w (s.ensureAll w i ms c).2.1 i m := by
  induction ms generalizing s ctx c with
  | nil => exact fun m hm => absurd hm List.not_mem_nil
  | cons a ms ih =>
    intro m hm
    have hwork := ensure_work hr i a c
    have hframe := Work.frame_of_steps hwork
    have hr' := Work.remembers_of_steps hwork hr
    obtain ⟨ctx', hctx', -⟩ := hframe.exists_context hctx
    rcases List.mem_cons.1 hm with rfl | hm
    · exact (covered_ensure hr hload hctx m c).of_steps (ensureAll_work i ms hr' _)
    · exact ih hr' (hframe.isLoaded.trans hload) hctx' _ m hm

theorem covered_compileEach (hr : s.Remembers w) (hload : s.isLoaded = true) (masks : List Mask) (is : List Nat)
    (his : ∀ i ∈ is, ∃ ctx, s.contexts[i]? = some ctx) (c : σ) :
    ∀ i ∈ is, ∀ m ∈ masks, Covered w (s.compileEach w masks is c).2.1 i m := by
  induction is generalizing s c with
  | nil => exact fun i hi => absurd hi List.not_mem_nil
  | cons j is ih =>
    intro i hi m hm
    have hlink : Work w (s, c) (s.link w.fragments j, c) := .link s c j
    have hall := ensureAll_work j masks (hlink.remembers hr) c
    have hcover := (ReflTransGen.head hlink hall).tail (.cover _ _ j)
    have hframe := Work.frame_of_steps hcover
    have hr' := Work.remembers_of_steps hcover hr
    rcases List.mem_cons.1 hi with rfl | hi
    · obtain ⟨ctx, hctx⟩ := his i List.mem_cons_self
      obtain ⟨ctx', hctx', -⟩ := hlink.frame.exists_context hctx
      have hdone := covered_ensureAll (hlink.remembers hr) (hlink.frame.isLoaded.trans hload) hctx' masks c m hm
      exact hdone.of_steps ((ReflTransGen.single (.cover _ _ i)).trans (compileEach_work masks is hr' _))
    · refine ih hr' (hframe.isLoaded.trans hload) (fun x hx => ?_) _ i hi m hm
      obtain ⟨ctx, hctx⟩ := his x (List.mem_cons_of_mem j hx)
      obtain ⟨ctx', hctx', -⟩ := hframe.exists_context hctx
      exact ⟨ctx', hctx'⟩

theorem ensure_of_covered {i : Nat} {m : Mask} (h : Covered w s i m) (c : σ) : (s.ensure w i m c).2.2 = c := by
  obtain ⟨b, hb, hfresh⟩ := h
  rcases ensure_cases w i m s c with ⟨e, -, he⟩ | ⟨ctx, key, s₁, -, hctx, hk, hcase⟩
  · rw [he]
  · have hgen : s₁.generation = s.generation := by rcases combinationKey_cases hk with rfl | rfl <;> rfl
    rw [hk, kept?_of_context hctx] at hb
    rcases hcase with ⟨_, -, -, he⟩ | ⟨hstale, -⟩
    · rw [he]
    · rw [← hgen, hstale b hb] at hfresh
      cases hfresh

end Shader

/-! ## Installed programs -/

/-- The combination that a call has installed, by context and key, with its program. -/
def CompilerCall.installed? : CompilerCall → Option ((String × Mask) × Program)
  | .compile q (some p) => some ((q.context, q.mask), p)
  | _ => none

def installed (calls : List CompilerCall) : List ((String × Mask) × Program) := calls.filterMap CompilerCall.installed?

namespace Shader

variable {σ : Type} [ProgramCompiler σ] {w : Workspace} {s : Shader}

theorem installed_releaseReplaced (old : Option Program) (t : Traced σ) :
    installed (releaseReplaced old t).calls = installed t.calls := by
  cases old <;> rfl

/-- A report counts the programs that were installed. -/
theorem compiled_ensure (w : Workspace) (i : Nat) (m : Mask) (s : Shader) (t : Traced σ) :
    (installed (s.ensure w i m t).2.2.calls).length =
      (installed t.calls).length + (BuildReport.ofOutcome (s.ensure w i m t).1).compiled := by
  rcases ensure_cases w i m s t with ⟨e, -, he⟩ | ⟨ctx, key, s₁, -, -, -, ⟨b, -, -, he⟩ | ⟨-, he⟩⟩
  · rw [he]
    rfl
  · rw [he]
    cases b.lastError <;> rfl
  · rw [he]
    unfold build
    cases hp : s₁.prepare w i ctx.decl key with
    | mk r s₂ =>
      cases r with
      | error e => rfl
      | ok stages =>
        cases hc : ProgramCompiler.compile (s₂.request ctx.decl key stages) t with
        | mk x t' =>
          have hcalls := Traced.calls_compile hc
          cases x with
          | error f =>
            simp only [hc]
            rw [hcalls]
            rfl
          | ok p =>
            simp only [hc]
            rw [installed_releaseReplaced, hcalls]
            rfl

theorem compiled_ensureAll (w : Workspace) (i : Nat) (ms : List Mask) (s : Shader) (t : Traced σ) :
    (installed (s.ensureAll w i ms t).2.2.calls).length =
      (installed t.calls).length + (s.ensureAll w i ms t).1.compiled := by
  induction ms generalizing s t with
  | nil => rfl
  | cons m ms ih =>
    refine (ih (s.ensure w i m t).2.1 (s.ensure w i m t).2.2).trans ?_
    rw [compiled_ensure]
    exact Nat.add_assoc ..

theorem compiled_compileEach (w : Workspace) (masks : List Mask) (is : List Nat) (s : Shader) (t : Traced σ) :
    (installed (s.compileEach w masks is t).2.2.calls).length =
      (installed t.calls).length + (s.compileEach w masks is t).1.compiled := by
  induction is generalizing s t with
  | nil => rfl
  | cons i is ih =>
    let p := (s.link w.fragments i).ensureAll w i masks t
    refine (ih (p.2.1.modifyContext i fun ctx => { ctx with compiled := true }) p.2.2).trans ?_
    rw [compiled_ensureAll]
    exact Nat.add_assoc ..

/-- What calls have installed is there, of the present generation, each once. -/
structure Installs (x : Shader × Traced σ) : Prop where
  nodup : ((installed x.2.calls).map Prod.fst).Nodup
  held : ∀ e ∈ installed x.2.calls, ∃ i ctx b, x.1.contexts[i]? = some ctx ∧ ctx.name = e.1.1 ∧
    x.1.kept? i e.1.2 = some b ∧ b.program = some e.2 ∧ b.stamp = x.1.generation

/-- A step installs nothing, or a combination that was missing or stale. -/
theorem Work.installed {x y : Shader × Traced σ} (h : Work w x y) :
    ShaderVariant.installed y.2.calls = ShaderVariant.installed x.2.calls ∨
      ∃ i ctx key p b, x.1.contexts[i]? = some ctx ∧
        (∀ b, ctx.combination? key = some b → b.isStale x.1.generation = true) ∧
        ShaderVariant.installed y.2.calls = ((ctx.name, key), p) :: ShaderVariant.installed x.2.calls ∧
          y.1.kept? i key = some b ∧ b.program = some p ∧ b.stamp = x.1.generation := by
  cases h with
  | fail s t key e hload hctx hstale hfails =>
    cases hfails with
    | unplanned => exact Or.inl rfl
    | refused _ hcompile =>
      left
      rw [Traced.calls_compile hcompile]
      rfl
  | @install s t t' i ctx key p sources hload hctx hstale hplan hcompile =>
    refine Or.inr ⟨i, ctx, key, p, _, hctx, hstale, ?_, (kept?_put hctx key _ i key).trans (if_pos ⟨rfl, rfl⟩), rfl, rfl⟩
    rw [installed_releaseReplaced, Traced.calls_compile hcompile]
    rfl
  | _ => exact Or.inl rfl

theorem Work.installs {x y : Shader × Traced σ} (h : Work w x y) (hd : x.1.Declared) (hx : Installs x) : Installs y := by
  have hframe := h.frame
  -- what was installed before is of the generation, so the step leaves it
  have hold : ∀ e ∈ ShaderVariant.installed x.2.calls, ∃ i ctx b, y.1.contexts[i]? = some ctx ∧ ctx.name = e.1.1 ∧
      y.1.kept? i e.1.2 = some b ∧ b.program = some e.2 ∧ b.stamp = y.1.generation := by
    intro e he
    obtain ⟨i, ctx, b, hctx, hname, hb, hprogram, hstamp⟩ := hx.held e he
    obtain ⟨ctx', hctx', hdecl⟩ := hframe.exists_context hctx
    have hfresh : b.isStale x.1.generation = false := by
      rw [Combination.isStale, hstamp]
      exact Generation.isNewerThan_self _
    exact ⟨i, ctx', b, hctx', (congrArg ContextDecl.name hdecl).trans hname, h.kept? hb hfresh, hprogram,
      hstamp.trans hframe.generation.symm⟩
  rcases h.installed with heq | ⟨i, ctx, key, p, b, hctx, hstale, heq, hb, hprogram, hstamp⟩
  · exact ⟨heq ▸ hx.nodup, heq ▸ hold⟩
  · refine ⟨?_, ?_⟩
    · rw [heq, List.map_cons, List.nodup_cons]
      refine ⟨fun hm => ?_, hx.nodup⟩
      obtain ⟨e, he, hsame⟩ := List.mem_map.1 hm
      obtain ⟨j, ctx', b', hctx', hname, hb', -, hstamp'⟩ := hx.held e he
      obtain rfl := hd.index_eq hctx hctx' (hname.trans (congrArg Prod.fst hsame)).symm
      cases hctx.symm.trans hctx'
      rw [kept?_of_context hctx, hsame] at hb'
      have := hstale b' hb'
      rw [Combination.isStale, hstamp', Generation.isNewerThan_self] at this
      cases this
    · rw [heq]
      intro e he
      rcases List.mem_cons.1 he with rfl | he
      · obtain ⟨ctx', hctx', hdecl⟩ := hframe.exists_context hctx
        exact ⟨i, ctx', b, hctx', congrArg ContextDecl.name hdecl, hb, hprogram, hstamp.trans hframe.generation.symm⟩
      · exact hold e he

theorem installs_of_steps {x y : Shader × Traced σ} (h : ReflTransGen (Work w) x y) (hd : x.1.Declared)
    (hx : Installs x) : Installs y := by
  induction h with
  | refl => exact hx
  | tail hsteps hstep ih => exact hstep.installs (hd.frame (Work.frame_of_steps hsteps)) ih

/-! ## A whole pass -/

/-- What compiling ahead leaves behind and reports. -/
structure Eager (w : Workspace) (s : Shader) (report : BuildReport) (calls : List CompilerCall) (s' : Shader) :
    Prop where
  frame : Frame s s'
  standing : s'.standing = s.standing
  ready : s'.ready = true
  total : report.total = s.contexts.length * s.preLoad.length
  compiled : report.compiled = (installed calls).length
  installs : ((installed calls).map Prod.fst).Nodup ∧ ∀ e ∈ installed calls, ∃ i ctx b, s'.contexts[i]? = some ctx ∧
    ctx.name = e.1.1 ∧ s'.kept? i e.1.2 = some b ∧ b.program = some e.2 ∧ b.stamp = s'.generation
  covered : ∀ i < s.contexts.length, ∀ m ∈ s.preLoad, Covered w s' i m

theorem eager_compileContexts (hr : s.Remembers w) (hd : s.Declared) (hload : s.isLoaded = true) (c : σ) :
    ∃ report s' t, s.compileContexts w (⟨c, []⟩ : Traced σ) = (report, s', t) ∧ Eager w s report t.calls s' := by
  let t₀ : Traced σ := ⟨c, []⟩
  have hcontexts : ∀ i ∈ List.range s.contexts.length, ∃ ctx, s.contexts[i]? = some ctx :=
    fun i hi => ⟨_, List.getElem?_eq_getElem (List.mem_range.1 hi)⟩
  have hcovered := covered_compileEach hr hload s.preLoad _ hcontexts t₀
  have htotal := total_compileEach w s.preLoad (List.range s.contexts.length) s t₀
  have hcompiled := compiled_compileEach w s.preLoad (List.range s.contexts.length) s t₀
  have hstanding := standing_compileEach w s.preLoad (List.range s.contexts.length) s t₀
  have hall := compileEach_work s.preLoad (List.range s.contexts.length) hr t₀
  cases hc : s.compileEach w s.preLoad (List.range s.contexts.length) t₀ with
  | mk report rest =>
    obtain ⟨s₁, t⟩ := rest
    rw [hc] at hcovered htotal hcompiled hstanding hall
    have hready : Work w (s₁, t) ({ s₁ with ready := true }, t) :=
      .ready _ _ ((Work.frame_of_steps hall).isLoaded.trans hload)
    have hwork := hall.tail hready
    have hinstalls := installs_of_steps hwork hd ⟨List.nodup_nil, fun _ he => absurd he List.not_mem_nil⟩
    refine ⟨report, { s₁ with ready := true }, t, ?_, Work.frame_of_steps hwork, hstanding, rfl, ?_, ?_,
      ⟨hinstalls.nodup, hinstalls.held⟩, fun i hi m hm => ?_⟩
    · unfold compileContexts
      rw [loadError?_of_isLoaded hload]
      simp only [t₀] at hc
      simp only [hc]
    · rw [htotal, List.length_range]
    · exact (hcompiled.trans (Nat.zero_add _)).symm
    · exact (hcovered i (List.mem_range.2 hi) m hm).of_steps (.single hready)

end Shader

end ShaderVariant
