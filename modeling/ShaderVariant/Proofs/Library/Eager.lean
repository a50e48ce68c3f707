import ShaderVariant.Proofs.Library.BuildOnce
import ShaderVariant.Proofs.Library.Dated
import ShaderVariant.Proofs.Shader.Eager

/-!
# Compiling ahead in a library

Masks that were asked for are compiled before they are drawn with.

* `calls_lookup` : a look-up whose combination is there, of the present generation, makes no call;
* `compiled_ahead` : after a pass over a loaded shader every mask that was asked for has, in every context, a combination
  of the present generation with a program or a failure. The report adds up, and look-ups of these masks make no call
  until the generation moves or the programs are released;
* `compiled_again` : a release brings look-ups that compile, and a counter that wraps brings combinations that are never
  stale.
-/

namespace ShaderVariant

open Relation (ReflTransGen)

variable {σ : Type} [ProgramCompiler σ]

namespace Session

/-! ## Look-ups without calls -/

/-- A look-up leaves the compiler alone if its combination is there, of the present generation. -/
theorem compiler_lookup {x : Session σ} {k : ShaderKey} {context : String} {m : Mask} {op : Operation}
    (hop : op.IsLookup k context m)
    (h : ∀ p, x.library.site? k context m = some p → ∃ b, x.kept? p = some b ∧ b.isStale (x.generationOf k) = false) :
    (x.step op).compiler = x.compiler := by
  have hget : (x.library.getCombination k context m x.compiler).2.2 = x.compiler := by
    cases hs : x.library.shader? k with
    | none =>
      unfold Library.getCombination
      simp only [hs]
    | some s =>
      cases hi : s.findContext? context with
      | none => rw [getCombination_of_none x (by rw [Library.site?_of_shader hs, hi, Option.map_none])]
      | some i =>
        have hsite := Library.site?_of_shader hs context m
        rw [hi, Option.map_some] at hsite
        obtain ⟨b, hb, hfresh⟩ := h _ hsite
        rw [kept?_eq hs] at hb
        rw [generationOf_eq hs] at hfresh
        have hensure := Shader.ensure_of_covered (σ := σ) ⟨b, hb, hfresh⟩ x.compiler
        unfold Library.getCombination Shader.getCombination
        simp only [hs, hi]
        cases s.loadError? with
        | some e => rfl
        | none =>
          unfold Shader.getCombinationAt
          rcases he : s.ensure x.library.workspace i m x.compiler with ⟨_ | ⟨b, _⟩, t, d⟩ <;>
            exact (congrArg (fun q => q.2.2) he).symm.trans hensure
  rcases hop with rfl | rfl
  · exact hget
  · show (x.library.program? k context m x.compiler).2.2 = x.compiler
    unfold Library.program?
    rcases he : x.library.getCombination k context m x.compiler with ⟨_ | b, l, d⟩ <;>
      exact (congrArg (fun q => q.2.2) he).symm.trans hget

theorem calls_lookup {x : Session σ} {k : ShaderKey} {context : String} {m : Mask} {op : Operation}
    (hop : op.IsLookup k context m)
    (h : ∀ p, x.library.site? k context m = some p → ∃ b, x.kept? p = some b ∧ b.isStale (x.generationOf k) = false) :
    x.calls [op] = [] :=
  congrArg Traced.calls (compiler_lookup (x := x.traced) hop h)

/-- What is there, of the present generation, is looked up without a call until the generation moves or the programs of
the shader are released. -/
theorem calls_lookup_run {x : Session σ} (hx : x.library.Lawful) {k : ShaderKey} {context : String} {m : Mask}
    (h : ∀ p, x.library.site? k context m = some p → ∃ b, x.kept? p = some b ∧ b.isStale (x.generationOf k) = false)
    {ops : List Operation} (hstill : x.Still k ops) (hops : Operation.releaseShader k ∉ ops) {op : Operation}
    (hop : op.IsLookup k context m) : (x.run ops).calls [op] = [] := by
  refine calls_lookup hop fun p hp => ?_
  rw [(site?_run hx hstill hops context).1 m] at hp
  obtain ⟨b, hb, hfresh⟩ := h p hp
  obtain ⟨rfl, hin⟩ := Library.in_of_site? hp
  refine ⟨b, kept?_run hx hin hstill hops hb hfresh, ?_⟩
  rwa [generationOf_run hstill]

/-! ## A pass over a shader -/

theorem compileContexts_eager {x : Session σ} (hx : x.library.Lawful) {k : ShaderKey} {s : Shader}
    (hs : x.library.shader? k = some s) (hload : s.isLoaded = true) :
    ∃ report s', x.answer (.compileContexts k) = .built (.ok report) ∧
      (x.step (.compileContexts k)).library = x.library.setShader k s' ∧
      ReflTransGen (Shader.Work x.library.workspace) (s, x.compiler) (s', (x.step (.compileContexts k)).compiler) ∧
        Shader.Eager x.library.workspace s report (x.calls [.compileContexts k]) s' := by
  obtain ⟨report, s', t, ht, heager⟩ :=
    Shader.eager_compileContexts (hx.regular.shaders k s hs).remembers (hx.declared k s hs) hload x.compiler
  obtain ⟨_, _, _, c', hfst, hsnd, -⟩ :=
    Traced.simulates.compileContexts (c := ⟨x.compiler, []⟩) (d := x.compiler) rfl x.library.workspace s
  rw [ht] at hfst
  cases hfst
  have hwork := Shader.compileContexts_work (hx.regular.shaders k s hs).remembers x.compiler
  rw [hsnd] at hwork
  have hlib : x.library.compileContexts k x.compiler = (.ok report, x.library.setShader k s', c') := by
    unfold Library.compileContexts
    simp only [hs, hsnd]
  have htraced : x.library.compileContexts k (⟨x.compiler, []⟩ : Traced σ) =
      (.ok report, x.library.setShader k s', t) := by
    unfold Library.compileContexts
    simp only [hs, ht]
  have hcalls : x.calls [.compileContexts k] = t.calls := congrArg (fun p => p.2.2.calls) htraced
  refine ⟨report, s', congrArg Answer.built (congrArg Prod.fst hlib), congrArg (fun p => p.2.1) hlib, ?_, ?_⟩
  · rwa [show (x.step (.compileContexts k)).compiler = c' from congrArg (fun p => p.2.2) hlib]
  · rwa [hcalls]

end Session

open Session in
/-- In every library that operations lead to, with any compiler, after a pass over a loaded shader the shader is ready and
every mask that was asked for has, in every context, a combination that is not stale and has a program or a failure; it is
of the present generation unless generations have moved `2 ^ 64` times. The report adds up, and it counts the combinations
that were installed, each once. Until the generation moves next, look-ups of these masks make no call, unless the host
releases the programs of the shader. -/
theorem compiled_ahead {n : Nat} {x : Session σ} (hx : x.library.ReachedBy n) {k : ShaderKey} {s : Shader}
    (hs : x.library.shader? k = some s) (hload : s.isLoaded = true) :
    let y := x.step (.compileContexts k)
    let installs := installed (x.calls [.compileContexts k])
    ∃ report s', x.answer (.compileContexts k) = .built (.ok report) ∧ y.library.shader? k = some s' ∧ s'.ready = true ∧
      s'.generation = s.generation ∧ s'.preLoad = s.preLoad ∧
      s'.contexts.map Context.decl = s.contexts.map Context.decl ∧
      (∀ (i : Nat) (ctx : Context), s'.contexts[i]? = some ctx → ∀ m ∈ s.preLoad, ∃ b,
        ctx.combination? (s'.combinationKey y.library.workspace i m).1 = some b ∧ b.isStale s'.generation = false ∧
          (n < 2 ^ 64 → b.stamp = s'.generation) ∧ (b.program.isSome = true ∨ b.lastError.isSome = true)) ∧
      report.compiled + report.cached + report.errors.length = s.contexts.length * s.preLoad.length ∧
      report.compiled = installs.length ∧ (installs.map Prod.fst).Nodup ∧
      (∀ context key p, ((context, key), p) ∈ installs → ∃ ctx ∈ s'.contexts, ∃ b, ctx.name = context ∧
        ctx.combination? key = some b ∧ b.program = some p ∧ b.stamp = s'.generation) ∧
      ∀ ops, y.Still k ops → Operation.releaseShader k ∉ ops → ∀ context, ∀ m ∈ s.preLoad, ∀ op : Operation,
        op.IsLookup k context m → (y.run ops).calls [op] = [] := by
  intro y installs
  have hlawful := hx.reachable.lawful
  obtain ⟨report, s', hanswer, hlib, hwork, heager⟩ := compileContexts_eager hlawful hs hload
  have hs' : y.library.shader? k = some s' := by
    rw [show y.library = _ from hlib]
    exact Library.shader?_setShader_self hs s'
  have hw : y.library.workspace = x.library.workspace := by
    rw [show y.library = _ from hlib]
    rfl
  have hpreLoad : s'.preLoad = s.preLoad := congrArg (fun t => t.2.2) heager.standing
  have hlength : s'.contexts.length = s.contexts.length := by
    simpa only [List.length_map] using congrArg List.length heager.frame.decls
  have hsettled := (hx.reachable.step x.compiler (.compileContexts k)).settled k s' hs'
  have hdated (hn : n < 2 ^ 64) : s'.Dated := (hx.dated hn k s hs).of_steps hwork
  refine ⟨report, s', hanswer, hs', heager.ready, heager.frame.generation, hpreLoad, heager.frame.decls,
    fun i ctx hctx m hm => ?_, heager.total, heager.compiled, heager.installs.1, fun context key p he => ?_,
    fun ops hstill hops context m hm op hop => ?_⟩
  · have hi : i < s.contexts.length := hlength ▸ (List.getElem?_eq_some_iff.1 hctx).1
    obtain ⟨b, hb, hfresh⟩ := heager.covered i hi m hm
    have hb' := (Shader.kept?_of_context hctx _).symm.trans hb
    rw [hw]
    exact ⟨b, hb', hfresh, fun hn => (hdated hn).stamp_eq hb hfresh,
      hsettled ctx (List.mem_of_getElem? hctx) _ b hb'⟩
  · obtain ⟨i, ctx, b, hctx, hname, hb, hprogram, hstamp⟩ := heager.installs.2 _ he
    rw [Shader.kept?_of_context hctx] at hb
    exact ⟨ctx, List.mem_of_getElem? hctx, b, hname, hb, hprogram, hstamp⟩
  · refine calls_lookup_run (lawful_step hlawful _) (fun p hp => ?_) hstill hops hop
    obtain ⟨t, i, ht, hi, rfl⟩ := Library.site?_eq_some_iff.1 hp
    cases hs'.symm.trans ht
    obtain ⟨ctx, hctx⟩ := Shader.exists_context_of_findContext? hi
    obtain ⟨b, hb, hfresh⟩ := heager.covered i (hlength ▸ (List.getElem?_eq_some_iff.1 hctx).1) m hm
    rw [kept?_eq hs', generationOf_eq hs', hw]
    exact ⟨b, hb, hfresh⟩

/-- Two masks of the shader with the two contexts are asked for, with a compiler of dry runs. -/
def askedOps : List Operation :=
  [.addFragment "skin" (skinSource "vec4"), .loadShaderText "lit" litSource, .preLoadMask ⟨1, 1⟩ 0, .preLoadMask ⟨1, 1⟩ 1]

def askedRun : Session DryRun := (Session.start default default .empty).run askedOps

open Session in
/-- One context compiles for both masks and the other for none. Afterwards none of them is compiled again. -/
theorem compiled_ahead_askedRun :
    ∃ report s', askedRun.answer (.compileContexts ⟨1, 1⟩) = .built (.ok report) ∧
      (askedRun.step (.compileContexts ⟨1, 1⟩)).library.shader? ⟨1, 1⟩ = some s' ∧ s'.ready = true ∧
      report.compiled + report.cached + report.errors.length = 4 ∧ report.compiled = 2 ∧
      (∃ ctx b, s'.contexts[1]? = some ctx ∧ ctx.combination? 1 = some b ∧ b.stamp = s'.generation) ∧
      ∀ context, ∀ op : Operation, op.IsLookup ⟨1, 1⟩ context 1 →
        ((askedRun.step (.compileContexts ⟨1, 1⟩)).run [.getCombination ⟨1, 1⟩ "LIT" 2, .compileAll]).calls [op] = [] := by
  have hrun : (start default default DryRun.empty).bumps askedOps < 2 ^ 64 ∧
      (askedRun.library.shader? ⟨1, 1⟩).any (fun s =>
        s.isLoaded && s.contexts.length == 2 && s.preLoad == [0, 1]) ∧
      (installed (askedRun.calls [.compileContexts ⟨1, 1⟩])).length = 2 ∧
      (askedRun.step (.compileContexts ⟨1, 1⟩)).Still ⟨1, 1⟩ [.getCombination ⟨1, 1⟩ "LIT" 2, .compileAll] ∧
      (askedRun.step (.compileContexts ⟨1, 1⟩)).library.workspace.settings.maskUnusedFlags = false := by
    decide +kernel
  obtain ⟨hbumps, hshader, hinstalled, hstill, hsettings⟩ := hrun
  obtain ⟨s, hs, h⟩ := (Option.any_eq_true _ _).1 hshader
  simp only [Bool.and_eq_true, beq_iff_eq] at h
  obtain ⟨⟨hload, hlength⟩, hpreLoad⟩ := h
  have hreached := Library.ReachedBy.run (x := start default default DryRun.empty) (.new default default) askedOps
  obtain ⟨report, s', hanswer, hs', hready, -, -, hdecls, hcovered, htotal, hcompiled, -, -, hlookups⟩ :=
    compiled_ahead (x := askedRun) hreached hs hload
  have hm : (1 : Mask) ∈ s.preLoad := hpreLoad ▸ List.mem_cons_of_mem _ List.mem_cons_self
  refine ⟨report, s', hanswer, hs', hready, ?_, hcompiled.trans hinstalled, ?_, fun context op hop => ?_⟩
  · rw [htotal, hlength, hpreLoad]
    rfl
  · have hi : 1 < s'.contexts.length := by
      have := congrArg List.length hdecls
      simp only [List.length_map, hlength] at this
      omega
    obtain ⟨b, hb, -, hstamp, -⟩ := hcovered 1 _ (List.getElem?_eq_getElem hi) 1 hm
    rw [Shader.combinationKey_fst, hsettings, if_neg Bool.false_ne_true] at hb
    exact ⟨_, b, List.getElem?_eq_getElem hi, hb, hstamp (by rwa [Nat.zero_add])⟩
  · exact hlookups _ hstill (by simp) context 1 hm op hop

/-! ## Where it ends -/

namespace Session

/-- Invalidating a shader again and again moves its generation as often. -/
theorem run_invalidateShader {x : Session σ} {k : ShaderKey} {s : Shader} (hs : x.library.shader? k = some s) (j : Nat) :
    let y := x.run (List.replicate j (.invalidateShader k))
    (∃ memo, y.library.shader? k = some { s with memo, generation := ⟨s.generation.count + UInt64.ofNat j⟩ }) ∧
      y.library.workspace = x.library.workspace ∧ y.compiler = x.compiler := by
  induction j generalizing x s with
  | zero =>
    refine ⟨⟨s.memo, ?_⟩, rfl, rfl⟩
    rw [show UInt64.ofNat 0 = 0 from rfl, UInt64.add_zero]
    exact hs
  | succ j ih =>
    have hstep : (x.step (.invalidateShader k)).library.shader? k = some s.invalidate := by
      show (x.library.shaders.modify k Shader.invalidate).get? k = _
      rw [SlotMap.get?_modify, if_pos rfl]
      exact congrArg (Option.map _) hs
    obtain ⟨⟨memo, hmemo⟩, hw, hc⟩ := ih hstep
    refine ⟨⟨memo, hmemo.trans ?_⟩, hw, hc⟩
    have hcount : s.generation.count + 1 + UInt64.ofNat j = s.generation.count + UInt64.ofNat (j + 1) := by
      rw [UInt64.ofNat_add, UInt64.add_assoc, UInt64.add_comm 1]
      rfl
    show some { s with memo, generation := ⟨s.generation.count + 1 + UInt64.ofNat j⟩ } = _
    rw [hcount]

end Session

def aheadRun : Session DryRun := askedRun.step (.compileContexts ⟨1, 1⟩)

open Session in
/-- When the counter wraps, a pass leaves a combination that is not of the present generation. -/
theorem exists_stamp_ne {j : Nat} (hj : (1 : UInt64) + UInt64.ofNat j = 0) :
    let y := (aheadRun.run (List.replicate j (.invalidateShader ⟨1, 1⟩))).step (.compileContexts ⟨1, 1⟩)
    ∃ s b, y.library.shader? ⟨1, 1⟩ = some s ∧ s.isLoaded = true ∧ s.preLoad = [0, 1] ∧
      s.kept? 0 (s.combinationKey y.library.workspace 0 1).1 = some b ∧ b.stamp ≠ s.generation := by
  intro y
  have hahead : ((aheadRun.library.shader? ⟨1, 1⟩).any fun s => s.isLoaded && s.preLoad == [0, 1] &&
      s.generation == ⟨1⟩ && (s.kept? 0 1).any fun b => b.stamp == ⟨1⟩) = true ∧
      aheadRun.library.workspace.settings.maskUnusedFlags = false := by
    decide +kernel
  obtain ⟨hahead, hsettings⟩ := hahead
  obtain ⟨s, hs, h⟩ := (Option.any_eq_true _ _).1 hahead
  simp only [Bool.and_eq_true, beq_iff_eq] at h
  obtain ⟨⟨⟨hload, hpreLoad⟩, hgen⟩, hkept⟩ := h
  obtain ⟨b, hb, hstamp⟩ := (Option.any_eq_true _ _).1 hkept
  rw [beq_iff_eq] at hstamp
  obtain ⟨⟨memo, hmemo⟩, hw, -⟩ := run_invalidateShader hs j
  rw [hgen, hj] at hmemo
  have hreached := Library.Reachable.run (x := start default default DryRun.empty) (.new default default) askedOps
  have hreached' := Library.Reachable.run (x := aheadRun) (hreached.step _ (.compileContexts ⟨1, 1⟩))
    (List.replicate j (.invalidateShader ⟨1, 1⟩))
  obtain ⟨report, s', -, hlib, hwork, heager⟩ := compileContexts_eager hreached'.lawful hmemo hload
  -- The stamp is beyond the generation, so the combination is not built again.
  have hfresh : b.isStale ⟨0⟩ = false := by
    rw [Combination.isStale, hstamp]
    decide
  refine ⟨s', b, ?_, heager.frame.isLoaded.trans hload, ?_, ?_, ?_⟩
  · rw [show y.library = _ from hlib]
    exact Library.shader?_setShader_self hmemo s'
  · exact (congrArg (fun t => t.2.2) heager.standing).trans hpreLoad
  · have hmasks : y.library.workspace.settings.maskUnusedFlags = false := by
      rw [show y.library = _ from hlib]
      exact (congrArg (fun w => w.settings.maskUnusedFlags) hw).trans hsettings
    rw [Shader.combinationKey_fst, hmasks, if_neg Bool.false_ne_true]
    exact Shader.kept?_of_steps hwork hb hfresh
  · rw [hstamp, heager.frame.generation]
    show (⟨1⟩ : Generation) ≠ ⟨0⟩
    decide

open Session in
/-- The host can release the programs of a shader. That moves no generation, and then a mask that was asked for is compiled
when it is looked up. And after `2 ^ 64 - 1` invalidations the counter is at its start again. -/
theorem compiled_again :
    (aheadRun.Still ⟨1, 1⟩ [.releaseShader ⟨1, 1⟩] ∧
      ((aheadRun.library.shader? ⟨1, 1⟩).any fun s => s.ready && s.preLoad == [0, 1]) = true ∧
        ((aheadRun.run [.releaseShader ⟨1, 1⟩]).calls [.getCombination ⟨1, 1⟩ "LIT" 1]).length = 1) ∧
    let y := (aheadRun.run (List.replicate 18446744073709551615 (.invalidateShader ⟨1, 1⟩))).step (.compileContexts ⟨1, 1⟩)
    ∃ s b, y.library.shader? ⟨1, 1⟩ = some s ∧ s.isLoaded = true ∧ s.preLoad = [0, 1] ∧
      s.kept? 0 (s.combinationKey y.library.workspace 0 1).1 = some b ∧ b.stamp ≠ s.generation :=
  ⟨by decide +kernel, exists_stamp_ne (j := 18446744073709551615) (by decide)⟩

end ShaderVariant
