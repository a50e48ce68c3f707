import ShaderVariant.Proofs.Library.Coherence
import ShaderVariant.Proofs.Shader.Preview

/-!
# The source preview

The sources of a combination can be looked at without compiling them.

* `Session.Current.getCombination_spec` : what getting a combination does to a current session;
* `preview_iff` : just when the preview for a mask is what the compiler holds for its program;
* `preview_unused` : a flag that is not in use is defined in the preview, but not in what was compiled.
-/

namespace ShaderVariant

open DryRunBacked (dryRun)

namespace Shader

theorem exists_context_of_findContext? {s : Shader} {name : String} {i : Nat} (h : s.findContext? name = some i) :
    ∃ ctx, s.contexts[i]? = some ctx := by
  obtain ⟨hi, -⟩ := List.findIdx?_eq_some_iff_getElem.1 h
  exact ⟨s.contexts[i], List.getElem?_eq_getElem hi⟩

theorem findContext?_congr {s s' : Shader} (h : s'.contexts.map Context.decl = s.contexts.map Context.decl)
    (name : String) : s'.findContext? name = s.findContext? name := by
  have hdecls : ∀ t : Shader, t.findContext? name = (t.contexts.map Context.decl).findIdx? (·.name == name) := by
    intro t
    rw [List.findIdx?_map]
    rfl
  rw [hdecls, hdecls, h]

theorem Frame.findContext? {s s' : Shader} (h : Frame s s') (name : String) :
    s'.findContext? name = s.findContext? name :=
  findContext?_congr h.decls name

end Shader

/-- Previewing a loaded shader assembles the sections of its context, whatever is kept. -/
theorem Library.assembleStageSources_fst {l : Library} {k : ShaderKey} {s : Shader} {name : String} {i : Nat}
    {ctx : Context} (hs : l.shader? k = some s) (hload : s.isLoaded = true) (hi : s.findContext? name = some i)
    (hctx : s.contexts[i]? = some ctx) (hr : s.Remembers l.workspace) (m : Mask) :
    (l.assembleStageSources k name m).1 = s.freshSources l.workspace m ctx.decl.stages.toList := by
  unfold assembleStageSources
  rw [hs]
  simp only [hi]
  exact Shader.assembleStageSources_fst hr (Shader.loadError?_of_isLoaded hload) hctx m

/-- Shaders with the same text and the same declared contexts have the same preview. -/
theorem Library.assembleStageSources_congr {l l' : Library} {k k' : ShaderKey} {s s' : Shader}
    (hs : l.shader? k = some s) (hs' : l'.shader? k' = some s') (hr : s.Remembers l.workspace)
    (hr' : s'.Remembers l'.workspace) (ht : Shader.SameText l.workspace s l'.workspace s')
    (hd : s'.diagnostic = s.diagnostic) (hc : s'.contexts.map Context.decl = s.contexts.map Context.decl)
    (name : String) (m : Mask) : (l'.assembleStageSources k' name m).1 = (l.assembleStageSources k name m).1 := by
  have hi' := Shader.findContext?_congr hc name
  cases hi : s.findContext? name with
  | none =>
    unfold assembleStageSources Shader.noContext
    simp only [hs, hs', hi', hi, ht.name]
  | some i =>
    rw [hi] at hi'
    have herror : s'.loadError? = s.loadError? := by
      unfold Shader.loadError?
      rw [hd, ht.name]
    cases he : s.loadError? with
    | some e =>
      unfold assembleStageSources Shader.assembleStageSources
      simp only [hs, hs', hi', hi, herror, he]
    | none =>
      rw [he] at herror
      obtain ⟨ctx, hctx⟩ := Shader.exists_context_of_findContext? hi
      obtain ⟨ctx', hctx'⟩ := Shader.exists_context_of_findContext? hi'
      have hdecl : ctx'.decl = ctx.decl := by
        have hat := congrArg (·[i]?) hc
        simpa [hctx, hctx'] using hat
      rw [assembleStageSources_fst hs (Shader.isLoaded_of_loadError? he) hi hctx hr,
        assembleStageSources_fst hs' (Shader.isLoaded_of_loadError? herror) hi' hctx' hr', hdecl, ht.freshSources_congr]

namespace Session

variable {σ : Type} [ProgramCompiler σ] [DryRunBacked σ]

/-- Getting a combination works on its shader, which serves the combination then. -/
theorem Current.getCombination_spec {n : Nat} {x : Session σ} (hx : Current n x) {k : ShaderKey} {name : String}
    {m : Mask} {b : Combination} {l : Library} {c : σ}
    (h : x.library.getCombination k name m x.compiler = (.ok b, l, c)) :
    ∃ s s' i ctx, x.library.shader? k = some s ∧ s.findContext? name = some i ∧ s.contexts[i]? = some ctx ∧
      l = x.library.setShader k s' ∧ Shader.Frame s s' ∧ s.isLoaded = true ∧
        s'.Coherent x.library.workspace (dryRun c) ∧
          s'.Serves i ctx.decl (s.combinationKey x.library.workspace i m).1 b := by
  unfold Library.getCombination at h
  cases hs : x.library.shader? k with
  | none =>
    rw [hs] at h
    cases h
  | some s =>
    rw [hs] at h
    have hremembers := (hx.coherent k s hs).remembers
    have hwork := Shader.getCombination_work hremembers name m x.compiler
    cases hg : s.getCombination x.library.workspace name m x.compiler with
    | mk r rest =>
      obtain ⟨s', c'⟩ := rest
      simp only [hg] at h hwork
      cases h
      have hcoherent := coherent_of_quiet (quiet_work hs hwork) hx.orderly hx.coherent k s'
        (Library.shader?_setShader_self hs s')
      unfold Shader.getCombination at hg
      cases hload : s.loadError? with
      | some e =>
        rw [hload] at hg
        cases hg
      | none =>
        cases hi : s.findContext? name with
        | none =>
          simp only [hload, hi] at hg
          cases hg
        | some i =>
          simp only [hload, hi] at hg
          obtain ⟨ctx, hctx⟩ := Shader.exists_context_of_findContext? hi
          exact ⟨s, s', i, ctx, rfl, hi, hctx, rfl, Shader.Work.frame_of_steps hwork,
            Shader.isLoaded_of_loadError? hload, hcoherent, Shader.serves_of_getCombinationAt_ok hremembers hctx hg⟩

end Session

open Session in
/-- In every reachable state, when a combination is got for a mask it has a program, and the preview for the mask
succeeds afterwards. The preview is what the compiler holds for the program just if the settings do not reduce masks to
the flags in use, or the flags of the mask that the context does not use make no difference. As long as generations and
the 32-bit numbers of programs last. -/
theorem preview_iff (loader : Loader) (settings : Settings) (ops : List Operation)
    (hbumps : (start loader settings DryRun.empty).bumps ops < 2 ^ 64) {k : ShaderKey} {name : String} {m : Mask}
    {b : Combination} {l : Library} {c : DryRun}
    (h : ((start loader settings DryRun.empty).run ops).library.getCombination k name m
      ((start loader settings DryRun.empty).run ops).compiler = (.ok b, l, c))
    (hrange : c.successes < 2 ^ 32) :
    let w := ((start loader settings DryRun.empty).run ops).library.workspace
    ∃ s i ctx p sources compiled,
      ((start loader settings DryRun.empty).run ops).library.shader? k = some s ∧ s.findContext? name = some i ∧
        s.contexts[i]? = some ctx ∧ b.program = some p ∧ (l.assembleStageSources k name m).1 = .ok sources ∧
          c.sources? p = some compiled ∧
            (sources = compiled ↔ w.settings.maskUnusedFlags = false ∨ s.SeesUsedOnly w ctx.decl m) := by
  intro w
  have hx : Current _ ((start loader settings DryRun.empty).run ops) :=
    current_run (current_start loader settings trivial rfl rfl) ops (by rwa [Nat.zero_add])
  obtain ⟨s, s', i, ctx, hs, hi, hctx, rfl, hframe, hload, hcoherent, hserves⟩ := hx.getCombination_spec h
  rw [(hx.coherent k s hs).combinationKey_fst hctx] at hserves
  obtain ⟨p, compiled, hp, hout, hheld⟩ := hcoherent.of_serves hserves
  obtain ⟨-, hcompiled, hfail⟩ := Shader.freshSources_of_outcome hout
  obtain ⟨ctx', hctx', hdecl, -⟩ := hserves.exists_context
  -- The preview assembles the same sections for the mask itself.
  obtain ⟨sources, hsources⟩ := Shader.exists_freshSources hcompiled m
  have hpreview : ((((start loader settings DryRun.empty).run ops).library.setShader k s').assembleStageSources
      k name m).1 = .ok sources := by
    have hthere := Library.shader?_setShader_self hs s'
    have hload' : s'.isLoaded = true := hframe.isLoaded.trans hload
    have hi' := (hframe.findContext? name).trans hi
    refine (Library.assembleStageSources_fst hthere hload' hi' hctx' hcoherent.remembers m).trans ?_
    rw [hdecl]
    exact hsources
  refine ⟨s, i, ctx, p, sources, compiled, hs, hi, hctx, hp, hpreview, hheld hrange, ?_⟩
  have hsame := hframe.sameText w
  replace hsources : s.freshSources w m ctx.decl.stages.toList = .ok sources :=
    (hsame.freshSources_congr ..).symm.trans hsources
  replace hcompiled : s.freshSources w (if w.settings.maskUnusedFlags then m &&& s.usedFlags w.fragments ctx.decl else m)
      ctx.decl.stages.toList = .ok compiled :=
    (hsame.freshSources_congr ..).symm.trans hcompiled
  cases hreduce : w.settings.maskUnusedFlags with
  | false =>
    rw [hreduce, if_neg Bool.false_ne_true, hsources] at hcompiled
    exact iff_of_true (Except.ok.inj hcompiled) (Or.inl rfl)
  | true =>
    rw [hreduce, if_pos rfl] at hcompiled
    have hstages : ctx.decl.stages.toList ≠ [] := by
      intro hnil
      rw [hnil] at hcompiled
      cases hcompiled
      cases hfail
    rw [Shader.freshSources_usedFlags_iff hstages hsources hcompiled]
    exact ⟨Or.inr, fun h => h.resolve_left (nomatch ·)⟩

def reducing : Settings := { (default : Settings) with maskUnusedFlags := true }

def reducedRun : Session DryRun := (Session.start default reducing .empty).run litOps

/-- The requested flag is in use in the short run, so the preview is what the compiler holds. -/
theorem preview_iff_reducedRun :
    ∃ b l c p sources, reducedRun.library.getCombination ⟨1, 1⟩ "LIT" 1 reducedRun.compiler = (.ok b, l, c) ∧
      b.program = some p ∧ (l.assembleStageSources ⟨1, 1⟩ "LIT" 1).1 = .ok sources ∧ c.sources? p = some sources := by
  have hrun : (Session.start default reducing DryRun.empty).bumps litOps < 2 ^ 64 ∧
      (reducedRun.library.getCombination ⟨1, 1⟩ "LIT" 1 reducedRun.compiler).1.toBool = true ∧
      (reducedRun.library.getCombination ⟨1, 1⟩ "LIT" 1 reducedRun.compiler).2.2.successes < 2 ^ 32 ∧
      ∀ s ∈ reducedRun.library.shader? ⟨1, 1⟩, ∀ ctx ∈ s.contexts,
        (s.usedFlags reducedRun.library.fragments ctx.decl).contains 1 = true := by
    decide +kernel
  obtain ⟨hbumps, hgot, hrange, hused⟩ := hrun
  cases h : reducedRun.library.getCombination ⟨1, 1⟩ "LIT" 1 reducedRun.compiler with
  | mk r rest =>
    obtain ⟨l, c⟩ := rest
    rw [h] at hgot hrange
    cases r with
    | error e => cases hgot
    | ok b =>
      obtain ⟨s, i, ctx, p, sources, compiled, hs, -, hctx, hp, hpreview, hheld, hiff⟩ :=
        preview_iff default reducing litOps hbumps h hrange
      have hsees : s.SeesUsedOnly reducedRun.library.workspace ctx.decl 1 :=
        Shader.seesUsedOnly_of_contains (hused s hs ctx (List.mem_of_getElem? hctx))
      obtain rfl : sources = compiled := hiff.2 (Or.inr hsees)
      exact ⟨b, l, c, p, sources, rfl, hp, hpreview, hheld⟩

/-- A shader that does not use its flag. -/
def plainSource : Text := litText ["[[VS]]\n", "void main() {}\n", "[[FS]]\n", "void main() {}\n"]

def plainRun : Session DryRun := (Session.start default reducing .empty).run [.loadShaderText "lit" plainSource]

/-- The preview defines the flag, unlike the sources that the compiler holds. -/
theorem preview_unused :
    ∃ b l c p sources compiled, plainRun.library.getCombination ⟨1, 1⟩ "LIT" 1 plainRun.compiler = (.ok b, l, c) ∧
      b.program = some p ∧ (l.assembleStageSources ⟨1, 1⟩ "LIT" 1).1 = .ok sources ∧ c.sources? p = some compiled ∧
        sources ≠ compiled := by
  have hrun : ∃ b ∈ (plainRun.library.getCombination ⟨1, 1⟩ "LIT" 1 plainRun.compiler).1.toOption, ∃ p ∈ b.program,
      ∃ sources ∈ ((plainRun.library.getCombination ⟨1, 1⟩ "LIT" 1 plainRun.compiler).2.1.assembleStageSources
        ⟨1, 1⟩ "LIT" 1).1.toOption,
      ∃ compiled ∈ (plainRun.library.getCombination ⟨1, 1⟩ "LIT" 1 plainRun.compiler).2.2.sources? p,
        sources ≠ compiled := by
    decide +kernel
  obtain ⟨b, hb, p, hp, sources, hsources, compiled, hcompiled, hne⟩ := hrun
  refine ⟨b, _, _, p, sources, compiled, ?_, hp, toOption_eq_some_iff.1 hsources, hcompiled, hne⟩
  rw [← toOption_eq_some_iff.1 hb]

end ShaderVariant
