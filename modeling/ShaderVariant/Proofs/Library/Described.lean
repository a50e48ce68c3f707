import ShaderVariant.Proofs.Library.Coherence
import ShaderVariant.Proofs.Shader.Described

/-!
# Descriptions of programs

* `Session.Described` : every combination of every shader describes the program that it holds. All operations keep that
  (`Quiet.described`, `Turn.described`, `described_run`): a turn only moves generations, or leaves no combinations
  behind;
* `programs_described` : so digest and slots of a combination that holds a program are always those of the sources that
  the compiler holds for it, whatever has failed or changed since.
-/

namespace ShaderVariant

open Relation (ReflTransGen)

namespace Session

def Described (x : Session DryRun) : Prop :=
  InRange x.compiler → ∀ k s, x.library.shader? k = some s → s.Described x.compiler

variable {x y : Session DryRun}

theorem Quiet.described (h : Quiet x y) (hx : x.Orderly) (hd : x.Described) : y.Described := by
  intro hr k s' hs'
  cases h with
  | load c h => exact hd hr k s' ((shader?_loaded h k).symm.trans hs')
  | work l hs hw =>
    obtain ⟨rest, hperm, -, -, hrest⟩ := Library.programs_split hs
    have hl := hx.ledger.perm hperm
    have hr₀ := hw.inRange hl hr
    rw [Library.shader?_setShader] at hs'
    split at hs'
    · next hk =>
      subst hk
      rw [hs] at hs'
      cases hs'
      exact hw.described hl hr (hd hr₀ _ _ hs)
    · next hk =>
      refine (hd hr₀ k s' hs').congr fun p hp => ?_
      have hin := hrest k s' hk hs' p hp
      exact hw.sources hl hr (List.mem_append_right _ hin) (List.mem_append_right _ hin)
  | drop l c h => exact hd hr k s' hs'

theorem Turn.described (h : Turn x y) (hx : x.Orderly) (hd : x.Described) : y.Described := by
  intro hr k s' hs'
  have hr₀ := h.inRange hx.ledger hr
  have hsources : ∀ p ∈ s'.programs, y.compiler.sources? p = x.compiler.sources? p := fun p hp =>
    h.sources hx.ledger hr₀ (Library.mem_programs hs' hp)
  cases h.shader hx.regular hs' with
  | stays hs => exact (hd hr₀ k s' hs).congr hsources
  | stale hs => exact (hd hr₀ k _ hs).invalidate.congr hsources
  | refilled _ _ hf => exact Shader.described_of_blank (fun ctx hctx => (hf.blank ctx hctx).2) _
  | registered _ hf =>
    rcases hf with rfl | hf
    · exact Shader.described_of_blank (fun _ hctx => absurd hctx List.not_mem_nil) _
    · exact Shader.described_of_blank (fun ctx hctx => (hf.blank ctx hctx).2) _

theorem described_of_quiet (h : ReflTransGen Quiet x y) (hx : x.Orderly) (hd : x.Described) : y.Described := by
  induction h with
  | refl => exact hd
  | tail hsteps hstep ih => exact hstep.described (orderly_of_quiet hsteps hx) ih

theorem Effect.described (h : Effect x y) (hx : x.Orderly) (hd : x.Described) : y.Described := by
  obtain ⟨u, v, hxu, huv, hvy⟩ := h
  have hu := orderly_of_quiet hxu hx
  have hdu := described_of_quiet hxu hx hd
  rcases huv with rfl | huv
  · exact described_of_quiet hvy hu hdu
  · exact described_of_quiet hvy (huv.orderly hu) (huv.described hu hdu)

theorem described_run (hx : x.Orderly) (hd : x.Described) (ops : List Operation) : (x.run ops).Described := by
  induction ops generalizing x with
  | nil => exact hd
  | cons op ops ih =>
    have heffect := effect_step hx.regular op
    exact ih (heffect.orderly hx) (heffect.described hx hd)

end Session

open Session in
/-- In every reachable state a combination that holds a program describes it: the digest is that of the sources that the
compiler holds for the program, in pipeline order. A declared name or an engine's uniform that they do not mention is
unresolved; one that they mention is at its texture unit, at its index, or behind as many different identifiers as come
before it.

This is for runs in which fewer than `2 ^ 32` compilations have succeeded. The compiler numbers programs by a plain 32-bit
counter, and when this wraps it may hold other sources for the number. -/
theorem programs_described (loader : Loader) (settings : Settings) (ops : List Operation)
    (hrange : ((start loader settings DryRun.empty).run ops).compiler.successes < 2 ^ 32) {k : ShaderKey} {i : Nat}
    {key : Mask} {s : Shader} {ctx : Context} {b : Combination} {p : Program}
    (hb : ((start loader settings DryRun.empty).run ops).cached? k i key = some (s, ctx, b))
    (hp : b.program = some p) :
    ∃ sources, ((start loader settings DryRun.empty).run ops).compiler.sources? p = some sources ∧
      b.Describes s sources := by
  have horderly : (start loader settings DryRun.empty).Orderly := orderly_start loader settings trivial rfl rfl
  have hempty : (start loader settings DryRun.empty).Described := fun _ k s hs => nomatch hs
  obtain ⟨hs, hctx, hcached⟩ := cached?_eq_some_iff.1 hb
  exact described_run horderly hempty ops hrange k s hs ctx (List.mem_of_getElem? hctx) key b p hcached hp

/-- A shader with a sampler, two uniforms and a buffer, and a fragment behind the first line of code. -/
def tintSource : Text :=
  litText ["sampler2D albedo = sampler_state \x7b\n", "TexUnit = 2;\n", "\x7d;\n", "float4 tint;\n", "float4 glow;\n",
    "buffer Tiles;\n", "[[VS]]\n", "uniform vec4 tint;\n", "#include \"skin\"\n", "uniform mat4 worldMat;\n", "[[FS]]\n",
    "uniform sampler2D albedo;\n"]

/-- The fragment becomes an error behind the first build, so the second one fails; a default value changes too. -/
def tintOps : List Operation :=
  [.addFragment "skin" (skinSource "vec4"), .loadShaderText "tinted" tintSource, .getCombination ⟨1, 1⟩ "LIT" 1,
    .updateFragment ⟨1, 1⟩ "#error no joint\n".toList, .getCombination ⟨1, 1⟩ "LIT" 1,
    .setFloatParam ⟨1, 1⟩ 602 0 608 0 ⟨1⟩]

open Session in
/-- The combination of the failed build keeps the slots of the program that it holds. `tint` stands behind four
identifiers, two of them in the definition of the flag, and `glow` is not mentioned. -/
theorem programs_described_tintOps :
    ∃ s ctx b sources, ((start default default DryRun.empty).run tintOps).cached? ⟨1, 1⟩ 0 1 = some (s, ctx, b) ∧
      b.program = some ⟨1⟩ ∧ b.lastError.isSome = true ∧
        ((start default default DryRun.empty).run tintOps).compiler.sources? ⟨1⟩ = some sources ∧
          b.Describes s sources ∧ b.uniformSlot 0 = 4 ∧ b.uniformSlot 1 = -1 := by
  have hrun : ((start default default DryRun.empty).run tintOps).compiler.successes < 2 ^ 32 ∧
      (∃ e ∈ ((start default default DryRun.empty).run tintOps).cached? ⟨1, 1⟩ 0 1,
        e.2.2.program = some ⟨1⟩ ∧ e.2.2.lastError.isSome = true ∧ e.1.uniforms.map Uniform.name = ["tint", "glow"]) ∧
      ∃ sources ∈ ((start default default DryRun.empty).run tintOps).compiler.sources? ⟨1⟩,
        "tint" ∈ DryRun.names sources ∧ DryRun.ordinal sources "tint" = 4 ∧ "glow" ∉ DryRun.names sources := by
    decide +kernel
  obtain ⟨hrange, ⟨⟨s, ctx, b⟩, hb, hp, herror, hnames⟩, sources, hsources, htint, hplace, hglow⟩ := hrun
  obtain ⟨sources', hsources', hd⟩ := programs_described default default tintOps hrange hb hp
  cases hsources.symm.trans hsources'
  have hname : ∀ (i : Nat) name, ["tint", "glow"][i]? = some name → ∃ u, s.uniforms[i]? = some u ∧ u.name = name := by
    intro i name hi
    rw [← hnames, List.getElem?_map] at hi
    exact Option.map_eq_some_iff.1 hi
  obtain ⟨tint, htint₀, htintName⟩ := hname 0 "tint" rfl
  obtain ⟨glow, hglow₁, hglowName⟩ := hname 1 "glow" rfl
  have hused := (htintName ▸ hd.uniforms 0 tint htint₀).used (DryRun.mem_names_iff.1 htint)
  have hunused := (hglowName ▸ hd.uniforms 1 glow hglow₁).unused fun h => hglow (DryRun.mem_names_iff.2 h)
  rw [hplace] at hused
  exact ⟨s, ctx, b, sources, hb, hp, herror, hsources, hd, hused, hunused⟩

end ShaderVariant
