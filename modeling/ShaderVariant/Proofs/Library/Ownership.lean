import ShaderVariant.Proofs.Library.Effect
import ShaderVariant.Proofs.Library.Simulation

/-!
# Ownership of programs

* `Library.Owns` : the programs that shaders hold are distinct and just those that live in a compiler;
* `Session.recorded_run` : the run whose calls are written down is the run itself;
* `programs_owned` : in every reachable state the library owns its programs, and none was released twice or is held
  after its release.
-/

namespace ShaderVariant

open DryRunBacked (dryRun passes)

/-- The combinations of a library hold distinct programs and just the live ones, and every program that was compiled is
live or released. -/
structure Library.Owns (l : Library) (d : DryRun) : Prop where
  nodup : l.programs.Nodup
  live_iff : ∀ p, d.isLive p = true ↔ p ∈ l.programs
  settled : d.compiles = d.failures + d.live + d.releases

namespace Session

variable {σ : Type} [ProgramCompiler σ] [DryRunBacked σ]

theorem Orderly.owns {x : Session σ} (h : x.Orderly) (hr : InRange x.compiler) : x.library.Owns (dryRun x.compiler) := by
  have hb := h.ledger.balanced hr
  have hsane := h.ledger.sane
  have hsettled := hb.settled
  refine ⟨hb.nodup, hb.isLive_iff, ?_⟩
  unfold DryRun.successes at hsettled
  omega

/-- Writing the calls down changes neither the library nor the compiler. -/
theorem recorded_run (loader : Loader) (settings : Settings) (ops : List Operation) :
    ((start loader settings Recorder.empty).run ops).library = ((start loader settings DryRun.empty).run ops).library ∧
      ((start loader settings Recorder.empty).run ops).compiler.compiler =
        ((start loader settings DryRun.empty).run ops).compiler := by
  have hstart : Session.Alike Recorder.Passes (start loader settings .empty) (start loader settings .empty) :=
    ⟨rfl, rfl, rfl⟩
  obtain ⟨hlibrary, hcompiler, -⟩ := Recorder.simulates.run hstart ops
  exact ⟨hlibrary, hcompiler⟩

end Session

open Session in
/-- In every reachable state the programs that combinations hold are distinct and just those that live in the compiler,
and every successful compilation gave a live program or one that was released. Writing the calls down shows that no
program was released twice, and that none is held after its release. As long as the 32-bit numbers of programs last. -/
theorem programs_owned (loader : Loader) (settings : Settings) (ops : List Operation)
    (hrange : ((start loader settings DryRun.empty).run ops).compiler.successes < 2 ^ 32) :
    let x := (start loader settings DryRun.empty).run ops
    let y := (start loader settings Recorder.empty).run ops
    x.library.Owns x.compiler ∧ y.library = x.library ∧ y.compiler.compiler = x.compiler ∧
      y.compiler.released.Nodup ∧ ∀ p ∈ y.compiler.released, p ∉ x.library.programs ∧ x.compiler.isLive p = false := by
  intro x y
  have hx : x.Orderly := orderly_run (orderly_start loader settings trivial rfl rfl) ops
  have hy : y.Orderly := orderly_run (orderly_start loader settings rfl rfl rfl) ops
  obtain ⟨hlibrary, hcompiler⟩ : y.library = x.library ∧ y.compiler.compiler = x.compiler :=
    recorded_run loader settings ops
  have hry : InRange y.compiler := by
    show y.compiler.compiler.successes < 2 ^ 32
    rwa [hcompiler]
  have howns := hx.owns hrange
  refine ⟨howns, hlibrary, hcompiler, hy.ledger.released hry, fun p hp => ?_⟩
  have hnot : p ∉ x.library.programs := hlibrary ▸ (hy.ledger.gone hry p hp).1
  exact ⟨hnot, Bool.eq_false_iff.2 fun hlive => hnot ((howns.live_iff p).1 hlive)⟩

open Session in
/-- A short run, in which a fragment changes, replaces a program and releases it once. -/
theorem programs_owned_litRun :
    litRun.library.programs = [⟨2⟩] ∧ litRun.library.Owns litRun.compiler ∧
      ((start default default Recorder.empty).run litOps).compiler.released = [⟨1⟩] ∧
        litRun.compiler.isLive ⟨1⟩ = false := by
  have hrun : litRun.compiler.successes < 2 ^ 32 ∧ litRun.library.programs = [⟨2⟩] ∧
      ((start default default Recorder.empty).run litOps).compiler.released = [⟨1⟩] := by
    decide +kernel
  obtain ⟨hrange, hheld, hreleased⟩ := hrun
  obtain ⟨howns, -, -, -, hgone⟩ := programs_owned default default litOps hrange
  exact ⟨hheld, howns, hreleased, (hgone ⟨1⟩ (hreleased ▸ List.mem_cons_self)).2⟩

end ShaderVariant
