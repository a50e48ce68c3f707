import ShaderVariant.Proofs.Library.Validity
import ShaderVariant.Proofs.Shader.Described
import ShaderVariant.Proofs.Shader.Located

/-!
# Compile failures of a library

* `compile_located` : just which compile failure a build with a dry run reports, and the line of a preamble or of a
  section that it stands for.
-/

namespace ShaderVariant

/-- Let a dry run compile a context of a shader in a reachable library, with whatever settings and key. It refuses the
build just if all sources are assembled and some bound stage has an `#error` line. It reports the first such stage, the
first such line of it and the text there. In front of that line,

* the header has as many lines as the preamble, ended if it is not, and one for each flag of the key if flags are
  defined;
* the line is one of them, or it is, as far behind them, that line of the section with its includes expanded, and lies
  only in branches on flags that the key selects.

The bound stages stand in the order of the pipeline. -/
theorem compile_located {l : Library} (hl : l.Reachable) {k : ShaderKey} {s : Shader} (hs : l.shader? k = some s)
    {i : Nat} {ctx : Context} (hctx : s.contexts[i]? = some ctx) (settings : Settings) (key : Mask) (c : DryRun) :
    let w : Workspace := ⟨l.fragments, settings⟩
    (∀ f, (s.build w i ctx.decl key c).1 = .error (.compile s.name ctx.name key f) ↔
      (∃ sources, s.freshSources w key ctx.decl.stages.toList = .ok sources) ∧
        ∃ before b after n line text, ctx.decl.stages.toList = before ++ b :: after ∧
          s.FirstErrorAt w key b n line text ∧ (∀ b' ∈ before, s.ErrorFree w key b') ∧
            f = ⟨some b.1, some (UInt32.ofNat (n + 1)), text⟩) ∧
    (∀ stage, (s.stageHeader settings stage key).lines.length = s.headerLength settings stage key) ∧
    (ctx.decl.stages.toList.map Prod.fst).Sublist Stage.all := by
  intro w
  have hdeclared := hl.declared k s hs
  have hvalid := (hl.ofText k s hs).valid (List.mem_map_of_mem (List.mem_of_getElem? hctx))
  have hremembers : s.Remembers w := (hl.regular.shaders k s hs).remembers
  have hsound : Shader.Sound w (s, c) := ⟨trivial, hremembers⟩
  refine ⟨fun f => ?_, fun stage => Shader.length_lines_stageHeader hdeclared settings stage key,
    Shader.stages_toList_sublist ctx.decl.stages⟩
  exact (Shader.build_error_iff hsound i).trans (Shader.outcome_eq_compile_iff hdeclared hvalid.1)

/-- A shader whose vertex stage includes an error for one value of a flag. -/
def jointlessOps : List Operation :=
  [.addFragment "skin" "#ifdef SKINNING\n#error no joints\n#endif\n".toList,
    .loadShaderText "lit" (litText ["[[VS]]\n", "#include \"skin\"\n", "[[FS]]\n", "#error no colour\n"])]

def jointlessRun : Session DryRun := (Session.start default default .empty).run jointlessOps

def versioned : Settings := Settings.withPreamble default .vertex "#version 330".toList

/-- Behind the line of the preamble and that of a flag, the error is in the second line of the section. -/
theorem compile_located_jointlessRun :
    ∃ s ctx, jointlessRun.library.shader? ⟨1, 1⟩ = some s ∧ s.contexts[0]? = some ctx ∧
      s.headerLength versioned .vertex 1 = 2 ∧
      (s.build ⟨jointlessRun.library.fragments, versioned⟩ 0 ctx.decl 1 DryRun.empty).1 =
        .error (.compile s.name ctx.name 1 ⟨some .vertex, some 4, "no joints"⟩) ∧
      ∃ b n line text, s.FirstErrorAt ⟨jointlessRun.library.fragments, versioned⟩ 1 b n line text ∧ b.1 = .vertex ∧
        UInt32.ofNat (n + 1) = 4 ∧ text = "no joints" := by
  have hreach : jointlessRun.library.Reachable := .run (.new default default) jointlessOps
  have hrun : (jointlessRun.library.shader? ⟨1, 1⟩).any fun s => (s.contexts[0]?).any fun ctx =>
      decide (s.headerLength versioned .vertex 1 = 2) &&
        decide ((s.build ⟨jointlessRun.library.fragments, versioned⟩ 0 ctx.decl 1 DryRun.empty).1 =
          .error (.compile s.name ctx.name 1 ⟨some .vertex, some 4, "no joints"⟩)) := by
    decide +kernel
  obtain ⟨s, hs, hrun⟩ := (Option.any_eq_true _ _).1 hrun
  obtain ⟨ctx, hctx, hrun⟩ := (Option.any_eq_true _ _).1 hrun
  rw [Bool.and_eq_true, decide_eq_true_iff, decide_eq_true_iff] at hrun
  obtain ⟨hlength, hbuild⟩ := hrun
  obtain ⟨-, before, b, after, n, line, text, -, hfirst, -, hf⟩ :=
    ((compile_located hreach hs hctx versioned 1 DryRun.empty).1 _).1 hbuild
  simp only [CompileFailure.mk.injEq, Option.some.injEq] at hf
  exact ⟨s, ctx, hs, hctx, hlength, hbuild, b, n, line, text, hfirst, hf.1.symm, hf.2.1.symm, hf.2.2.symm⟩

end ShaderVariant
