import ShaderVariant.Proofs.Fragment.Dependencies
import ShaderVariant.Proofs.Library.Coherence
import ShaderVariant.Proofs.Source.Gate

/-!
# The mask of a cache key

A combination is kept under the part of its mask that the context uses. That is sound as long as gating sees no more
than the flags that were collected from the sources.

* `Shader.refers_assembled` : the lines of an assembled section refer to collected flags only, if the fragments in it
  have nothing but white space behind their includes;
* `gate_usedFlags` : just when a mask is gated like its part in use;
* `gate_usedFlags_glued` : a directive behind an include is not collected, so its flag is not in use.
-/

namespace ShaderVariant

open Gate (bitOf?)
open Relation (ReflTransGen)

namespace Shader

theorem isSet_usedFlags {s : Shader} {fragments : FragmentStore} {d : ContextDecl} {stage : Stage} {i n : Nat}
    {f : Fragment} (hbound : (stage, i) ∈ d.stages.toList) (hf : s.sections[i]? = some f)
    (h : (fragments.flagBits f s.vocabulary).isSet n = true) : (s.usedFlags fragments d).isSet n = true := by
  unfold usedFlags
  rw [Mask.isSet_union, List.any_eq_true]
  exact ⟨_, List.mem_map_of_mem (List.mem_filterMap.2 ⟨(stage, i), hbound, hf⟩), h⟩

/-- The lines of an assembled section refer to flags that are in use, if only white space stands behind includes. -/
theorem refers_assembled {l : Library} {s : Shader} {d : ContextDecl} {stage : Stage} {i : Nat} {f : Fragment} {t : Text}
    (hl : FragmentStore.WellFormed l.fragments) (hs : s.Regular l) (hbound : (stage, i) ∈ d.stages.toList)
    (hf : s.sections[i]? = some f) (ht : l.fragments.assembleFragment f none = .ok t) (hclean : f.Clean)
    (hincluded : ∀ g ∈ l.fragments.included f, g.Clean) :
    Refers (fun name => ∀ n, s.vocabulary.bitOf? name = some n → (s.usedFlags l.fragments d).isSet n = true) t := by
  rw [FragmentStore.assembleFragment_none] at ht
  have hrefs : ∀ g, g = f ∨ g ∈ l.fragments.included f → ∀ name ∈ g.flagRefs, ∀ n, s.vocabulary.bitOf? name = some n →
      (s.usedFlags l.fragments d).isSet n = true :=
    fun g hg name hname n hn => isSet_usedFlags hbound hf (FragmentStore.isSet_flagBits_iff.2 ⟨g, hg, name, hname, hn⟩)
  refine FragmentStore.refers_of_expand ⟨(hs.resolves f (List.mem_of_getElem? hf)).sourced, hclean, hrefs f (Or.inl rfl)⟩
    (fun k hk x g hx hg => ?_) ht
  have hmem := FragmentStore.mem_included_iff.2 ⟨x, ⟨k, hk, hx⟩, hg⟩
  exact ⟨hl.sourced x g hg, hincluded g hmem, hrefs g (Or.inr hmem)⟩

end Shader

namespace Library

/-- The assembled text of the section bound to a stage of a context, with shader, context, index and section. -/
def assembled? (l : Library) (k : ShaderKey) (i : Nat) (stage : Stage) :
    Option (Shader × Context × Nat × Fragment × Text) :=
  (l.shader? k).bind fun s => (s.contexts[i]?).bind fun ctx => (ctx.decl.stages.get stage).bind fun n =>
    (s.sections[n]?).bind fun f => (l.fragments.assembleFragment f none).toOption.map fun t => (s, ctx, n, f, t)

theorem of_assembled? {l : Library} {k : ShaderKey} {i n : Nat} {stage : Stage} {s : Shader} {ctx : Context} {f : Fragment}
    {t : Text} (h : l.assembled? k i stage = some (s, ctx, n, f, t)) :
    l.shader? k = some s ∧ ctx ∈ s.contexts ∧ (stage, n) ∈ ctx.decl.stages.toList ∧ s.sections[n]? = some f ∧
      l.fragments.assembleFragment f none = .ok t := by
  simp only [assembled?, Option.bind_eq_some_iff, Option.map_eq_some_iff, Prod.mk.injEq] at h
  obtain ⟨_, hs, _, hctx, _, hn, g, hf, _, ht, rfl, rfl, rfl, rfl, rfl⟩ := h
  exact ⟨hs, List.mem_of_getElem? hctx, StageBindings.mem_toList.2 hn, hf, toOption_eq_some_iff.1 ht⟩

end Library

open Session in
/-- In every reachable state, for every section that is bound in a context of a shader, masks are gated like the parts
of them that the context uses, so that masks with the same part are gated alike,

* just if every line that some mask keeps, and that is not empty anyway, is tested for flags in use only;
* so whenever nothing but white space stands behind the includes of the section and of all it includes.

The used flags that the context holds, once it is linked, are those. -/
theorem gate_usedFlags (loader : Loader) (settings : Settings) (ops : List Operation) {k : ShaderKey} {s : Shader}
    {ctx : Context} {stage : Stage} {i : Nat} {f : Fragment} {t : Text}
    (hs : ((start loader settings DryRun.empty).run ops).library.shader? k = some s) (hctx : ctx ∈ s.contexts)
    (hbound : (stage, i) ∈ ctx.decl.stages.toList) (hf : s.sections[i]? = some f)
    (ht : ((start loader settings DryRun.empty).run ops).library.fragments.assembleFragment f none = .ok t) :
    let fragments := ((start loader settings DryRun.empty).run ops).library.fragments
    let used := s.usedFlags fragments ctx.decl
    ((∀ m, gate s.vocabulary m t = gate s.vocabulary (m &&& used) t) ↔
      ∀ m n, m &&& used = n &&& used → gate s.vocabulary m t = gate s.vocabulary n t) ∧
    ((∀ m, gate s.vocabulary m t = gate s.vocabulary (m &&& used) t) ↔
      ∀ rows, gateRows s.vocabulary t = .ok rows → ∀ r ∈ rows, r.line ≠ ['\n'] → (∃ m, r.isKept m = true) →
        ∀ test ∈ r.tests, used.isSet test.bit = true) ∧
    (f.Clean → (∀ g ∈ fragments.included f, g.Clean) →
      ∀ m, gate s.vocabulary m t = gate s.vocabulary (m &&& used) t) ∧
    ((start loader settings DryRun.empty).bumps ops < 2 ^ 64 → (s.linked fragments ctx).usedFlags = used) := by
  intro fragments used
  have hx : ((start loader settings DryRun.empty).run ops).Orderly :=
    orderly_run (orderly_start loader settings trivial rfl rfl) ops
  refine ⟨gate_restrict_iff_shared s.vocabulary used t, gate_restrict_iff s.vocabulary used t,
    fun hclean hincluded => ?_, fun hbumps => ?_⟩
  · refine (gate_restrict_iff s.vocabulary used t).2 fun rows hrows r hr _ _ => ?_
    have hrefers := Shader.refers_assembled hx.regular.fragments (hx.regular.shaders k s hs) hbound hf ht hclean hincluded
    refine bit_of_gateRows hrows (P := fun n => used.isSet n = true) (fun l hl n hn => ?_) r hr
    obtain ⟨name, hname, hbit⟩ := Option.bind_eq_some_iff.1 hn
    exact hrefers l hl name hname n hbit
  · have hcur : Current _ _ :=
      current_run (current_start loader settings (c := DryRun.empty) trivial rfl rfl) ops (by rwa [Nat.zero_add])
    exact (hcur.coherent k s hs).usedFlags_linked hctx

instance (t : Text) : Decidable t.Blank := List.decidableBAll (fun c => Text.isBlank c = true) t

instance (f : Fragment) : Decidable f.Clean :=
  List.decidableBAll (fun i : Include => (Text.restOfLine i.offset f.text).Blank) f.includes

/-- The vertex stage of a short run is gated for any mask like for its part in use. -/
theorem gate_usedFlags_litRun :
    ∃ s ctx n f t, litRun.library.assembled? ⟨1, 1⟩ 0 .vertex = some (s, ctx, n, f, t) ∧
      ∀ m, gate s.vocabulary m t = gate s.vocabulary (m &&& s.usedFlags litRun.library.fragments ctx.decl) t := by
  have hrun : (litRun.library.assembled? ⟨1, 1⟩ 0 .vertex).any fun a =>
      decide (a.2.2.2.1.Clean ∧ ∀ g ∈ litRun.library.fragments.included a.2.2.2.1, g.Clean) := by
    decide +kernel
  obtain ⟨⟨s, ctx, n, f, t⟩, ha, hclean⟩ := (Option.any_eq_true _ _).1 hrun
  obtain ⟨hf, hincluded⟩ := of_decide_eq_true hclean
  obtain ⟨hs, hctx, hbound, hsection, ht⟩ := Library.of_assembled? ha
  exact ⟨s, ctx, n, f, t, ha,
    (gate_usedFlags default default litOps hs hctx hbound hsection ht).2.2.1 hf hincluded⟩

/-- A shader in which a directive stands behind an include. -/
def gluedSource : Text :=
  litText ["[[VS]]\n", "#include \"skin\" ", "#ifdef SKINNING\n", "joint\n", "#endif\n", "[[FS]]\n",
    "void main() {}\n"]

def gluedRun : Session DryRun :=
  (Session.start default default .empty).run [.addFragment "skin" [], .loadShaderText "lit" gluedSource]

/-- The directive decides about a line, but its flag does not count as used. -/
theorem gate_usedFlags_glued :
    ∃ s ctx n f t, gluedRun.library.assembled? ⟨1, 1⟩ 0 .vertex = some (s, ctx, n, f, t) ∧
      gate s.vocabulary 1 t ≠ gate s.vocabulary (1 &&& s.usedFlags gluedRun.library.fragments ctx.decl) t := by
  have hrun : (gluedRun.library.assembled? ⟨1, 1⟩ 0 .vertex).any fun a =>
      decide (gate a.1.vocabulary 1 a.2.2.2.2 ≠
        gate a.1.vocabulary (1 &&& a.1.usedFlags gluedRun.library.fragments a.2.1.decl) a.2.2.2.2) := by
    decide +kernel
  obtain ⟨⟨s, ctx, n, f, t⟩, ha, hne⟩ := (Option.any_eq_true _ _).1 hrun
  exact ⟨s, ctx, n, f, t, ha, of_decide_eq_true hne⟩

end ShaderVariant
