import ShaderVariant.Proofs.Library.Reachable
import ShaderVariant.Proofs.Shader.Avoids

/-!
# Failures that a library avoids

Loading fails for sources, and everything else fails as the shaders of the library do. So failures of assembly that all
shaders avoid are not met, but for a fragment that an operation names itself.

* `Library.Avoidable` : a kind of failures of assembly that new content avoids;
* `Library.Avoids` : all shaders avoid them. Steps keep that where plans do (`Quiet.avoids`, `Turn.avoids`);
* `Session.answer_avoids` : an answer tells of such a failure only if it is of a fragment that is not stored, and that the
  operation names.
-/

namespace ShaderVariant

open FragmentStore (WellFormed)
open Relation (ReflTransGen)

theorem ShaderError.OfSource.not_ofAssembly {e : ShaderError} (h : e.OfSource) : ¬ e.OfAssembly := by
  cases h <;> nofun

namespace Library

structure Avoidable (N : ShaderError → Prop) : Prop where
  assembly : ∀ e, N e → e.OfAssembly
  contents : ∀ {l : Library} (s : Shader) {source : ShaderSource} {sections : List Fragment}, WellFormed l.fragments →
    l.Contents s.name source sections → (s.apply source sections).PlansAvoid N l.workspace

/-- The contexts of all shaders are planned without failures of the kind `N`. -/
def PlansAvoid (N : ShaderError → Prop) (l : Library) : Prop :=
  ∀ k s, l.shader? k = some s → s.PlansAvoid N l.workspace

def Avoids (N : ShaderError → Prop) (l : Library) : Prop := ∀ k s, l.shader? k = some s → s.Avoids N l.workspace

variable {N : ShaderError → Prop} {l l' : Library} {e : ShaderError}

theorem Avoidable.not_of_source (hN : Avoidable N) (h : e.OfSource) : ¬ N e := fun hn =>
  h.not_ofAssembly (hN.assembly e hn)

theorem Avoidable.not_of_noShader (hN : Avoidable N) (k : ShaderKey) : ¬ N (noShader k) := fun hn =>
  nomatch hN.assembly _ hn

theorem Avoids.setShader (hN : Avoidable N) (h : l.Avoids N) {σ : Type} [ProgramCompiler σ] {k : ShaderKey}
    {s s' : Shader} {c c' : σ} (hs : l.shader? k = some s)
    (hw : ReflTransGen (Shader.Work l.workspace) (s, c) (s', c')) : (l.setShader k s').Avoids N := by
  intro x t ht
  rw [shader?_setShader] at ht
  split at ht
  · next hx =>
    subst hx
    rw [hs] at ht
    cases ht
    exact Shader.Work.avoids_of_steps hN.assembly hw (h k s hs)
  · exact h x t ht

end Library

/-! ## Steps -/

namespace Session

open Library (Avoidable)

variable {N : ShaderError → Prop} {σ : Type} [ProgramCompiler σ] {x y : Session σ}

theorem Quiet.avoids (hN : Avoidable N) (h : Quiet x y) (hx : x.library.Regular) (ha : x.library.Avoids N)
    (hp : y.library.PlansAvoid N) : y.library.Avoids N := by
  intro k s' hs'
  obtain ⟨s, hs, ⟨rfl, -⟩ | ⟨hw, hwork⟩⟩ := h.shader hx hs'
  · exact ⟨hp k s' hs', ((h.regular hx).shaders k s' hs').remembers, (ha k s' hs).kept⟩
  · rw [hw]
    exact hwork.avoids hN.assembly (ha k s hs)

theorem Turn.avoids (h : Turn x y) (hx : x.library.Regular) (ha : x.library.Avoids N)
    (hp : y.library.PlansAvoid N) : y.library.Avoids N := by
  intro k s' hs'
  have hremembers := ((h.regular hx).shaders k s' hs').remembers
  have blank : (∀ ctx ∈ s'.contexts, ctx.linkedAt = none ∧ ctx.combinations = []) → s'.Avoids N y.library.workspace :=
    fun hb => .of_blank (hp k s' hs') hremembers fun ctx hctx => (hb ctx hctx).2
  cases h.shader hx hs' with
  | stays hs => exact ⟨hp k s' hs', hremembers, (ha k s' hs).kept⟩
  | stale hs => exact ⟨hp k _ hs', hremembers, (ha k _ hs).kept⟩
  | refilled _ _ hf => exact blank hf.blank
  | registered _ hf =>
    rcases hf with rfl | hf
    · exact blank fun _ hctx => absurd hctx List.not_mem_nil
    · exact blank hf.blank

end Session

/-! ## Answers -/

namespace Library

variable {N : ShaderError → Prop} {l : Library} {e : ShaderError} (hN : Avoidable N)

include hN

theorem Attempt.avoids {α : Type} {Q : α → Library → Prop} {p : Except ShaderError α × Library} (h : l.Attempt Q p)
    (he : p.1 = .error e) : ¬ N e := by
  cases h with
  | failed h => exact Except.error.inj he ▸ hN.not_of_source h.ofSource
  | done => cases he

theorem Replaced.avoids {k : FragmentKey} {p : Except ShaderError Nat × Library} (h : l.Replaced k p)
    (he : p.1 = .error e) (hn : N e) : e = .danglingFragment k ∧ l.fragments.contains k = false := by
  cases h with
  | missing h => exact ⟨(Except.error.inj he).symm, h⟩
  | failed h => exact absurd (Except.error.inj he ▸ hn) (hN.not_of_source h.ofSource)
  | edited h => cases he

theorem Added.avoids {name : String} {p : Except ShaderError FragmentKey × Library} (h : l.Added name p)
    (he : p.1 = .error e) : ¬ N e := by
  cases h with
  | failed h => exact Except.error.inj he ▸ hN.not_of_source h.ofSource
  | edited => cases he
  | new => cases he

theorem Opened.avoids {name : String} {p : Except ShaderError ShaderKey × Library} (h : l.Opened name p)
    (he : p.1 = .error e) : ¬ N e := by
  cases h with
  | newFailed _ h => exact Except.error.inj he ▸ hN.not_of_source h.ofSource
  | oldFailed _ _ h => exact Except.error.inj he ▸ hN.not_of_source h.ofSource
  | kept => cases he
  | registered => cases he
  | refilled => cases he

theorem removeFragment_avoids {k : FragmentKey} (he : (l.removeFragment k).1 = .error e) (hn : N e) :
    e = .danglingFragment k ∧ l.fragments.contains k = false := by
  unfold removeFragment at he
  split at he
  · next hk => exact ⟨(Except.error.inj he).symm, contains_eq_false hk⟩
  · split at he
    · cases he
      cases hN.assembly _ hn
    · cases he

variable {σ : Type} [ProgramCompiler σ]

theorem Reloaded.avoids {k : ShaderKey} {s : Shader} {c : σ} {p : Except ShaderError BuildReport × Library × σ}
    (h : l.Reloaded k s c p) (he : e ∈ (Answer.built p.1).errors) : ¬ N e := by
  cases h with
  | failed h => exact List.mem_singleton.1 he ▸ hN.not_of_source h.ofSource
  | applied h hq => cases he
  | @compiled source sections l' report s' c' h hq hc =>
    have hfresh : (s.apply source sections).Avoids N l'.workspace := by
      refine .of_blank (hN.contents s h.wf hq) (Shader.remembers_of_memo_nil rfl) fun ctx hctx => ?_
      obtain ⟨d, -, rfl⟩ := List.mem_map.1 hctx
      rfl
    refine Shader.compileContexts_avoids hN.assembly hfresh (Shader.releaseAll s.programs c) ?_
    rw [hc]
    exact he

theorem reloadShader_avoids (hl : WellFormed l.fragments) (k : ShaderKey) (c : σ)
    (he : e ∈ (Answer.built (l.reloadShader k c).1).errors) : ¬ N e := by
  cases hs : l.shader? k with
  | none =>
    unfold reloadShader at he
    simp only [hs] at he
    exact List.mem_singleton.1 he ▸ hN.not_of_noShader k
  | some s => exact (reloaded_reloadShader hl hs c).avoids hN he

theorem reloadShaderText_avoids (hl : WellFormed l.fragments) (k : ShaderKey) (t : Text) (c : σ)
    (he : e ∈ (Answer.built (l.reloadShaderText k t c).1).errors) : ¬ N e := by
  cases hs : l.shader? k with
  | none =>
    unfold reloadShaderText at he
    simp only [hs] at he
    exact List.mem_singleton.1 he ▸ hN.not_of_noShader k
  | some s => exact (reloaded_reloadShaderText hl l.loader hs t c).avoids hN he

theorem compileContexts_avoids (ha : l.Avoids N) (k : ShaderKey) (c : σ)
    (he : e ∈ (Answer.built (l.compileContexts k c).1).errors) : ¬ N e := by
  unfold compileContexts at he
  split at he
  · exact List.mem_singleton.1 he ▸ hN.not_of_noShader k
  · next s hs => exact Shader.compileContexts_avoids hN.assembly (ha k s hs) c he

theorem compileEach_avoids (ks : List ShaderKey) (ha : l.Avoids N) (c : σ) (he : e ∈ (l.compileEach ks c).1.errors) :
    ¬ N e := by
  induction ks generalizing l c with
  | nil => cases he
  | cons k ks ih =>
    unfold compileEach at he
    split at he
    · exact ih ha c he
    · next s hs =>
      split at he
      · have hwork := Shader.compileContexts_work (ha k s hs).remembers c
        rcases List.mem_append.1 he with he | he
        · exact Shader.compileContexts_avoids hN.assembly (ha k s hs) c he
        · exact ih (ha.setShader hN hs hwork) _ he
      · exact ih ha c he

theorem getCombination_avoids (ha : l.Avoids N) (k : ShaderKey) (context : String) (m : Mask) (c : σ)
    (he : (l.getCombination k context m c).1 = .error e) : ¬ N e := by
  unfold getCombination at he
  split at he
  · exact Except.error.inj he ▸ hN.not_of_noShader k
  · next s hs => exact Shader.getCombination_avoids hN.assembly (ha k s hs) context m c he

theorem assembleStageSources_avoids (ha : l.Avoids N) (k : ShaderKey) (context : String) (m : Mask)
    (he : (l.assembleStageSources k context m).1 = .error e) : ¬ N e := by
  unfold assembleStageSources at he
  split at he
  · exact Except.error.inj he ▸ hN.not_of_noShader k
  · next s hs =>
    split at he
    · exact Except.error.inj he ▸ Shader.noContext_avoids hN.assembly s context
    · next i _ => exact Shader.assembleStageSources_avoids hN.assembly (ha k s hs) i m he

end Library

/-- An answer tells of such a failure only if it is of a missing fragment, and then of one that the operation names. -/
theorem Session.answer_avoids {N : ShaderError → Prop} (hN : Library.Avoidable N) {σ : Type} [ProgramCompiler σ]
    {y : Session σ} (hl : WellFormed y.library.fragments) (ha : y.library.Avoids N) {op : Operation} {e : ShaderError}
    (he : e ∈ (y.answer op).errors) (hn : N e) :
    ∃ x, e = .danglingFragment x ∧ op.fragmentKey? = some x ∧ y.library.fragments.contains x = false := by
  have named {x : FragmentKey} (hop : op.fragmentKey? = some x)
      (h : e = .danglingFragment x ∧ y.library.fragments.contains x = false) :
      ∃ x, e = .danglingFragment x ∧ op.fragmentKey? = some x ∧ y.library.fragments.contains x = false :=
    ⟨x, h.1, hop, h.2⟩
  cases op with
  | addFragment name t => exact absurd hn ((Library.added_addFragment hl name t).avoids hN (mem_failures.1 he))
  | loadFragment name => exact absurd hn ((Library.attempt_loadFragment hl name).avoids hN (mem_failures.1 he))
  | updateFragment k t => exact named rfl ((Library.replaced_updateFragment hl k t).avoids hN (mem_failures.1 he) hn)
  | reloadFragment k => exact named rfl ((Library.replaced_reloadFragment hl k).avoids hN (mem_failures.1 he) hn)
  | removeFragment k => exact named rfl (Library.removeFragment_avoids hN (mem_failures.1 he) hn)
  | loadShader name => exact absurd hn ((Library.opened_loadShader hl name).avoids hN (mem_failures.1 he))
  | loadShaderText name t => exact absurd hn ((Library.opened_loadShaderText hl name t).avoids hN (mem_failures.1 he))
  | reloadShader k => exact absurd hn (Library.reloadShader_avoids hN hl k y.compiler he)
  | reloadShaderText k t => exact absurd hn (Library.reloadShaderText_avoids hN hl k t y.compiler he)
  | preLoadMask k m =>
    have hnone := mem_failures.1 he
    unfold Library.preLoadMask at hnone
    split at hnone
    · exact absurd hn (Except.error.inj hnone ▸ hN.not_of_noShader k)
    · cases hnone
  | compileContexts k => exact absurd hn (Library.compileContexts_avoids hN ha k y.compiler he)
  | compileAll => exact absurd hn (Library.compileEach_avoids hN _ ha y.compiler he)
  | getCombination k context m =>
    exact absurd hn (Library.getCombination_avoids hN ha k context m y.compiler (mem_failures.1 he))
  | assembleStageSources k context m =>
    exact absurd hn (Library.assembleStageSources_avoids hN ha k context m (mem_failures.1 he))
  | _ => cases he

end ShaderVariant
