import ShaderVariant.Proofs.Except
import ShaderVariant.Proofs.Shader.Work

/-!
# Failures that a shader avoids

Look-ups and compilers fail in ways of their own. All other failures that a shader tells of are those of its plans, so
kinds of failure that its plans avoid are never met.

* `ShaderError.OfAssembly` : the failures of assembling sources;
* `FragmentStore.expand_error`, `Shader.freshSources_error` : sources fail where a section is not expanded, for a cycle
  or a missing fragment, or where its conditionals are at fault. Those are all of that kind
  (`Shader.ofAssembly_of_freshSources`);
* `Shader.PlansAvoid`, `PlansAvoid.plan` : the contexts of a shader are planned without failures of a kind
  (`PlansAvoid.of_sections`);
* `Shader.Avoids` : and no combination keeps such a failure. Work keeps that (`Work.avoids`);
* `build_avoids`, `ensure_avoids`, `getCombination_avoids`, `compileContexts_avoids`, `assembleStageSources_avoids` : so no
  operation on the shader fails in such a way.
-/

namespace ShaderVariant

open Relation (ReflTransGen)

inductive ShaderError.OfAssembly : ShaderError → Prop
  | cyclicDependency (cycle : List String) : OfAssembly (.cyclicDependency cycle)
  | danglingFragment (key : FragmentKey) : OfAssembly (.danglingFragment key)
  | conditional (line : UInt32) (cause : ConditionalFault) : OfAssembly (.conditional line cause)
  | invalidContext (shader context : String) (cause : ContextFault) : OfAssembly (.invalidContext shader context cause)

/-- Expanding fails for a cycle or for a missing fragment. -/
theorem FragmentStore.expand_error {fragments : FragmentStore} {path : List FragmentKey} {start : Nat} {rest : Text}
    {includes : List Include} {e : ShaderError} (h : fragments.expand path start rest includes = .error e) :
    (∃ cycle, e = .cyclicDependency cycle) ∨ ∃ key, e = .danglingFragment key := by
  fun_induction expand fragments path start rest includes generalizing e with
  | case1 => cases h
  | case2 =>
    cases h
    exact Or.inl ⟨_, rfl⟩
  | case3 =>
    cases h
    exact Or.inr ⟨_, rfl⟩
  | case4 path start rest i more hmem f hf e' he ihf =>
    cases h
    exact ihf he
  | case5 path start rest i more hmem f hf inner hin e' he ihf ihm =>
    cases h
    exact ihm he
  | case6 => cases h

theorem FragmentStore.assembleFragment_error {fragments : FragmentStore} {f : Fragment} {home : Option FragmentKey}
    {e : ShaderError} (h : fragments.assembleFragment f home = .error e) :
    (∃ cycle, e = .cyclicDependency cycle) ∨ ∃ key, e = .danglingFragment key := by
  unfold assembleFragment at h
  split at h
  · exact expand_error h
  · exact expand_error h

theorem gate_error {v : Vocabulary} {m : Mask} {t : Text} {e : ShaderError} (h : gate v m t = .error e) :
    ∃ line cause, e = .conditional line cause := by
  unfold gate at h
  split at h
  · next line cause _ =>
    cases h
    exact ⟨line, cause, rfl⟩
  · cases h

namespace Shader

/-! ## Plans -/

theorem freshSource_error {w : Workspace} {m : Mask} {s : Shader} {b : Stage × Nat} {e : ShaderError}
    (h : s.freshSource w m b = .error e) :
    s.expandSection w b.2 = .error e ∨ ∃ line cause, e = .conditional line cause := by
  unfold freshSource at h
  split at h
  · next he =>
    cases h
    exact Or.inl he
  · unfold finishStage at h
    rw [map_eq_error_iff, map_eq_error_iff] at h
    exact Or.inr (gate_error h)

/-- Sources fail where a section is not expanded, or where its conditionals are at fault. -/
theorem freshSources_error {w : Workspace} {m : Mask} {s : Shader} {bound : List (Stage × Nat)} {e : ShaderError}
    (h : s.freshSources w m bound = .error e) :
    (∃ b ∈ bound, s.expandSection w b.2 = .error e) ∨ ∃ line cause, e = .conditional line cause := by
  induction bound with
  | nil => cases h
  | cons b bound ih =>
    rw [freshSources] at h
    split at h
    · next he =>
      cases h
      exact (freshSource_error he).imp_left fun hb => ⟨b, List.mem_cons_self, hb⟩
    · rcases ih (map_eq_error_iff.1 h) with ⟨b', hb', hb⟩ | hline
      · exact Or.inl ⟨b', List.mem_cons_of_mem _ hb', hb⟩
      · exact Or.inr hline

/-- Without sources, sections are missing or not expanded, or conditionals are at fault. -/
theorem ofAssembly_of_freshSources {w : Workspace} {m : Mask} {s : Shader} {bound : List (Stage × Nat)}
    {e : ShaderError} (h : s.freshSources w m bound = .error e) : e.OfAssembly := by
  obtain ⟨b, -, hb⟩ | ⟨line, cause, rfl⟩ := freshSources_error h
  · unfold expandSection at hb
    split at hb
    · cases hb
      exact .invalidContext _ _ _
    · obtain ⟨cycle, rfl⟩ | ⟨key, rfl⟩ := FragmentStore.assembleFragment_error hb
      · exact .cyclicDependency cycle
      · exact .danglingFragment key
  · exact .conditional line cause

/-- The contexts of the shader are planned without failures of the kind `N`: their stages form programs or fail in
other ways, and so do the sources of their stages. -/
structure PlansAvoid (N : ShaderError → Prop) (w : Workspace) (s : Shader) : Prop where
  stages : ∀ d ∈ s.contexts.map Context.decl, ∀ e, d.error? s.name = some e → ¬ N e
  sources : ∀ d ∈ s.contexts.map Context.decl, ∀ m e, s.freshSources w m d.stages.toList = .error e → ¬ N e

/-- Besides, no combination keeps such a failure. -/
structure Avoids (N : ShaderError → Prop) (w : Workspace) (s : Shader) : Prop extends PlansAvoid N w s where
  remembers : s.Remembers w
  kept : ∀ ctx ∈ s.contexts, ∀ key b, ctx.combination? key = some b → ∀ e, b.lastError = some e → ¬ N e

variable {N : ShaderError → Prop} {w : Workspace} {s s' : Shader}

namespace PlansAvoid

/-- Plans avoid what no stages, no sections and no conditionals fail with. -/
theorem of_sections (hstages : ∀ d ∈ s.contexts.map Context.decl, ∀ e, d.error? s.name = some e → ¬ N e)
    (hsections : ∀ d ∈ s.contexts.map Context.decl, ∀ b ∈ d.stages.toList, ∀ e,
      s.expandSection w b.2 = .error e → ¬ N e)
    (hconditionals : ∀ line cause, ¬ N (.conditional line cause)) : s.PlansAvoid N w := by
  refine ⟨hstages, fun d hd m e he => ?_⟩
  rcases freshSources_error he with ⟨b, hb, hb'⟩ | ⟨line, cause, rfl⟩
  · exact hsections d hd b hb e hb'
  · exact hconditionals line cause

theorem plan (h : s.PlansAvoid N w) {ctx : Context} (hctx : ctx ∈ s.contexts) {key : Mask} {e : ShaderError}
    (he : s.plan w ctx.decl key = .error e) : ¬ N e := by
  have hd := List.mem_map_of_mem (f := Context.decl) hctx
  unfold Shader.plan at he
  split at he
  · next hstages =>
    cases he
    exact h.stages _ hd _ hstages
  · exact h.sources _ hd key e he

theorem frame (h : s.PlansAvoid N w) (hf : Frame s s') : s'.PlansAvoid N w := by
  constructor
  · rw [hf.decls, hf.name]
    exact h.stages
  · rw [hf.decls]
    intro d hd m e he
    rw [(hf.sameText w).freshSources_congr] at he
    exact h.sources d hd m e he

end PlansAvoid

theorem Avoids.of_blank (h : s.PlansAvoid N w) (hr : s.Remembers w)
    (hb : ∀ ctx ∈ s.contexts, ctx.combinations = []) : s.Avoids N w := by
  refine ⟨h, hr, fun ctx hctx key b hkey => ?_⟩
  rw [Context.combination?, hb ctx hctx] at hkey
  cases hkey

/-! ## Work -/

variable {σ : Type} [ProgramCompiler σ] (hN : ∀ e, N e → e.OfAssembly)

include hN

theorem loadError?_avoids {e : ShaderError} (h : s.loadError? = some e) : ¬ N e := by
  obtain ⟨diagnostic, -, rfl⟩ := Option.map_eq_some_iff.1 h
  exact fun hn => nomatch hN _ hn

theorem noContext_avoids (s : Shader) (name : String) : ¬ N (s.noContext name) := fun hn => nomatch hN _ hn

theorem BuildFails.avoids {ctx : Context} {key : Mask} {c c' : σ} {e : ShaderError}
    (h : BuildFails w s ctx.decl key c e c') (hs : s.PlansAvoid N w) (hctx : ctx ∈ s.contexts) : ¬ N e := by
  cases h with
  | unplanned h => exact hs.plan hctx h
  | refused => exact fun hn => nomatch hN _ hn

theorem Work.avoids {y z : Shader × σ} (h : Work w y z) (hy : y.1.Avoids N w) : z.1.Avoids N w := by
  refine ⟨hy.toPlansAvoid.frame h.frame, h.remembers hy.remembers, fun ctx hm key b hb e he => ?_⟩
  rcases h.lastError hm hb with ⟨old, hold, hb'⟩ | hnone | ⟨old, hold, e', c', he', hfails⟩
  · exact hy.kept old hold key b hb' e he
  · cases hnone.symm.trans he
  · cases he'.symm.trans he
    exact hfails.avoids hN hy.toPlansAvoid hold

theorem Work.avoids_of_steps {y z : Shader × σ} (h : ReflTransGen (Work w) y z) (hy : y.1.Avoids N w) :
    z.1.Avoids N w := by
  induction h with
  | refl => exact hy
  | tail _ hstep ih => exact hstep.avoids hN ih

/-! ## Builds -/

theorem build_avoids (hs : s.Avoids N w) (i : Nat) {ctx : Context} (hctx : ctx ∈ s.contexts) (key : Mask) (c : σ)
    {e : ShaderError} (he : (s.build w i ctx.decl key c).1 = .error e) : ¬ N e := by
  cases hp : s.prepare w i ctx.decl key with
  | mk r s₁ =>
    obtain ⟨-, -, hplan⟩ := prepare_spec hs.remembers hp c
    unfold build at he
    rw [hp] at he
    cases r with
    | error e' =>
      cases he
      exact hs.plan hctx hplan
    | ok stages =>
      simp only at he
      split at he
      · cases he
        exact fun hn => nomatch hN _ hn
      · cases he

theorem ensure_avoids (hs : s.Avoids N w) (i : Nat) (m : Mask) (c : σ) {e : ShaderError}
    (he : (s.ensure w i m c).1 = .error e) : ¬ N e := by
  rcases ensure_cases w i m s c with ⟨e', hcause, heq⟩ | ⟨ctx, key, s₁, hload, hctx, hk, hcase⟩
  · rw [heq] at he
    cases he
    rcases hcause with h | ⟨rfl, -⟩
    · exact loadError?_avoids hN h
    · exact noContext_avoids hN s _
  · rcases hcase with ⟨b, hb, -, heq⟩ | ⟨-, heq⟩
    · rw [heq] at he
      cases hlast : b.lastError with
      | none =>
        rw [hlast] at he
        cases he
      | some e' =>
        rw [hlast] at he
        cases he
        exact hs.kept ctx (List.mem_of_getElem? hctx) key b hb e hlast
    · rw [heq] at he
      -- Reducing the mask links the context at most, which keeps what is declared.
      have hs₁ : s₁.Avoids N w := by
        rcases combinationKey_cases hk with rfl | rfl
        · exact hs
        · exact (Work.link s c i).avoids hN hs
      obtain ⟨ctx₁, hctx₁, hdecl, -⟩ := getElem?_prepare ((combinationKey_cases hk).imp_right (congrArg contexts)) hctx
      rw [← hdecl] at he
      exact build_avoids hN hs₁ i (List.mem_of_getElem? hctx₁) key c (map_eq_error_iff.1 he)

theorem getCombination_avoids (hs : s.Avoids N w) (context : String) (m : Mask) (c : σ) {e : ShaderError}
    (he : (s.getCombination w context m c).1 = .error e) : ¬ N e := by
  unfold getCombination at he
  split at he
  · next hload =>
    cases he
    exact loadError?_avoids hN hload
  · split at he
    · cases he
      exact noContext_avoids hN s context
    · next i _ =>
      unfold getCombinationAt at he
      split at he
      · next hensure =>
        cases he
        exact ensure_avoids hN hs i m c (congrArg Prod.fst hensure)
      · cases he

omit hN in
theorem ofOutcome_errors {r : Except ShaderError (Combination × Bool)} {e : ShaderError}
    (h : e ∈ (BuildReport.ofOutcome r).errors) : r = .error e := by
  rcases r with e' | ⟨b, _ | _⟩
  · rw [List.mem_singleton.1 h]
  · cases h
  · cases h

theorem ensureAll_avoids (i : Nat) (ms : List Mask) {s : Shader} (hs : s.Avoids N w) (c : σ) {e : ShaderError}
    (he : e ∈ (s.ensureAll w i ms c).1.errors) : ¬ N e := by
  induction ms generalizing s c with
  | nil => cases he
  | cons m ms ih =>
    have hm := Work.avoids_of_steps hN (ensure_work hs.remembers i m c) hs
    rcases List.mem_append.1 he with he | he
    · exact ensure_avoids hN hs i m c (ofOutcome_errors he)
    · exact ih hm _ he

theorem compileEach_avoids (masks : List Mask) (is : List Nat) {s : Shader} (hs : s.Avoids N w) (c : σ)
    {e : ShaderError} (he : e ∈ (s.compileEach w masks is c).1.errors) : ¬ N e := by
  induction is generalizing s c with
  | nil => cases he
  | cons i is ih =>
    have hlink := (Work.link s c i).avoids hN hs
    have hall := Work.avoids_of_steps hN (ensureAll_work i masks hlink.remembers c) hlink
    have hcover := (Work.cover _ (σ := σ) ((s.link w.fragments i).ensureAll w i masks c).2.2 i).avoids hN hall
    rcases List.mem_append.1 he with he | he
    · exact ensureAll_avoids hN i masks hlink c he
    · exact ih hcover _ he

theorem compileContexts_avoids (hs : s.Avoids N w) (c : σ) {e : ShaderError}
    (he : e ∈ (s.compileContexts w c).1.errors) : ¬ N e := by
  unfold compileContexts at he
  split at he
  · next hload =>
    rw [List.mem_singleton.1 he]
    exact loadError?_avoids hN hload
  · exact compileEach_avoids hN s.preLoad _ hs c he

theorem assembleStageSources_avoids (hs : s.Avoids N w) (i : Nat) (m : Mask) {e : ShaderError}
    (he : (s.assembleStageSources w i m).1 = .error e) : ¬ N e := by
  unfold assembleStageSources at he
  split at he
  · next hload =>
    cases he
    exact loadError?_avoids hN hload
  · split at he
    · cases he
      exact noContext_avoids hN s _
    · next ctx hctx =>
      rw [(stageSources_spec m _ hs.remembers).1] at he
      exact hs.sources _ (List.mem_map_of_mem (List.mem_of_getElem? hctx)) m e he

end Shader

end ShaderVariant
