import ShaderVariant.Proofs.Library.Avoids

/-!
# Integrity of includes

Whatever is included is stored. So nothing that is assembled or built fails for a fragment that is missing.

* `ShaderError.IsDangling` : a failure for a missing fragment;
* `expand_ne_dangling`, `assembleFragment_ne_dangling` : stored includes are expanded without one;
* `avoidable_dangling`, `Reachable.intact` : so reachable libraries avoid such failures (`Session.answer_dangling`);
* `includes_stored` : the includes of every reachable library are stored, and only an operation that names a fragment
  that is not stored answers that it is missing.
-/

namespace ShaderVariant

open FragmentStore (WellFormed)

/-! ## Assembly -/

namespace FragmentStore

theorem expand_ne_dangling {s : FragmentStore} (hs : WellFormed s) (path : List FragmentKey) (start : Nat) (rest : Text)
    {includes : List Include} (hi : ∀ i ∈ includes, s.contains i.target = true) (x : FragmentKey) :
    s.expand path start rest includes ≠ .error (.danglingFragment x) := by
  have stored : ∀ {k f}, s.get? k = some f → ∀ i ∈ f.includes, s.contains i.target = true :=
    fun hf i hi => hs.closed _ _ hf _ (List.mem_map_of_mem hi)
  fun_induction expand s path start rest includes with
  | case1 =>
    intro h
    cases h
  | case2 =>
    intro h
    cases h
  | case3 path start rest i more hmem hnone =>
    obtain ⟨f, hf⟩ := contains_iff.1 (hi i List.mem_cons_self)
    cases hnone.symm.trans hf
  | case4 path start rest i more hmem f hf e he ihf =>
    rw [← he]
    exact ihf (stored hf)
  | case5 path start rest i more hmem f hf inner hin e he ihf ihm =>
    rw [← he]
    exact ihm fun j hj => hi j (List.mem_cons_of_mem _ hj)
  | case6 =>
    intro h
    cases h

namespace WellFormed

variable {s : FragmentStore}

theorem expandFragment_ne_dangling (hs : WellFormed s) (path : List FragmentKey) {f : Fragment}
    (hf : ∀ y ∈ f.targets, s.contains y = true) (x : FragmentKey) :
    s.expandFragment path f ≠ .error (.danglingFragment x) :=
  expand_ne_dangling hs path 0 f.text (fun _ hi => hf _ (List.mem_map_of_mem hi)) x

theorem assemble_ne_dangling (hs : WellFormed s) {k : FragmentKey} (hk : s.contains k = true) (x : FragmentKey) :
    s.assemble k ≠ .error (.danglingFragment x) := by
  obtain ⟨f, hf⟩ := contains_iff.1 hk
  rw [assemble, hf]
  exact hs.expandFragment_ne_dangling [k] (hs.closed k f hf) x

theorem assembleFragment_ne_dangling (hs : WellFormed s) {f : Fragment} (hf : ∀ y ∈ f.targets, s.contains y = true)
    (home : Option FragmentKey) (x : FragmentKey) : s.assembleFragment f home ≠ .error (.danglingFragment x) := by
  unfold assembleFragment
  split
  · exact hs.expandFragment_ne_dangling [] hf x
  · exact hs.expandFragment_ne_dangling _ hf x

end WellFormed

end FragmentStore

/-! ## Libraries -/

def ShaderError.IsDangling (e : ShaderError) : Prop := ∃ x, e = .danglingFragment x

/-- Contexts are planned without missing fragments if the includes of the shader are stored. -/
theorem Shader.plansAvoid_dangling {w : Workspace} {s : Shader} (hw : WellFormed w.fragments)
    (hs : ∀ f ∈ s.sections, ∀ y ∈ f.targets, w.fragments.contains y = true) :
    s.PlansAvoid ShaderError.IsDangling w := by
  refine .of_sections (fun d _ e he => ?_) (fun d _ b _ e he => ?_) nofun
  · obtain ⟨fault, -, rfl⟩ := Option.map_eq_some_iff.1 he
    nofun
  · unfold expandSection at he
    split at he
    · cases he
      nofun
    · next f hf =>
      rintro ⟨x, rfl⟩
      exact hw.assembleFragment_ne_dangling (hs f (List.mem_of_getElem? hf)) none x he

namespace Library

variable {l : Library}

/-- New content includes stored fragments only. -/
theorem avoidable_dangling : Avoidable ShaderError.IsDangling where
  assembly e he := by
    obtain ⟨x, rfl⟩ := he
    exact .danglingFragment x
  contents s _ _ hw hq := Shader.plansAvoid_dangling hw fun f hf => (hq.resolves f hf).stored

theorem Regular.plansAvoid_dangling (hl : l.Regular) : l.PlansAvoid ShaderError.IsDangling := fun k s hs =>
  Shader.plansAvoid_dangling hl.fragments fun f hf => ((hl.shaders k s hs).resolves f hf).stored

theorem Reachable.intact (h : l.Reachable) : l.Avoids ShaderError.IsDangling :=
  (h.of_steps (fun _ _ _ _ hs => nomatch hs)
    (fun hq hr ha => hq.avoids avoidable_dangling hr ha (hq.regular hr).plansAvoid_dangling)
    fun ht hr ha => ht.avoids hr ha (ht.regular hr).plansAvoid_dangling).2

end Library

/-- An answer tells of a missing fragment only if the operation named it. -/
theorem Session.answer_dangling {σ : Type} [ProgramCompiler σ] {y : Session σ} (hl : y.library.Regular)
    (hi : y.library.Avoids ShaderError.IsDangling) {op : Operation} {x : FragmentKey}
    (h : .danglingFragment x ∈ (y.answer op).errors) :
    op.fragmentKey? = some x ∧ y.library.fragments.contains x = false := by
  obtain ⟨x', hx, hop, hmissing⟩ := answer_avoids Library.avoidable_dangling hl.fragments hi h ⟨x, rfl⟩
  cases hx
  exact ⟨hop, hmissing⟩

/-! ## Includes are stored -/

/-- In every reachable library all that stored fragments and the sections of shaders include is stored. So no stored
fragment, and no other one that includes stored fragments only, is assembled with a missing fragment, and whatever
operation follows, with whatever compiler, it tells of a missing fragment only if it named that fragment itself: no
build does. -/
theorem includes_stored {l : Library} (h : l.Reachable) :
    (∀ k f, l.fragments.get? k = some f → ∀ x ∈ f.targets, l.fragments.contains x = true) ∧
    (∀ k s, l.shader? k = some s → ∀ f ∈ s.sections, ∀ x ∈ f.targets, l.fragments.contains x = true) ∧
    (∀ k, l.fragments.contains k = true → ∀ x, l.fragments.assemble k ≠ .error (.danglingFragment x)) ∧
    (∀ f, (∀ y ∈ f.targets, l.fragments.contains y = true) → ∀ home x,
      l.fragments.assembleFragment f home ≠ .error (.danglingFragment x)) ∧
    ∀ {σ : Type} [ProgramCompiler σ] (c : σ) (op : Operation) (x : FragmentKey),
      .danglingFragment x ∈ ((⟨l, c⟩ : Session σ).answer op).errors →
        op.fragmentKey? = some x ∧ l.fragments.contains x = false := by
  have hl := h.regular
  refine ⟨hl.fragments.closed, fun k s hs f hf => ((hl.shaders k s hs).resolves f hf).stored, fun k hk x => ?_,
    fun f hf home x => ?_, fun c op x hx => ?_⟩
  · exact hl.fragments.assemble_ne_dangling hk x
  · exact hl.fragments.assembleFragment_ne_dangling hf home x
  · exact Session.answer_dangling (y := ⟨l, c⟩) hl h.intact hx

/-- After a short run a shader includes a fragment, which is stored, and an update that names another key is told that
there is no such fragment. -/
theorem includes_stored_litRun :
    (∃ s, litRun.library.shader? ⟨1, 1⟩ = some s ∧ ∃ f ∈ s.sections, ⟨1, 1⟩ ∈ f.targets ∧
      litRun.library.fragments.contains ⟨1, 1⟩ = true ∧
        ∀ x, litRun.library.fragments.assemble ⟨1, 1⟩ ≠ .error (.danglingFragment x)) ∧
    .danglingFragment ⟨2, 1⟩ ∈ (litRun.answer (.updateFragment ⟨2, 1⟩ [])).errors ∧
      litRun.library.fragments.contains ⟨2, 1⟩ = false := by
  have hreach : litRun.library.Reachable := .run (.new default default) litOps
  have hrun : (litRun.library.shader? ⟨1, 1⟩).any (fun s => s.sections.any (·.includesDirectly ⟨1, 1⟩)) ∧
      .danglingFragment ⟨2, 1⟩ ∈ (litRun.answer (.updateFragment ⟨2, 1⟩ [])).errors := by
    decide +kernel
  obtain ⟨hlit, hupdate⟩ := hrun
  obtain ⟨-, hsections, hassemble, -, hanswer⟩ := includes_stored hreach
  refine ⟨?_, hupdate, (hanswer litRun.compiler _ _ hupdate).2⟩
  obtain ⟨s, hs, hany⟩ := (Option.any_eq_true _ _).1 hlit
  obtain ⟨f, hf, hk⟩ := List.any_eq_true.1 hany
  have hk' := List.contains_iff_mem.1 hk
  have hstored := hsections ⟨1, 1⟩ s hs f hf ⟨1, 1⟩ hk'
  exact ⟨s, hs, f, hf, hk', hstored, hassemble ⟨1, 1⟩ hstored⟩

end ShaderVariant
