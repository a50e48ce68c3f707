import ShaderVariant.Proofs.Library.Isolation
import ShaderVariant.Proofs.Shader.Eager

/-!
# Shaders with new content

* `Shader.Adds` : steps add certain combinations, all of the present generation, and only compile. Where nothing is stale a
  pass over masks does no more than that (`adds_ensure`, `adds_ensureAll`, `adds_compileEach`);
* `Shader.renew` : a shader gives its programs back and gets content, and is compiled again if it was ready;
* `renew_spec` : it holds just the combinations of the masks that were asked for then, or none if it was not ready.
-/

namespace ShaderVariant

open Relation (ReflTransGen)

namespace Shader

/-! ## Combinations that are added -/

def Stamped (s : Shader) : Prop := ∀ i key b, s.kept? i key = some b → b.stamp = s.generation

theorem Stamped.undisturbed {s s' : Shader} (hs : s.Stamped) (h : Undisturbed s s') : s'.Stamped := by
  intro i key b hb
  rw [h.kept] at hb
  exact (hs i key b hb).trans h.generation.symm

/-- A shader after steps that add the combinations of `Q` where they are missing, and the calls that were made. -/
structure Adds (s s' : Shader) (Q : Nat → Mask → Prop) (calls : List CompilerCall) : Prop extends Unmoved s s' where
  stamped : s'.Stamped
  kept : ∀ i key, (s'.kept? i key).isSome = true ↔ (s.kept? i key).isSome = true ∨ Q i key
  compiles : ∀ call ∈ calls, ∃ q r, call = .compile q r

namespace Adds

variable {s s' s'' : Shader} {Q Q' : Nat → Mask → Prop} {calls calls' : List CompilerCall}

theorem refl (hs : s.Stamped) (hq : ∀ i key, ¬Q i key) : Adds s s Q [] :=
  ⟨.refl s, hs, fun i key => by rw [or_iff_left (hq i key)], fun _ hc => absurd hc List.not_mem_nil⟩

theorem after (h : Undisturbed s s') (h' : Adds s' s'' Q calls) : Adds s s'' Q calls :=
  ⟨h.toUnmoved.trans h'.toUnmoved, h'.stamped, fun i key => by rw [h'.kept, h.kept], h'.compiles⟩

theorem before (h : Adds s s' Q calls) (h' : Undisturbed s' s'') : Adds s s'' Q calls :=
  ⟨h.toUnmoved.trans h'.toUnmoved, h.stamped.undisturbed h', fun i key => by rw [h'.kept, h.kept], h.compiles⟩

theorem trans (h : Adds s s' Q calls) (h' : Adds s' s'' Q' calls') :
    Adds s s'' (fun i key => Q i key ∨ Q' i key) (calls' ++ calls) := by
  refine ⟨h.toUnmoved.trans h'.toUnmoved, h'.stamped, fun i key => ?_, fun call hc => ?_⟩
  · rw [h'.kept, h.kept, or_assoc]
  · exact (List.mem_append.1 hc).elim (h'.compiles call) (h.compiles call)

theorem congr (h : Adds s s' Q calls) (hq : ∀ i key, Q' i key ↔ Q i key) : Adds s s' Q' calls :=
  ⟨h.toUnmoved, h.stamped, fun i key => by rw [h.kept, hq], h.compiles⟩

end Adds

variable {σ : Type} [ProgramCompiler σ] {w : Workspace} {s : Shader}

/-- Where nothing is stale, a look-up finds its entry or adds it. It replaces no program, so it releases none. -/
theorem adds_of_lookup {s' : Shader} {i : Nat} {key : Mask} {b : Combination} {r : Except ShaderError Combination}
    {calls : List CompilerCall} (hs : s.Stamped) (hw : Writes s s' i key b)
    (h : Lookup s.generation (s.kept? i key) key r b calls) : Adds s s' (fun j key' => i = j ∧ key = key') calls := by
  -- an entry that is there is not stale, so a build has found none
  have hmissing (hstale : ∀ b, s.kept? i key = some b → b.isStale s.generation = true) : s.kept? i key = none := by
    cases hb : s.kept? i key with
    | none => rfl
    | some b =>
      have := hstale b hb
      rw [Combination.isStale, hs i key b hb, Generation.isNewerThan_self] at this
      cases this
  have hstamp : b.stamp = s.generation := by
    cases h with
    | found hold hfresh => exact hs i key b hold
    | failed e hstale hcalls => rfl
    | built p digest slots q hstale => rfl
  refine ⟨hw.toUnmoved, fun j key' b' hb => ?_, fun j key' => ?_, fun call hc => ?_⟩
  · rw [hw.kept] at hb
    rw [hw.generation]
    split at hb
    · cases hb
      exact hstamp
    · exact hs j key' b' hb
  · rw [hw.kept]
    split
    · next he => exact iff_of_true rfl (Or.inr he)
    · next he => rw [or_iff_left he]
  · cases h with
    | found hold hfresh => cases hc
    | failed e hstale hcalls =>
      rcases hcalls with rfl | ⟨q, rfl⟩
      · cases hc
      · exact ⟨q, none, List.mem_singleton.1 hc⟩
    | built p digest slots q hstale =>
      rw [hmissing hstale] at hc
      exact ⟨q, some p, List.mem_singleton.1 hc⟩

theorem adds_ensure (hr : s.Remembers w) (hload : s.isLoaded = true) (hs : s.Stamped) {i : Nat} {ctx : Context}
    (hctx : s.contexts[i]? = some ctx) (m : Mask) (t : Traced σ) :
    ∃ calls, (s.ensure w i m t).2.2.calls = calls ++ t.calls ∧
      Adds s (s.ensure w i m t).2.1 (fun j key => i = j ∧ (s.combinationKey w i m).1 = key) calls := by
  obtain ⟨b, calls, hwrites, hcalls, hlookup⟩ := getCombinationAt_lookup hr hload hctx m t
  rw [getCombinationAt_eq] at hwrites hcalls
  exact ⟨calls, hcalls, adds_of_lookup hs hwrites hlookup⟩

theorem adds_ensureAll (hr : s.Remembers w) (hload : s.isLoaded = true) (hs : s.Stamped) {i : Nat} {ctx : Context}
    (hctx : s.contexts[i]? = some ctx) (ms : List Mask) (t : Traced σ) :
    ∃ calls, (s.ensureAll w i ms t).2.2.calls = calls ++ t.calls ∧
      Adds s (s.ensureAll w i ms t).2.1 (fun j key => i = j ∧ ∃ m ∈ ms, (s.combinationKey w i m).1 = key) calls := by
  induction ms generalizing s ctx t with
  | nil => exact ⟨[], rfl, .refl hs (by simp)⟩
  | cons m ms ih =>
    have hwork := ensure_work hr i m t
    obtain ⟨calls, hcalls, hadds⟩ := adds_ensure hr hload hs hctx m t
    obtain ⟨ctx', hctx', -⟩ := hadds.toFrame.exists_context hctx
    obtain ⟨calls', hcalls', hadds'⟩ := ih (Work.remembers_of_steps hwork hr) (hadds.isLoaded.trans hload) hadds.stamped
      hctx' (s.ensure w i m t).2.2
    refine ⟨calls' ++ calls, ?_, (hadds.trans hadds').congr fun j key => ?_⟩
    · rw [List.append_assoc, ← hcalls]
      exact hcalls'
    · simp only [Work.combinationKey_of_steps hwork, List.exists_mem_cons_iff, and_or_left]

/-- Each context is linked, and its combinations are added. -/
theorem adds_compileEach (hr : s.Remembers w) (hload : s.isLoaded = true) (hs : s.Stamped) (masks : List Mask)
    (is : List Nat) (his : ∀ i ∈ is, i < s.contexts.length) (t : Traced σ) :
    ∃ calls, (s.compileEach w masks is t).2.2.calls = calls ++ t.calls ∧
      Adds s (s.compileEach w masks is t).2.1
        (fun j key => j ∈ is ∧ ∃ m ∈ masks, (s.combinationKey w j m).1 = key) calls := by
  induction is generalizing s t with
  | nil => exact ⟨[], rfl, .refl hs (by simp)⟩
  | cons i is ih =>
    let p := (s.link w.fragments i).ensureAll w i masks t
    let covered := p.2.1.modifyContext i fun ctx => { ctx with compiled := true }
    have hlink : Work w (s, t) (s.link w.fragments i, t) := .link s t i
    have hlinked := Undisturbed.link s w.fragments i
    have hcover : Undisturbed p.2.1 covered := ⟨.modifyContext (by intro; rfl) _ i, kept?_modifyContext (by intro; rfl) _ i⟩
    have hall : ReflTransGen (Work w) (s, t) p.2 := .head hlink (ensureAll_work i masks (hlink.remembers hr) t)
    have hwork : ReflTransGen (Work w) (s, t) (covered, p.2.2) := hall.tail (.cover p.2.1 p.2.2 i)
    obtain ⟨ctx, hctx, -⟩ := hlinked.toFrame.exists_context (List.getElem?_eq_getElem (his i List.mem_cons_self))
    obtain ⟨calls, hcalls, hadds⟩ := adds_ensureAll (hlink.remembers hr) (hlinked.isLoaded.trans hload)
      (hs.undisturbed hlinked) hctx masks t
    have hfirst := (hadds.before hcover).after hlinked
    obtain ⟨calls', hcalls', hadds'⟩ := ih (Work.remembers_of_steps hwork hr) (hfirst.isLoaded.trans hload) hfirst.stamped
      (fun j hj => hfirst.toFrame.length_contexts ▸ his j (List.mem_cons_of_mem i hj)) p.2.2
    refine ⟨calls' ++ calls, ?_, (hfirst.trans hadds').congr fun j key => ?_⟩
    · rw [List.append_assoc, ← hcalls]
      exact hcalls'
    · simp only [Work.combinationKey_of_steps hwork, Work.combinationKey_of_steps (.single hlink), List.mem_cons,
        or_and_right]
      refine or_congr_left ⟨?_, ?_⟩ <;> rintro ⟨rfl, hm⟩ <;> exact ⟨rfl, hm⟩

/-! ## New content -/

/-- Gives the programs of a shader back and gives it new content. It is compiled again if it was ready. -/
def renew (s : Shader) (source : ShaderSource) (sections : List Fragment) (w : Workspace) (c : σ) :
    BuildReport × Shader × σ :=
  if s.ready then (s.apply source sections).compileContexts w (releaseAll s.programs c)
  else (.empty, s.apply source sections, releaseAll s.programs c)

theorem calls_releaseAll (ps : List Program) (t : Traced σ) :
    ∃ releases, (releaseAll ps t).calls = releases ++ t.calls ∧ releases.Perm (ps.map .release) := by
  induction ps generalizing t with
  | nil => exact ⟨[], rfl, .nil⟩
  | cons p ps ih =>
    obtain ⟨releases, hcalls, hperm⟩ := ih (ProgramCompiler.release p t)
    refine ⟨releases ++ [.release p], hcalls.trans ?_, ?_⟩
    · rw [List.append_assoc]
      rfl
    · exact (List.perm_append_singleton _ _).trans (hperm.cons _)

/-- With related compilers a shader is renewed alike. -/
theorem alike_renew {τ : Type} [ProgramCompiler τ] {R : σ → τ → Prop} (h : Simulates R) {c : σ} {d : τ} (hR : R c d)
    (s : Shader) (source : ShaderSource) (sections : List Fragment) (w : Workspace) :
    Alike R (s.renew source sections w c) (s.renew source sections w d) := by
  have hreleased := h.releaseAll hR s.programs
  unfold renew
  split
  · exact h.compileContexts hreleased w _
  · exact ⟨_, _, _, _, rfl, rfl, hreleased⟩

/-- The shader `s'` has the content of `fresh`, which has no combinations. If it is ready it has just those of the masks
that were asked for, and none otherwise. -/
structure Renewed (w : Workspace) (fresh s' : Shader) : Prop extends Frame fresh s' where
  preLoad : s'.preLoad = fresh.preLoad
  uniforms : s'.uniforms = fresh.uniforms
  remembers : s'.Remembers w
  stamped : s'.Stamped
  kept : ∀ i key, (s'.kept? i key).isSome = true ↔
    s'.ready = true ∧ i < s'.contexts.length ∧ ∃ m ∈ s'.preLoad, (s'.combinationKey w i m).1 = key

theorem kept?_of_blank {s : Shader} (h : ∀ ctx ∈ s.contexts, ctx.combinations = []) (i : Nat) (key : Mask) :
    s.kept? i key = none := by
  refine Option.bind_eq_none_iff.2 fun ctx hctx => ?_
  rw [Context.combination?, h ctx (List.mem_of_getElem? hctx)]
  rfl

/-- A pass over a shader without combinations. -/
theorem renewed_compileContexts {s : Shader} (hr : s.Remembers w) (hload : s.isLoaded = true)
    (hblank : ∀ ctx ∈ s.contexts, ctx.combinations = []) (t : Traced σ) :
    ∃ report s' compiles c, s.compileContexts w t = (report, s', ⟨c, compiles ++ t.calls⟩) ∧ s'.ready = true ∧
      (∀ call ∈ compiles, ∃ q r, call = .compile q r) ∧ Renewed w s s' := by
  have hwork := compileContexts_work hr t
  have hstamped : s.Stamped := fun i key b hb => nomatch (kept?_of_blank hblank i key).symm.trans hb
  obtain ⟨compiles, hcalls, hadds⟩ := adds_compileEach hr hload hstamped s.preLoad (List.range s.contexts.length)
    (fun i => List.mem_range.1) t
  unfold compileContexts at hwork ⊢
  rw [loadError?_of_isLoaded hload] at hwork ⊢
  rcases hpass : s.compileEach w s.preLoad (List.range s.contexts.length) t with ⟨report, s', c, all⟩
  rw [hpass] at hcalls hadds hwork
  obtain rfl : all = compiles ++ t.calls := hcalls
  refine ⟨report, { s' with ready := true }, compiles, c, rfl, rfl, hadds.compiles, ⟨Work.frame_of_steps hwork,
    hadds.preLoad, hadds.uniforms, Work.remembers_of_steps hwork hr, hadds.stamped, fun i key => ?_⟩⟩
  have hlength : s'.contexts.length = s.contexts.length := hadds.toFrame.length_contexts
  simp only [Work.combinationKey_of_steps hwork]
  show (s'.kept? i key).isSome = true ↔ True ∧ i < s'.contexts.length ∧ ∃ m ∈ s'.preLoad, _
  rw [hadds.kept, kept?_of_blank hblank, List.mem_range, hlength, hadds.preLoad]
  simp

/-- A renewed shader has the new content. All programs that it had are released first, in some order, and after that
there are only compilations. -/
theorem renew_spec (s : Shader) (source : ShaderSource) (sections : List Fragment) (w : Workspace) (c : σ) :
    ∃ report s' c' compiles releases, s.renew source sections w c = (report, s', c') ∧
      s.renew source sections w (⟨c, []⟩ : Traced σ) = (report, s', ⟨c', compiles ++ releases⟩) ∧
      releases.Perm (s.programs.map .release) ∧ (∀ call ∈ compiles, ∃ q r, call = .compile q r) ∧ s'.ready = s.ready ∧
        Renewed w (s.apply source sections) s' := by
  obtain ⟨report, s', t, c', ht, hc, rfl⟩ :=
    alike_renew Traced.simulates (c := ⟨c, []⟩) (d := c) rfl s source sections w
  have hremembers : (s.apply source sections).Remembers w := remembers_of_memo_nil rfl
  have hblank : ∀ ctx ∈ (s.apply source sections).contexts, ctx.combinations = [] := by
    intro ctx hctx
    obtain ⟨d, -, rfl⟩ := List.mem_map.1 hctx
    rfl
  obtain ⟨releases, hreleased, hperm⟩ := calls_releaseAll s.programs (⟨c, []⟩ : Traced σ)
  rw [List.append_nil] at hreleased
  suffices h : ∃ compiles, t.calls = compiles ++ releases ∧
      (∀ call ∈ compiles, ∃ q r, call = .compile q r) ∧ s'.ready = s.ready ∧
        Renewed w (s.apply source sections) s' by
    obtain ⟨compiles, hcalls, hcompiles, hready, hrenewed⟩ := h
    refine ⟨report, s', t.compiler, compiles, releases, hc, ?_, hperm, hcompiles, hready, hrenewed⟩
    rw [ht, ← hcalls]
  unfold renew at ht
  cases hready : s.ready with
  | true =>
    obtain ⟨report', s'', compiles, c'', hpass, hready', hcompiles, hrenewed⟩ :=
      renewed_compileContexts hremembers rfl hblank (releaseAll s.programs (⟨c, []⟩ : Traced σ))
    rw [hready, if_pos rfl, hpass] at ht
    cases ht
    exact ⟨compiles, by rw [hreleased], hcompiles, hready', hrenewed⟩
  | false =>
    rw [hready, if_neg Bool.false_ne_true] at ht
    cases ht
    refine ⟨[], hreleased, fun _ hc => absurd hc List.not_mem_nil, rfl, .refl _, rfl, rfl, hremembers, ?_, fun i key => ?_⟩
    · exact fun i key b hb => nomatch (kept?_of_blank hblank i key).symm.trans hb
    · rw [kept?_of_blank hblank]
      exact iff_of_false Bool.false_ne_true fun h => nomatch h.1

end Shader

end ShaderVariant
