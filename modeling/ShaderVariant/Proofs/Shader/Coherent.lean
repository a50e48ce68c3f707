import ShaderVariant.Proofs.Shader.Work

/-!
# Coherence of a shader with its compiler

* `programs_put`, `Work.ledger` : a step of work moves programs between the shader and the compiler and loses none;
* `Work.sources` : programs that are held before and after a step keep their sources;
* `Shader.Coherent` : what is kept at the present generation is what would be assembled and built now: memo, used flags,
  and the outcome of every combination. Work keeps it (`Work.coherent`);
* `serves_of_getCombinationAt_ok`, `Coherent.of_serves` : so a combination that was got has the program that a build
  would give now.
-/

namespace ShaderVariant

open DryRunBacked (dryRun passes)
open Relation (ReflTransGen)

/-! ## Programs that are held -/

namespace Context

theorem filterMap_program_cons (e : Mask × Combination) (es : Assoc Mask Combination) :
    (e :: es).filterMap (·.2.program) = e.2.program.toList ++ es.filterMap (·.2.program) := by
  cases h : e.2.program <;> simp [h]

/-- Writing a combination exchanges its program for the one that the entry had. -/
theorem programs_put (c : Context) (key : Mask) (b : Combination) :
    ((c.put key b).programs ++ (c.entry key).program.toList).Perm (b.program.toList ++ c.programs) := by
  unfold programs put entry combination?
  cases h : c.combinations.get? key with
  | none =>
    have hnew : ((Option.none : Option Combination).getD (.new key)).program = none := rfl
    rw [Assoc.set_eq_append h, List.filterMap_append, filterMap_program_cons, List.filterMap_nil, List.append_nil, hnew]
    simpa using List.perm_append_comm
  | some a =>
    obtain ⟨xs, ys, hm, hs⟩ := Assoc.exists_split_of_get? h
    show (List.filterMap _ (Assoc.set _ _ _) ++ a.program.toList).Perm _
    rw [hs b, hm, List.perm_iff_count]
    intro p
    simp only [List.filterMap_append, filterMap_program_cons, List.count_append]
    omega

theorem mem_programs {c : Context} {key : Mask} {b : Combination} {p : Program} (h : c.combination? key = some b)
    (hp : b.program = some p) : p ∈ c.programs :=
  List.mem_filterMap.2 ⟨(key, b), Assoc.mem_of_get? h, hp⟩

end Context

namespace Shader

theorem mem_programs {s : Shader} {ctx : Context} (hctx : ctx ∈ s.contexts) {p : Program} (hp : p ∈ ctx.programs) :
    p ∈ s.programs :=
  List.mem_flatMap.2 ⟨ctx, hctx, hp⟩

theorem programs_modifyContext {s : Shader} {i : Nat} {ctx : Context} (h : s.contexts[i]? = some ctx)
    (f : Context → Context) : ((s.modifyContext i f).programs ++ ctx.programs).Perm ((f ctx).programs ++ s.programs) := by
  obtain ⟨xs, ys, hs, hf⟩ := exists_split_modifyContext h
  unfold programs
  rw [hf, hs, List.perm_iff_count]
  intro p
  simp only [List.flatMap_append, List.flatMap_cons, List.count_append]
  omega

theorem programs_modifyContext_of_eq {f : Context → Context} (hf : ∀ c, (f c).combinations = c.combinations) (s : Shader)
    (i : Nat) : (s.modifyContext i f).programs = s.programs := by
  have hp : ∀ c, (f c).programs = c.programs := fun c => by
    unfold Context.programs
    rw [hf]
  cases hi : s.contexts[i]? with
  | none => rw [modifyContext_of_none hi]
  | some ctx =>
    obtain ⟨xs, ys, hs, hm⟩ := exists_split_modifyContext hi
    unfold programs
    rw [hm, hs]
    simp [hp]

theorem programs_put {s : Shader} {i : Nat} {ctx : Context} (h : s.contexts[i]? = some ctx) (key : Mask)
    (b : Combination) :
    ((s.modifyContext i (·.put key b)).programs ++ (ctx.entry key).program.toList).Perm
      (b.program.toList ++ s.programs) := by
  have hs := List.perm_iff_count.1 (programs_modifyContext h (·.put key b))
  have hc := List.perm_iff_count.1 (ctx.programs_put key b)
  refine List.perm_iff_count.2 fun p => ?_
  have h₁ := hs p
  have h₂ := hc p
  simp only [List.count_append] at h₁ h₂ ⊢
  omega

theorem recordFailure_eq {s : Shader} {i : Nat} {ctx : Context} (h : s.contexts[i]? = some ctx) (key : Mask)
    (e : ShaderError) :
    s.recordFailure i key e = s.modifyContext i (·.put key ((ctx.entry key).fail e s.generation)) := by
  obtain ⟨xs, ys, hs, hf⟩ := exists_split_modifyContext h
  have := (hf fun c => c.put key ((c.entry key).fail e s.generation)).trans
    (hf fun c => c.put key ((ctx.entry key).fail e s.generation)).symm
  unfold recordFailure modifyContext at *
  simp only at this
  rw [this]

theorem programs_recordFailure {s : Shader} {i : Nat} {ctx : Context} (h : s.contexts[i]? = some ctx) (key : Mask)
    (e : ShaderError) : (s.recordFailure i key e).programs.Perm s.programs := by
  rw [recordFailure_eq h]
  have := programs_put h key ((ctx.entry key).fail e s.generation)
  exact (List.perm_append_left_iff _).1 (List.perm_append_comm.trans this)

/-! ## The ledger across work -/

variable {σ : Type} [ProgramCompiler σ] [DryRunBacked σ]

theorem ledger_releaseReplaced {c : σ} {old : Option Program} {held : List Program}
    (h : Ledger c (old.toList ++ held)) : Ledger (releaseReplaced old c) held := by
  cases old with
  | none => exact h
  | some p => exact h.release

theorem inRange_releaseReplaced {c : σ} {old : Option Program} (h : InRange (releaseReplaced old c)) : InRange c := by
  cases old with
  | none => exact h
  | some p => exact Ledger.inRange_release h

/-- A program that is still held afterwards is not the one that was released. -/
theorem sources?_releaseReplaced {c : σ} {old : Option Program} {held : List Program} (h : Ledger c (old.toList ++ held))
    (hr : InRange c) {q : Program} (hq : q ∈ held) :
    (dryRun (releaseReplaced old c)).sources? q = (dryRun c).sources? q := by
  cases old with
  | none => rfl
  | some p =>
    have hne : p ≠ q := fun he => (List.nodup_cons.1 (h.balanced hr).nodup).1 (he ▸ hq)
    show (dryRun (ProgramCompiler.release p c)).sources? q = _
    rw [DryRunBacked.dryRun_release]
    exact DryRun.sources?_release_of_ne hne _

theorem ledger_releaseAll (ps : List Program) {c : σ} {held : List Program} (h : Ledger c (ps ++ held)) :
    Ledger (releaseAll ps c) held ∧ (InRange (releaseAll ps c) → InRange c) ∧
      (InRange c → ∀ q ∈ held, (dryRun (releaseAll ps c)).sources? q = (dryRun c).sources? q) := by
  induction ps generalizing c with
  | nil => exact ⟨h, id, fun _ _ _ => rfl⟩
  | cons p ps ih =>
    obtain ⟨hl, hr, hs⟩ := ih h.release
    refine ⟨hl, fun hr' => Ledger.inRange_release (hr hr'), fun hr' q hq => ?_⟩
    have hq' : q ∈ ps ++ held := List.mem_append_right _ hq
    have hrange : InRange (ProgramCompiler.release p c) := by
      unfold InRange at hr' ⊢
      rwa [Ledger.successes_release]
    exact (hs hrange q hq).trans (@sources?_releaseReplaced σ _ _ c (some p) _ h hr' q hq')

/-- What an installation leaves behind: the new program in place of the one that the entry had. -/
theorem ledger_install {s : Shader} {c c' : σ} {i : Nat} {ctx : Context} {key : Mask} {b : Combination} {p : Program}
    {r : CompileRequest} {held : List Program} (hctx : s.contexts[i]? = some ctx) (hb : b.program = some p)
    (hc : ProgramCompiler.compile r c = (.ok p, c')) (hl : Ledger c (s.programs ++ held)) :
    Ledger c' ((ctx.entry key).program.toList ++ ((s.modifyContext i (·.put key b)).programs ++ held)) := by
  refine (hl.compile_ok hc).2.1.perm (List.perm_iff_count.2 fun q => ?_)
  have := List.perm_iff_count.1 (programs_put hctx key b) q
  rw [hb] at this
  simp only [List.count_append, List.count_cons, Option.toList_some, List.count_nil] at this ⊢
  omega

/-- A step moves programs and loses none. -/
theorem Work.ledger {w : Workspace} {x y : Shader × σ} (h : Work w x y) {held : List Program}
    (hl : Ledger x.2 (x.1.programs ++ held)) : Ledger y.2 (y.1.programs ++ held) := by
  cases h with
  | link s c i =>
    have := programs_modifyContext_of_eq (combinations_linked s w.fragments) s i
    exact hl.perm (by rw [Shader.link, this])
  | assemble s c h =>
    obtain ⟨i, t, -, rfl⟩ := h
    exact hl
  | fail s c key e hload hctx hstale hfails =>
    have hp := (programs_recordFailure hctx key e).symm.append_right held
    cases hfails with
    | unplanned => exact hl.perm hp
    | refused _ hc => exact (hl.compile_error hc).2.2.perm hp
  | install s c key p sources hload hctx hstale hplan hc =>
    exact ledger_releaseReplaced (ledger_install hctx rfl hc hl)
  | cover s c i =>
    have := programs_modifyContext_of_eq (f := fun ctx => { ctx with compiled := true }) (fun _ => rfl) s i
    exact hl.perm (by rw [this])
  | ready s c => exact hl
  | ask s c m =>
    have : (s.preLoadMask m).programs = s.programs := by
      unfold preLoadMask
      split <;> rfl
    exact hl.perm (by rw [this])
  | adjust s c => exact hl

/-- Numbers of programs are used up only. -/
theorem Work.inRange {w : Workspace} {x y : Shader × σ} (h : Work w x y) {held : List Program}
    (hl : Ledger x.2 (x.1.programs ++ held)) (hr : InRange y.2) : InRange x.2 := by
  cases h with
  | fail s c key e hload hctx hstale hfails =>
    cases hfails with
    | unplanned => exact hr
    | refused _ hc =>
      unfold InRange at hr ⊢
      rwa [← (hl.compile_error hc).2.1]
  | install s c key p sources hload hctx hstale hplan hc =>
    have hr' := inRange_releaseReplaced hr
    have := (hl.compile_ok hc).1
    unfold InRange at hr' ⊢
    omega
  | _ => exact hr

/-- A program that is held before and after a step keeps its sources. -/
theorem Work.sources {w : Workspace} {x y : Shader × σ} (h : Work w x y) {held : List Program}
    (hl : Ledger x.2 (x.1.programs ++ held)) (hr : InRange y.2) {q : Program} (hx : q ∈ x.1.programs ++ held)
    (hy : q ∈ y.1.programs ++ held) : (dryRun y.2).sources? q = (dryRun x.2).sources? q := by
  cases h with
  | fail s c key e hload hctx hstale hfails =>
    cases hfails with
    | unplanned => rfl
    | refused _ hc =>
      unfold DryRun.sources?
      rw [(hl.compile_error hc).1]
  | install s c key p sources hload hctx hstale hplan hc =>
    have hr' := inRange_releaseReplaced hr
    obtain ⟨-, hl', -, hsame⟩ := hl.compile_ok hc
    rw [sources?_releaseReplaced (ledger_install hctx rfl hc hl) hr' hy]
    refine hsame q fun he => ?_
    exact (List.nodup_cons.1 (hl'.balanced hr').nodup).1 (he ▸ hx)
  | _ => rfl

end Shader

/-! ## Coherence -/

/-- A combination says what the outcome of a build is: the failure that it keeps, or the sources of its program, as
long as the numbers of programs last. -/
def Combination.Reports (b : Combination) (d : DryRun) (r : Except ShaderError (List StageSource)) : Prop :=
  match b.lastError with
  | some e => r = .error e
  | none => ∃ p sources, b.program = some p ∧ r = .ok sources ∧ (d.successes < 2 ^ 32 → d.sources? p = some sources)

/-- A program has the same sources afterwards, as long as the numbers of programs last. -/
def DryRun.SameSources (d d' : DryRun) (p : Program) : Prop :=
  d'.successes < 2 ^ 32 → d.successes < 2 ^ 32 ∧ d'.sources? p = d.sources? p

theorem DryRun.SameSources.refl (d : DryRun) (p : Program) : SameSources d d p := fun h => ⟨h, rfl⟩

namespace Combination

theorem Reports.congr {b : Combination} {d d' : DryRun} {r : Except ShaderError (List StageSource)} (h : b.Reports d r)
    (hs : ∀ p, b.program = some p → d.SameSources d' p) : b.Reports d' r := by
  unfold Reports at h ⊢
  split
  · next e he => rwa [he] at h
  · next he =>
    rw [he] at h
    obtain ⟨p, sources, hp, hr, hd⟩ := h
    exact ⟨p, sources, hp, hr, fun hr' => (hs p hp hr').2.trans (hd (hs p hp hr').1)⟩

end Combination

/-- What a context keeps is not from the future, and what is of the present generation holds now. -/
structure Context.Coherent (w : Workspace) (d : DryRun) (s : Shader) (ctx : Context) : Prop where
  linked : ∀ g, ctx.linkedAt = some g →
    g.count ≤ s.generation.count ∧ (g = s.generation → ctx.usedFlags = s.usedFlags w.fragments ctx.decl)
  entries : ∀ key b, ctx.combination? key = some b →
    b.stamp.count ≤ s.generation.count ∧ (b.stamp = s.generation → b.Reports d (s.outcome w ctx.decl key))

namespace Shader

/-- What a shader keeps of the present generation is what would be assembled and built now. -/
structure Coherent (w : Workspace) (d : DryRun) (s : Shader) : Prop where
  remembers : s.Remembers w
  contexts : ∀ ctx ∈ s.contexts, ctx.Coherent w d s

variable {σ : Type} [ProgramCompiler σ] [DryRunBacked σ]

/-- What a step makes of a context: it is as it was, or linked now, or has one combination that was built now. -/
structure Evolves (w : Workspace) (d : DryRun) (s : Shader) (old ctx : Context) : Prop where
  decl : ctx.decl = old.decl
  linked : ctx.linkedAt = old.linkedAt ∧ ctx.usedFlags = old.usedFlags ∨
    ctx.linkedAt = some s.generation ∧ ctx.usedFlags = s.usedFlags w.fragments old.decl
  entries : ∀ key b, ctx.combination? key = some b → old.combination? key = some b ∨
    b.stamp = s.generation ∧ b.Reports d (s.outcome w old.decl key)

theorem Evolves.refl (w : Workspace) (d : DryRun) (s : Shader) (ctx : Context) : Evolves w d s ctx ctx :=
  ⟨rfl, Or.inl ⟨rfl, rfl⟩, fun _ _ h => Or.inl h⟩

theorem Evolves.linked_now (w : Workspace) (d : DryRun) (s : Shader) (ctx : Context) :
    Evolves w d s ctx (s.linked w.fragments ctx) := by
  refine ⟨decl_linked .., ?_, fun key b h => Or.inl ?_⟩
  · unfold Shader.linked
    split
    · exact Or.inl ⟨rfl, rfl⟩
    · exact Or.inr ⟨rfl, rfl⟩
  · rwa [Context.combination?, combinations_linked] at h

theorem Evolves.put {w : Workspace} {d : DryRun} {s : Shader} {ctx : Context} {key : Mask} {b : Combination}
    (hs : b.stamp = s.generation) (hb : b.Reports d (s.outcome w ctx.decl key)) :
    Evolves w d s ctx (ctx.put key b) := by
  refine ⟨rfl, Or.inl ⟨rfl, rfl⟩, fun key' b' h => ?_⟩
  rw [Context.combination?_put] at h
  split at h
  · next hk =>
    cases h
    exact Or.inr ⟨hs, hk ▸ hb⟩
  · exact Or.inl h

theorem Work.evolves {w : Workspace} {x y : Shader × σ} (h : Work w x y) {held : List Program}
    (hl : Ledger x.2 (x.1.programs ++ held)) {ctx : Context} (hm : ctx ∈ y.1.contexts) :
    ∃ old ∈ x.1.contexts, Evolves w (dryRun y.2) x.1 old ctx := by
  cases h with
  | link s c i =>
    rcases mem_modifyContext hm with hm | ⟨a, ha, rfl⟩
    · exact ⟨ctx, hm, .refl ..⟩
    · exact ⟨a, List.mem_of_getElem? ha, .linked_now ..⟩
  | assemble s c h =>
    obtain ⟨i, t, -, rfl⟩ := h
    exact ⟨ctx, hm, .refl ..⟩
  | fail s c key e hload hctx hstale hfails =>
    rw [recordFailure_eq hctx] at hm
    rcases mem_modifyContext hm with hm | ⟨a, ha, rfl⟩
    · exact ⟨ctx, hm, .refl ..⟩
    · cases hctx.symm.trans ha
      exact ⟨_, List.mem_of_getElem? hctx, .put rfl (hfails.outcome hl.passes)⟩
  | install s c key p sources hload hctx hstale hplan hc =>
    have hout := outcome_of_compile_ok hplan hc hl.passes
    rcases mem_modifyContext hm with hm | ⟨a, ha, rfl⟩
    · exact ⟨ctx, hm, .refl ..⟩
    · cases hctx.symm.trans ha
      refine ⟨_, List.mem_of_getElem? hctx, .put rfl ⟨_, _, rfl, hout, fun hr => ?_⟩⟩
      have hr' := inRange_releaseReplaced hr
      have hin : p ∈ _ ++ held :=
        List.mem_append_left held (mem_programs hm (Context.mem_programs (Assoc.get?_set_self _ key _) rfl))
      refine (sources?_releaseReplaced (ledger_install hctx ?_ hc hl) hr' hin).trans (hl.compile_ok hc).2.2.1
      rfl
  | cover s c i =>
    rcases mem_modifyContext hm with hm | ⟨a, ha, rfl⟩
    · exact ⟨ctx, hm, .refl ..⟩
    · exact ⟨a, List.mem_of_getElem? ha, rfl, Or.inl ⟨rfl, rfl⟩, fun _ _ h => Or.inl h⟩
  | ready s c => exact ⟨ctx, hm, .refl ..⟩
  | ask s c m =>
    have : (s.preLoadMask m).contexts = s.contexts := by
      unfold preLoadMask
      split <;> rfl
    exact ⟨ctx, this ▸ hm, .refl ..⟩
  | adjust s c => exact ⟨ctx, hm, .refl ..⟩

theorem Work.coherent {w : Workspace} {x y : Shader × σ} (h : Work w x y) {held : List Program}
    (hl : Ledger x.2 (x.1.programs ++ held)) (hc : Coherent w (dryRun x.2) x.1) :
    Coherent w (dryRun y.2) y.1 := by
  have hframe := h.frame
  refine ⟨h.remembers hc.remembers, fun ctx hm => ?_⟩
  obtain ⟨old, hold, he⟩ := h.evolves hl hm
  have hco := hc.contexts old hold
  refine ⟨fun g hg => ?_, fun key b hb => ?_⟩
  · rw [hframe.generation, hframe.usedFlags, he.decl]
    rcases he.linked with ⟨hat, hflags⟩ | ⟨hat, hflags⟩
    · rw [hflags]
      exact hco.linked g (hat ▸ hg)
    · cases hat.symm.trans hg
      exact ⟨Std.le_refl _, fun _ => hflags⟩
  · rw [hframe.generation, (hframe.sameText w).outcome_congr, he.decl]
    rcases he.entries key b hb with hb' | ⟨hstamp, hrep⟩
    · obtain ⟨hle, hrep⟩ := hco.entries key b hb'
      refine ⟨hle, fun hs => (hrep hs).congr fun p hp hr => ⟨h.inRange hl hr, h.sources hl hr ?_ ?_⟩⟩
      · exact List.mem_append_left _ (mem_programs hold (Context.mem_programs hb' hp))
      · exact List.mem_append_left _ (mem_programs hm (Context.mem_programs hb hp))
    · rw [hstamp]
      exact ⟨Std.le_refl _, fun _ => hrep⟩

/-! ## Look-up in coherent shaders -/

omit [ProgramCompiler σ] [DryRunBacked σ] in
/-- The used flags of a linked context are those of the present fragments. -/
theorem Coherent.usedFlags_linked {w : Workspace} {d : DryRun} {s : Shader} (h : s.Coherent w d) {ctx : Context}
    (hctx : ctx ∈ s.contexts) : (s.linked w.fragments ctx).usedFlags = s.usedFlags w.fragments ctx.decl := by
  unfold linked
  split
  · next hat => exact ((h.contexts ctx hctx).linked _ hat).2 rfl
  · rfl

omit [ProgramCompiler σ] [DryRunBacked σ] in
/-- The key of a mask is its part in use, or the mask itself, as the settings say. -/
theorem Coherent.combinationKey_fst {w : Workspace} {d : DryRun} {s : Shader} (h : s.Coherent w d) {i : Nat}
    {ctx : Context} (hctx : s.contexts[i]? = some ctx) (m : Mask) :
    (s.combinationKey w i m).1 =
      if w.settings.maskUnusedFlags then m &&& s.usedFlags w.fragments ctx.decl else m := by
  unfold combinationKey
  rw [hctx]
  simp only
  split
  · rw [h.usedFlags_linked (List.mem_of_getElem? hctx)]
  · rfl

/-- A context with a combination that is neither stale nor failed. -/
structure Serves (s : Shader) (i : Nat) (d : ContextDecl) (key : Mask) (b : Combination) : Prop where
  exists_context : ∃ ctx, s.contexts[i]? = some ctx ∧ ctx.decl = d ∧ ctx.combination? key = some b
  fresh : b.isStale s.generation = false
  succeeded : b.lastError = none

omit [DryRunBacked σ] in
theorem serves_of_build_ok {w : Workspace} {s s' : Shader} {c c' : σ} (hr : s.Remembers w) {i : Nat} {ctx : Context}
    (hctx : s.contexts[i]? = some ctx) {key : Mask} {b : Combination}
    (h : s.build w i ctx.decl key c = (.ok b, s', c')) : s'.Serves i ctx.decl key b := by
  cases hp : s.prepare w i ctx.decl key with
  | mk r s₁ =>
    obtain ⟨-, hsame, -⟩ := prepare_spec hr hp c
    obtain ⟨ctx₁, hctx₁, hdecl, -⟩ := getElem?_prepare hsame hctx
    unfold build at h
    rw [hp] at h
    cases r with
    | error e => cases h
    | ok stages =>
      cases hc : ProgramCompiler.compile (s₁.request ctx.decl key stages) c with
      | mk x c₁ =>
        simp only [hc] at h
        cases x with
        | error f => cases h
        | ok p =>
          cases h
          refine ⟨⟨ctx₁.put key _, ?_, hdecl, Assoc.get?_set_self ..⟩, Generation.isNewerThan_self _, rfl⟩
          rw [getElem?_modifyContext, if_pos rfl, hctx₁]
          rfl

omit [DryRunBacked σ] in
/-- A combination that was got is kept, neither stale nor failed. -/
theorem serves_of_getCombinationAt_ok {w : Workspace} {s s' : Shader} {c c' : σ} (hr : s.Remembers w) {i : Nat}
    {ctx : Context} (hctx : s.contexts[i]? = some ctx) {m : Mask} {b : Combination}
    (h : s.getCombinationAt w i m c = (.ok b, s', c')) :
    s'.Serves i ctx.decl (s.combinationKey w i m).1 b := by
  unfold getCombinationAt at h
  rcases ensure_cases w i m s c with ⟨e, -, he⟩ | ⟨ctx', key, s₁, -, hctx', hk, hcase⟩
  · rw [he] at h
    cases h
  · obtain rfl : ctx = ctx' := Option.some.inj (hctx.symm.trans hctx')
    rw [hk]
    have hkey := combinationKey_cases hk
    obtain ⟨ctx₁, hctx₁, hdecl, hcomb⟩ := getElem?_prepare (hkey.imp_right (congrArg contexts)) hctx
    rcases hcase with ⟨old, hb, hfresh, he⟩ | ⟨-, he⟩
    · rw [he] at h
      cases herr : old.lastError with
      | some e =>
        rw [herr] at h
        cases h
      | none =>
        rw [herr] at h
        cases h
        exact ⟨⟨ctx₁, hctx₁, hdecl, by rwa [Context.combination?, hcomb]⟩, hfresh, herr⟩
    · rw [he] at h
      have hr₁ : s₁.Remembers w := by
        rcases hkey with rfl | rfl
        · exact hr
        · exact remembers_of_frame hr (.modifyContext (decl_linked s w.fragments) s i) rfl
      cases hout : s₁.build w i ctx.decl key c with
      | mk r rest =>
        rw [hout] at h
        cases r with
        | error e => cases h
        | ok b' =>
          cases h
          rw [← hdecl] at hout ⊢
          exact serves_of_build_ok hr₁ hctx₁ hout

omit [ProgramCompiler σ] [DryRunBacked σ] in
/-- A combination that is served has a program with the sources that a build would compile now. -/
theorem Coherent.of_serves {w : Workspace} {d : DryRun} {s : Shader} (h : s.Coherent w d) {i : Nat} {decl : ContextDecl}
    {key : Mask} {b : Combination} (hs : s.Serves i decl key b) :
    ∃ p sources, b.program = some p ∧ s.outcome w decl key = .ok sources ∧
      (d.successes < 2 ^ 32 → d.sources? p = some sources) := by
  obtain ⟨ctx, hctx, rfl, hb⟩ := hs.exists_context
  obtain ⟨hle, hrep⟩ := (h.contexts ctx (List.mem_of_getElem? hctx)).entries key b hb
  have hstamp : b.stamp = s.generation := by
    have hnot : ¬ b.stamp.count < s.generation.count := of_decide_eq_false hs.fresh
    have hcount : b.stamp.count = s.generation.count := UInt64.le_antisymm hle (UInt64.not_lt.1 hnot)
    exact congrArg Generation.mk hcount
  have := hrep hstamp
  rwa [Combination.Reports, hs.succeeded] at this

end Shader

end ShaderVariant
