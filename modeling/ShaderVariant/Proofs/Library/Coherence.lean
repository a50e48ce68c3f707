import ShaderVariant.Proofs.Library.Effect

/-!
# Coherence of caches

* `Generation.lt_next` : the next generation is later unless the counter wraps;
* `Session.bumps` : how often a run moves the generations of shaders;
* `Session.Current` : an orderly session whose shaders are coherent. Every operation keeps that as long as the
  generations do not wrap (`current_run`);
* `cached_current` : so a cached combination of the present generation is never out of date.
-/

namespace ShaderVariant

open DryRunBacked (dryRun passes)
open Relation (ReflTransGen)

namespace Generation

theorem toNat_next_le (g : Generation) : g.next.count.toNat ≤ g.count.toNat + 1 := by
  show (g.count + 1).toNat ≤ _
  rw [UInt64.toNat_add, UInt64.toNat_one]
  exact Nat.mod_le _ _

theorem next_ne (g : Generation) : g.next ≠ g := by
  intro h
  have hc : (g.count + 1).toNat = g.count.toNat := congrArg (fun g => g.count.toNat) h
  rw [UInt64.toNat_add, UInt64.toNat_one] at hc
  have := g.count.toNat_lt
  omega

theorem lt_next {g : Generation} (h : g.count.toNat + 1 < 2 ^ 64) : g.count < g.next.count := by
  show g.count < g.count + 1
  rw [UInt64.lt_iff_toNat_lt, UInt64.toNat_add, UInt64.toNat_one]
  omega

end Generation

/-! ## Coherence of one shader -/

namespace Shader

/-- A shader stays coherent where it reads the same and its programs have the same sources. -/
theorem Coherent.congr {l l' : Library} {d d' : DryRun} {s : Shader} (h : s.Coherent l.workspace d)
    (hv : l.SameView l' s) (hs : ∀ p ∈ s.programs, d.SameSources d' p) : s.Coherent l'.workspace d' := by
  refine ⟨fun i t ht => (hv.text.sections i).trans (h.remembers i t ht),
    fun ctx hctx => ⟨fun g hg => ?_, fun key b hb => ?_⟩⟩
  · obtain ⟨hle, hflags⟩ := (h.contexts ctx hctx).linked g hg
    exact ⟨hle, fun he => (hflags he).trans (hv.flags ctx.decl).symm⟩
  · obtain ⟨hle, hrep⟩ := (h.contexts ctx hctx).entries key b hb
    refine ⟨hle, fun he => ?_⟩
    rw [hv.text.outcome_congr]
    exact (hrep he).congr fun p hp => hs p (mem_programs hctx (Context.mem_programs hb hp))

/-- Nothing that is kept is of the generation after an invalidation. -/
theorem Coherent.invalidate {w w' : Workspace} {d d' : DryRun} {s : Shader} (h : s.Coherent w d)
    (hg : s.generation.count.toNat + 1 < 2 ^ 64) : s.invalidate.Coherent w' d' := by
  have hlt := Generation.lt_next hg
  refine ⟨remembers_of_memo_nil rfl, fun ctx hctx => ⟨fun g hat => ?_, fun key b hb => ?_⟩⟩
  · have hle := ((h.contexts ctx hctx).linked g hat).1
    have hlt' : g.count < s.generation.next.count := by
      rw [UInt64.lt_iff_toNat_lt] at hlt ⊢
      rw [UInt64.le_iff_toNat_le] at hle
      omega
    refine ⟨UInt64.le_of_lt hlt', fun he => ?_⟩
    rw [he] at hlt'
    exact absurd hlt' (UInt64.lt_irrefl _)
  · have hle := ((h.contexts ctx hctx).entries key b hb).1
    have hlt' : b.stamp.count < s.generation.next.count := by
      rw [UInt64.lt_iff_toNat_lt] at hlt ⊢
      rw [UInt64.le_iff_toNat_le] at hle
      omega
    refine ⟨UInt64.le_of_lt hlt', fun he => ?_⟩
    rw [he] at hlt'
    exact absurd hlt' (UInt64.lt_irrefl _)

theorem coherent_of_blank {w : Workspace} {d : DryRun} {s : Shader} (hr : s.Remembers w)
    (h : ∀ ctx ∈ s.contexts, ctx.linkedAt = none ∧ ctx.combinations = []) : s.Coherent w d := by
  refine ⟨hr, fun ctx hctx => ⟨fun g hg => ?_, fun key b hb => ?_⟩⟩
  · rw [(h ctx hctx).1] at hg
    cases hg
  · rw [Context.combination?, (h ctx hctx).2] at hb
    cases hb

end Shader

namespace Session

/-! ## Generations in a session -/

variable {σ : Type}

def generationOf (x : Session σ) (k : ShaderKey) : Generation :=
  ((x.library.shader? k).map Shader.generation).getD .zero

theorem generationOf_eq {x : Session σ} {k : ShaderKey} {s : Shader} (h : x.library.shader? k = some s) :
    x.generationOf k = s.generation := by
  rw [generationOf, h]
  rfl

/-- How many shaders have another generation than before. -/
def moved (x y : Session σ) : Nat := y.library.shaders.keys.countP fun k => decide (y.generationOf k ≠ x.generationOf k)

theorem moved_pos {x y : Session σ} {k : ShaderKey} {s : Shader} (hs : y.library.shader? k = some s)
    (h : s.generation ≠ x.generationOf k) : 0 < moved x y := by
  refine List.countP_pos_iff.2 ⟨k, ?_, ?_⟩
  · exact List.mem_map.2 ⟨(k, s), SlotMap.mem_entries_iff.2 hs, rfl⟩
  · rw [generationOf_eq hs]
    exact decide_eq_true h

variable [ProgramCompiler σ]

/-- How often the generations of shaders move in a run. -/
def bumps (x : Session σ) : List Operation → Nat
  | [] => 0
  | op :: ops => moved x (x.step op) + bumps (x.step op) ops

theorem Quiet.generationOf {x y : Session σ} (h : Quiet x y) (k : ShaderKey) : y.generationOf k = x.generationOf k := by
  cases h with
  | load c h =>
    unfold Session.generationOf Library.shader?
    rw [h.shaders]
  | work l hs hw =>
    unfold Session.generationOf
    rw [Library.shader?_setShader]
    split
    · next hk =>
      subst hk
      rw [hs]
      exact hw.frame.generation
    · rfl
  | drop l c h => rfl

theorem Quiet.isSome {x y : Session σ} (h : Quiet x y) (k : ShaderKey) :
    (y.library.shader? k).isSome = (x.library.shader? k).isSome := by
  cases h with
  | load c h =>
    unfold Library.shader?
    rw [h.shaders]
  | work l hs hw =>
    rw [Library.shader?_setShader]
    split
    · exact Option.isSome_map
    · rfl
  | drop l c h => rfl

theorem generationOf_of_quiet {x y : Session σ} (h : ReflTransGen Quiet x y) (k : ShaderKey) :
    y.generationOf k = x.generationOf k := by
  induction h with
  | refl => rfl
  | tail _ hstep ih => rw [hstep.generationOf, ih]

theorem isSome_of_quiet {x y : Session σ} (h : ReflTransGen Quiet x y) (k : ShaderKey) :
    (y.library.shader? k).isSome = (x.library.shader? k).isSome := by
  induction h with
  | refl => rfl
  | tail _ hstep ih => rw [← ih, hstep.isSome]

theorem Refills.generation {l : Library} {s s' : Shader} (h : Refills l s s') :
    s'.generation = s.generation ∨ s'.generation = s.generation.next := by
  cases h with
  | cleared => exact Or.inl rfl
  | failed diagnostic => exact Or.inr rfl
  | applied source sections h => exact Or.inr rfl

/-- A turn moves a generation by one at most. -/
theorem Turn.generation {x y : Session σ} (h : Turn x y) (hx : x.library.Regular) {k : ShaderKey} {s : Shader}
    (hs : y.library.shader? k = some s) : s.generation = x.generationOf k ∨ s.generation = (x.generationOf k).next := by
  cases h.shader hx hs with
  | stays h => exact Or.inl (generationOf_eq h).symm
  | stale h => exact Or.inr (by rw [generationOf_eq h]; rfl)
  | refilled h _ hr =>
    rw [generationOf_eq h]
    exact hr.generation
  | registered h hr =>
    have hz : x.generationOf k = .zero := by
      rw [Session.generationOf, h]
      rfl
    rw [hz]
    rcases hr with rfl | hr
    · exact Or.inl rfl
    · exact hr.generation

omit [ProgramCompiler σ] in
theorem generationOf_le {n : Nat} {x : Session σ}
    (h : ∀ k s, x.library.shader? k = some s → s.generation.count.toNat ≤ n) (k : ShaderKey) :
    (x.generationOf k).count.toNat ≤ n := by
  cases hs : x.library.shader? k with
  | none =>
    rw [generationOf, hs]
    exact Nat.zero_le n
  | some s =>
    rw [generationOf_eq hs]
    exact h k s hs

/-- An operation moves no generation beyond a bound that grows with it. If the bound is below the end of the counter,
the turn of the operation wraps none. -/
theorem Effect.bounded {n : Nat} {x y : Session σ} (h : Effect x y) (hx : x.library.Regular)
    (hn : ∀ k s, x.library.shader? k = some s → s.generation.count.toNat ≤ n) :
    (∀ k s, y.library.shader? k = some s → s.generation.count.toNat ≤ n + moved x y) ∧
    ∃ u v, ReflTransGen Quiet x u ∧ ReflTransGen Quiet v y ∧
      (u = v ∨ Turn u v ∧ ∀ k s, v.library.shader? k = some s → s.generation ≠ u.generationOf k →
        (u.generationOf k).count.toNat < n + moved x y) := by
  obtain ⟨u, v, hxu, huv, hvy⟩ := h
  have hu := regular_of_quiet hxu hx
  have hle : ∀ k, (u.generationOf k).count.toNat ≤ n := fun k => by
    rw [generationOf_of_quiet hxu]
    exact generationOf_le hn k
  -- A generation that the turn has moved is counted: the quiet steps around it move none.
  have hcount : ∀ k s, v.library.shader? k = some s → s.generation ≠ u.generationOf k → 0 < moved x y := by
    intro k s hs hne
    obtain ⟨s', hs'⟩ := Option.isSome_iff_exists.1 ((isSome_of_quiet hvy k).trans (by rw [hs]; rfl))
    refine moved_pos hs' ?_
    rw [← generationOf_eq hs', generationOf_of_quiet hvy, generationOf_eq hs, ← generationOf_of_quiet hxu]
    exact hne
  refine ⟨fun k s hs => ?_, u, v, hxu, hvy, ?_⟩
  · obtain ⟨s', hs'⟩ := Option.isSome_iff_exists.1 ((isSome_of_quiet hvy k).symm.trans (by rw [hs]; rfl))
    rw [← generationOf_eq hs, generationOf_of_quiet hvy, generationOf_eq hs']
    have hn := hle k
    by_cases hne : s'.generation = u.generationOf k
    · rw [hne]
      omega
    · have hpos := hcount k s' hs' hne
      rcases huv with rfl | huv
      · exact absurd (generationOf_eq hs').symm hne
      · have hnext := (huv.generation hu hs').resolve_left hne
        have := Generation.toNat_next_le (u.generationOf k)
        rw [hnext]
        omega
  · refine huv.imp_right fun huv => ⟨huv, fun k s hs hne => ?_⟩
    have hn := hle k
    have hpos := hcount k s hs hne
    omega

/-! ## Sources across steps -/

variable [DryRunBacked σ]

theorem Turn.inRange {x y : Session σ} (h : Turn x y) (hl : Ledger x.compiler x.library.programs)
    (hr : InRange y.compiler) : InRange x.compiler := by
  cases h with
  | refill l c hs h =>
    obtain ⟨rest, hp, -⟩ := Library.programs_split hs
    exact (Shader.ledger_releaseAll _ (hl.perm hp)).2.1 hr
  | discard l c hs =>
    obtain ⟨rest, hp, -⟩ := Library.programs_split hs
    exact (Shader.ledger_releaseAll _ (hl.perm hp)).2.1 hr
  | _ => exact hr

/-- A program that is held after a turn keeps its sources. -/
theorem Turn.sources {x y : Session σ} (h : Turn x y) (hl : Ledger x.compiler x.library.programs)
    (hr : InRange x.compiler) {p : Program} (hp : p ∈ y.library.programs) :
    (dryRun y.compiler).sources? p = (dryRun x.compiler).sources? p := by
  cases h with
  | refill l c hs h =>
    obtain ⟨rest, hperm, hset, -⟩ := Library.programs_split hs
    have hmem := (hset _).mem_iff.1 hp
    rw [h.programs_eq_nil] at hmem
    exact (Shader.ledger_releaseAll _ (hl.perm hperm)).2.2 hr p hmem
  | discard l c hs =>
    obtain ⟨rest, hperm, -, hremove, -⟩ := Library.programs_split hs
    exact (Shader.ledger_releaseAll _ (hl.perm hperm)).2.2 hr p (hremove.mem_iff.1 hp)
  | _ => rfl

/-! ## Current sessions -/

def Coherent (x : Session σ) : Prop :=
  ∀ k s, x.library.shader? k = some s → s.Coherent x.library.workspace (dryRun x.compiler)

theorem Quiet.coherent {x y : Session σ} (h : Quiet x y) (hx : x.Orderly) (hc : x.Coherent) : y.Coherent := by
  intro k s' hs'
  cases h with
  | load c h =>
    have hs₀ : _ = some s' := hs'
    unfold Library.shader? at hs₀
    rw [h.shaders] at hs₀
    exact (hc k s' hs₀).congr (.loaded h hx.regular.fragments (hx.regular.shaders k s' hs₀).resolves)
      fun p _ => .refl _ p
  | work l hs hw =>
    obtain ⟨rest, hperm, -, -, hrest⟩ := Library.programs_split hs
    have hl := hx.ledger.perm hperm
    rw [Library.shader?_setShader] at hs'
    split at hs'
    · next hk =>
      subst hk
      rw [hs] at hs'
      cases hs'
      exact hw.coherent hl (hc _ _ hs)
    · next hk =>
      refine (hc k s' hs').congr (.of_eq rfl rfl (hx.regular.shaders k s' hs').resolves) fun p hp hr => ?_
      have hin := hrest k s' hk hs' p hp
      exact ⟨hw.inRange hl hr, hw.sources hl hr (List.mem_append_right _ hin) (List.mem_append_right _ hin)⟩
  | drop l c h =>
    exact (hc k s' hs').congr (.dropped h hx.regular.fragments hs' (hx.regular.shaders k s' hs').resolves)
      fun p _ => .refl _ p

theorem Turn.coherent {x y : Session σ} (h : Turn x y) (hx : x.Orderly) (hc : x.Coherent)
    (hg : ∀ k s, y.library.shader? k = some s → s.generation ≠ x.generationOf k →
      (x.generationOf k).count.toNat + 1 < 2 ^ 64) : y.Coherent := by
  intro k s' hs'
  have hrem := ((h.regular hx.regular).shaders k s' hs').remembers
  cases h.shader hx.regular hs' with
  | stays hs hv =>
    refine (hc k s' hs).congr hv fun p hp hr => ?_
    have hr' := h.inRange hx.ledger hr
    exact ⟨hr', h.sources hx.ledger hr' (Library.mem_programs hs' hp)⟩
  | stale hs =>
    -- The next generation is greater, so no stamp is of it.
    have hlt := hg k _ hs' (by rw [generationOf_eq hs]; exact Generation.next_ne _)
    rw [generationOf_eq hs] at hlt
    exact (hc k _ hs).invalidate hlt
  | refilled hs _ hf => exact Shader.coherent_of_blank hrem hf.blank
  | registered hs hf =>
    rcases hf with rfl | hf
    · exact Shader.coherent_of_blank hrem fun _ hctx => absurd hctx List.not_mem_nil
    · exact Shader.coherent_of_blank hrem hf.blank

theorem coherent_of_quiet {x y : Session σ} (h : ReflTransGen Quiet x y) (hx : x.Orderly) (hc : x.Coherent) :
    y.Coherent := by
  induction h with
  | refl => exact hc
  | tail hsteps hstep ih => exact hstep.coherent (orderly_of_quiet hsteps hx) ih

/-- An orderly and coherent session, in which no generation is beyond `n`. -/
structure Current (n : Nat) (x : Session σ) : Prop where
  orderly : x.Orderly
  bounded : ∀ k s, x.library.shader? k = some s → s.generation.count.toNat ≤ n
  coherent : x.Coherent

/-- An operation keeps a session current, if the generations that it moves do not wrap. -/
theorem Effect.current {n : Nat} {x y : Session σ} (h : Effect x y) (hx : Current n x)
    (hb : n + moved x y < 2 ^ 64) : Current (n + moved x y) y := by
  obtain ⟨hbounded, u, v, hxu, hvy, huv⟩ := h.bounded hx.orderly.regular hx.bounded
  have hu := orderly_of_quiet hxu hx.orderly
  have hco := coherent_of_quiet hxu hx.orderly hx.coherent
  refine ⟨h.orderly hx.orderly, hbounded, ?_⟩
  rcases huv with rfl | ⟨huv, hwrap⟩
  · exact coherent_of_quiet hvy hu hco
  · refine coherent_of_quiet hvy (huv.orderly hu) (huv.coherent hu hco fun k s hs hne => ?_)
    have := hwrap k s hs hne
    omega

/-- A run keeps a session current, as long as generations do not wrap. -/
theorem current_run {n : Nat} {x : Session σ} (hx : Current n x) (ops : List Operation)
    (hb : n + x.bumps ops < 2 ^ 64) : Current (n + x.bumps ops) (x.run ops) := by
  induction ops generalizing n x with
  | nil => exact hx
  | cons op ops ih =>
    rw [bumps, ← Nat.add_assoc] at hb ⊢
    exact ih ((effect_step hx.orderly.regular op).current hx (by omega)) hb

theorem current_start (loader : Loader) (settings : Settings) {c : σ} (hp : passes c) (hd : dryRun c = .empty)
    (hrel : DryRunBacked.released c = []) : Current 0 (start loader settings c) :=
  ⟨orderly_start loader settings hp hd hrel, fun _ _ hs => (nomatch hs), fun _ _ hs => (nomatch hs)⟩

end Session

/-! ## Caches are never out of date -/

open Session in
/-- In every reachable state a cached combination of the present generation is up to date, whatever assembled sections
are kept: it has a program if there was no failure, the sources that would be assembled now are those that the compiler
holds for that program, and a failure is what a build would fail with now.

That the compiler holds these sources takes `successes < 2 ^ 32`. It numbers programs by a plain 32-bit counter, and when
this wraps a new program replaces a live one of the same number. All else holds without that bound. -/
theorem cached_current (loader : Loader) (settings : Settings) (ops : List Operation)
    (hbumps : (start loader settings DryRun.empty).bumps ops < 2 ^ 64)
    {k : ShaderKey} {s : Shader} {i : Nat} {ctx : Context} {key : Mask} {b : Combination}
    (hs : ((start loader settings DryRun.empty).run ops).library.shader? k = some s) (hload : s.isLoaded = true)
    (hctx : s.contexts[i]? = some ctx) (hb : ctx.combination? key = some b) (hstamp : b.stamp = s.generation) :
    let x := (start loader settings DryRun.empty).run ops
    (b.lastError = none → ∃ p sources, b.program = some p ∧
      (s.assembleStageSources x.library.workspace i key).1 = .ok sources ∧
      (s.withoutMemo.assembleStageSources x.library.workspace i key).1 = .ok sources ∧
        (x.compiler.successes < 2 ^ 32 → x.compiler.sources? p = some sources)) ∧
    ∀ e, b.lastError = some e → (s.build x.library.workspace i ctx.decl key x.compiler).1 = .error e ∧
      (s.withoutMemo.build x.library.workspace i ctx.decl key x.compiler).1 = .error e := by
  intro x
  have hx : Current _ x := current_run (current_start loader settings trivial rfl rfl) ops (by rwa [Nat.zero_add])
  have hco := hx.coherent k s hs
  have hrep := ((hco.contexts ctx (List.mem_of_getElem? hctx)).entries key b hb).2 hstamp
  have hpass : passes x.compiler := trivial
  have hempty := s.remembers_withoutMemo x.library.workspace
  have hsame := s.sameText_withoutMemo x.library.workspace
  unfold Combination.Reports at hrep
  constructor
  · intro hnone
    rw [hnone] at hrep
    obtain ⟨p, sources, hp, hout, hsrc⟩ := hrep
    have hsources := (Shader.freshSources_of_outcome hout).2.1
    have hle := Shader.loadError?_of_isLoaded hload
    refine ⟨p, sources, hp, ?_, ?_, hsrc⟩
    · rw [Shader.assembleStageSources_fst hco.remembers hle hctx, hsources]
    · rw [Shader.assembleStageSources_fst hempty hle hctx, hsame.freshSources_congr, hsources]
  · intro e he
    rw [he] at hrep
    refine ⟨(Shader.build_error_iff ⟨hpass, hco.remembers⟩ i).2 hrep, ?_⟩
    exact (Shader.build_error_iff ⟨hpass, hempty⟩ i).2 ((hsame.outcome_congr _ _).trans hrep)

open Session in
/-- After a short run the program of one context has the sources that would be assembled now, and the failure of the
other one would come again. -/
theorem cached_current_litRun :
    (∃ s ctx b p sources, litRun.cached? ⟨1, 1⟩ 0 1 = some (s, ctx, b) ∧ b.program = some p ∧
      (s.assembleStageSources litRun.library.workspace 0 1).1 = .ok sources ∧
        litRun.compiler.sources? p = some sources) ∧
    ∃ s ctx b e, litRun.cached? ⟨1, 1⟩ 1 0 = some (s, ctx, b) ∧ b.lastError = some e ∧
      (s.build litRun.library.workspace 1 ctx.decl 0 litRun.compiler).1 = .error e := by
  have hrun : (start default default DryRun.empty).bumps litOps < 2 ^ 64 ∧ litRun.compiler.successes < 2 ^ 32 ∧
      (litRun.cached? ⟨1, 1⟩ 0 1).any (fun e => e.1.isLoaded && e.2.2.stamp == e.1.generation && e.2.2.lastError.isNone) ∧
        (litRun.cached? ⟨1, 1⟩ 1 0).any fun e =>
          e.1.isLoaded && e.2.2.stamp == e.1.generation && e.2.2.lastError.isSome := by
    decide +kernel
  obtain ⟨hbumps, hrange, hlit, hbad⟩ := hrun
  constructor
  · obtain ⟨⟨s, ctx, b⟩, hc, h⟩ := (Option.any_eq_true _ _).1 hlit
    simp only [Bool.and_eq_true, beq_iff_eq, Option.isNone_iff_eq_none] at h
    obtain ⟨hs, hctx, hb⟩ := cached?_eq_some_iff.1 hc
    obtain ⟨p, sources, hp, hsources, -, hheld⟩ :=
      (cached_current default default litOps hbumps hs h.1.1 hctx hb h.1.2).1 h.2
    exact ⟨s, ctx, b, p, sources, hc, hp, hsources, hheld hrange⟩
  · obtain ⟨⟨s, ctx, b⟩, hc, h⟩ := (Option.any_eq_true _ _).1 hbad
    simp only [Bool.and_eq_true, beq_iff_eq, Option.isSome_iff_exists] at h
    obtain ⟨hs, hctx, hb⟩ := cached?_eq_some_iff.1 hc
    obtain ⟨e, he⟩ := h.2
    exact ⟨s, ctx, b, e, hc, he, ((cached_current default default litOps hbumps hs h.1.1 hctx hb h.1.2).2 e he).1⟩

end ShaderVariant
