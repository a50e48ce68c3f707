import ShaderVariant.Proofs.Library.Account
import ShaderVariant.Proofs.Library.Coherence
import ShaderVariant.Proofs.Library.Reachable

/-!
# Dates of combinations

* `Shader.Settled` : every combination that is kept was built, so it has a program or a failure. That holds in every
  reachable library (`Reachable.settled`);
* `Shader.Dated` : no combination is of a later generation than its shader. Invalidating keeps that while the counter
  does not wrap (`Dated.invalidate`), and then what is not stale is of the present generation (`Dated.stamp_eq`);
* `Library.ReachedBy` : the libraries that operations lead to which move generations so many times. Fewer than `2 ^ 64`
  moves wrap no counter (`ReachedBy.dated`).
-/

namespace ShaderVariant

open Relation (ReflTransGen)

namespace Shader

/-- Every combination that is kept has a program or a failure. -/
def Settled (s : Shader) : Prop :=
  ∀ ctx ∈ s.contexts, ∀ key b, ctx.combination? key = some b → b.program.isSome = true ∨ b.lastError.isSome = true

/-- No combination that is kept is of a later generation. -/
def Dated (s : Shader) : Prop :=
  ∀ ctx ∈ s.contexts, ∀ key b, ctx.combination? key = some b → b.stamp.count ≤ s.generation.count

variable {σ : Type} [ProgramCompiler σ] {w : Workspace} {x y : Shader × σ} {s : Shader}

theorem Work.settled (h : Work w x y) (hx : x.1.Settled) : y.1.Settled := by
  intro ctx hctx key b hb
  rcases h.combination hctx hb with ⟨old, hold, hb⟩ | ⟨old, -, e, c', rfl, -⟩ |
    ⟨i, old, p, sources, c', -, -, -, rfl, -⟩
  · exact hx old hold key b hb
  · exact Or.inr rfl
  · exact Or.inl rfl

theorem Work.dated (h : Work w x y) (hx : x.1.Dated) : y.1.Dated := by
  intro ctx hctx key b hb
  rw [h.frame.generation]
  rcases h.combination hctx hb with ⟨old, hold, hb⟩ | ⟨old, -, e, c', rfl, -⟩ |
    ⟨i, old, p, sources, c', -, -, -, rfl, -⟩
  · exact hx old hold key b hb
  · exact UInt64.le_refl _
  · exact UInt64.le_refl _

theorem Dated.of_steps (hx : x.1.Dated) (h : ReflTransGen (Work w) x y) : y.1.Dated := by
  induction h with
  | refl => exact hx
  | tail _ hstep ih => exact hstep.dated ih

theorem Dated.invalidate (h : s.Dated) (hg : s.generation.count.toNat + 1 < 2 ^ 64) : s.invalidate.Dated := by
  intro ctx hctx key b hb
  exact UInt64.le_of_lt (UInt64.lt_of_le_of_lt (h ctx hctx key b hb) (Generation.lt_next hg))

theorem Dated.stamp_eq (h : s.Dated) {i : Nat} {key : Mask} {b : Combination} (hb : s.kept? i key = some b)
    (hfresh : b.isStale s.generation = false) : b.stamp = s.generation := by
  obtain ⟨ctx, hctx, hb⟩ := Option.bind_eq_some_iff.1 hb
  have hle := h ctx (List.mem_of_getElem? hctx) key b hb
  have hge : s.generation.count ≤ b.stamp.count := UInt64.not_lt.1 (of_decide_eq_false hfresh)
  exact congrArg Generation.mk (UInt64.le_antisymm hle hge)

end Shader

namespace Session

variable {σ : Type} [ProgramCompiler σ] {x y : Session σ}

/-- What work on shaders keeps, quiet steps keep. -/
theorem Quiet.keeps {P : Shader → Prop} (work : ∀ {w : Workspace} {p q : Shader × σ}, Shader.Work w p q → P p.1 → P q.1)
    (h : Quiet x y) (hx : x.library.Regular) (hp : ∀ k s, x.library.shader? k = some s → P s) :
    ∀ k s, y.library.shader? k = some s → P s := by
  intro k s' hs'
  obtain ⟨s, hs, ⟨rfl, -⟩ | ⟨-, hwork⟩⟩ := h.shader hx hs'
  · exact hp k s' hs
  · exact work hwork (hp k s hs)

/-- A turn keeps what invalidating keeps and what holds where nothing is kept. -/
theorem Turn.keeps {P : Shader → Prop} (blank : ∀ {s : Shader}, (∀ ctx ∈ s.contexts, ctx.combinations = []) → P s)
    (stale : ∀ {k s}, x.library.shader? k = some s → y.library.shader? k = some s.invalidate → P s → P s.invalidate)
    (h : Turn x y) (hx : x.library.Regular) (hp : ∀ k s, x.library.shader? k = some s → P s) :
    ∀ k s, y.library.shader? k = some s → P s := by
  intro k s' hs'
  cases h.shader hx hs' with
  | stays hs => exact hp k s' hs
  | stale hs => exact stale hs hs' (hp k _ hs)
  | refilled hs _ hr => exact blank fun ctx hctx => (hr.blank ctx hctx).2
  | registered hs hr =>
    rcases hr with rfl | hr
    · exact blank fun ctx hctx => absurd hctx List.not_mem_nil
    · exact blank fun ctx hctx => (hr.blank ctx hctx).2

theorem settled_of_blank {s : Shader} (h : ∀ ctx ∈ s.contexts, ctx.combinations = []) : s.Settled := by
  intro ctx hctx key b hb
  rw [Context.combination?, h ctx hctx] at hb
  cases hb

theorem dated_of_blank {s : Shader} (h : ∀ ctx ∈ s.contexts, ctx.combinations = []) : s.Dated := by
  intro ctx hctx key b hb
  rw [Context.combination?, h ctx hctx] at hb
  cases hb

theorem dated_of_quiet (h : ReflTransGen Quiet x y) (hx : x.library.Regular)
    (hd : ∀ k s, x.library.shader? k = some s → s.Dated) : ∀ k s, y.library.shader? k = some s → s.Dated := by
  induction h with
  | refl => exact hd
  | tail hsteps hstep ih => exact hstep.keeps Shader.Work.dated (regular_of_quiet hsteps hx) ih

/-- An operation keeps all shaders dated while generations do not wrap. -/
theorem Effect.dated {n : Nat} (h : Effect x y) (hx : x.library.Regular)
    (hn : ∀ k s, x.library.shader? k = some s → s.generation.count.toNat ≤ n)
    (hd : ∀ k s, x.library.shader? k = some s → s.Dated) (hb : n + moved x y < 2 ^ 64) :
    ∀ k s, y.library.shader? k = some s → s.Dated := by
  obtain ⟨-, u, v, hxu, hvy, huv⟩ := h.bounded hx hn
  have hu := regular_of_quiet hxu hx
  have hdu := dated_of_quiet hxu hx hd
  rcases huv with rfl | ⟨huv, hwrap⟩
  · exact dated_of_quiet hvy hu hdu
  · refine dated_of_quiet hvy (huv.regular hu) (huv.keeps dated_of_blank ?_ hu hdu)
    intro k s hs hs' hs₀
    have hne : s.invalidate.generation ≠ u.generationOf k := by
      rw [generationOf_eq hs]
      exact Generation.next_ne _
    have hlt := hwrap k _ hs' hne
    rw [generationOf_eq hs] at hlt
    exact hs₀.invalidate (by omega)

end Session

namespace Library

theorem Reachable.settled {l : Library} (h : l.Reachable) : ∀ k s, l.shader? k = some s → s.Settled :=
  (h.of_steps (P := fun l => ∀ k s, l.shader? k = some s → s.Settled) (fun _ _ _ _ hs => nomatch hs)
    (fun hq hl => hq.keeps Shader.Work.settled hl)
    fun ht hl => ht.keeps Session.settled_of_blank (fun _ _ h => h) hl).2

/-- The libraries that operations lead to, each with a compiler of its own, after the generations of shaders have moved
a number of times. -/
inductive ReachedBy : Nat → Library → Prop
  | new (loader : Loader) (settings : Settings) : ReachedBy 0 (new loader settings)
  | step {n : Nat} {l : Library} (h : ReachedBy n l) {σ : Type} [ProgramCompiler σ] (c : σ) (op : Operation) :
      ReachedBy (n + Session.moved ⟨l, c⟩ ((⟨l, c⟩ : Session σ).step op)) ((⟨l, c⟩ : Session σ).step op).library

variable {n : Nat} {l : Library}

theorem ReachedBy.reachable (h : l.ReachedBy n) : l.Reachable := by
  induction h with
  | new loader settings => exact .new loader settings
  | step _ c op ih => exact ih.step c op

/-- Every reachable library is among them. -/
theorem Reachable.exists_reachedBy (h : l.Reachable) : ∃ n, l.ReachedBy n := by
  induction h with
  | new loader settings => exact ⟨0, .new loader settings⟩
  | step _ c op ih =>
    obtain ⟨n, hn⟩ := ih
    exact ⟨_, hn.step c op⟩

theorem ReachedBy.bounded (h : l.ReachedBy n) : ∀ k s, l.shader? k = some s → s.generation.count.toNat ≤ n := by
  induction h with
  | new loader settings => exact fun _ _ hs => nomatch hs
  | step h c op ih =>
    exact ((Session.effect_step (x := ⟨_, c⟩) h.reachable.regular op).bounded h.reachable.regular ih).1

theorem ReachedBy.dated (h : l.ReachedBy n) (hn : n < 2 ^ 64) : ∀ k s, l.shader? k = some s → s.Dated := by
  induction h with
  | new loader settings => exact fun _ _ hs => nomatch hs
  | step h c op ih =>
    have hl := h.reachable.regular
    exact (Session.effect_step (x := ⟨_, c⟩) hl op).dated hl h.bounded (ih (by omega)) hn

variable {σ : Type} [ProgramCompiler σ]

theorem ReachedBy.run {x : Session σ} (h : x.library.ReachedBy n) (ops : List Operation) :
    (x.run ops).library.ReachedBy (n + x.bumps ops) := by
  induction ops generalizing n x with
  | nil => exact h
  | cons op ops ih =>
    rw [Session.bumps, ← Nat.add_assoc]
    exact ih (h.step x.compiler op)

end Library

end ShaderVariant
