import ShaderVariant.Proofs.Library.Account
import ShaderVariant.Proofs.Library.Coherence

/-!
# Turnover of combinations

What becomes of the accounts of a library.

* `Site`, `Session.account` : where a combination is kept, and its account there;
* `Quiet.turnover` : every quiet step is a turnover of every account;
* `Move.turnover`, `Move.turnover_renewed` : so is every operation, from the account before, or from an empty one if the
  operation is about the shader or the shader was not loaded (`Move.turnover_from`).
-/

namespace ShaderVariant

open Relation (ReflTransGen)

/-! ## Sites -/

/-- Where a combination is kept, with the names that it is compiled under. -/
structure Site where
  shader : ShaderKey
  index : Nat
  key : Mask
  shaderName : String
  contextName : String

namespace Site

structure Within (p : Site) (s : Shader) : Prop where
  name : s.name = p.shaderName
  context : ∃ ctx, s.contexts[p.index]? = some ctx ∧ ctx.name = p.contextName

def In (p : Site) (l : Library) : Prop := ∃ s, l.shader? p.shader = some s ∧ p.Within s

theorem Within.frame {p : Site} {s s' : Shader} (h : p.Within s) (hf : Shader.Frame s s') : p.Within s' := by
  obtain ⟨ctx, hctx, hname⟩ := h.context
  obtain ⟨ctx', hctx', hdecl⟩ := hf.exists_context hctx
  exact ⟨hf.name.trans h.name, ctx', hctx', (congrArg ContextDecl.name hdecl).trans hname⟩

theorem Within.isLoaded {p : Site} {s : Shader} {l : Library} (h : p.Within s) (hs : s.Regular l) :
    s.isLoaded = true := by
  obtain ⟨ctx, hctx, -⟩ := h.context
  by_contra hu
  rw [hs.unloaded (Bool.eq_false_iff.2 hu)] at hctx
  cases hctx

end Site

namespace Session

/-! ## Accounts -/

variable {σ : Type}

def kept? (x : Session σ) (p : Site) : Option Combination :=
  (x.library.shader? p.shader).bind (·.kept? p.index p.key)

theorem kept?_eq {x : Session σ} {p : Site} {s : Shader} (hs : x.library.shader? p.shader = some s) :
    x.kept? p = s.kept? p.index p.key := by
  rw [kept?, hs, Option.bind_some]

def account (x : Session (Traced σ)) (p : Site) : Account :=
  ⟨x.kept? p, outcomes p.shaderName p.contextName p.key x.compiler.calls⟩

theorem account_of_shader {x : Session (Traced σ)} {p : Site} {s : Shader} (hs : x.library.shader? p.shader = some s)
    (hn : s.name = p.shaderName) : x.account p = Shader.account (s, x.compiler) p.index p.contextName p.key := by
  unfold account Shader.account
  rw [kept?_eq hs, hn]

variable [ProgramCompiler σ]

theorem Quiet.turnover {x y : Session (Traced σ)} (h : Quiet x y) (hx : x.library.Lawful) {p : Site}
    (hp : p.In x.library) :
    p.In y.library ∧ Turnover (x.generationOf p.shader) (x.account p) (y.account p) := by
  obtain ⟨s, hs, hin⟩ := hp
  rw [generationOf_eq hs]
  cases h with
  | @load l l' c h =>
    have hs' : l'.shader? p.shader = some s := (shader?_loaded h p.shader).trans hs
    refine ⟨⟨s, hs', hin⟩, ?_⟩
    have he : (⟨l', c⟩ : Session (Traced σ)).account p = (⟨l, c⟩ : Session (Traced σ)).account p := by
      rw [account_of_shader hs' hin.name, account_of_shader hs hin.name]
    rw [he]
    exact .same _
  | @work l k t t' c c' ht hw =>
    have hset := Library.shader?_setShader l k p.shader t'
    by_cases hk : k = p.shader
    · subst hk
      cases ht.symm.trans hs
      rw [if_pos rfl, hs, Option.map_some] at hset
      obtain ⟨ctx, hctx, hname⟩ := hin.context
      have hframe : Shader.Frame s t' := hw.frame
      have hin' := hin.frame hframe
      refine ⟨⟨t', hset, hin'⟩, ?_⟩
      rw [account_of_shader hs hin.name, account_of_shader (x := ⟨l.setShader p.shader t', c'⟩) hset hin'.name, ← hname]
      exact hw.turnover (hx.declared p.shader s hs) hctx p.key
    · rw [if_neg hk] at hset
      have hs' := hset.trans hs
      have hother : t.name ≠ p.shaderName := fun hn =>
        hk (hx.named.key_eq ht hs (hn.trans hin.name.symm))
      refine ⟨⟨s, hs', hin⟩, ?_⟩
      have he : (⟨l.setShader k t', c'⟩ : Session (Traced σ)).account p = (⟨l, c⟩ : Session (Traced σ)).account p := by
        unfold account kept?
        rw [hset]
        exact congrArg (Account.mk _) (hw.outcomes_of_ne hother p.contextName p.key)
      rw [he]
      exact .same _
  | drop l c h => exact ⟨⟨s, hs, hin⟩, .same _⟩

theorem turnover_of_quiet {x y : Session (Traced σ)} (h : ReflTransGen Quiet x y) (hx : x.library.Lawful) {p : Site}
    (hp : p.In x.library) :
    p.In y.library ∧ Turnover (x.generationOf p.shader) (x.account p) (y.account p) := by
  induction h with
  | refl => exact ⟨hp, .same _⟩
  | tail hsteps hstep ih =>
    obtain ⟨hin, hturn⟩ := ih
    obtain ⟨hin', hturn'⟩ := hstep.turnover (lawful_of_quiet hsteps hx) hin
    rw [generationOf_of_quiet hsteps] at hturn'
    exact ⟨hin', hturn.trans hturn'⟩

/-! ## Operations -/

theorem frame_of_quiet {τ : Type} [ProgramCompiler τ] {x y : Session τ} (h : ReflTransGen Quiet x y)
    (hx : x.library.Regular) {k : ShaderKey} {s' : Shader} (hs' : y.library.shader? k = some s') :
    ∃ s, x.library.shader? k = some s ∧ Shader.Frame s s' := by
  induction h generalizing s' with
  | refl => exact ⟨s', hs', .refl s'⟩
  | tail hsteps hstep ih =>
    obtain ⟨t, ht, hcase⟩ := hstep.shader (regular_of_quiet hsteps hx) hs'
    obtain ⟨s, hs, hframe⟩ := ih ht
    rcases hcase with ⟨rfl, -⟩ | ⟨-, hwork⟩
    · exact ⟨s, hs, hframe⟩
    · exact ⟨s, hs, hframe.trans hwork.frame⟩

/-- A site that is there after quiet steps was there before. -/
theorem in_of_quiet {τ : Type} [ProgramCompiler τ] {x y : Session τ} (h : ReflTransGen Quiet x y)
    (hx : x.library.Regular) {p : Site} (hp : p.In y.library) : p.In x.library := by
  obtain ⟨s', hs', hin⟩ := hp
  obtain ⟨s, hs, hframe⟩ := frame_of_quiet h hx hs'
  exact ⟨s, hs, hin.frame hframe.symm⟩

theorem Turn.outcomes {x y : Session (Traced σ)} (h : Turn x y) (shader context : String) (key : Mask) :
    outcomes shader context key y.compiler.calls = outcomes shader context key x.compiler.calls := by
  cases h with
  | refill l c hs h => exact Traced.outcomes_releaseAll ..
  | discard l c hs => exact Traced.outcomes_releaseAll ..
  | _ => rfl

/-- A turn leaves the accounts of a loaded shader, unless the operation is about it. -/
theorem Sparing.account {k? : Option ShaderKey} {u v : Session (Traced σ)} (h : Sparing k? u v) {p : Site}
    (hk : k? ≠ some p.shader) {s : Shader} (hs : u.library.shader? p.shader = some s) (hload : s.isLoaded = true)
    (hin : p.Within s) : p.In v.library ∧ v.account p = u.account p := by
  have hentry : ∀ t, v.library.shader? p.shader = some t → t.contexts = s.contexts → v.kept? p = u.kept? p := by
    intro t ht hcontexts
    rw [kept?_eq ht, kept?_eq hs, Shader.kept?, Shader.kept?, hcontexts]
  have hout := h.turn.outcomes p.shaderName p.contextName p.key
  rcases h.keeps p.shader s hk hs hload with hv | hv
  · exact ⟨⟨s, hv, hin⟩, congrArg₂ Account.mk (hentry s hv rfl) hout⟩
  · exact ⟨⟨s.invalidate, hv, hin.name, hin.context⟩, congrArg₂ Account.mk (hentry s.invalidate hv rfl) hout⟩

/-- An operation that is not about a shader is a turnover of each of its accounts. -/
theorem Move.turnover {k? : Option ShaderKey} {x y : Session (Traced σ)} (h : Move k? x y) (hx : x.library.Lawful)
    {p : Site} (hk : k? ≠ some p.shader) (hp : p.In x.library) :
    p.In y.library ∧ Turnover (y.generationOf p.shader) (x.account p) (y.account p) := by
  cases h with
  | quiet _ h =>
    rw [generationOf_of_quiet h]
    exact turnover_of_quiet h hx hp
  | @turn l l' c v y hload h hq =>
    obtain ⟨s, hs, hin⟩ := hp
    have hs' : l'.shader? p.shader = some s := (shader?_loaded hload p.shader).trans hs
    have hx' := Quiet.lawful (.load c hload) hx
    obtain ⟨hpv, haccount⟩ := h.account hk hs' (hin.isLoaded (hx.regular.shaders _ s hs)) hin
    obtain ⟨hpy, hturn⟩ := turnover_of_quiet hq (h.turn.lawful hx') hpv
    have hbefore : (⟨l', c⟩ : Session (Traced σ)).account p = (⟨l, c⟩ : Session (Traced σ)).account p := by
      rw [account_of_shader hs' hin.name, account_of_shader hs hin.name]
    rw [haccount, hbefore, ← generationOf_of_quiet hq] at hturn
    exact ⟨hpy, hturn⟩

/-- Nothing is kept in a shader after a turn, if the operation is about it or it was not loaded. -/
theorem Sparing.dropped {k? : Option ShaderKey} {u v : Session (Traced σ)} (h : Sparing k? u v) (hu : u.library.Regular)
    {p : Site} (hp : p.In v.library)
    (hnew : k? = some p.shader ∨ ∀ s, u.library.shader? p.shader = some s → s.isLoaded = false) :
    v.account p = (u.account p).dropped := by
  obtain ⟨t, ht, hin⟩ := hp
  have hload := hin.isLoaded ((h.turn.regular hu).shaders p.shader t ht)
  have hblank : ∀ ctx ∈ t.contexts, ctx.combinations = [] := by
    rcases hnew with hk | hu'
    · exact h.clears p.shader t hk ht
    · intro ctx hctx
      cases h.turn.shader hu ht with
      | stays hs => exact absurd ((hu' _ hs).symm.trans hload) Bool.false_ne_true
      | stale hs => exact absurd ((hu' _ hs).symm.trans hload) Bool.false_ne_true
      | refilled _ _ hr => exact (hr.blank ctx hctx).2
      | registered _ hr =>
        rcases hr with rfl | hr
        · cases hctx
        · exact (hr.blank ctx hctx).2
  have hentry : v.kept? p = none := by
    obtain ⟨ctx, hctx, -⟩ := hin.context
    rw [kept?_eq ht, Shader.kept?_of_context hctx, Context.combination?, hblank ctx (List.mem_of_getElem? hctx)]
    rfl
  exact congrArg₂ Account.mk hentry (h.turn.outcomes p.shaderName p.contextName p.key)

/-- An operation that is about a shader, or that loads it, is a turnover of each of its accounts from nothing. -/
theorem Move.turnover_renewed {k? : Option ShaderKey} {x y : Session (Traced σ)} (h : Move k? x y)
    (hx : x.library.Lawful) {p : Site} (hp : p.In y.library)
    (hnew : k? = some p.shader ∨ ∀ s, x.library.shader? p.shader = some s → s.isLoaded = false) :
    Turnover (y.generationOf p.shader) (x.account p).dropped (y.account p) := by
  cases h with
  | quiet hk h =>
    -- The shader was there and loaded before, so the operation can be neither.
    obtain ⟨s, hs, hin⟩ := in_of_quiet h hx.regular hp
    rcases hnew with rfl | hu
    · rw [hk p.shader rfl] at hs
      cases hs
    · have hload := hin.isLoaded (hx.regular.shaders p.shader s hs)
      rw [hu s hs] at hload
      cases hload
  | @turn l l' c v y hload h hq =>
    have hx' := Quiet.lawful (.load c hload) hx
    have hv := h.turn.lawful hx'
    have hpv := in_of_quiet hq hv.regular hp
    have hbefore : (⟨l', c⟩ : Session (Traced σ)).account p = (⟨l, c⟩ : Session (Traced σ)).account p := by
      unfold account kept?
      rw [show l'.shader? p.shader = l.shader? p.shader from shader?_loaded hload p.shader]
    have hdropped := h.dropped hx'.regular hpv (hnew.imp_right fun hu s hs => hu s ((shader?_loaded hload _).symm.trans hs))
    obtain ⟨-, hturn⟩ := turnover_of_quiet hq hv hpv
    rw [hdropped, hbefore, ← generationOf_of_quiet hq] at hturn
    exact hturn

/-- A site that is there afterwards was there before, if the shader was loaded and the operation is not about it. -/
theorem Move.in_of_loaded {τ : Type} [ProgramCompiler τ] {k? : Option ShaderKey} {x y : Session τ} (h : Move k? x y)
    (hx : x.library.Lawful) {p : Site} (hk : k? ≠ some p.shader) {s : Shader} (hs : x.library.shader? p.shader = some s)
    (hload : s.isLoaded = true) (hp : p.In y.library) : p.In x.library := by
  cases h with
  | quiet _ h => exact in_of_quiet h hx.regular hp
  | @turn l l' c v y hloaded h hq =>
    have hx' : Library.Lawful l' := Quiet.lawful (.load c hloaded) hx
    obtain ⟨t, ht, hin⟩ := in_of_quiet hq (h.turn.lawful hx').regular hp
    rcases h.keeps p.shader s hk ((shader?_loaded hloaded p.shader).trans hs) hload with hv | hv
    · cases hv.symm.trans ht
      exact ⟨s, hs, hin⟩
    · cases hv.symm.trans ht
      exact ⟨s, hs, hin.name, hin.context⟩

/-- Every operation is a turnover of every account, which is dropped before if the operation is about its shader. -/
theorem Move.turnover_from {k? : Option ShaderKey} {x y : Session (Traced σ)} (h : Move k? x y) (hx : x.library.Lawful)
    {p : Site} (hp : p.In y.library) :
    Turnover (y.generationOf p.shader) (if k? = some p.shader then (x.account p).dropped else x.account p)
      (y.account p) := by
  split
  · next hk => exact h.turnover_renewed hx hp (Or.inl hk)
  · next hk =>
    by_cases hload : ∃ s, x.library.shader? p.shader = some s ∧ s.isLoaded = true
    · obtain ⟨s, hs, hload⟩ := hload
      exact (h.turnover hx hk (h.in_of_loaded hx hk hs hload hp)).2
    · have hu : ∀ s, x.library.shader? p.shader = some s → s.isLoaded = false := fun s hs =>
        Bool.eq_false_iff.2 fun hl => hload ⟨s, hs, hl⟩
      -- A shader that is not loaded keeps nothing.
      have hentry : x.kept? p = none := by
        cases hs : x.library.shader? p.shader with
        | none => rw [kept?, hs, Option.bind_none]
        | some s =>
          rw [kept?_eq hs, Shader.kept?, (hx.regular.shaders p.shader s hs).unloaded (hu s hs)]
          rfl
      have hturn := h.turnover_renewed hx hp (Or.inr hu)
      have hdropped : (x.account p).dropped = x.account p := congrArg (Account.mk · _) hentry.symm
      rwa [hdropped] at hturn

end Session

end ShaderVariant
