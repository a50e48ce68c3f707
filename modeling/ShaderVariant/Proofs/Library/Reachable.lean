import ShaderVariant.Proofs.Library.Effect

/-!
# Reachable libraries

Operations take the compiler that they are to use, and it need not be the same one every time.

* `Library.Reachable` : libraries that operations lead to, each with any compiler;
* `Reachable.of_steps` : what quiet steps and turns keep holds of all of them;
* `Reachable.regular`, `Reachable.named` : fragments, shaders and the names of shaders are in order;
* `Reachable.run` : every run stays among them.
-/

namespace ShaderVariant

open Relation (ReflTransGen)

namespace Library

/-- A library that operations lead to, each with a compiler of its own. -/
inductive Reachable : Library → Prop
  | new (loader : Loader) (settings : Settings) : Reachable (new loader settings)
  | step {l : Library} (h : Reachable l) {σ : Type} [ProgramCompiler σ] (c : σ) (op : Operation) :
      Reachable ((⟨l, c⟩ : Session σ).step op).library

theorem regular_new (loader : Loader) (settings : Settings) : (new loader settings).Regular :=
  ⟨.empty, fun _ _ hs => (nomatch hs)⟩

/-- What is kept across the steps of one operation. -/
theorem of_effect {P : Library → Prop} {σ : Type} [ProgramCompiler σ]
    (quiet : ∀ {x y : Session σ}, Session.Quiet x y → x.library.Regular → P x.library → P y.library)
    (turn : ∀ {x y : Session σ}, Session.Turn x y → x.library.Regular → P x.library → P y.library)
    {x y : Session σ} (h : Session.Effect x y) (hx : x.library.Regular) (hp : P x.library) : P y.library := by
  have many : ∀ {x y : Session σ}, ReflTransGen Session.Quiet x y → x.library.Regular → P x.library → P y.library := by
    intro x y h hx hp
    induction h with
    | refl => exact hp
    | tail hsteps hstep ih => exact quiet hstep (Session.regular_of_quiet hsteps hx) ih
  obtain ⟨u, v, hxu, huv, hvy⟩ := h
  have hu := Session.regular_of_quiet hxu hx
  rcases huv with rfl | huv
  · exact many hvy hu (many hxu hx hp)
  · exact many hvy (huv.regular hu) (turn huv hu (many hxu hx hp))

/-- What holds of new libraries and is kept by quiet steps and turns holds of every reachable library. -/
theorem Reachable.of_steps {P : Library → Prop} (start : ∀ loader settings, P (Library.new loader settings))
    (quiet : ∀ {σ : Type} [ProgramCompiler σ] {x y : Session σ}, Session.Quiet x y → x.library.Regular →
      P x.library → P y.library)
    (turn : ∀ {σ : Type} [ProgramCompiler σ] {x y : Session σ}, Session.Turn x y → x.library.Regular →
      P x.library → P y.library)
    {l : Library} (h : l.Reachable) : l.Regular ∧ P l := by
  induction h with
  | new loader settings => exact ⟨regular_new loader settings, start loader settings⟩
  | step h c op ih =>
    have heffect := Session.effect_step (x := ⟨_, c⟩) ih.1 op
    exact ⟨heffect.regular ih.1, of_effect quiet turn heffect ih.1 ih.2⟩

theorem Reachable.regular {l : Library} (h : l.Reachable) : l.Regular :=
  (h.of_steps (P := fun _ => True) (fun _ _ => trivial) (fun _ _ _ => trivial) fun _ _ _ => trivial).1

/-! ## Names of shaders -/

/-- A name stands for the shader that has it. -/
def Named (l : Library) : Prop := l.shaders.NamedBy Shader.name l.names

namespace Named

variable {l : Library}

theorem setShader (h : l.Named) {k : ShaderKey} {s t : Shader} (hs : l.shader? k = some s) (ht : t.name = s.name) :
    (l.setShader k t).Named :=
  SlotMap.NamedBy.set h hs ht

theorem find?_of_shader? (h : l.Named) {k : ShaderKey} {s : Shader} (hs : l.shader? k = some s) :
    l.findShader? s.name = some k :=
  SlotMap.NamedBy.find?_of_get? h hs

theorem key_eq (h : l.Named) {k x : ShaderKey} {s t : Shader} (hs : l.shader? k = some s) (ht : l.shader? x = some t)
    (hn : s.name = t.name) : k = x :=
  Option.some.inj ((h.find?_of_shader? hs).symm.trans (hn ▸ h.find?_of_shader? ht))

theorem registered?_eq_none_iff (h : l.Named) (name : String) : l.registered? name = none ↔ l.findShader? name = none := by
  unfold registered?
  constructor
  · intro hn
    cases hk : l.findShader? name with
    | none => rfl
    | some k =>
      obtain ⟨s, hs, -⟩ := (h name k).1 hk
      have hs' : l.shader? k = some s := hs
      rw [hk, Option.bind_some, hs'] at hn
      cases hn
  · intro hn
    rw [hn]
    rfl

theorem registered?_eq_some_iff (h : l.Named) {name : String} {k : ShaderKey} {s : Shader} :
    l.registered? name = some (k, s) ↔ l.shader? k = some s ∧ s.name = name := by
  constructor
  · intro hr
    refine ⟨Session.registered?_eq hr, ?_⟩
    unfold registered? at hr
    obtain ⟨k', hk, hs⟩ := Option.bind_eq_some_iff.1 hr
    obtain ⟨s', hs', he⟩ := Option.map_eq_some_iff.1 hs
    cases he
    obtain ⟨t, ht, hn⟩ := (h name k).1 hk
    cases hs'.symm.trans ht
    exact hn
  · rintro ⟨hs, rfl⟩
    unfold registered?
    rw [h.find?_of_shader? hs, Option.bind_some, hs]
    rfl

end Named

end Library

namespace Session

variable {σ : Type} [ProgramCompiler σ]

theorem Refills.name {l : Library} {s s' : Shader} (h : Refills l s s') : s'.name = s.name := by
  cases h <;> rfl

theorem named_invalidated {l : Library} (h : l.Named) (uses : ShaderKey → Shader → Bool) :
    (l.shaders.mapValues fun k s => if uses k s then s.invalidate else s).NamedBy Shader.name l.names := by
  refine SlotMap.NamedBy.mapValues h fun k s => ?_
  split <;> rfl

theorem Quiet.named {x y : Session σ} (h : Quiet x y) (hx : x.library.Named) : y.library.Named := by
  cases h with
  | load c h =>
    unfold Library.Named
    rw [h.shaders, h.names]
    exact hx
  | work l hs hw => exact hx.setShader hs hw.frame.name
  | drop l c h => exact hx

theorem Turn.named {x y : Session σ} (h : Turn x y) (hx : x.library.Named) : y.library.Named := by
  cases h with
  | settings l c settings => exact SlotMap.NamedBy.mapValues hx fun _ _ => rfl
  | edit l c h hf => exact named_invalidated hx fun _ s => s.dependsOn _ _
  | notice l c k => exact named_invalidated hx fun _ s => s.dependsOn _ _
  | invalidate l c k =>
    refine SlotMap.NamedBy.mapValues hx fun _ s => ?_
    split <;> rfl
  | @register l c s name diagnostic hn h =>
    have hname : s.name = name := by
      rcases h with rfl | h
      · rfl
      · exact h.name
    exact SlotMap.NamedBy.insert hx (hname ▸ (hx.registered?_eq_none_iff name).1 hn)
  | refill l c hs h => exact hx.setShader hs h.name
  | discard l c hs => exact SlotMap.NamedBy.remove hx hs

end Session

namespace Library.Reachable

theorem named {l : Library} (h : l.Reachable) : l.Named :=
  (h.of_steps (fun _ _ => SlotMap.NamedBy.empty _) (fun hq _ hn => hq.named hn) fun ht _ hn => ht.named hn).2

/-! ## Runs -/

variable {σ : Type} [ProgramCompiler σ]

theorem run {x : Session σ} (h : x.library.Reachable) (ops : List Operation) : (x.run ops).library.Reachable := by
  induction ops generalizing x with
  | nil => exact h
  | cons op ops ih => exact ih (h.step x.compiler op)

end Library.Reachable

end ShaderVariant
