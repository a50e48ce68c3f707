import ShaderVariant.Proofs.Shader.Work

/-!
# Shaders without what they keep

A shader that remembers its text builds the same as one that keeps no assembled section and is told to keep none.

* `Settings.withoutMemo`, `Workspace.withoutMemo` : assembled sections are not kept;
* `Shader.forget` : an outcome, less what the shader keeps of assembled sections;
* `stageSources_withoutMemo`, `build_withoutMemo`, `ensure_withoutMemo`, `getCombination_withoutMemo`,
  `compileContexts_withoutMemo` : with nothing kept, every operation has the same outcome, less what is kept.
-/

namespace ShaderVariant

open Relation (ReflTransGen)

def Settings.withoutMemo (s : Settings) : Settings := { s with memoizeAssembly := false }

def Workspace.withoutMemo (w : Workspace) : Workspace := ⟨w.fragments, w.settings.withoutMemo⟩

namespace Shader

variable {w : Workspace} {s : Shader}

def forget {α τ : Type} (p : α × Shader × τ) : α × Shader × τ := (p.1, p.2.1.withoutMemo, p.2.2)

@[simp] theorem contexts_withoutMemo (s : Shader) : s.withoutMemo.contexts = s.contexts := rfl

@[simp] theorem loadError?_withoutMemo (s : Shader) : s.withoutMemo.loadError? = s.loadError? := rfl

@[simp] theorem findContext?_withoutMemo (s : Shader) (name : String) :
    s.withoutMemo.findContext? name = s.findContext? name := rfl

/-! ## Assembling -/

theorem assembledSection_snd (hw : w.settings.memoizeAssembly = false) (s : Shader) (i : Nat) :
    (s.assembledSection w i).2 = s := by
  unfold assembledSection
  split
  · rfl
  · split
    · rfl
    · split
      · rfl
      · rw [hw]
        rfl

/-- Where nothing is to be kept, assembling leaves the shader as it is. -/
theorem stageSources_snd (hw : w.settings.memoizeAssembly = false) (m : Mask) (bound : List (Stage × Nat)) (s : Shader) :
    (s.stageSources w m bound).2 = s := by
  induction bound with
  | nil => rfl
  | cons b bound ih =>
    have hsection := assembledSection_snd hw s b.2
    unfold stageSources
    split
    · next he => rwa [he] at hsection
    · next he =>
      rw [he] at hsection
      obtain rfl := hsection
      split
      · rfl
      · split <;> next he => rwa [he] at ih

theorem freshSource_withoutMemo (w : Workspace) (m : Mask) (s : Shader) (b : Stage × Nat) :
    s.withoutMemo.freshSource w.withoutMemo m b = s.freshSource w m b := rfl

theorem freshSources_withoutMemo (w : Workspace) (m : Mask) (s : Shader) (bound : List (Stage × Nat)) :
    s.withoutMemo.freshSources w.withoutMemo m bound = s.freshSources w m bound := by
  induction bound with
  | nil => rfl
  | cons b bound ih => rw [freshSources, freshSources, freshSource_withoutMemo, ih]

theorem Assembles.withoutMemo {s' : Shader} (h : ReflTransGen (Assembles w) s s') : s'.withoutMemo = s.withoutMemo := by
  induction h with
  | refl => rfl
  | tail _ hstep ih =>
    obtain ⟨i, t, -, rfl⟩ := hstep
    exact ih

theorem stageSources_withoutMemo (hr : s.Remembers w) (m : Mask) (bound : List (Stage × Nat)) :
    s.withoutMemo.stageSources w.withoutMemo m bound =
      ((s.stageSources w m bound).1, (s.stageSources w m bound).2.withoutMemo) := by
  obtain ⟨hfst, hchain⟩ := stageSources_spec m bound hr
  have hfresh := (stageSources_spec m bound (s.remembers_withoutMemo w.withoutMemo)).1
  rw [freshSources_withoutMemo] at hfresh
  refine Prod.ext (hfresh.trans hfst.symm) ?_
  rw [stageSources_snd rfl, Assembles.withoutMemo hchain]

theorem assembleStageSources_withoutMemo (hr : s.Remembers w) (i : Nat) (m : Mask) :
    s.withoutMemo.assembleStageSources w.withoutMemo i m =
      ((s.assembleStageSources w i m).1, (s.assembleStageSources w i m).2.withoutMemo) := by
  unfold assembleStageSources
  rw [loadError?_withoutMemo, contexts_withoutMemo]
  cases s.loadError? with
  | some e => rfl
  | none =>
    cases s.contexts[i]? with
    | none => rfl
    | some c => exact stageSources_withoutMemo hr m _

theorem combinationKey_withoutMemo (w : Workspace) (i : Nat) (m : Mask) (s : Shader) :
    s.withoutMemo.combinationKey w.withoutMemo i m =
      ((s.combinationKey w i m).1, (s.combinationKey w i m).2.withoutMemo) := by
  unfold combinationKey
  rw [contexts_withoutMemo]
  cases s.contexts[i]? with
  | none => rfl
  | some c =>
    have hmask : w.withoutMemo.settings.maskUnusedFlags = w.settings.maskUnusedFlags := rfl
    simp only [hmask]
    split <;> rfl

theorem prepare_withoutMemo (hr : s.Remembers w) (i : Nat) (d : ContextDecl) (key : Mask) :
    s.withoutMemo.prepare w.withoutMemo i d key = ((s.prepare w i d key).1, (s.prepare w i d key).2.withoutMemo) := by
  have hname : s.withoutMemo.name = s.name := rfl
  unfold prepare
  rw [hname]
  cases d.error? s.name with
  | some e => rfl
  | none =>
    have hlink : (s.link w.fragments i).Remembers w :=
      remembers_of_frame hr (.modifyContext (decl_linked s w.fragments) s i) rfl
    exact stageSources_withoutMemo hlink key _

/-! ## Building -/

variable {σ : Type} [ProgramCompiler σ]

theorem build_withoutMemo (hr : s.Remembers w) (i : Nat) (d : ContextDecl) (key : Mask) (c : σ) :
    s.withoutMemo.build w.withoutMemo i d key c = forget (s.build w i d key c) := by
  unfold build
  rw [prepare_withoutMemo hr]
  rcases s.prepare w i d key with ⟨e | stages, s₁⟩
  · rfl
  · have hrequest : s₁.withoutMemo.request d key stages = s₁.request d key stages := rfl
    simp only [hrequest]
    rcases ProgramCompiler.compile (s₁.request d key stages) c with ⟨f | p, c₁⟩ <;> rfl

theorem ensure_withoutMemo (hr : s.Remembers w) (i : Nat) (m : Mask) (c : σ) :
    s.withoutMemo.ensure w.withoutMemo i m c = forget (s.ensure w i m c) := by
  unfold ensure
  rw [loadError?_withoutMemo, contexts_withoutMemo]
  cases s.loadError? with
  | some e => rfl
  | none =>
    cases s.contexts[i]? with
    | none => rfl
    | some ctx =>
      simp only [combinationKey_withoutMemo]
      cases hk : s.combinationKey w i m with
      | mk key s₁ =>
        have hr₁ : s₁.Remembers w := by
          rcases combinationKey_cases hk with rfl | rfl
          · exact hr
          · exact remembers_of_frame hr (.modifyContext (decl_linked s w.fragments) s i) rfl
        have hbuild := build_withoutMemo hr₁ i ctx.decl key c
        rcases hb : s₁.build w i ctx.decl key c with ⟨e | b, s₂, c₂⟩ <;> rw [hb] at hbuild
        all_goals
          cases ctx.combination? key with
          | none => simp only [hbuild, forget]
          | some old =>
            have hgeneration : s₁.withoutMemo.generation = s₁.generation := rfl
            simp only [hbuild, forget, hgeneration]
            cases old.isStale s₁.generation with
            | true => rfl
            | false => cases old.lastError <;> rfl

theorem getCombination_withoutMemo (hr : s.Remembers w) (context : String) (m : Mask) (c : σ) :
    s.withoutMemo.getCombination w.withoutMemo context m c = forget (s.getCombination w context m c) := by
  unfold getCombination
  rw [loadError?_withoutMemo, findContext?_withoutMemo]
  cases s.loadError? with
  | some e => rfl
  | none =>
    cases s.findContext? context with
    | none => rfl
    | some i =>
      simp only [getCombinationAt, ensure_withoutMemo hr]
      rcases s.ensure w i m c with ⟨e | b, s₁, c₁⟩ <;> rfl

theorem ensureAll_withoutMemo (i : Nat) (ms : List Mask) {s : Shader} (hr : s.Remembers w) (c : σ) :
    s.withoutMemo.ensureAll w.withoutMemo i ms c = forget (s.ensureAll w i ms c) := by
  induction ms generalizing s c with
  | nil => rfl
  | cons m ms ih =>
    have hr₁ := Work.remembers_of_steps (ensure_work hr i m c) hr
    simp only [ensureAll, ensure_withoutMemo hr, forget, ih hr₁]

theorem compileEach_withoutMemo (masks : List Mask) (is : List Nat) {s : Shader} (hr : s.Remembers w) (c : σ) :
    s.withoutMemo.compileEach w.withoutMemo masks is c = forget (s.compileEach w masks is c) := by
  induction is generalizing s c with
  | nil => rfl
  | cons i is ih =>
    have hlink : (s.link w.fragments i).Remembers w := (Work.link s c i).remembers hr
    have hall : (s.withoutMemo.link w.withoutMemo.fragments i).ensureAll w.withoutMemo i masks c =
        forget ((s.link w.fragments i).ensureAll w i masks c) := ensureAll_withoutMemo i masks hlink c
    have hwork := ensureAll_work i masks hlink c
    rcases hb : (s.link w.fragments i).ensureAll w i masks c with ⟨report, s₁, c₁⟩
    rw [hb] at hall hwork
    have hcover := (Work.cover s₁ c₁ i).remembers (Work.remembers_of_steps hwork hlink)
    have hrest : (s₁.withoutMemo.modifyContext i fun ctx => { ctx with compiled := true }).compileEach w.withoutMemo
        masks is c₁ = forget ((s₁.modifyContext i fun ctx => { ctx with compiled := true }).compileEach w masks is c₁) :=
      ih hcover c₁
    simp only [compileEach, hall, hb, forget, hrest]

theorem compileContexts_withoutMemo (hr : s.Remembers w) (c : σ) :
    s.withoutMemo.compileContexts w.withoutMemo c = forget (s.compileContexts w c) := by
  unfold compileContexts
  rw [loadError?_withoutMemo]
  cases s.loadError? with
  | some e => rfl
  | none =>
    have hall : s.withoutMemo.compileEach w.withoutMemo s.withoutMemo.preLoad
        (List.range s.withoutMemo.contexts.length) c = forget (s.compileEach w s.preLoad (List.range s.contexts.length) c) :=
      compileEach_withoutMemo s.preLoad _ hr c
    simp only [hall, forget]
    rfl

end Shader

end ShaderVariant
