import ShaderVariant.Proofs.Library.Profile
import ShaderVariant.Proofs.Library.Reachable

/-!
# The text of a shader

* `Session.Brings` : an operation gives a shader the content of a text. Then the shader is made of the text
  (`madeOf_of_brings`), and all that is not given content keeps its profile or loses it (`profile?_step`);
* `Library.Recalls` : the libraries that operations lead to, with the text that was given to a shader last. Every reachable
  library has one (`Reachable.exists_recalls`);
* `Recalls.madeOf` : a loaded shader is made of that text, whatever has become of its fragments since.
-/

namespace ShaderVariant

open FragmentStore (WellFormed)

namespace Library

variable {l : Library}

/-- A shader that is loaded anew was read. -/
theorem readSource_of_loadShader {name : String} {k : ShaderKey}
    (hu : ∀ x s, l.registered? name = some (x, s) → s.isLoaded = false) (h : (l.loadShader name).1 = .ok k) :
    ∃ t, (l.readSource name).1 = .ok t := by
  unfold loadShader at h
  cases hr : l.readSource name with
  | mk r l' =>
    cases r with
    | ok t => exact ⟨t, rfl⟩
    | error e =>
      simp only [hr] at h
      split at h
      · cases h
      · next x s hreg =>
        simp only [hu x s hreg, Bool.false_eq_true, if_false] at h
        cases h

theorem readSource_of_reloadShader {σ : Type} [ProgramCompiler σ] {k : ShaderKey} {s : Shader} {c : σ}
    {report : BuildReport} (hs : l.shader? k = some s) (h : (l.reloadShader k c).1 = .ok report) :
    ∃ t, (l.readSource s.name).1 = .ok t := by
  unfold reloadShader at h
  simp only [hs] at h
  cases hr : l.readSource s.name with
  | mk r l' =>
    cases r with
    | ok t => exact ⟨t, rfl⟩
    | error e =>
      simp only [hr] at h
      cases h

theorem shader?_of_reloadShaderText {σ : Type} [ProgramCompiler σ] {k : ShaderKey} {t : Text} {c : σ}
    {report : BuildReport} (h : (l.reloadShaderText k t c).1 = .ok report) : ∃ s, l.shader? k = some s := by
  cases hs : l.shader? k with
  | some s => exact ⟨s, rfl⟩
  | none =>
    simp only [reloadShaderText, hs] at h
    cases h

/-! ## A shader that was just loaded -/

theorem madeOf_loadShaderText {name : String} {k : ShaderKey} {t : Text} (hl : WellFormed l.fragments)
    (hu : ∀ x s, l.registered? name = some (x, s) → s.isLoaded = false) (h : (l.loadShaderText name t).1 = .ok k) :
    (l.loadShaderText name t).2.MadeOf k t := by
  unfold loadShaderText at h ⊢
  cases hreg : l.registered? name with
  | none =>
    simp only [hreg] at h ⊢
    exact madeOf_loadNewShader hl h
  | some p =>
    simp only [hreg, hu p.1 p.2 hreg, Bool.false_eq_true, if_false] at h ⊢
    exact madeOf_refill hl (Session.registered?_eq hreg) h

theorem madeOf_loadShader {name : String} {k : ShaderKey} {t : Text} (hl : WellFormed l.fragments)
    (hu : ∀ x s, l.registered? name = some (x, s) → s.isLoaded = false) (ht : (l.readSource name).1 = .ok t)
    (h : (l.loadShader name).1 = .ok k) : (l.loadShader name).2.MadeOf k t := by
  have hload := (attempt_readSource hl name).loaded hl
  unfold loadShader at h ⊢
  cases hr : l.readSource name with
  | mk r l' =>
    simp only [hr] at ht h hload ⊢
    cases ht
    cases hreg : l.registered? name with
    | none =>
      simp only [hreg] at h ⊢
      exact madeOf_loadNewShader hload.wf h
    | some p =>
      simp only [hreg, hu p.1 p.2 hreg, Bool.false_eq_true, if_false] at h ⊢
      exact madeOf_refill hload.wf ((Session.shader?_loaded hload p.1).trans (Session.registered?_eq hreg)) h

theorem madeOf_reloadShader {σ : Type} [ProgramCompiler σ] {k : ShaderKey} {s : Shader} {t : Text} {c : σ}
    {report : BuildReport} (hl : WellFormed l.fragments) (hs : l.shader? k = some s)
    (ht : (l.readSource s.name).1 = .ok t) (h : (l.reloadShader k c).1 = .ok report) :
    (l.reloadShader k c).2.1.MadeOf k t := by
  have hload := (attempt_readSource hl s.name).loaded hl
  unfold reloadShader at h ⊢
  cases hr : l.readSource s.name with
  | mk r l' =>
    simp only [hs, hr] at ht h hload ⊢
    cases ht
    exact madeOf_reloadShaderText hload.wf ((Session.shader?_loaded hload k).trans hs) h

end Library

namespace Session

variable {σ : Type} [ProgramCompiler σ]

/-- The operation succeeds in giving the shader with the key `k` the content of the text. A name that is loaded keeps its
shader, so that loading it again gives nothing. -/
inductive Brings (x : Session σ) : Operation → ShaderKey → Text → Prop
  | load {name : String} {k : ShaderKey} {t : Text}
      (hu : ∀ y s, x.library.registered? name = some (y, s) → s.isLoaded = false)
      (ht : (x.library.readSource name).1 = .ok t) (h : x.answer (.loadShader name) = .shader (.ok k)) :
      Brings x (.loadShader name) k t
  | loadText {name : String} {k : ShaderKey} {t : Text}
      (hu : ∀ y s, x.library.registered? name = some (y, s) → s.isLoaded = false)
      (h : x.answer (.loadShaderText name t) = .shader (.ok k)) : Brings x (.loadShaderText name t) k t
  | reload {k : ShaderKey} {s : Shader} {t : Text} {report : BuildReport} (hs : x.library.shader? k = some s)
      (ht : (x.library.readSource s.name).1 = .ok t) (h : x.answer (.reloadShader k) = .built (.ok report)) :
      Brings x (.reloadShader k) k t
  | reloadText {k : ShaderKey} {t : Text} {report : BuildReport}
      (h : x.answer (.reloadShaderText k t) = .built (.ok report)) : Brings x (.reloadShaderText k t) k t

variable {x : Session σ} {op : Operation} {k : ShaderKey}

/-- A shader that gets the content of a text is made of it. -/
theorem madeOf_of_brings (hx : x.library.Regular) {t : Text} (h : x.Brings op k t) :
    (x.step op).library.MadeOf k t := by
  have hl := hx.fragments
  cases h with
  | load hu ht h => exact Library.madeOf_loadShader hl hu ht (Answer.shader.inj h)
  | loadText hu h => exact Library.madeOf_loadShaderText hl hu (Answer.shader.inj h)
  | reload hs ht h => exact Library.madeOf_reloadShader hl hs ht (Answer.built.inj h)
  | @reloadText k t report h =>
    have hok : (x.library.reloadShaderText k t x.compiler).1 = .ok report := Answer.built.inj h
    obtain ⟨s, hs⟩ := Library.shader?_of_reloadShaderText hok
    exact Library.madeOf_reloadShaderText hl hs hok

/-- What an operation makes of the profile of a shader. -/
theorem profile?_step (hx : x.library.Regular) (op : Operation) (k : ShaderKey) :
    (x.step op).library.profile? k = x.library.profile? k ∨ (x.step op).library.profile? k = none ∨
      ∃ t, x.Brings op k t := by
  obtain ⟨l, c⟩ := x
  have hl : l.Regular := hx
  have same {l' : Library} (h : l.SameProfiles l') {q : Prop} : l'.profile? k = l.profile? k ∨ q := Or.inl (h k)
  cases op with
  | setLoader loader => exact Or.inl rfl
  | setSettings settings => exact same (Library.sameProfiles_setSettings l settings)
  | addFragment name t => exact same (.added (Library.added_addFragment hl.fragments name t) hl)
  | loadFragment name =>
    exact same (.loaded ((Library.attempt_loadFragment hl.fragments name).loaded hl.fragments) hl)
  | updateFragment x t => exact same (.replaced (Library.replaced_updateFragment hl.fragments x t) hl)
  | reloadFragment x => exact same (.replaced (Library.replaced_reloadFragment hl.fragments x) hl)
  | removeFragment x => exact same (sameProfiles_of_quiet (quiet_removeFragment l c x) hl)
  | fragmentChanged x => exact same (Library.sameProfiles_fragmentChanged l x)
  | loadShader name =>
    refine ((Library.opened_loadShader hl.fragments name).profile? hl k).imp_right (Or.imp_right ?_)
    rintro ⟨hok, hu⟩
    obtain ⟨t, ht⟩ := Library.readSource_of_loadShader hu hok
    exact ⟨t, .load hu ht (congrArg Answer.shader hok)⟩
  | loadShaderText name t =>
    refine ((Library.opened_loadShaderText hl.fragments name t).profile? hl k).imp_right (Or.imp_right ?_)
    rintro ⟨hok, hu⟩
    exact ⟨t, .loadText hu (congrArg Answer.shader hok)⟩
  | reloadShader x =>
    cases hx : l.shader? x with
    | none => exact same (by simp only [step, Library.reloadShader, hx]; exact .refl l)
    | some s =>
      refine ((Library.reloaded_reloadShader hl.fragments hx c).profile? hl k).imp_right (Or.imp_right ?_)
      rintro ⟨rfl, report, hok⟩
      obtain ⟨t, ht⟩ := Library.readSource_of_reloadShader hx hok
      exact ⟨t, .reload hx ht (congrArg Answer.built hok)⟩
  | reloadShaderText x t =>
    cases hx : l.shader? x with
    | none => exact same (by simp only [step, Library.reloadShaderText, hx]; exact .refl l)
    | some s =>
      refine ((Library.reloaded_reloadShaderText hl.fragments l.loader hx t c).profile? hl k).imp_right (Or.imp_right ?_)
      rintro ⟨rfl, report, hok⟩
      exact ⟨t, .reloadText (congrArg Answer.built hok)⟩
  | removeShader x => exact (Library.profile?_removeShader l x c k).imp_right Or.inl
  | invalidateShader x => exact same (Library.sameProfiles_invalidateShader l x)
  | releaseShader x => exact same (Library.sameProfiles_releaseShader l x c)
  | preLoadMask x m => exact same (sameProfiles_of_quiet (quiet_preLoadMask l c x m) hl)
  | compileContexts x => exact same (sameProfiles_of_quiet (quiet_compileContexts hl c x) hl)
  | compileAll => exact same (sameProfiles_of_quiet (quiet_compileEach _ hl c) hl)
  | getCombination x context m => exact same (sameProfiles_of_quiet (quiet_getCombination hl c x context m) hl)
  | program x context m => exact same (sameProfiles_of_quiet (quiet_program hl c x context m) hl)
  | assembleStageSources x context m =>
    exact same (sameProfiles_of_quiet (quiet_assembleStageSources hl c x context m) hl)
  | setFloatParam x kind i param component a =>
    exact same (sameProfiles_of_quiet (quiet_setFloatParam l c x kind i param component a) hl)

end Session

namespace Library

/-- A library that operations lead to, each with a compiler of its own, and the text that the shader with the key `k` was
given last, if any. -/
inductive Recalls (k : ShaderKey) : Library → Option Text → Prop
  | new (loader : Loader) (settings : Settings) : Recalls k (new loader settings) none
  | brings {l : Library} {last : Option Text} (h : Recalls k l last) {σ : Type} [ProgramCompiler σ] (c : σ)
      {op : Operation} {t : Text} (hb : (⟨l, c⟩ : Session σ).Brings op k t) :
      Recalls k ((⟨l, c⟩ : Session σ).step op).library (some t)
  | other {l : Library} {last : Option Text} (h : Recalls k l last) {σ : Type} [ProgramCompiler σ] (c : σ)
      {op : Operation} (hb : ∀ t, ¬(⟨l, c⟩ : Session σ).Brings op k t) :
      Recalls k ((⟨l, c⟩ : Session σ).step op).library last

variable {l : Library} {k : ShaderKey} {last : Option Text}

theorem Recalls.reachable (h : l.Recalls k last) : l.Reachable := by
  induction h with
  | new loader settings => exact .new loader settings
  | brings _ c _ ih => exact ih.step c _
  | other _ c _ ih => exact ih.step c _

/-- The text stays while no operation brings another one. -/
theorem Recalls.run {σ : Type} [ProgramCompiler σ] {x : Session σ} (h : x.library.Recalls k last) (ops : List Operation)
    (hops : ∀ op ∈ ops, ∀ (y : Session σ) t, ¬y.Brings op k t) : (x.run ops).library.Recalls k last := by
  induction ops generalizing x with
  | nil => exact h
  | cons op ops ih =>
    exact ih (h.other x.compiler (hops op List.mem_cons_self x)) fun o ho => hops o (List.mem_cons_of_mem op ho)

/-- Every reachable library has such a history. -/
theorem Reachable.exists_recalls (h : l.Reachable) (k : ShaderKey) : ∃ last, l.Recalls k last := by
  induction h with
  | new loader settings => exact ⟨none, .new loader settings⟩
  | @step l _ σ _ c op ih =>
    obtain ⟨last, hlast⟩ := ih
    by_cases hb : ∃ t, (⟨l, c⟩ : Session σ).Brings op k t
    · obtain ⟨t, ht⟩ := hb
      exact ⟨some t, hlast.brings c ht⟩
    · exact ⟨last, hlast.other c fun t ht => hb ⟨t, ht⟩⟩

/-- A loaded shader is made of the text that it was given last. -/
theorem Recalls.madeOf (h : l.Recalls k last) {p : Profile} (hp : l.profile? k = some p) :
    ∃ t, last = some t ∧ l.MadeOf k t := by
  induction h generalizing p with
  | new loader settings => cases hp
  | @brings l last h σ _ c op t hb ih => exact ⟨t, rfl, Session.madeOf_of_brings h.reachable.regular hb⟩
  | @other l last h σ _ c op hb ih =>
    rcases Session.profile?_step (x := ⟨l, c⟩) h.reachable.regular op k with hsame | hnone | ⟨t, ht⟩
    · obtain ⟨t, rfl, name, source, hparse, hmade⟩ := ih (hsame.symm.trans hp)
      exact ⟨t, rfl, name, source, hparse, hsame.trans hmade⟩
    · cases hnone.symm.trans hp
    · exact absurd ht (hb t)

end Library

end ShaderVariant
