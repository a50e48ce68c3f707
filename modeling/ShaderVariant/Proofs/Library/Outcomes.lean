import ShaderVariant.Library.Shaders
import ShaderVariant.Proofs.Library.Inclusion

/-!
# Outcomes of operations that load

What an operation answers with and leaves behind, case by case.

* `Library.Replaced` : new content of a fragment (`replaced_updateFragment`, `replaced_reloadFragment`). A success
  `Edits` the fragment;
* `Library.Added` : a fragment under a name (`added_addFragment`; for `attempt_loadFragment` there is no edit);
* `Library.Opened` : a shader under a name (`opened_loadShader`, `opened_loadShaderText`);
* `Library.Reloaded` : new content of a shader (`reloaded_reloadShader`, `reloaded_reloadShaderText`).
-/

namespace ShaderVariant.Library

open FragmentStore (WellFormed)

variable {l l' : Library}

/-! ## Fragments -/

/-- Sources are loaded, a fragment gets new content, and `n` shaders are told. -/
def Edits (l l' : Library) (k : FragmentKey) (n : Nat) : Prop :=
  ∃ l₁ f fragments, l.Loaded l₁ ∧ l₁.Resolves f ∧ l₁.fragments.replaceContent k f = .ok fragments ∧
    n = (({ l₁ with fragments } : Library).fragmentChanged k).1 ∧
      l' = (({ l₁ with fragments } : Library).fragmentChanged k).2

inductive Replaced (l : Library) (k : FragmentKey) : Except ShaderError Nat × Library → Prop
  | missing (h : l.fragments.contains k = false) : Replaced l k (.error (.danglingFragment k), l)
  | failed {e : ShaderError} {l' : Library} (h : l.Failed e l') : Replaced l k (.error e, l')
  | edited {n : Nat} {l' : Library} (h : l.Edits l' k n) : Replaced l k (.ok n, l')

theorem contains_eq_false {k : FragmentKey} (h : l.fragment? k = none) : l.fragments.contains k = false :=
  Option.isSome_eq_false_iff.2 (Option.isNone_iff_eq_none.2 h)

/-- A stored fragment stays stored while its new includes are loaded. So its content is replaced. -/
theorem edits_replaceFragment (h : l.Loaded l') {k : FragmentKey} (hk : l.fragments.contains k = true) {f : Fragment}
    (hf : l'.Resolves f) : ∃ n l'', l'.replaceFragment k f = (.ok n, l'') ∧ l.Edits l'' k n := by
  obtain ⟨fragments, hr⟩ := FragmentStore.replaceContent_of_contains f (h.keeps.contains hk)
  refine ⟨_, _, ?_, l', f, fragments, h, hf, hr, rfl, rfl⟩
  rw [replaceFragment, hr]

theorem replaced_updateFragment (hl : WellFormed l.fragments) (k : FragmentKey) (t : Text) :
    l.Replaced k (l.updateFragment k t) := by
  unfold updateFragment
  split
  · next hk => exact .missing (contains_eq_false hk)
  · next old hold =>
    have hattempt := attempt_buildFragment hl old.name t
    generalize l.buildFragment old.name t = p at hattempt ⊢
    cases hattempt with
    | failed h => exact .failed h
    | done h hf =>
      obtain ⟨n, l'', hr, hedit⟩ := edits_replaceFragment h (FragmentStore.contains_iff.2 ⟨old, hold⟩) hf.2
      simp only [hr]
      exact .edited hedit

theorem replaced_reloadFragment (hl : WellFormed l.fragments) (k : FragmentKey) :
    l.Replaced k (l.reloadFragment k) := by
  unfold reloadFragment
  split
  · next hk => exact .missing (contains_eq_false hk)
  · next old hold =>
    have hattempt := attempt_readSource hl old.name
    generalize l.readSource old.name = p at hattempt ⊢
    cases hattempt with
    | failed h => exact .failed h
    | @done t _ h hread =>
      obtain ⟨loader, rfl⟩ := hread
      have hreplaced := replaced_updateFragment (l := { l with loader }) hl k t
      simp only
      generalize ({ l with loader } : Library).updateFragment k t = p at hreplaced ⊢
      cases hreplaced with
      | missing hk =>
        rw [FragmentStore.contains_iff.2 ⟨old, hold⟩] at hk
        cases hk
      | failed h' => exact .failed h'.of_withLoader
      | edited h' =>
        obtain ⟨l₁, f, fragments, hload, hedit⟩ := h'
        exact .edited ⟨l₁, f, fragments, h.trans hload, hedit⟩

inductive Added (l : Library) (name : String) : Except ShaderError FragmentKey × Library → Prop
  | failed {e : ShaderError} {l' : Library} (h : l.Failed e l') : Added l name (.error e, l')
  | edited {k : FragmentKey} {n : Nat} {l' : Library} (hk : l.fragments.find? name = some k) (h : l.Edits l' k n) :
      Added l name (.ok k, l')
  | new {k : FragmentKey} {l' : Library} (hn : l.fragments.find? name = none) (h : l.Loaded l') : Added l name (.ok k, l')

/-- A fragment under a name that was not in use is new, even if the name has come into use while its includes were
loaded. -/
theorem loaded_insert (hl : WellFormed l.fragments) (h : l.Loaded l') {f : Fragment}
    (hn : l.fragments.find? f.name = none) (hf : l'.Resolves f) :
    l.Loaded { l' with fragments := (l'.fragments.insert f).2 } := by
  cases hfind : l'.fragments.find? f.name with
  | none =>
    rw [FragmentStore.insert_of_find?_eq_none hfind]
    exact ⟨h.shaders, h.names, h.settings, h.keeps.trans (.insertNew _ f), h.wf.insertNew hfind hf.stored hf.sourced⟩
  | some k =>
    have hk := h.wf.named.contains_of_find? hfind
    obtain ⟨t, ht⟩ := FragmentStore.replaceContent_of_contains f hk
    have hins : l'.fragments.insert f = (k, t) := by
      obtain ⟨-, rfl⟩ := FragmentStore.replaceContent_eq ht
      rw [FragmentStore.insert, hfind]
      exact if_pos hk
    have hnew : l.fragments.get? k = none := by
      cases hg : l.fragments.get? k with
      | none => rfl
      | some g =>
        obtain ⟨g', hg', hname⟩ := (h.wf.named f.name k).1 hfind
        cases (h.keeps k g hg).symm.trans hg'
        have := hl.named.find?_of_get? hg
        rw [hname, hn] at this
        cases this
    rw [hins]
    exact ⟨h.shaders, h.names, h.settings, h.keeps.replaceContent hnew ht,
      h.wf.replaceContent ht hf.stored hf.sourced⟩

theorem added_addFragment (hl : WellFormed l.fragments) (name : String) (t : Text) :
    l.Added name (l.addFragment name t) := by
  unfold addFragment
  split
  · next k hk =>
    have hreplaced := replaced_updateFragment hl k t
    generalize l.updateFragment k t = p at hreplaced ⊢
    cases hreplaced with
    | missing h =>
      rw [hl.named.contains_of_find? hk] at h
      cases h
    | failed h => exact .failed h
    | edited h => exact .edited hk h
  · next hn =>
    have hattempt := attempt_buildFragment hl name t
    generalize l.buildFragment name t = p at hattempt ⊢
    cases hattempt with
    | failed h => exact .failed h
    | done h hf =>
      obtain ⟨rfl, hf⟩ := hf
      exact .new hn (loaded_insert hl h hn hf)

theorem attempt_loadFragment (hl : WellFormed l.fragments) (name : String) :
    l.Attempt (fun _ _ => True) (l.loadFragment name) := by
  unfold loadFragment
  split
  · exact .done (.refl hl) trivial
  · next hn => exact attempt_loadNewFragment hl hn

/-! ## Shaders -/

/-- A shader under a name: it is loaded already, or it is a new one or one that is not loaded, which may fail. -/
inductive Opened (l : Library) (name : String) : Except ShaderError ShaderKey × Library → Prop
  | kept {k : ShaderKey} {s : Shader} (hr : l.registered? name = some (k, s)) (hs : s.isLoaded = true) :
      Opened l name (.ok k, l)
  | newFailed {e : ShaderError} {l' : Library} (hn : l.registered? name = none) (h : l.Failed e l') :
      Opened l name (.error e, l'.registerFailed name e)
  | oldFailed {k : ShaderKey} {s : Shader} {e : ShaderError} {l' : Library} (hr : l.registered? name = some (k, s))
      (hu : s.isLoaded = false) (h : l.Failed e l') :
      Opened l name (.error e, l'.setShader k (s.markFailed e.message))
  | registered {source : ShaderSource} {sections : List Fragment} {l' : Library} (hn : l.registered? name = none)
      (h : l.Loaded l') (hq : l'.Contents name source sections) :
      Opened l name (.ok (l'.registerShader (.ofSource name source sections)).1,
        (l'.registerShader (.ofSource name source sections)).2)
  | refilled {k : ShaderKey} {s : Shader} {source : ShaderSource} {sections : List Fragment} {l' : Library}
      (hr : l.registered? name = some (k, s)) (hu : s.isLoaded = false) (h : l.Loaded l')
      (hq : l'.Contents s.name source sections) : Opened l name (.ok k, l'.setShader k (s.apply source sections))

/-- The loader is another one after a source was read. -/
theorem opened_loadNewShader (hl : WellFormed l.fragments) (loader : Loader) {name : String}
    (hn : l.registered? name = none) (t : Text) : l.Opened name (({ l with loader } : Library).loadNewShader name t) := by
  have hattempt := attempt_buildShader (l := { l with loader }) hl name t
  unfold loadNewShader
  generalize ({ l with loader } : Library).buildShader name t = p at hattempt ⊢
  cases hattempt with
  | failed h => exact .newFailed hn h.of_withLoader
  | @done content _ h hq => exact .registered hn ((Loaded.withLoader hl loader).trans h) hq

theorem opened_refill (hl : WellFormed l.fragments) (loader : Loader) {name : String} {k : ShaderKey} {s : Shader}
    (hr : l.registered? name = some (k, s)) (hu : s.isLoaded = false) (t : Text) :
    l.Opened name (({ l with loader } : Library).refill k s t) := by
  have hattempt := attempt_buildShader (l := { l with loader }) hl s.name t
  unfold refill
  generalize ({ l with loader } : Library).buildShader s.name t = p at hattempt ⊢
  cases hattempt with
  | failed h => exact .oldFailed hr hu h.of_withLoader
  | @done content _ h hq => exact .refilled hr hu ((Loaded.withLoader hl loader).trans h) hq

theorem opened_loadShaderText (hl : WellFormed l.fragments) (name : String) (t : Text) :
    l.Opened name (l.loadShaderText name t) := by
  unfold loadShaderText
  split
  · next hn => exact opened_loadNewShader hl l.loader hn t
  · next k s hr =>
    split
    · next hs => exact .kept hr hs
    · next hu => exact opened_refill hl l.loader hr (by simpa using hu) t

theorem opened_loadShader (hl : WellFormed l.fragments) (name : String) : l.Opened name (l.loadShader name) := by
  have hattempt := attempt_readSource hl name
  unfold loadShader
  generalize l.readSource name = p at hattempt ⊢
  split
  · next hn =>
    cases hattempt with
    | failed h => exact .newFailed hn h
    | @done t _ h hread =>
      obtain ⟨loader, rfl⟩ := hread
      exact opened_loadNewShader hl loader hn t
  · next k s hr =>
    split
    · next hs => exact .kept hr hs
    · next hu =>
      have hu' : s.isLoaded = false := by simpa using hu
      cases hattempt with
      | failed h => exact .oldFailed hr hu' h
      | @done t _ h hread =>
        obtain ⟨loader, rfl⟩ := hread
        exact opened_refill hl loader hr hu' t

/-! ## New content of shaders -/

variable {σ : Type} [ProgramCompiler σ]

/-- New content for a shader. Its programs are released in every case. -/
inductive Reloaded (l : Library) (k : ShaderKey) (s : Shader) (c : σ) :
    Except ShaderError BuildReport × Library × σ → Prop
  | failed {e : ShaderError} {l' : Library} (h : l.Failed e l') :
      Reloaded l k s c (.error e, l'.setShader k (s.markFailed e.message), Shader.releaseAll s.programs c)
  | applied {source : ShaderSource} {sections : List Fragment} {l' : Library} (h : l.Loaded l')
      (hq : l'.Contents s.name source sections) :
      Reloaded l k s c (.ok .empty, l'.setShader k (s.apply source sections), Shader.releaseAll s.programs c)
  | compiled {source : ShaderSource} {sections : List Fragment} {l' : Library} {report : BuildReport} {s' : Shader}
      {c' : σ} (h : l.Loaded l') (hq : l'.Contents s.name source sections)
      (hc : (s.apply source sections).compileContexts l'.workspace (Shader.releaseAll s.programs c) = (report, s', c')) :
      Reloaded l k s c (.ok report, l'.setShader k s', c')

theorem reloaded_reloadShaderText (hl : WellFormed l.fragments) (loader : Loader) {k : ShaderKey} {s : Shader}
    (hs : l.shader? k = some s) (t : Text) (c : σ) :
    l.Reloaded k s c (({ l with loader } : Library).reloadShaderText k t c) := by
  have hs' : ({ l with loader } : Library).shader? k = some s := hs
  have hattempt := attempt_buildShader (l := { l with loader }) hl s.name t
  unfold reloadShaderText
  simp only [hs']
  generalize ({ l with loader } : Library).buildShader s.name t = p at hattempt ⊢
  cases hattempt with
  | failed h => exact .failed h.of_withLoader
  | @done content l' h hq =>
    have hload := (Loaded.withLoader hl loader).trans h
    simp only
    split
    · cases hc : ((s.release c).1.apply content.1 content.2).compileContexts l'.workspace (s.release c).2 with
      | mk report rest =>
        obtain ⟨s', c'⟩ := rest
        exact .compiled hload hq hc
    · exact .applied hload hq

theorem reloaded_reloadShader (hl : WellFormed l.fragments) {k : ShaderKey} {s : Shader} (hs : l.shader? k = some s)
    (c : σ) : l.Reloaded k s c (l.reloadShader k c) := by
  have hattempt := attempt_readSource hl s.name
  unfold reloadShader
  simp only [hs]
  generalize l.readSource s.name = p at hattempt ⊢
  cases hattempt with
  | failed h => exact .failed h
  | @done t _ h hread =>
    obtain ⟨loader, rfl⟩ := hread
    exact reloaded_reloadShaderText hl loader hs t c

end ShaderVariant.Library
