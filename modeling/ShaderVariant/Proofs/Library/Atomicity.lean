import ShaderVariant.Proofs.Library.Reachable

/-!
# Failures change nothing else

* `FragmentStore.Same` : two tables with the same fragments under the same keys and names;
* `Library.Untouched` : fragments, shaders and settings are as before, whatever has been read;
* `Library.FailedAt` : so is all but one shader, which has no content and says why (`Opened.failsToLoad`,
  `Reloaded.failedAt`);
* `DryRun.isLive_releaseAll` : a program that is released is not live any more;
* `failure_atomic` : an operation on fragments that fails leaves the library untouched, and a shader that cannot be loaded
  or reloaded is the only thing that has changed.
-/

namespace ShaderVariant

open FragmentStore (WellFormed Named)

namespace FragmentStore

structure Same (s t : FragmentStore) : Prop where
  entries : t.table.entries = s.table.entries
  find? : ∀ name, t.find? name = s.find? name

namespace Same

variable {s t u : FragmentStore}

theorem refl (s : FragmentStore) : Same s s := ⟨rfl, fun _ => rfl⟩

theorem trans (h : Same s t) (h' : Same t u) : Same s u :=
  ⟨h'.entries.trans h.entries, fun name => (h'.find? name).trans (h.find? name)⟩

/-- Where names are in order, the look-up of keys is enough. -/
theorem of_get? (hs : Named s) (ht : Named t) (h : ∀ k, t.get? k = s.get? k) : Same s t := by
  refine ⟨SlotMap.entries_eq_of_get? h, fun name => ?_⟩
  ext k
  rw [hs name k, ht name k, h]

end Same

end FragmentStore

namespace Library

/-! ## Untouched libraries -/

structure Untouched (l l' : Library) : Prop where
  fragments : l.fragments.Same l'.fragments
  shaders : l'.shaders = l.shaders
  names : l'.names = l.names
  settings : l'.settings = l.settings

namespace Untouched

variable {l l' l'' : Library}

theorem refl (l : Library) : Untouched l l := ⟨.refl _, rfl, rfl, rfl⟩

theorem trans (h : Untouched l l') (h' : Untouched l' l'') : Untouched l l'' :=
  ⟨h.fragments.trans h'.fragments, h'.shaders.trans h.shaders, h'.names.trans h.names, h'.settings.trans h.settings⟩

theorem withLoader (l : Library) (loader : Loader) : Untouched l { l with loader } := ⟨.refl _, rfl, rfl, rfl⟩

/-- A rollback takes back all that was added, however deep. -/
theorem rollback {s : Inclusion} {new : List FragmentKey} (h : Inclusion.Grows (.ofLibrary l) s new)
    (hl : WellFormed l.fragments) (hs : WellFormed s.fragments) : Untouched l (s.rollback l) :=
  ⟨.of_get? hl.named (Inclusion.named_removeAll _ hs.named) (Inclusion.get?_rollback h), rfl, rfl, rfl⟩

theorem shader? (h : Untouched l l') (k : ShaderKey) : l'.shader? k = l.shader? k :=
  congrArg (·.get? k) h.shaders

theorem findShader? (h : Untouched l l') (name : String) : l'.findShader? name = l.findShader? name :=
  congrArg (·.get? name) h.names

end Untouched

variable {l l' : Library} {e : ShaderError}

/-- Loading that fails takes back all that it has added. -/
theorem Failed.untouched (h : l.Failed e l') (hl : WellFormed l.fragments) : l.Untouched l' := by
  cases h with
  | mk loader hg hw => exact (Untouched.withLoader l loader).trans (.rollback hg hl hw)

/-! ## Fragments -/

theorem Replaced.untouched {k : FragmentKey} (h : l.Replaced k (.error e, l')) (hl : WellFormed l.fragments) :
    l.Untouched l' := by
  cases h with
  | missing => exact .refl l
  | failed h => exact h.untouched hl

theorem Added.untouched {name : String} (h : l.Added name (.error e, l')) (hl : WellFormed l.fragments) :
    l.Untouched l' := by
  cases h with
  | failed h => exact h.untouched hl

theorem Attempt.untouched {α : Type} {Q : α → Library → Prop} (h : l.Attempt Q (.error e, l'))
    (hl : WellFormed l.fragments) : l.Untouched l' := by
  cases h with
  | failed h => exact h.untouched hl

theorem untouched_removeFragment {k : FragmentKey} (h : l.removeFragment k = (.error e, l')) : l.Untouched l' := by
  unfold removeFragment at h
  split at h
  · cases h
    exact .refl l
  · split at h
    · cases h
      exact .refl l
    · cases h

/-! ## Shaders -/

structure FailedAt (l l' : Library) (k : ShaderKey) (name : String) (e : ShaderError) : Prop where
  fragments : l.fragments.Same l'.fragments
  settings : l'.settings = l.settings
  others : ∀ x, x ≠ k → l'.shader? x = l.shader? x
  otherNames : ∀ other, other ≠ name → l'.findShader? other = l.findShader? other
  registered : l'.findShader? name = some k
  failed : ∃ s, l'.shader? k = some s ∧ s.name = name ∧ s.isLoaded = false ∧ s.ready = false ∧
    s.diagnostic = some e.message ∧ s.contexts = [] ∧ s.sections = [] ∧ s.programs = []

theorem failedAt_setShader (h : l.Untouched l') (hn : l.Named) {k : ShaderKey} {s : Shader} (hs : l.shader? k = some s)
    (e : ShaderError) : l.FailedAt (l'.setShader k (s.markFailed e.message)) k s.name e := by
  have hs' := (h.shader? k).trans hs
  refine ⟨h.fragments, h.settings, fun x hx => ?_, fun other _ => h.findShader? other, ?_, ?_⟩
  · rw [shader?_setShader, if_neg (Ne.symm hx), h.shader?]
  · exact (h.findShader? s.name).trans (hn.find?_of_shader? hs)
  · exact ⟨_, shader?_setShader_self hs' _, rfl, rfl, rfl, rfl, rfl, rfl, rfl⟩

theorem failedAt_registerFailed (h : l.Untouched l') (name : String) (e : ShaderError) :
    ∃ k, l.shader? k = none ∧ l.FailedAt (l'.registerFailed name e) k name e := by
  have hshader := SlotMap.get?_insert l'.shaders (.failed name e.message)
  refine ⟨(l'.shaders.insert (.failed name e.message)).1, ?_, h.fragments, h.settings, fun x hx => ?_,
    fun other ho => ?_, Assoc.get?_set_self _ name _, _, (hshader _).trans (if_pos rfl), rfl, rfl, rfl, rfl, rfl, rfl, rfl⟩
  · exact (h.shader? _).symm.trans (SlotMap.get?_insert_fst l'.shaders _)
  · exact (hshader x).trans ((if_neg (Ne.symm hx)).trans (h.shader? x))
  · exact (Assoc.get?_set_of_ne (Ne.symm ho) l'.names _).trans (h.findShader? other)

/-- The shader of a name has failed to load. If the name was in use it keeps its key, and it held no programs. -/
def FailsToLoad (l l' : Library) (name : String) (e : ShaderError) : Prop :=
  ∃ k, l.FailedAt l' k name e ∧ (∀ x, l.findShader? name = some x → x = k) ∧
    ∀ s, l.shader? k = some s → s.programs = []

theorem Opened.failsToLoad {name : String} (h : l.Opened name (.error e, l')) (hl : l.Regular) (hn : l.Named) :
    l.FailsToLoad l' name e := by
  cases h with
  | newFailed hr h =>
    obtain ⟨k, hk, hf⟩ := failedAt_registerFailed (h.untouched hl.fragments) name e
    refine ⟨k, hf, fun x hx => ?_, fun s hs => ?_⟩
    · rw [(hn.registered?_eq_none_iff name).1 hr] at hx
      cases hx
    · rw [hk] at hs
      cases hs
  | @oldFailed k s _ l' hr hu h =>
    obtain ⟨hs, rfl⟩ := hn.registered?_eq_some_iff.1 hr
    refine ⟨k, failedAt_setShader (h.untouched hl.fragments) hn hs e, fun x hx => ?_, fun s' hs' => ?_⟩
    · cases hx.symm.trans (hn.find?_of_shader? hs)
      rfl
    · cases hs.symm.trans hs'
      rw [Shader.programs, (hl.shaders k s hs).unloaded hu]
      rfl

theorem Reloaded.failedAt {σ : Type} [ProgramCompiler σ] {k : ShaderKey} {s : Shader} {c c' : σ}
    (h : l.Reloaded k s c (.error e, l', c')) (hl : WellFormed l.fragments) (hn : l.Named) (hs : l.shader? k = some s) :
    l.FailedAt l' k s.name e ∧ c' = Shader.releaseAll s.programs c := by
  cases h with
  | failed h => exact ⟨failedAt_setShader (h.untouched hl) hn hs e, rfl⟩

end Library

/-! ## Released programs -/

namespace DryRun

theorem isLive_release (p q : Program) (d : DryRun) : (d.release p).isLive q = true ↔ q ≠ p ∧ d.isLive q = true := by
  unfold release
  split
  · show Assoc.has (Assoc.erase d.programs p) q = true ↔ q ≠ p ∧ Assoc.has d.programs q = true
    rw [Assoc.has_iff, Assoc.has_iff, Assoc.erase_eq_filter, List.mem_map, List.mem_map]
    constructor
    · rintro ⟨e, he, rfl⟩
      obtain ⟨he, hp⟩ := List.mem_filter.1 he
      exact ⟨by simpa using hp, e, he, rfl⟩
    · rintro ⟨hp, e, he, rfl⟩
      exact ⟨e, List.mem_filter.2 ⟨he, by simpa using hp⟩, rfl⟩
  · next hp =>
    refine ⟨fun hq => ⟨?_, hq⟩, And.right⟩
    rintro rfl
    exact hp hq

theorem isLive_releaseAll (ps : List Program) (q : Program) (d : DryRun) :
    (Shader.releaseAll ps d).isLive q = true ↔ q ∉ ps ∧ d.isLive q = true := by
  induction ps generalizing d with
  | nil => simp [Shader.releaseAll]
  | cons p ps ih =>
    show (Shader.releaseAll ps (d.release p)).isLive q = true ↔ _
    rw [ih, isLive_release, List.mem_cons, not_or, and_left_comm, and_assoc]

end DryRun

/-! ## Failures change nothing else -/

/-- In every reachable library, an operation on fragments that fails leaves fragments, shaders and settings as they
were. When loading or reloading a shader fails, that shader is registered under its name without content and says why,
and nothing else has changed. It holds no programs: one that was not loaded held none before, and one that is reloaded
has released all of them. Behind that none of them lives, in whichever order they were released. -/
theorem failure_atomic {l : Library} (h : l.Reachable) (l' : Library) (e : ShaderError) :
    (∀ name t, l.addFragment name t = (.error e, l') → l.Untouched l') ∧
    (∀ name, l.loadFragment name = (.error e, l') → l.Untouched l') ∧
    (∀ k t, l.updateFragment k t = (.error e, l') → l.Untouched l') ∧
    (∀ k, l.reloadFragment k = (.error e, l') → l.Untouched l') ∧
    (∀ k, l.removeFragment k = (.error e, l') → l.Untouched l') ∧
    (∀ name, l.loadShader name = (.error e, l') → l.FailsToLoad l' name e) ∧
    (∀ name t, l.loadShaderText name t = (.error e, l') → l.FailsToLoad l' name e) ∧
    ∀ k s, l.shader? k = some s →
      (∀ {σ : Type} [ProgramCompiler σ] (c c' : σ),
        l.reloadShader k c = (.error e, l', c') ∨ (∃ t, l.reloadShaderText k t c = (.error e, l', c')) →
          l.FailedAt l' k s.name e ∧ c' = Shader.releaseAll s.programs c) ∧
      ∀ ps, ps.Perm s.programs → ∀ (d : DryRun), ∀ p ∈ s.programs, (Shader.releaseAll ps d).isLive p = false := by
  have hl := h.regular
  have hn := h.named
  refine ⟨fun name t hf => ?_, fun name hf => ?_, fun k t hf => ?_, fun k hf => ?_,
    fun _ => Library.untouched_removeFragment, fun name hf => ?_, fun name t hf => ?_, fun k s hs => ⟨?_, fun ps hps d p hp => ?_⟩⟩
  · exact (hf ▸ Library.added_addFragment hl.fragments name t).untouched hl.fragments
  · exact (hf ▸ Library.attempt_loadFragment hl.fragments name).untouched hl.fragments
  · exact (hf ▸ Library.replaced_updateFragment hl.fragments k t).untouched hl.fragments
  · exact (hf ▸ Library.replaced_reloadFragment hl.fragments k).untouched hl.fragments
  · exact (hf ▸ Library.opened_loadShader hl.fragments name).failsToLoad hl hn
  · exact (hf ▸ Library.opened_loadShaderText hl.fragments name t).failsToLoad hl hn
  · rintro σ _ c c' (hf | ⟨t, hf⟩)
    · exact (hf ▸ Library.reloaded_reloadShader hl.fragments hs c).failedAt hl.fragments hn hs
    · exact (hf ▸ Library.reloaded_reloadShaderText hl.fragments l.loader hs t c).failedAt hl.fragments hn hs
  · refine Bool.eq_false_iff.2 fun hlive => ?_
    exact ((DryRun.isLive_releaseAll ps p d).1 hlive).1 (hps.mem_iff.2 hp)

/-- The library after a short run, over a source that includes another one, which includes one that is not there. -/
def brokenLibrary : Library :=
  { litRun.library with
    loader := .ofSources
      [("outer", Utf8.encode "#include \"inner\"\n".toList), ("inner", Utf8.encode "#include \"none\"\n".toList)] }

def brokenSource : Text := litText ["[[VS]]\n", "#include \"outer\"\n", "[[FS]]\n", "void main() \x7b\x7d\n"]

/-- Loading the outer source fails after both were registered. So does loading a new shader that includes it, and so
does giving such a text to a shader with programs. -/
theorem failure_atomic_brokenLibrary :
    (∃ e l', brokenLibrary.loadFragment "outer" = (.error e, l') ∧ brokenLibrary.Untouched l') ∧
    (∃ e l', brokenLibrary.loadShaderText "dim" brokenSource = (.error e, l') ∧ brokenLibrary.FailsToLoad l' "dim" e) ∧
    ∃ s e l' d, brokenLibrary.shader? ⟨1, 1⟩ = some s ∧ s.programs ≠ [] ∧
      brokenLibrary.reloadShaderText ⟨1, 1⟩ brokenSource litRun.compiler = (.error e, l', d) ∧
        brokenLibrary.FailedAt l' ⟨1, 1⟩ s.name e ∧ ∀ p ∈ s.programs, d.isLive p = false := by
  have hreach : brokenLibrary.Reachable :=
    .step (.run (.new default default) litOps) litRun.compiler (.setLoader brokenLibrary.loader)
  have hfail : (brokenLibrary.loadFragment "outer").1.toOption.isNone ∧
      (brokenLibrary.loadShaderText "dim" brokenSource).1.toOption.isNone ∧
        (brokenLibrary.reloadShaderText ⟨1, 1⟩ brokenSource litRun.compiler).1.toOption.isNone ∧
          (brokenLibrary.shader? ⟨1, 1⟩).any fun s => !s.programs.isEmpty := by
    decide +kernel
  obtain ⟨hload, htext, hreload, hshader⟩ := hfail
  obtain ⟨e₁, l₁, h₁⟩ := exists_eq_of_isNone hload
  obtain ⟨e₂, l₂, h₂⟩ := exists_eq_of_isNone htext
  obtain ⟨e₃, ⟨l₃, d⟩, h₃⟩ := exists_eq_of_isNone hreload
  obtain ⟨s, hs, hprograms⟩ := (Option.any_eq_true _ _).1 hshader
  obtain ⟨-, hfragment, -⟩ := failure_atomic hreach l₁ e₁
  obtain ⟨-, -, -, -, -, -, hnew, -⟩ := failure_atomic hreach l₂ e₂
  obtain ⟨-, -, -, -, -, -, -, hold⟩ := failure_atomic hreach l₃ e₃
  obtain ⟨hreloads, hreleased⟩ := hold ⟨1, 1⟩ s hs
  obtain ⟨hfailed, rfl⟩ := hreloads litRun.compiler d (.inr ⟨brokenSource, h₃⟩)
  refine ⟨⟨e₁, l₁, h₁, hfragment "outer" h₁⟩, ⟨e₂, l₂, h₂, hnew "dim" brokenSource h₂⟩, s, e₃, l₃, _, hs, ?_, h₃, hfailed,
    hreleased s.programs (.refl _) litRun.compiler⟩
  rintro hempty
  rw [hempty] at hprograms
  cases hprograms

end ShaderVariant
