import Mathlib.Data.List.Induction
import ShaderVariant.Proofs.Library.Standing

/-!
# Masks that were asked for

* `Shader.Revised` : new content keeps the masks with the flags, and drops them with the flags (`revised_apply`,
  `revised_markFailed`);
* `Library.Comes` : what an operation makes of the masks of a shader (`comes_step`);
* `Session.AskedFor` : a mask was asked for, and the flags are the same since (`askedFor_snoc`);
* `requests_exact` : the masks of a shader are those.
-/

namespace ShaderVariant

namespace Shader

/-! ## New content -/

/-- The masks stay with the flags. They are gone when the flags are others, which takes content. -/
structure Revised (s s' : Shader) : Prop where
  same : s'.vocabulary.names = s.vocabulary.names → s'.preLoad = s.preLoad
  other : s'.vocabulary.names ≠ s.vocabulary.names → s'.preLoad = []
  unloaded : s'.isLoaded = false → s'.vocabulary = s.vocabulary

theorem Revised.of_standing {s s' t t' : Shader} (h : s.Revised t) (hs : s'.standing = s.standing)
    (ht : t'.standing = t.standing) : s'.Revised t' := by
  obtain ⟨-, hs⟩ := Prod.mk.inj hs
  obtain ⟨hsv, hsp⟩ := Prod.mk.inj hs
  obtain ⟨htd, ht⟩ := Prod.mk.inj ht
  obtain ⟨htv, htp⟩ := Prod.mk.inj ht
  refine ⟨fun hn => ?_, fun hn => ?_, fun hu => ?_⟩
  · rw [htv, hsv] at hn
    rw [htp, hsp]
    exact h.same hn
  · rw [htv, hsv] at hn
    rw [htp]
    exact h.other hn
  · rw [htv, hsv]
    refine h.unloaded ?_
    rwa [isLoaded, htd] at hu

theorem revised_of_standing {s s' : Shader} (h : s'.standing = s.standing) : s.Revised s' := by
  have hself : s.Revised s := ⟨fun _ => rfl, fun hn => absurd rfl hn, fun _ => rfl⟩
  exact hself.of_standing rfl h

theorem revised_markFailed (s : Shader) (diagnostic : String) : s.Revised (s.markFailed diagnostic) :=
  ⟨fun _ => rfl, fun hn => absurd rfl hn, fun _ => rfl⟩

theorem revised_apply (s : Shader) (source : ShaderSource) (sections : List Fragment) :
    s.Revised (s.apply source sections) := by
  refine ⟨fun h => if_pos ?_, fun h => if_neg ?_, fun h => (nomatch h)⟩
  · exact beq_iff_eq.2 h
  · exact fun hsame => h (beq_iff_eq.1 hsame)

end Shader

/-! ## Operations -/

namespace Library

variable {l l' : Library}

/-- No shader comes or goes, and the standing of each is as it was. -/
def Stands (l l' : Library) : Prop := ∀ k, l'.standing? k = l.standing? k

theorem Stands.refl (l : Library) : l.Stands l := fun _ => rfl

theorem Stands.trans {l'' : Library} (h : l.Stands l') (h' : l'.Stands l'') : l.Stands l'' :=
  fun k => (h' k).trans (h k)

theorem stands_of_shaders (h : l'.shaders = l.shaders) : l.Stands l' := by
  intro k
  unfold standing? shader?
  rw [h]

theorem stands_mapValues (l : Library) {f : ShaderKey → Shader → Shader} (hf : ∀ k s, (f k s).standing = s.standing)
    (h : l'.shaders = l.shaders.mapValues f) : l.Stands l' := by
  intro k
  unfold standing? shader?
  rw [h, SlotMap.get?_mapValues, Option.map_map]
  exact congrArg (Option.map · _) (funext fun s => hf k s)

theorem Works.stands (h : l.Works l') : l.Stands l' := h.standing?

theorem stands_fragmentChanged (l : Library) (k : FragmentKey) : l.Stands (l.fragmentChanged k).2 := by
  refine stands_mapValues l (f := fun _ s => if s.dependsOn l.fragments k then s.invalidate else s) (fun x s => ?_) rfl
  split <;> rfl

theorem Edits.stands {k : FragmentKey} {n : Nat} (h : l.Edits l' k n) : l.Stands l' := by
  obtain ⟨l₁, f, fragments, hload, -, -, -, rfl⟩ := h
  exact (stands_of_shaders hload.shaders).trans (stands_fragmentChanged { l₁ with fragments } k)

theorem Replaced.stands {k : FragmentKey} {p : Except ShaderError Nat × Library} (h : l.Replaced k p)
    (hl : FragmentStore.WellFormed l.fragments) : l.Stands p.2 := by
  cases h with
  | missing h => exact .refl l
  | failed h => exact stands_of_shaders (h.loaded hl).shaders
  | edited h => exact h.stands

theorem Added.stands {name : String} {p : Except ShaderError FragmentKey × Library} (h : l.Added name p)
    (hl : FragmentStore.WellFormed l.fragments) : l.Stands p.2 := by
  cases h with
  | failed h => exact stands_of_shaders (h.loaded hl).shaders
  | edited hk h => exact h.stands
  | new hn h => exact stands_of_shaders h.shaders

theorem stands_removeFragment (l : Library) (k : FragmentKey) : l.Stands (l.removeFragment k).2 := by
  unfold removeFragment
  split
  · exact .refl l
  · split <;> exact stands_of_shaders rfl

variable {σ : Type} [ProgramCompiler σ]

/-- What an operation makes of a shader: it is a revision of the one before, or a new one without masks. -/
def Comes (l : Library) (k : ShaderKey) (s' : Shader) : Prop :=
  (∃ s, l.shader? k = some s ∧ s.Revised s') ∨ l.shader? k = none ∧ s'.preLoad = []

theorem Stands.comes (h : l.Stands l') {k : ShaderKey} {s' : Shader} (hs : l'.shader? k = some s') : l.Comes k s' := by
  have hk := h k
  unfold standing? at hk
  rw [hs] at hk
  obtain ⟨s, hs, he⟩ := Option.map_eq_some_iff.1 hk.symm
  exact Or.inl ⟨s, hs, Shader.revised_of_standing he.symm⟩

/-- One shader is revised, and the others are as they were. -/
theorem comes_setShader (h : l.Stands l') {x : ShaderKey} {s t : Shader} (hs : l.shader? x = some s) (ht : s.Revised t)
    {k : ShaderKey} {s' : Shader} (hs' : (l'.setShader x t).shader? k = some s') : l.Comes k s' := by
  rw [shader?_setShader] at hs'
  split at hs'
  · next hx =>
    subst hx
    obtain ⟨t', -, rfl⟩ := Option.map_eq_some_iff.1 hs'
    exact Or.inl ⟨s, hs, ht⟩
  · exact h.comes hs'

/-- A shader that is registered has no masks yet. -/
theorem comes_registerShader (h : l'.shaders = l.shaders) {s : Shader} (hs : s.preLoad = []) {k : ShaderKey} {s' : Shader}
    (hs' : (l'.registerShader s).2.shader? k = some s') : l.Comes k s' := by
  have hins : (l.shaders.insert s).2.get? k = some s' := h ▸ hs'
  rw [SlotMap.get?_insert] at hins
  split at hins
  · next hk =>
    cases hins
    exact Or.inr ⟨hk ▸ SlotMap.get?_insert_fst l.shaders s, hs⟩
  · exact (Stands.refl l).comes hins

theorem Opened.comes {name : String} {p : Except ShaderError ShaderKey × Library} (h : l.Opened name p)
    (hl : FragmentStore.WellFormed l.fragments) {k : ShaderKey} {s' : Shader} (hs : p.2.shader? k = some s') :
    l.Comes k s' := by
  cases h with
  | kept hr hk => exact (Stands.refl l).comes hs
  | newFailed hn h => exact comes_registerShader (h.loaded hl).shaders rfl hs
  | oldFailed hr hu h =>
    exact comes_setShader (stands_of_shaders (h.loaded hl).shaders) (Session.registered?_eq hr)
      (Shader.revised_markFailed ..) hs
  | registered hn h hq => exact comes_registerShader h.shaders (ite_self []) hs
  | refilled hr hu h hq =>
    exact comes_setShader (stands_of_shaders h.shaders) (Session.registered?_eq hr) (Shader.revised_apply ..) hs

theorem Reloaded.comes {x : ShaderKey} {s : Shader} {c : σ} {p : Except ShaderError BuildReport × Library × σ}
    (h : l.Reloaded x s c p) (hl : FragmentStore.WellFormed l.fragments) (hx : l.shader? x = some s) {k : ShaderKey}
    {s' : Shader} (hs : p.2.1.shader? k = some s') : l.Comes k s' := by
  cases h with
  | failed h =>
    exact comes_setShader (stands_of_shaders (h.loaded hl).shaders) hx (Shader.revised_markFailed ..) hs
  | applied h hq => exact comes_setShader (stands_of_shaders h.shaders) hx (Shader.revised_apply ..) hs
  | @compiled source sections l' report t c' h hq hc =>
    refine comes_setShader (stands_of_shaders h.shaders) hx ?_ hs
    have hst := Shader.standing_compileContexts l'.workspace (s.apply source sections) (Shader.releaseAll s.programs c)
    rw [hc] at hst
    exact (Shader.revised_apply s source sections).of_standing rfl hst

theorem comes_removeShader (l : Library) (x : ShaderKey) (c : σ) {k : ShaderKey} {s' : Shader}
    (hs : (l.removeShader x c).2.1.shader? k = some s') : l.Comes k s' := by
  unfold removeShader at hs
  split at hs
  · exact (Stands.refl l).comes hs
  · have hrem : (l.shaders.remove x).get? k = some s' := hs
    rw [SlotMap.get?_remove] at hrem
    split at hrem
    · cases hrem
    · exact (Stands.refl l).comes hrem

/-- What an operation makes of a shader that it asks for no mask of. -/
theorem comes_step {x : Session σ} (hl : x.library.Regular) {op : Operation} {k : ShaderKey}
    (hop : ∀ m, op ≠ .preLoadMask k m) {s' : Shader} (hs : (x.step op).library.shader? k = some s') :
    x.library.Comes k s' := by
  obtain ⟨l, c⟩ := x
  have hl : l.Regular := hl
  cases op with
  | setLoader loader => exact (Stands.refl l).comes hs
  | setSettings settings =>
    exact (stands_mapValues l (f := fun _ s => s.invalidate) (fun _ _ => rfl) rfl).comes hs
  | addFragment name t => exact ((added_addFragment hl.fragments name t).stands hl.fragments).comes hs
  | loadFragment name =>
    exact (stands_of_shaders ((attempt_loadFragment hl.fragments name).loaded hl.fragments).shaders).comes hs
  | updateFragment x t => exact ((replaced_updateFragment hl.fragments x t).stands hl.fragments).comes hs
  | reloadFragment x => exact ((replaced_reloadFragment hl.fragments x).stands hl.fragments).comes hs
  | removeFragment x => exact (stands_removeFragment l x).comes hs
  | fragmentChanged x => exact (stands_fragmentChanged l x).comes hs
  | loadShader name => exact (opened_loadShader hl.fragments name).comes hl.fragments hs
  | loadShaderText name t => exact (opened_loadShaderText hl.fragments name t).comes hl.fragments hs
  | reloadShader x =>
    cases hx : l.shader? x with
    | none =>
      simp only [Session.step, reloadShader, hx] at hs
      exact (Stands.refl l).comes hs
    | some t => exact (reloaded_reloadShader hl.fragments hx c).comes hl.fragments hx hs
  | reloadShaderText x text =>
    cases hx : l.shader? x with
    | none =>
      simp only [Session.step, reloadShaderText, hx] at hs
      exact (Stands.refl l).comes hs
    | some t => exact (reloaded_reloadShaderText hl.fragments l.loader hx text c).comes hl.fragments hx hs
  | removeShader x => exact comes_removeShader l x c hs
  | invalidateShader x =>
    refine (stands_mapValues l (f := fun y s => if y = x then s.invalidate else s) (fun y s => ?_) rfl).comes hs
    split <;> rfl
  | releaseShader x => exact (works_releaseShader l x c).stands.comes hs
  | preLoadMask x m =>
    simp only [Session.step, Session.withLibrary, preLoadMask] at hs
    split at hs
    · exact (Stands.refl l).comes hs
    · rw [shader?_setShader, if_neg] at hs
      · exact (Stands.refl l).comes hs
      · rintro rfl
        exact hop m rfl
  | compileContexts x => exact (works_compileContexts l x c).stands.comes hs
  | compileAll => exact (works_compileEach _ l c).stands.comes hs
  | getCombination x context m => exact (works_getCombination l x context m c).stands.comes hs
  | program x context m => exact (works_program l x context m c).stands.comes hs
  | assembleStageSources x context m => exact (works_assembleStageSources l x context m).stands.comes hs
  | setFloatParam x kind i param component a =>
    exact (works_setFloatParam l x kind i param component a).stands.comes hs

end Library

/-! ## Histories -/

namespace Session

variable {σ : Type} [ProgramCompiler σ] {x : Session σ} {k : ShaderKey} {m : Mask}

/-- Asking adds a mask that is not among those asked for. -/
theorem shader?_preLoadMask {s' : Shader} (hs : (x.step (.preLoadMask k m)).library.shader? k = some s') :
    ∃ s, x.library.shader? k = some s ∧ s' = s.preLoadMask m := by
  simp only [step, withLibrary, Library.preLoadMask] at hs
  split at hs
  · next hn =>
    rw [hn] at hs
    cases hs
  · next s hk =>
    rw [Library.shader?_setShader_self hk] at hs
    exact ⟨s, hk, (Option.some.inj hs).symm⟩

def flags? (x : Session σ) (k : ShaderKey) : Option (List String) :=
  (x.library.shader? k).map fun s => s.vocabulary.names

/-- A mask of a shader was asked for, and from then on the flags of the shader were some names in some order. -/
def AskedFor (x : Session σ) (k : ShaderKey) (m : Mask) (names : List String) (ops : List Operation) : Prop :=
  ∃ before after, ops = before ++ .preLoadMask k m :: after ∧
    ∀ part, part <+: after → (x.run (before ++ .preLoadMask k m :: part)).flags? k = some names

theorem AskedFor.flags? {names : List String} {ops : List Operation} (h : x.AskedFor k m names ops) :
    (x.run ops).flags? k = some names := by
  obtain ⟨before, after, rfl, hflags⟩ := h
  exact hflags after List.prefix_rfl

/-- What was asked for before an operation is asked for still if the flags are the same. -/
theorem askedFor_snoc {names : List String} {ops : List Operation} {op : Operation} :
    x.AskedFor k m names (ops ++ [op]) ↔
      (x.run (ops ++ [op])).flags? k = some names ∧ (op = .preLoadMask k m ∨ x.AskedFor k m names ops) := by
  constructor
  · intro h
    refine ⟨h.flags?, ?_⟩
    obtain ⟨before, after, he, hflags⟩ := h
    rcases List.eq_nil_or_concat after with rfl | ⟨rest, last, rfl⟩
    · exact Or.inl (List.singleton_inj.1 (List.append_inj' he rfl).2)
    · have he : ops ++ [op] = (before ++ .preLoadMask k m :: rest) ++ [last] := by simpa using he
      obtain rfl := (List.append_inj' he rfl).1
      exact Or.inr ⟨before, rest, rfl, fun part hp => hflags part (hp.trans (by simp))⟩
  · rintro ⟨hflags, rfl | ⟨before, after, rfl, hbefore⟩⟩
    · exact ⟨ops, [], rfl, fun part hp => List.prefix_nil.1 hp ▸ hflags⟩
    · refine ⟨before, after ++ [op], by simp, fun part hp => ?_⟩
      rcases List.prefix_concat_iff.1 hp with rfl | hp
      · simpa using hflags
      · exact hbefore part hp

/-- The masks of a shader occur once each, and are those that were asked for since it has its flags. -/
structure Holds (x : Session σ) (ops : List Operation) (k : ShaderKey) (s : Shader) : Prop where
  nodup : s.preLoad.Nodup
  mem_iff : ∀ m, m ∈ s.preLoad ↔ x.AskedFor k m s.vocabulary.names ops

theorem run_snoc (x : Session σ) (ops : List Operation) (op : Operation) : x.run (ops ++ [op]) = (x.run ops).step op := by
  rw [run, List.foldl_append]
  rfl

theorem Holds.ask {ops : List Operation} {s : Shader} (h : x.Holds ops k s) (m : Mask)
    (hs : (x.run (ops ++ [.preLoadMask k m])).library.shader? k = some (s.preLoadMask m)) :
    x.Holds (ops ++ [.preLoadMask k m]) k (s.preLoadMask m) := by
  have hvocabulary : (s.preLoadMask m).vocabulary = s.vocabulary := by
    unfold Shader.preLoadMask
    split <;> rfl
  have hmem : ∀ n, n ∈ (s.preLoadMask m).preLoad ↔ n = m ∨ n ∈ s.preLoad := by
    intro n
    unfold Shader.preLoadMask
    split
    · next hm => exact ⟨Or.inr, fun hn => hn.elim (fun he => he ▸ List.contains_iff_mem.1 hm) id⟩
    · exact List.mem_append.trans (or_comm.trans (or_congr_left List.mem_singleton))
  refine ⟨?_, fun n => ?_⟩
  · unfold Shader.preLoadMask
    split
    · exact h.nodup
    · next hm =>
      refine List.nodup_append.2 ⟨h.nodup, by simp, ?_⟩
      rintro a ha b hb rfl
      exact hm (List.contains_iff_mem.2 (List.mem_singleton.1 hb ▸ ha))
  · have hflags : (x.run (ops ++ [.preLoadMask k m])).flags? k = some s.vocabulary.names := by
      rw [flags?, hs, Option.map_some, hvocabulary]
    rw [askedFor_snoc, hmem, hvocabulary, h.mem_iff]
    simp only [hflags, true_and, Operation.preLoadMask.injEq, eq_comm (a := m)]

/-- A revision keeps the history of the masks with the flags. -/
theorem Holds.revise {ops : List Operation} {op : Operation} {s s' : Shader} (h : x.Holds ops k s)
    (hop : ∀ m, op ≠ .preLoadMask k m) (hr : s.Revised s') (hs : (x.run ops).library.shader? k = some s)
    (hs' : (x.run (ops ++ [op])).library.shader? k = some s') : x.Holds (ops ++ [op]) k s' := by
  have hflags : (x.run (ops ++ [op])).flags? k = some s'.vocabulary.names := by
    rw [flags?, hs']
    rfl
  by_cases hn : s'.vocabulary.names = s.vocabulary.names
  · refine ⟨hr.same hn ▸ h.nodup, fun m => ?_⟩
    rw [askedFor_snoc, hr.same hn, h.mem_iff, hn]
    simp only [hop m, false_or, hflags, hn, true_and]
  · refine ⟨hr.other hn ▸ List.nodup_nil, fun m => ?_⟩
    rw [hr.other hn, askedFor_snoc]
    refine iff_of_false List.not_mem_nil ?_
    rintro ⟨-, hm | hasked⟩
    · exact hop m hm
    · -- the flags before the operation are those of the shader before
      have hbefore := hasked.flags?
      rw [flags?, hs] at hbefore
      exact hn (Option.some.inj hbefore).symm

theorem holds_run (hx : x.library.Reachable) (hnone : x.library.shader? k = none) (ops : List Operation) {s : Shader}
    (hs : (x.run ops).library.shader? k = some s) : x.Holds ops k s := by
  induction ops using List.reverseRecOn generalizing s with
  | nil =>
    rw [run_nil, hnone] at hs
    cases hs
  | append_singleton ops op ih =>
    have hreg := (hx.run ops).regular
    have hstep := hs
    rw [run_snoc] at hstep
    by_cases hop : ∃ m, op = .preLoadMask k m
    · obtain ⟨m, rfl⟩ := hop
      obtain ⟨t, ht, rfl⟩ := shader?_preLoadMask hstep
      exact (ih ht).ask m hs
    · have hop : ∀ m, op ≠ .preLoadMask k m := fun m hm => hop ⟨m, hm⟩
      rcases Library.comes_step hreg hop hstep with ⟨t, ht, hr⟩ | ⟨hfree, hempty⟩
      · exact (ih ht).revise hop hr ht hs
      · refine ⟨hempty ▸ List.nodup_nil, fun m => ?_⟩
        rw [hempty, askedFor_snoc]
        refine iff_of_false List.not_mem_nil ?_
        rintro ⟨-, hm | hasked⟩
        · exact hop m hm
        · have hbefore := hasked.flags?
          rw [flags?, hfree] at hbefore
          cases hbefore

/-- A shader that is not loaded after an operation has the flags and masks that it had. -/
theorem keeps_of_unloaded (hx : x.library.Regular) {op : Operation} {s s' : Shader} (hs : x.library.shader? k = some s)
    (hs' : (x.step op).library.shader? k = some s') (hu : s'.isLoaded = false) :
    s'.vocabulary = s.vocabulary ∧ s.preLoad ⊆ s'.preLoad := by
  by_cases hop : ∃ m, op = .preLoadMask k m
  · obtain ⟨m, rfl⟩ := hop
    obtain ⟨t, ht, rfl⟩ := shader?_preLoadMask hs'
    cases hs.symm.trans ht
    unfold Shader.preLoadMask
    split
    · exact ⟨rfl, List.Subset.refl _⟩
    · exact ⟨rfl, List.subset_append_left ..⟩
  · rcases Library.comes_step hx (fun m hm => hop ⟨m, hm⟩) hs' with ⟨t, ht, hr⟩ | ⟨hfree, -⟩
    · cases hs.symm.trans ht
      have hv := hr.unloaded hu
      refine ⟨hv, ?_⟩
      rw [hr.same (congrArg Vocabulary.names hv)]
      exact List.Subset.refl _
    · cases hs.symm.trans hfree

end Session

/-- After every run from an empty library, the masks that a shader compiles ahead occur once each, and they are exactly
those that were asked for at a time from which on its flags have always been the present ones, with the same bits. An
operation that leaves a shader without content, such as a reload that fails, keeps its flags and masks. -/
theorem requests_exact {σ : Type} [ProgramCompiler σ] (loader : Loader) (settings : Settings) (c : σ)
    (ops : List Operation) {k : ShaderKey} {s : Shader}
    (hs : ((Session.start loader settings c).run ops).library.shader? k = some s) :
    s.preLoad.Nodup ∧
    (∀ m, m ∈ s.preLoad ↔ (Session.start loader settings c).AskedFor k m s.vocabulary.names ops) ∧
    ∀ op t, ((Session.start loader settings c).run (ops ++ [op])).library.shader? k = some t → t.isLoaded = false →
      t.vocabulary = s.vocabulary ∧ s.preLoad ⊆ t.preLoad := by
  have hreach : (Session.start loader settings c).library.Reachable := .new loader settings
  have hholds := Session.holds_run hreach rfl ops hs
  refine ⟨hholds.nodup, hholds.mem_iff, fun op t ht hu => ?_⟩
  rw [Session.run_snoc] at ht
  exact Session.keeps_of_unloaded (hreach.run ops).regular hs ht hu

/-- A mask is asked for twice, then the shader is reloaded from a text that lacks its sections. -/
def askOps : List Operation :=
  [.addFragment "skin" (skinSource "vec4"), .loadShaderText "lit" litSource, .preLoadMask ⟨1, 1⟩ 1,
    .preLoadMask ⟨1, 1⟩ 1, .reloadShaderText ⟨1, 1⟩ (litText [])]

def flaglessSource : Text := "[[FX]]\n".toList

/-- The mask outlives the reload that fails, and is gone with the flags. -/
theorem requests_exact_askOps :
    let x : Session DryRun := .start default default .empty
    let y := x.run askOps
    let z := x.run (askOps ++ [.reloadShaderText ⟨1, 1⟩ flaglessSource])
    (∃ s, y.library.shader? ⟨1, 1⟩ = some s ∧ s.isLoaded = false ∧ s.preLoad = [1] ∧
      x.AskedFor ⟨1, 1⟩ 1 s.vocabulary.names askOps) ∧
    ∃ t, z.library.shader? ⟨1, 1⟩ = some t ∧ t.isLoaded = true ∧ t.preLoad = [] ∧
      ¬x.AskedFor ⟨1, 1⟩ 1 t.vocabulary.names (askOps ++ [.reloadShaderText ⟨1, 1⟩ flaglessSource]) := by
  intro x y z
  have hy : (y.library.shader? ⟨1, 1⟩).any fun s => !s.isLoaded && s.preLoad == [1] := by decide +kernel
  have hz : (z.library.shader? ⟨1, 1⟩).any fun s => s.isLoaded && s.preLoad == [] := by decide +kernel
  obtain ⟨s, hs, hsp⟩ := (Option.any_eq_true _ _).1 hy
  obtain ⟨t, ht, htp⟩ := (Option.any_eq_true _ _).1 hz
  obtain ⟨hu, hsp⟩ : s.isLoaded = false ∧ s.preLoad = [1] := by simpa using hsp
  obtain ⟨hload, htp⟩ : t.isLoaded = true ∧ t.preLoad = [] := by simpa using htp
  obtain ⟨-, hasked, -⟩ := requests_exact default default DryRun.empty askOps hs
  obtain ⟨-, hgone, -⟩ := requests_exact default default DryRun.empty _ ht
  refine ⟨⟨s, hs, hu, hsp, (hasked 1).1 (by rw [hsp]; simp)⟩, t, ht, hload, htp, fun h => ?_⟩
  have := (hgone 1).2 h
  rw [htp] at this
  cases this

end ShaderVariant
