import ShaderVariant.Proofs.Library.Session
import ShaderVariant.Proofs.Shader.Coherent

/-!
# Orderly sessions

* `Library.SameView` : a shader reads the same from two libraries;
* `Quiet.shader`, `Turn.shader` : what a step makes of each shader, in full;
* `Library.programs`, `programs_split` : the programs of all shaders, and those of one among them;
* `Session.Orderly` : fragments and shaders are in order and the ledger balances. Every step keeps that
  (`Quiet.orderly`, `Turn.orderly`).
-/

namespace ShaderVariant

open FragmentStore (WellFormed)
open DryRunBacked (dryRun passes)
open Relation (ReflTransGen)

namespace Library

/-! ## Shaders behind each operation -/

theorem shader?_setShader (l : Library) (k x : ShaderKey) (s : Shader) :
    (l.setShader k s).shader? x = if k = x then (l.shader? x).map fun _ => s else l.shader? x :=
  SlotMap.get?_set l.shaders k x s

theorem shader?_setShader_self {l : Library} {k : ShaderKey} {s : Shader} (h : l.shader? k = some s) (t : Shader) :
    (l.setShader k t).shader? k = some t := by
  rw [shader?_setShader, if_pos rfl, h]
  rfl

theorem setShader_setShader (l : Library) (k : ShaderKey) (s t : Shader) :
    (l.setShader k s).setShader k t = l.setShader k t := by
  unfold setShader
  rw [SlotMap.set_set]

theorem setShader_eq_self {l : Library} {k : ShaderKey} {s : Shader} (h : l.shader? k = some s) :
    l.setShader k s = l := by
  unfold setShader
  rw [SlotMap.set_eq_self h]

/-! ## What a shader sees of its library -/

theorem Resolves.of_fragments {l l' : Library} {f : Fragment} (h : l.Resolves f) (hf : l'.fragments = l.fragments) :
    l'.Resolves f :=
  ⟨h.sourced, fun x hx => by rw [hf]; exact h.stored x hx⟩

structure SameView (l l' : Library) (s : Shader) : Prop where
  resolves : ∀ f ∈ s.sections, l'.Resolves f
  text : Shader.SameText l.workspace s l'.workspace s
  flags : ∀ d, s.usedFlags l'.fragments d = s.usedFlags l.fragments d

namespace SameView

variable {l l' : Library} {s : Shader}

theorem of_eq (hf : l'.fragments = l.fragments) (hs : l'.settings = l.settings)
    (hr : ∀ f ∈ s.sections, l.Resolves f) : SameView l l' s := by
  have hw : l'.workspace = l.workspace := by rw [workspace, workspace, hf, hs]
  refine ⟨fun f hm => (hr f hm).of_fragments hf, ?_, fun d => by rw [hf]⟩
  rw [hw]
  exact .refl _ s

theorem trans {l'' : Library} (h : SameView l l' s) (h' : SameView l' l'' s) : SameView l l'' s :=
  ⟨h'.resolves, ⟨rfl, rfl, h'.text.settings.trans h.text.settings, fun i =>
    (h'.text.sections i).trans (h.text.sections i)⟩, fun d => (h'.flags d).trans (h.flags d)⟩

theorem of_agree {S : FragmentKey → Prop} (hs : l'.settings = l.settings)
    (ha : FragmentStore.Agree l.fragments l'.fragments S) (hS : ∀ f ∈ s.sections, ∀ k ∈ f.targets, S k)
    (hr : ∀ f ∈ s.sections, l'.Resolves f) : SameView l l' s :=
  ⟨hr, Shader.sameText_of_agree hs ha hS, Shader.usedFlags_of_agree ha hS⟩

/-- A shader sees nothing of fragments that are added. -/
theorem loaded (h : l.Loaded l') (hl : WellFormed l.fragments) (hr : ∀ f ∈ s.sections, l.Resolves f) :
    SameView l l' s := by
  refine of_agree h.settings (hl.agree_of_keeps h.keeps) (fun f hf => (hr f hf).stored) fun f hf => ?_
  exact ⟨(hr f hf).sourced, fun x hx => h.keeps.contains ((hr f hf).stored x hx)⟩

end SameView

theorem not_included {l : Library} {k : FragmentKey} (h : l.isIncluded k = false) :
    (∀ x f, l.fragments.get? x = some f → k ∉ f.targets) ∧
      ∀ x s, l.shader? x = some s → ∀ f ∈ s.sections, k ∉ f.targets := by
  unfold isIncluded at h
  rw [Bool.or_eq_false_iff, Bool.not_eq_false', List.isEmpty_iff, List.any_eq_false] at h
  obtain ⟨hf, hs⟩ := h
  refine ⟨fun x f hx hk => ?_, fun x s hx f hf' hk => ?_⟩
  · have hm : (x, f) ∈ l.fragments.table.entries.filter (·.2.includesDirectly k) :=
      List.mem_filter.2 ⟨SlotMap.mem_entries_iff.2 hx, List.contains_iff_mem.2 hk⟩
    have : x ∈ l.fragments.includersOf k := List.mem_map_of_mem hm
    rw [hf] at this
    exact List.not_mem_nil this
  · refine hs s (SlotMap.mem_values_iff.2 ⟨x, hx⟩) ?_
    exact List.any_eq_true.2 ⟨f, hf', List.contains_iff_mem.2 hk⟩

/-- A shader sees nothing of the removal of a fragment that is not included. -/
theorem SameView.dropped {l : Library} {k : FragmentKey} (h : l.isIncluded k = false) (hl : WellFormed l.fragments)
    {x : ShaderKey} {s : Shader} (hx : l.shader? x = some s) (hr : ∀ f ∈ s.sections, l.Resolves f) :
    SameView l { l with fragments := (l.fragments.remove k).2 } s := by
  obtain ⟨hfree, hsections⟩ := not_included h
  have hne : ∀ f ∈ s.sections, ∀ y ∈ f.targets, k ≠ y := fun f hf y hy he => hsections x s hx f hf (he ▸ hy)
  refine .of_agree rfl (hl.agree_remove hfree) (fun f hf y hy => ⟨(hr f hf).stored y hy, hne f hf y hy⟩) fun f hf => ?_
  refine ⟨(hr f hf).sourced, fun y hy => ?_⟩
  show ((l.fragments.remove k).2.get? y).isSome = true
  rw [FragmentStore.get?_remove, if_neg (hne f hf y hy)]
  exact (hr f hf).stored y hy

/-- A shader that does not reach a fragment sees nothing of its new content. -/
theorem SameView.edited {l : Library} {k : FragmentKey} {f : Fragment} {fragments : FragmentStore}
    (h : l.fragments.replaceContent k f = .ok fragments) {s : Shader} (hs : s.dependsOn fragments k = false)
    (hr : ∀ f ∈ s.sections, l.Resolves f) : SameView l { l with fragments } s := by
  have hk : k ∉ fragments.closure (s.sections.flatMap Fragment.targets) := by
    intro hm
    obtain ⟨r, hr, hreach⟩ := FragmentStore.mem_closure_iff.1 hm
    obtain ⟨g, hg, hrg⟩ := List.mem_flatMap.1 hr
    have : k ∈ fragments.closure g.targets := FragmentStore.mem_closure_iff.2 ⟨r, hrg, hreach⟩
    unfold Shader.dependsOn at hs
    rw [List.any_eq_false] at hs
    exact hs g hg (List.contains_iff_mem.2 this)
  have ha := (FragmentStore.agree_replaceContent h _ hk).symm
  refine .of_agree rfl ha (fun g hg x hx => ?_) fun g hg => ⟨(hr g hg).sourced, fun x hx => ?_⟩
  · exact FragmentStore.mem_closure_iff.2 ⟨x, List.mem_flatMap.2 ⟨g, hg, hx⟩, .refl⟩
  · show fragments.contains x = true
    rw [FragmentStore.contains_replaceContent h]
    exact (hr g hg).stored x hx

end Library

/-! ## Regular libraries -/

/-- The includes of a shader are stored, it has no contexts unless it is loaded, and it remembers its text. -/
structure Shader.Regular (l : Library) (s : Shader) : Prop where
  resolves : ∀ f ∈ s.sections, l.Resolves f
  unloaded : s.isLoaded = false → s.contexts = []
  remembers : s.Remembers l.workspace

structure Library.Regular (l : Library) : Prop where
  fragments : WellFormed l.fragments
  shaders : ∀ k s, l.shader? k = some s → s.Regular l

namespace Session

variable {σ : Type} [ProgramCompiler σ]

inductive Turned (l l' : Library) (k : ShaderKey) : Shader → Prop
  | stays {s : Shader} (hs : l.shader? k = some s) (hv : l.SameView l' s) : Turned l l' k s
  | stale {s : Shader} (hs : l.shader? k = some s) (hr : ∀ f ∈ s.sections, l'.Resolves f) : Turned l l' k s.invalidate
  | refilled {s s' : Shader} (hs : l.shader? k = some s) (hw : l'.workspace = l.workspace) (h : Refills l' s s') :
      Turned l l' k s'
  | registered {s : Shader} {name diagnostic : String} (hs : l.shader? k = none)
      (h : s = .failed name diagnostic ∨ Refills l' (.failed name diagnostic) s) : Turned l l' k s

/-- What a quiet step makes of each shader: it sees no difference, or work was done on it. -/
theorem Quiet.shader {x y : Session σ} (h : Quiet x y) (hx : x.library.Regular) {k : ShaderKey} {s' : Shader}
    (hs : y.library.shader? k = some s') :
    ∃ s, x.library.shader? k = some s ∧
      (s' = s ∧ x.library.SameView y.library s ∨
        y.library.workspace = x.library.workspace ∧
          Shader.Work x.library.workspace (s, x.compiler) (s', y.compiler)) := by
  cases h with
  | load c h =>
    have hs₀ : _ = some s' := hs
    unfold Library.shader? at hs₀
    rw [h.shaders] at hs₀
    exact ⟨s', hs₀, Or.inl ⟨rfl, .loaded h hx.fragments (hx.shaders k s' hs₀).resolves⟩⟩
  | work l h hw =>
    rw [Library.shader?_setShader] at hs
    split at hs
    · next hk =>
      subst hk
      rw [h] at hs
      cases hs
      exact ⟨_, h, Or.inr ⟨rfl, hw⟩⟩
    · exact ⟨s', hs, Or.inl ⟨rfl, .of_eq rfl rfl (hx.shaders k s' hs).resolves⟩⟩
  | drop l c h => exact ⟨s', hs, Or.inl ⟨rfl, .dropped h hx.fragments hs (hx.shaders k s' hs).resolves⟩⟩

theorem Refills.of_fragments {l l' : Library} {s s' : Shader} (h : Refills l s s') (hf : l'.fragments = l.fragments) :
    Refills l' s s' := by
  cases h with
  | cleared => exact .cleared
  | failed diagnostic => exact .failed diagnostic
  | applied source sections h =>
    exact .applied source sections ⟨h.parsed, h.named, fun f hm => (h.resolves f hm).of_fragments hf⟩

theorem shader?_fragmentChanged (l : Library) (k : FragmentKey) (x : ShaderKey) :
    (l.fragmentChanged k).2.shader? x =
      (l.shader? x).map fun s => if s.dependsOn l.fragments k then s.invalidate else s :=
  SlotMap.get?_mapValues l.shaders _ x

theorem resolves_replaceContent {l : Library} {k : FragmentKey} {f : Fragment} {fragments : FragmentStore}
    (h : l.fragments.replaceContent k f = .ok fragments) {g : Fragment} (hg : l.Resolves g) :
    ({ l with fragments } : Library).Resolves g :=
  ⟨hg.sourced, fun x hx => (FragmentStore.contains_replaceContent h x).trans (hg.stored x hx)⟩

/-- What a turn makes of each shader. -/
theorem Turn.shader {x y : Session σ} (h : Turn x y) (hx : x.library.Regular) {k : ShaderKey} {s' : Shader}
    (hs : y.library.shader? k = some s') : Turned x.library y.library k s' := by
  cases h with
  | settings l c settings =>
    have hm : (l.shader? k).map Shader.invalidate = some s' := (SlotMap.get?_mapValues l.shaders _ k).symm.trans hs
    obtain ⟨s, hl, rfl⟩ := Option.map_eq_some_iff.1 hm
    exact .stale hl fun f hf => ((hx.shaders k s hl).resolves f hf).of_fragments rfl
  | edit l c h hf =>
    rw [shader?_fragmentChanged] at hs
    obtain ⟨s, hl, rfl⟩ := Option.map_eq_some_iff.1 hs
    have hr := (hx.shaders k s hl).resolves
    split
    · exact .stale hl fun g hg => (resolves_replaceContent h (hr g hg)).of_fragments rfl
    · next hd =>
      have hv := Library.SameView.edited h (by simpa using hd) hr
      exact .stays hl (hv.trans (.of_eq rfl rfl hv.resolves))
  | notice l c k' =>
    rw [shader?_fragmentChanged] at hs
    obtain ⟨s, hl, rfl⟩ := Option.map_eq_some_iff.1 hs
    have hr := (hx.shaders k s hl).resolves
    split
    · exact .stale hl fun g hg => (hr g hg).of_fragments rfl
    · exact .stays hl (.of_eq rfl rfl hr)
  | invalidate l c k' =>
    have hm := (SlotMap.get?_modify l.shaders k' k Shader.invalidate).symm.trans hs
    split at hm
    · obtain ⟨s, hl, rfl⟩ := Option.map_eq_some_iff.1 hm
      have hr := (hx.shaders k s hl).resolves
      exact .stale hl fun g hg => (hr g hg).of_fragments rfl
    · exact .stays hm (.of_eq rfl rfl (hx.shaders k s' hm).resolves)
  | register l c hn h =>
    have hm := (SlotMap.get?_insert l.shaders _ k).symm.trans hs
    split at hm
    · next hk =>
      cases hm
      exact .registered (hk ▸ SlotMap.get?_insert_fst l.shaders _) (h.imp_right (·.of_fragments rfl))
    · exact .stays hm (.of_eq rfl rfl (hx.shaders k s' hm).resolves)
  | refill l c hs₀ h =>
    rw [Library.shader?_setShader] at hs
    split at hs
    · next hk =>
      subst hk
      rw [hs₀] at hs
      cases hs
      exact .refilled hs₀ rfl (h.of_fragments rfl)
    · exact .stays hs (.of_eq rfl rfl (hx.shaders k s' hs).resolves)
  | discard l c hs₀ =>
    have hm := (SlotMap.get?_remove l.shaders _ k).symm.trans hs
    split at hm
    · cases hm
    · exact .stays hm (.of_eq rfl rfl (hx.shaders k s' hm).resolves)

/-! ## Regularity is kept -/

theorem regular_of_view {l l' : Library} {s : Shader} (h : s.Regular l) (hv : l.SameView l' s) : s.Regular l' :=
  ⟨hv.resolves, h.unloaded, fun i t ht => (hv.text.sections i).trans (h.remembers i t ht)⟩

theorem regular_failed (l : Library) (name diagnostic : String) : (Shader.failed name diagnostic).Regular l :=
  ⟨fun _ hf => absurd hf List.not_mem_nil, fun _ => rfl, Shader.remembers_of_memo_nil rfl⟩

theorem Refills.regular {l : Library} {s s' : Shader} (h : Refills l s s') (hs : s.Regular l) : s'.Regular l := by
  cases h with
  | cleared =>
    refine ⟨hs.resolves, fun hl => ?_, hs.remembers⟩
    show s.contexts.map Context.cleared = []
    rw [hs.unloaded hl]
    rfl
  | failed diagnostic =>
    exact ⟨fun _ hf => absurd hf List.not_mem_nil, fun _ => rfl, Shader.remembers_of_memo_nil rfl⟩
  | applied source sections h => exact ⟨h.resolves, fun hl => (nomatch hl), Shader.remembers_of_memo_nil rfl⟩

theorem Refills.blank {l : Library} {s s' : Shader} (h : Refills l s s') :
    ∀ ctx ∈ s'.contexts, ctx.linkedAt = none ∧ ctx.combinations = [] := by
  intro ctx hctx
  cases h with
  | cleared =>
    obtain ⟨c, -, rfl⟩ := List.mem_map.1 hctx
    exact ⟨rfl, rfl⟩
  | failed diagnostic => exact absurd hctx List.not_mem_nil
  | applied source sections h =>
    obtain ⟨c, -, rfl⟩ := List.mem_map.1 hctx
    exact ⟨rfl, rfl⟩

theorem Turned.regular {l l' : Library} {k : ShaderKey} {s' : Shader} (h : Turned l l' k s') (hl : l.Regular) :
    s'.Regular l' := by
  cases h with
  | stays hs hv => exact regular_of_view (hl.shaders k s' hs) hv
  | stale hs hr => exact ⟨hr, (hl.shaders k _ hs).unloaded, Shader.remembers_of_memo_nil rfl⟩
  | refilled hs hw h =>
    have hv : l.SameView l' _ := .of_eq (congrArg Workspace.fragments hw) (congrArg Workspace.settings hw)
      (hl.shaders k _ hs).resolves
    exact h.regular (regular_of_view (hl.shaders k _ hs) hv)
  | registered hs h =>
    rcases h with rfl | h
    · exact regular_failed ..
    · exact h.regular (regular_failed ..)

theorem Turn.regular {x y : Session σ} (h : Turn x y) (hx : x.library.Regular) : y.library.Regular := by
  refine ⟨?_, fun k s hs => (h.shader hx hs).regular hx⟩
  cases h with
  | edit l c h hf => exact hx.fragments.replaceContent h hf.stored hf.sourced
  | _ => exact hx.fragments

theorem Quiet.regular {x y : Session σ} (h : Quiet x y) (hx : x.library.Regular) : y.library.Regular := by
  refine ⟨?_, fun k s' hs' => ?_⟩
  · cases h with
    | load c h => exact h.wf
    | work l h hw => exact hx.fragments
    | drop l c h => exact hx.fragments.remove (Library.not_included h).1
  · obtain ⟨s, hs, ⟨rfl, hv⟩ | ⟨hw, hwork⟩⟩ := h.shader hx hs'
    · exact regular_of_view (hx.shaders k s' hs) hv
    · have hreg := hx.shaders k s hs
      have hframe := hwork.frame
      refine ⟨fun f hf => ?_, fun hl => ?_, ?_⟩
      · exact (hreg.resolves f (hframe.sections ▸ hf)).of_fragments (congrArg Workspace.fragments hw)
      · have := hframe.decls
        rw [hreg.unloaded (hframe.isLoaded.symm.trans hl)] at this
        exact List.map_eq_nil_iff.1 this
      · rw [hw]
        exact hwork.remembers hreg.remembers

theorem regular_of_quiet {x y : Session σ} (h : ReflTransGen Quiet x y) (hx : x.library.Regular) :
    y.library.Regular := by
  induction h with
  | refl => exact hx
  | tail _ hstep ih => exact hstep.regular ih

theorem Effect.regular {x y : Session σ} (h : Effect x y) (hx : x.library.Regular) : y.library.Regular := by
  obtain ⟨u, v, hxu, huv, hvy⟩ := h
  refine regular_of_quiet hvy ?_
  rcases huv with rfl | huv
  · exact regular_of_quiet hxu hx
  · exact huv.regular (regular_of_quiet hxu hx)

end Session

/-! ## Programs of a library -/

namespace Library

def programs (l : Library) : List Program := l.shaders.values.flatMap Shader.programs

theorem mem_programs {l : Library} {k : ShaderKey} {s : Shader} (hs : l.shader? k = some s) {p : Program}
    (hp : p ∈ s.programs) : p ∈ l.programs :=
  List.mem_flatMap.2 ⟨s, SlotMap.mem_values_iff.2 ⟨k, hs⟩, hp⟩

/-- The programs of one shader and those of the others, which stay when that one is replaced or goes. -/
theorem programs_split {l : Library} {k : ShaderKey} {s : Shader} (h : l.shader? k = some s) :
    ∃ rest, l.programs.Perm (s.programs ++ rest) ∧ (∀ t, (l.setShader k t).programs.Perm (t.programs ++ rest)) ∧
      ((l.shaders.remove k).values.flatMap Shader.programs).Perm rest ∧
        ∀ x t, k ≠ x → l.shader? x = some t → ∀ p ∈ t.programs, p ∈ rest := by
  obtain ⟨xs, ys, hm, hne, hset, hremove⟩ := SlotMap.exists_split_of_get? h
  have hperm : ∀ (t : Shader) (es : List (ShaderKey × Shader)), es = xs ++ (k, t) :: ys →
      ((es.map Prod.snd).flatMap Shader.programs).Perm
        (t.programs ++ ((xs ++ ys).map Prod.snd).flatMap Shader.programs) := by
    rintro t _ rfl
    refine List.perm_iff_count.2 fun p => ?_
    simp only [List.map_append, List.map_cons, List.flatMap_append, List.flatMap_cons, List.count_append]
    omega
  refine ⟨((xs ++ ys).map Prod.snd).flatMap Shader.programs, hperm s _ hm, fun t => hperm t _ (hset t), ?_, ?_⟩
  · show (((l.shaders.remove k).entries.map Prod.snd).flatMap Shader.programs).Perm _
    rw [hremove]
  · intro x t hx ht p hp
    have hmem : (x, t) ∈ xs ++ (k, s) :: ys := hm ▸ SlotMap.mem_entries_iff.2 ht
    have hmem' : (x, t) ∈ xs ++ ys := by
      rcases List.mem_append.1 hmem with h | h
      · exact List.mem_append_left _ h
      · rcases List.mem_cons.1 h with h | h
        · exact absurd (congrArg Prod.fst h).symm hx
        · exact List.mem_append_right _ h
    exact List.mem_flatMap.2 ⟨t, List.mem_map_of_mem hmem', hp⟩

/-- Changing shaders without their programs changes no program. -/
theorem programs_mapValues (shaders : SlotMap Shader) {f : ShaderKey → Shader → Shader}
    (hf : ∀ k s, (f k s).programs = s.programs) :
    (shaders.mapValues f).values.flatMap Shader.programs = shaders.values.flatMap Shader.programs := by
  show ((shaders.entries.map fun e => (e.1, f e.1 e.2)).map Prod.snd).flatMap _ = (shaders.entries.map Prod.snd).flatMap _
  rw [List.map_map, List.flatMap_map, List.flatMap_map]
  exact List.flatMap_congr fun e _ => hf e.1 e.2

theorem programs_fragmentChanged (l : Library) (k : FragmentKey) : (l.fragmentChanged k).2.programs = l.programs := by
  refine programs_mapValues l.shaders fun _ s => ?_
  split <;> rfl

theorem programs_registerShader (l : Library) {s : Shader} (h : s.programs = []) :
    (l.registerShader s).2.programs.Perm l.programs := by
  have hp := (SlotMap.perm_values_insert l.shaders s).flatMap_right Shader.programs
  rw [List.flatMap_cons, h, List.nil_append] at hp
  exact hp

end Library

/-! ## Order is kept -/

namespace Session

variable {σ : Type} [ProgramCompiler σ] [DryRunBacked σ]

/-- Fragments and shaders are in order, and the programs of the shaders are the live ones. -/
structure Orderly (x : Session σ) : Prop where
  regular : x.library.Regular
  ledger : Ledger x.compiler x.library.programs

omit [ProgramCompiler σ] [DryRunBacked σ] in
theorem Refills.programs_eq_nil {l : Library} {s s' : Shader} (h : Refills l s s') : s'.programs = [] := by
  cases h with
  | cleared =>
    show (s.contexts.map Context.cleared).flatMap Context.programs = []
    rw [List.flatMap_map]
    exact List.flatMap_eq_nil_iff.2 fun _ _ => rfl
  | failed diagnostic => rfl
  | applied source sections h =>
    show (source.contexts.map Context.ofDecl).flatMap Context.programs = []
    rw [List.flatMap_map]
    exact List.flatMap_eq_nil_iff.2 fun _ _ => rfl

theorem Quiet.ledger {x y : Session σ} (h : Quiet x y) (hl : Ledger x.compiler x.library.programs) :
    Ledger y.compiler y.library.programs := by
  cases h with
  | load c h =>
    refine hl.perm ?_
    unfold Library.programs
    rw [h.shaders]
  | work l hs hw =>
    obtain ⟨rest, hp, hset, -, -⟩ := Library.programs_split hs
    exact (hw.ledger (hl.perm hp)).perm (hset _).symm
  | drop l c h => exact hl

theorem Turn.ledger {x y : Session σ} (h : Turn x y) (hl : Ledger x.compiler x.library.programs) :
    Ledger y.compiler y.library.programs := by
  cases h with
  | settings l c settings =>
    have hp : (l.setSettings settings).programs = l.programs := Library.programs_mapValues l.shaders fun _ _ => rfl
    rw [hp]
    exact hl
  | edit l c h hf =>
    rw [Library.programs_fragmentChanged]
    exact hl
  | notice l c k =>
    rw [Library.programs_fragmentChanged]
    exact hl
  | invalidate l c k =>
    have hp : (l.modifyShader k Shader.invalidate).programs = l.programs :=
      Library.programs_mapValues l.shaders fun _ _ => by split <;> rfl
    rw [hp]
    exact hl
  | register l c hn h =>
    have hnil : _ = [] := h.elim (fun h => by rw [h]; rfl) Refills.programs_eq_nil
    exact hl.perm (Library.programs_registerShader l hnil).symm
  | refill l c hs h =>
    obtain ⟨rest, hp, hset, -, -⟩ := Library.programs_split hs
    refine (Shader.ledger_releaseAll _ (hl.perm hp)).1.perm ((hset _).trans ?_).symm
    rw [h.programs_eq_nil]
    exact .refl _
  | discard l c hs =>
    obtain ⟨rest, hp, -, hremove, -⟩ := Library.programs_split hs
    exact (Shader.ledger_releaseAll _ (hl.perm hp)).1.perm hremove.symm

theorem Quiet.orderly {x y : Session σ} (h : Quiet x y) (hx : x.Orderly) : y.Orderly :=
  ⟨h.regular hx.regular, h.ledger hx.ledger⟩

theorem Turn.orderly {x y : Session σ} (h : Turn x y) (hx : x.Orderly) : y.Orderly :=
  ⟨h.regular hx.regular, h.ledger hx.ledger⟩

theorem orderly_of_quiet {x y : Session σ} (h : ReflTransGen Quiet x y) (hx : x.Orderly) : y.Orderly := by
  induction h with
  | refl => exact hx
  | tail _ hstep ih => exact hstep.orderly ih

theorem Effect.orderly {x y : Session σ} (h : Effect x y) (hx : x.Orderly) : y.Orderly := by
  obtain ⟨u, v, hxu, huv, hvy⟩ := h
  refine orderly_of_quiet hvy ?_
  rcases huv with rfl | huv
  · exact orderly_of_quiet hxu hx
  · exact huv.orderly (orderly_of_quiet hxu hx)

end Session

end ShaderVariant
