import ShaderVariant.Proofs.Library.Preview
import ShaderVariant.Proofs.Library.Reachable

/-!
# What new content of a fragment invalidates

* `Shader.Reaches` : a section includes a fragment, directly or through others; `dependsOn_iff` says that this is tested;
* `Edits.reaches_iff` : shaders reach the fragment before just if they do so afterwards. The test is made afterwards;
* `invalidation_exact` : those shaders advance, and nothing that is read off another one changes.
-/

namespace ShaderVariant

open Relation (ReflTransGen)

namespace Shader

def Reaches (s : Shader) (fragments : FragmentStore) (k : FragmentKey) : Prop :=
  ∃ f ∈ s.sections, ∃ x ∈ f.targets, ReflTransGen fragments.Includes x k

theorem dependsOn_iff {s : Shader} {fragments : FragmentStore} {k : FragmentKey} :
    s.dependsOn fragments k = true ↔ s.Reaches fragments k := by
  simp only [dependsOn, FragmentStore.hasDependency, List.any_eq_true, List.contains_iff_mem,
    FragmentStore.mem_closure_iff, Reaches]

end Shader

namespace Library

variable {l l' : Library} {k : FragmentKey} {n : Nat}

/-! ## Edits -/

theorem Replaced.edits {p : Except ShaderError Nat × Library} (h : l.Replaced k p) (hp : p = (.ok n, l')) :
    l.Edits l' k n := by
  cases h with
  | edited h =>
    cases hp
    exact h
  | _ => cases hp

theorem Added.edits {name : String} {x : FragmentKey} (h : l.Added name (.ok x, l'))
    (hk : l.fragments.find? name = some k) : x = k ∧ ∃ n, l.Edits l' k n := by
  cases h with
  | edited hx h =>
    cases hx.symm.trans hk
    exact ⟨rfl, _, h⟩
  | new hn =>
    rw [hn] at hk
    cases hk

namespace Edits

theorem shader? (h : l.Edits l' k n) (x : ShaderKey) :
    l'.shader? x = (l.shader? x).map fun s => if s.dependsOn l'.fragments k then s.invalidate else s := by
  obtain ⟨l₁, f, fragments, hload, -, -, -, rfl⟩ := h
  rw [Session.shader?_fragmentChanged]
  show ((l₁.shaders.get? x).map _) = _
  rw [hload.shaders]
  rfl

theorem keys (h : l.Edits l' k n) : l'.shaders.keys = l.shaders.keys := by
  obtain ⟨l₁, f, fragments, hload, -, -, -, rfl⟩ := h
  rw [← hload.shaders]
  show (l₁.shaders.entries.map _).map _ = l₁.shaders.entries.map _
  rw [List.map_map]
  rfl

theorem count (h : l.Edits l' k n) : n = l.shaders.values.countP (·.dependsOn l'.fragments k) := by
  obtain ⟨l₁, f, fragments, hload, -, -, rfl, rfl⟩ := h
  rw [← hload.shaders]
  rfl

/-- A shader that does not reach the fragment sees no difference. -/
theorem sameView (h : l.Edits l' k n) (hl : l.Regular) {x : ShaderKey} {s : Shader} (hs : l.shader? x = some s)
    (hd : s.dependsOn l'.fragments k = false) : l.SameView l' s := by
  obtain ⟨l₁, f, fragments, hload, -, hedit, -, rfl⟩ := h
  have hv := SameView.loaded hload hl.fragments (hl.shaders x s hs).resolves
  have hv' := hv.trans (.edited hedit hd hv.resolves)
  exact hv'.trans (.of_eq rfl rfl hv'.resolves)

/-- New content does not change which shaders reach the fragment: what they include was there before, and stays there
up to the fragment itself. -/
theorem reaches_iff (h : l.Edits l' k n) (hl : l.Regular) {x : ShaderKey} {s : Shader} (hs : l.shader? x = some s) :
    s.Reaches l'.fragments k ↔ s.Reaches l.fragments k := by
  obtain ⟨l₁, f, fragments, hload, -, hedit, -, rfl⟩ := h
  show s.Reaches fragments k ↔ s.Reaches l.fragments k
  have hagree := hl.fragments.agree_of_keeps hload.keeps
  have hoff : ∀ y, y ≠ k → fragments.get? y = l₁.fragments.get? y := fun y hy => by
    rw [FragmentStore.get?_replaceContent hedit, if_neg (Ne.symm hy)]
  constructor
  · rintro ⟨g, hg, y, hy, hreach⟩
    have hstored := ((hl.shaders x s hs).resolves g hg).stored y hy
    have hback := FragmentStore.reaches_of_get? (fun z hz => (hoff z hz).symm) hreach
    exact ⟨g, hg, y, hy, (hagree.symm.reaches hstored hback).2⟩
  · rintro ⟨g, hg, y, hy, hreach⟩
    have hstored := ((hl.shaders x s hs).resolves g hg).stored y hy
    exact ⟨g, hg, y, hy, FragmentStore.reaches_of_get? hoff (hagree.reaches hstored hreach).2⟩

end Edits

/-! ## Exactness -/

def advanced (l l' : Library) : Nat :=
  l.shaders.keys.countP fun x => decide ((l'.shader? x).map Shader.generation ≠ (l.shader? x).map Shader.generation)

/-- Just the shaders that reach a fragment, before or after, are of the next generation. Nothing else of a shader changes
but what it had kept of its text, and the preview of one that stays in its generation is as before. -/
structure Invalidated (l l' : Library) (k : FragmentKey) : Prop where
  keys : l'.shaders.keys = l.shaders.keys
  reaches : ∀ x s, l.shader? x = some s → (s.Reaches l'.fragments k ↔ s.Reaches l.fragments k)
  advances : ∀ x s, l.shader? x = some s → s.Reaches l.fragments k →
    l'.shader? x = some { s with generation := s.generation.next, memo := [] }
  stays : ∀ x s, l.shader? x = some s → ¬s.Reaches l.fragments k → l'.shader? x = some s
  preview : ∀ x s s', l.shader? x = some s → l'.shader? x = some s' → s'.generation = s.generation →
    ∀ name m, (l'.assembleStageSources x name m).1 = (l.assembleStageSources x name m).1

theorem Edits.advances (h : l.Edits l' k n) {x : ShaderKey} {s : Shader} (hs : l.shader? x = some s)
    (hd : s.dependsOn l'.fragments k = true) : l'.shader? x = some s.invalidate := by
  rw [h.shader?, hs, Option.map_some, if_pos hd]

theorem Edits.stays (h : l.Edits l' k n) {x : ShaderKey} {s : Shader} (hs : l.shader? x = some s)
    (hd : s.dependsOn l'.fragments k = false) : l'.shader? x = some s := by
  rw [h.shader?, hs, Option.map_some, hd]
  rfl

theorem Edits.invalidated (h : l.Edits l' k n) (hl : l.Regular) : l.Invalidated l' k := by
  have tested : ∀ x s, l.shader? x = some s → (s.dependsOn l'.fragments k = true ↔ s.Reaches l.fragments k) :=
    fun x s hs => Shader.dependsOn_iff.trans (h.reaches_iff hl hs)
  refine ⟨h.keys, fun x s hs => h.reaches_iff hl hs, fun x s hs hr => ?_, fun x s hs hr => ?_, ?_⟩
  · exact h.advances hs ((tested x s hs).2 hr)
  · exact h.stays hs (Bool.eq_false_iff.2 fun hd => hr ((tested x s hs).1 hd))
  · intro x s s' hs hs' hg
    cases hd : s.dependsOn l'.fragments k with
    | true =>
      cases (h.advances hs hd).symm.trans hs'
      exact absurd hg (Generation.next_ne s.generation)
    | false =>
      cases (h.stays hs hd).symm.trans hs'
      have hreg := hl.shaders x s hs
      have hv := h.sameView hl hs hd
      exact assembleStageSources_congr hs hs' hreg.remembers (Session.regular_of_view hreg hv).remembers hv.text rfl rfl

theorem Edits.count_eq (h : l.Edits l' k n) : n = l.advanced l' := by
  rw [h.count, advanced, SlotMap.values, SlotMap.keys, List.countP_map, List.countP_map]
  refine List.countP_congr fun e he => ?_
  have hs : l.shader? e.1 = some e.2 := SlotMap.mem_entries_iff.1 he
  rw [Function.comp_apply, Function.comp_apply, decide_eq_true_iff, hs]
  cases hd : e.2.dependsOn l'.fragments k with
  | true =>
    rw [h.advances hs hd]
    exact iff_of_true rfl fun hg => Generation.next_ne e.2.generation (Option.some.inj hg)
  | false =>
    rw [h.stays hs hd]
    exact iff_of_false Bool.false_ne_true fun hg => hg rfl

end Library

/-- In every reachable library, when a fragment gets new content, from a text or through the loader, just the shaders
with a section that reaches it advance, each to the next generation. The answer is their number, and the preview of
every other shader is as before, in every context and for every mask. -/
theorem invalidation_exact {l : Library} (h : l.Reachable) (k : FragmentKey) (l' : Library) :
    (∀ t n, l.updateFragment k t = (.ok n, l') → l.Invalidated l' k ∧ n = l.advanced l') ∧
    (∀ n, l.reloadFragment k = (.ok n, l') → l.Invalidated l' k ∧ n = l.advanced l') ∧
    ∀ name t x, l.fragments.find? name = some k → l.addFragment name t = (.ok x, l') →
      x = k ∧ l.Invalidated l' k := by
  have hl := h.regular
  refine ⟨fun t n hu => ?_, fun n hr => ?_, fun name t x hk ha => ?_⟩
  · have hedit := (Library.replaced_updateFragment hl.fragments k t).edits hu
    exact ⟨hedit.invalidated hl, hedit.count_eq⟩
  · have hedit := (Library.replaced_reloadFragment hl.fragments k).edits hr
    exact ⟨hedit.invalidated hl, hedit.count_eq⟩
  · obtain ⟨hx, n, hedit⟩ := (ha ▸ Library.added_addFragment hl.fragments name t).edits hk
    exact ⟨hx, hedit.invalidated hl⟩

def pairRun : Session DryRun := litRun.step (.loadShaderText "plain" plainSource)

/-- An update of the fragment answers that one shader has advanced. The other one has the same preview. -/
theorem invalidation_exact_pairRun :
    ∃ l', pairRun.library.updateFragment ⟨1, 1⟩ (skinSource "vec3") = (.ok 1, l') ∧ pairRun.library.advanced l' = 1 ∧
      (∃ s, pairRun.library.shader? ⟨1, 1⟩ = some s ∧ s.Reaches pairRun.library.fragments ⟨1, 1⟩ ∧
        (l'.shader? ⟨1, 1⟩).map Shader.generation = some s.generation.next) ∧
      (∃ s, pairRun.library.shader? ⟨2, 1⟩ = some s ∧ s.isLoaded = true ∧ l'.shader? ⟨2, 1⟩ = some s) ∧
        ∀ m, (l'.assembleStageSources ⟨2, 1⟩ "LIT" m).1 = (pairRun.library.assembleStageSources ⟨2, 1⟩ "LIT" m).1 := by
  have hreach : pairRun.library.Reachable :=
    .step (.run (.new default default) litOps) litRun.compiler (.loadShaderText "plain" plainSource)
  have hrun : (pairRun.library.updateFragment ⟨1, 1⟩ (skinSource "vec3")).1.toOption = some 1 ∧
      (∃ s ∈ pairRun.library.shader? ⟨1, 1⟩, s.dependsOn pairRun.library.fragments ⟨1, 1⟩ = true) ∧
        ∃ s ∈ pairRun.library.shader? ⟨2, 1⟩, s.isLoaded = true ∧
          s.dependsOn pairRun.library.fragments ⟨1, 1⟩ = false := by
    decide +kernel
  obtain ⟨hupdate, ⟨s, hs, hlit⟩, s', hs', hload, hplain⟩ := hrun
  cases hu : pairRun.library.updateFragment ⟨1, 1⟩ (skinSource "vec3") with
  | mk r l' =>
    rw [hu] at hupdate
    obtain rfl := toOption_eq_some_iff.1 hupdate
    obtain ⟨hexact, hcount⟩ := (invalidation_exact hreach ⟨1, 1⟩ l').1 (skinSource "vec3") 1 hu
    have hreaches := Shader.dependsOn_iff.1 hlit
    have hfree : ¬s'.Reaches pairRun.library.fragments ⟨1, 1⟩ := fun hr => by
      rw [Shader.dependsOn_iff.2 hr] at hplain
      cases hplain
    have hstays := hexact.stays ⟨2, 1⟩ s' hs' hfree
    refine ⟨l', rfl, hcount.symm, ⟨s, hs, hreaches, ?_⟩, ⟨s', hs', hload, hstays⟩,
      hexact.preview ⟨2, 1⟩ s' s' hs' hstays rfl "LIT"⟩
    rw [hexact.advances ⟨1, 1⟩ s hs hreaches]
    rfl

end ShaderVariant
