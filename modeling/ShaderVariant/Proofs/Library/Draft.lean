import ShaderVariant.Library.Shaders
import ShaderVariant.Proofs.Library.Supply

/-!
# Reading shaders with more fragments

Loading a shader under a new name reads it and its fragments, and then registers it.

* `Library.draft` : what is read before the shader is registered (`loadShader_of_new`);
* `Library.Grown` : a library with more fragments, which come from the sources. A draft makes it grow (`grown_draft`);
* `Grown.drafts` : the draft in a grown library is the one in the library before, up to the keys of fragments.
-/

namespace ShaderVariant

open FragmentStore (WellFormed Keeps)
open Inclusion (Behind Follows FromSource)

/-- The shader that is registered for what was read, or for the error of reading. -/
def Shader.ofDraft (name : String) : Except ShaderError (ShaderSource × List Fragment) → Shader
  | .error e => .failed name e.message
  | .ok (source, sections) => .ofSource name source sections

namespace Library

variable {l₀ l l' : Library} {name : String}

def draft (l : Library) (name : String) : Except ShaderError (ShaderSource × List Fragment) × Library :=
  match (l.readSource name).1 with
  | .error e => (.error e, (l.readSource name).2)
  | .ok t => (l.readSource name).2.buildShader name t

theorem loadShader_of_new (h : l.registered? name = none) :
    l.loadShader name =
      ((l.draft name).1.map fun _ => ((l.draft name).2.registerShader (.ofDraft name (l.draft name).1)).1,
        ((l.draft name).2.registerShader (.ofDraft name (l.draft name).1)).2) := by
  unfold loadShader draft loadNewShader registerFailed
  rw [h]
  rcases l.readSource name with ⟨e | t, l'⟩
  · rfl
  · simp only
    rcases l'.buildShader name t with ⟨e | ⟨source, sections⟩, l''⟩ <;> rfl

theorem loaded_draft (hl : WellFormed l.fragments) (name : String) : l.Loaded (l.draft name).2 := by
  have hread := (attempt_readSource hl name).loaded hl
  unfold draft
  split
  · exact hread
  · next t _ => exact hread.trans ((attempt_buildShader hread.wf name t).loaded hread.wf)

/-! ## Reading -/

/-- Only the count of readings changes. -/
theorem exists_readSource (l : Library) (name : String) :
    ∃ reads, (l.readSource name).2 = { l with loader := { l.loader with reads } } := by
  unfold readSource Loader.read
  cases l.loader.sources.get? name with
  | none => exact ⟨l.loader.reads, rfl⟩
  | some bytes =>
    refine ⟨l.loader.reads + 1, ?_⟩
    simp only
    cases decodeSource name bytes <;> rfl

theorem readSource_congr (hs : l'.loader.sources = l.loader.sources) (hf : l'.loader.fault = l.loader.fault)
    (name : String) : (l'.readSource name).1 = (l.readSource name).1 := by
  unfold readSource Loader.read
  rw [hs, hf]
  cases l.loader.sources.get? name with
  | none => rfl
  | some bytes =>
    simp only
    cases decodeSource name bytes <;> rfl

/-! ## Growing -/

/-- A library with the same sources and settings that keeps the fragments. Those that it has more come from the
sources. -/
structure Grown (l l' : Library) : Prop where
  settings : l'.settings = l.settings
  sources : l'.loader.sources = l.loader.sources
  fault : l'.loader.fault = l.loader.fault
  keeps : Keeps l.fragments l'.fragments
  wf : WellFormed l'.fragments
  content : ∀ n, l'.fragments.Has n → l.fragments.Has n ∨ FromSource l.loader.sources l'.fragments n

namespace Grown

theorem readSource (h : Grown l l') (name : String) : Grown (l.readSource name).2 (l'.readSource name).2 := by
  obtain ⟨reads, hread⟩ := l.exists_readSource name
  obtain ⟨reads', hread'⟩ := l'.exists_readSource name
  rw [hread, hread']
  exact ⟨h.settings, h.sources, h.fault, h.keeps, h.wf, h.content⟩

theorem refl (h : WellFormed l.fragments) : Grown l l := ⟨rfl, rfl, rfl, .refl _, h, fun _ => Or.inl⟩

theorem trans (h : Grown l₀ l) (h' : Grown l l') : Grown l₀ l' := by
  refine ⟨h'.settings.trans h.settings, h'.sources.trans h.sources, h'.fault.trans h.fault, h.keeps.trans h'.keeps,
    h'.wf, fun n hn => ?_⟩
  rcases h'.content n hn with hn | hfrom
  · exact (h.content n hn).imp_right fun hfrom => hfrom.keeps h'.keeps h.wf h'.wf.named
  · rw [h.sources] at hfrom
    exact Or.inr hfrom

theorem has (h : Grown l l') (hl : WellFormed l.fragments) {n : String} (hn : l.fragments.Has n) : l'.fragments.Has n :=
  h.keeps.has hl.named h.wf.named hn

/-- What a grown library has more can be supplied: the sources of its fragments include fragments that it has. -/
theorem behind (h : Grown l l') (hl : WellFormed l.fragments) :
    Behind l.loader.sources (.ofLibrary l) (.ofLibrary l') := by
  refine ⟨fun n => h.has hl, fun n hn => (h.content n hn).imp_right ?_⟩
  rintro ⟨bytes, scanned, hb, hscan, hc⟩
  refine ⟨bytes, scanned, hb, hscan, fun i hi => ?_⟩
  obtain ⟨k, f, hf, -, hcontent⟩ := h.wf.named.exists_of_content? hc
  have hincludes : l'.fragments.includedNames f.includes = scanned.includes.map fun i => (i.name, i.offset) :=
    congrArg Content.includes hcontent
  have hmem : (i.name, i.offset) ∈ l'.fragments.includedNames f.includes := hincludes ▸ List.mem_map_of_mem hi
  obtain ⟨j, hj, he⟩ := List.mem_map.1 hmem
  have hname : l'.fragments.displayName j.target = i.name := congrArg Prod.fst he
  rw [← hname]
  exact h.wf.named.has_displayName (h.wf.closed k f hf _ (List.mem_map_of_mem hj))

end Grown

/-! ## Drafts -/

theorem has_rollback {s : Inclusion} {new : List FragmentKey} (h : Inclusion.Grows (.ofLibrary l) s new)
    (hl : WellFormed l.fragments) (hw : WellFormed s.fragments) (n : String) :
    (s.rollback l).fragments.Has n ↔ l.fragments.Has n := by
  have hloaded := Loaded.rollback h hl hw
  refine ⟨fun hn => ?_, fun hn => hloaded.keeps.has hl.named hloaded.wf.named hn⟩
  have hback : Keeps (s.rollback l).fragments l.fragments := fun k f hf => (Inclusion.get?_rollback h k).symm.trans hf
  exact hback.has hloaded.wf.named hl.named hn

/-- Drafts with the same error, or with sections of the same content: that of the source. -/
inductive Drafts (s : FragmentStore) : Except ShaderError (ShaderSource × List Fragment) →
    Except ShaderError (ShaderSource × List Fragment) → Prop
  | failed (e : ShaderError) : Drafts s (.error e) (.error e)
  | done (source : ShaderSource) (fs₀ : List Fragment) {fs : List Fragment}
      (h : fs.map s.contentOf = source.sections.map fun c => c.source.content c.name .zero) :
      Drafts s (.ok (source, fs₀)) (.ok (source, fs))

/-- An outcome `p`, and what follows from it in a library `l'` with more fragments. -/
structure SameDraft (l' : Library) (p p' : Except ShaderError (ShaderSource × List Fragment) × Library) : Prop where
  drafts : Drafts p'.2.fragments p.1 p'.1
  names : ∀ n, p'.2.fragments.Has n ↔ p.2.fragments.Has n ∨ l'.fragments.Has n

theorem grown_buildShader (hl : WellFormed l.fragments) (name : String) (t : Text) :
    Grown l (l.buildShader name t).2 := by
  unfold buildShader
  split
  · exact .refl hl
  · next source hs =>
    have hscanned := ShaderSource.scanned_parse hs
    obtain ⟨hw, ⟨new, hg⟩, -, -⟩ := resolveSections_spec l name (.ofLibrary l) source.sections hl hscanned
    have hstocks := stocksSections_resolveSections l name (s := .ofLibrary l) hl hscanned
    split
    · next e s he =>
      rw [he] at hg hw
      have hloaded := Loaded.rollback hg hl hw
      exact ⟨rfl, rfl, rfl, hloaded.keeps, hloaded.wf, fun n hn => Or.inl ((has_rollback hg hl hw n).1 hn)⟩
    · next fs s he =>
      rw [he] at hg hw hstocks
      exact ⟨rfl, rfl, rfl, hg.keeps, hw, (hstocks fs rfl).content⟩

theorem grown_draft (hl : WellFormed l.fragments) (name : String) : Grown l (l.draft name).2 := by
  obtain ⟨reads, hread⟩ := l.exists_readSource name
  have hgrown : Grown l (l.readSource name).2 := by
    rw [hread]
    exact ⟨rfl, rfl, rfl, .refl _, hl, fun _ => Or.inl⟩
  unfold draft
  split
  · exact hgrown
  · next t _ => exact hgrown.trans (grown_buildShader hgrown.wf name t)

theorem Grown.builds (h : Grown l l') (hl : WellFormed l.fragments) (name : String) (t : Text) :
    SameDraft l' (l.buildShader name t) (l'.buildShader name t) := by
  have hhas : ∀ n, l'.fragments.Has n ↔ l.fragments.Has n ∨ l'.fragments.Has n :=
    fun n => ⟨Or.inr, fun hn => hn.elim (h.has hl) id⟩
  unfold buildShader
  cases hs : ShaderSource.parse name t with
  | error e => exact ⟨.failed _, hhas⟩
  | ok source =>
    have hscanned := ShaderSource.scanned_parse hs
    have hfollows := resolveSections_follows name h.sources h.fault (h.behind hl) hl h.wf hscanned
    obtain ⟨hw, ⟨new, hg⟩, -, -⟩ := resolveSections_spec l name (.ofLibrary l) source.sections hl hscanned
    obtain ⟨hw', ⟨new', hg'⟩, -, -⟩ := resolveSections_spec l' name (.ofLibrary l') source.sections h.wf hscanned
    have hstocks := stocksSections_resolveSections l' name (s := .ofLibrary l') h.wf hscanned
    simp only
    generalize l.resolveSections name (.ofLibrary l) source.sections = p at hfollows hg hw ⊢
    generalize l'.resolveSections name (.ofLibrary l') source.sections = p' at hfollows hg' hw' hstocks ⊢
    cases hfollows with
    | failed e s s' =>
      refine ⟨.failed e, fun n => ?_⟩
      rw [has_rollback hg' h.wf hw', has_rollback hg hl hw]
      exact hhas n
    | done fs fs' hn => exact ⟨.done source fs (hstocks fs' rfl).sections, hn⟩

/-- In a grown library a shader is read alike. -/
theorem Grown.drafts (h : Grown l l') (hl : WellFormed l.fragments) (name : String) :
    SameDraft l' (l.draft name) (l'.draft name) := by
  obtain ⟨reads, hread⟩ := l.exists_readSource name
  obtain ⟨reads', hread'⟩ := l'.exists_readSource name
  have hgrown := h.readSource name
  rw [hread, hread'] at hgrown
  unfold draft
  rw [readSource_congr h.sources h.fault, hread, hread']
  cases (l.readSource name).1 with
  | error e => exact ⟨.failed e, fun n => ⟨Or.inr, fun hn => hn.elim (h.has hl) id⟩⟩
  | ok t =>
    obtain ⟨hdrafts, hnames⟩ := hgrown.builds hl name t
    exact ⟨hdrafts, hnames⟩

end Library

end ShaderVariant
