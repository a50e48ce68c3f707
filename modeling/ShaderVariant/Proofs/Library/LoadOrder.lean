import ShaderVariant.Proofs.Library.Draft
import ShaderVariant.Proofs.Library.Preview
import ShaderVariant.Proofs.Library.Reachable

/-!
# The order of loading

Shaders that are loaded one after another share fragments: one finds what another has loaded, or loads again what was
rolled back. By name, it makes no difference who comes first.

* `Library.loadShaders` : loading one shader after another;
* `Library.Loads` : what there is then, said of the library before and of each shader on its own. One more shader keeps
  it (`Loads.load`), and so does a list (`Loads.loadShaders`);
* `Library.SameByName` : libraries that differ in keys only. Two orders lead to such (`load_order`).
-/

namespace ShaderVariant

open FragmentStore (WellFormed Keeps Matches SameIncludes)
open Inclusion (FromSource)

/-! ## Same content -/

theorem Inclusion.FromSource.content?_eq {sources : Assoc String Bytes} {s t : FragmentStore} {name : String}
    (h : FromSource sources s name) (h' : FromSource sources t name) : t.content? name = s.content? name := by
  obtain ⟨bytes, scanned, hb, hscan, hc⟩ := h
  obtain ⟨bytes', scanned', hb', hscan', hc'⟩ := h'
  cases hb.symm.trans hb'
  cases hscan.symm.trans hscan'
  rw [hc, hc']

namespace Shader

/-- Shaders that differ only in the keys of what their sections include. -/
structure SameContent (w : FragmentStore) (s : Shader) (w' : FragmentStore) (s' : Shader) : Prop where
  rest : s' = { s with sections := s'.sections }
  sections : s'.sections.map w'.contentOf = s.sections.map w.contentOf

theorem SameContent.declared {w w' : FragmentStore} {s s' : Shader} (h : SameContent w s w' s') :
    s'.name = s.name ∧ s'.diagnostic = s.diagnostic ∧ s'.vocabulary = s.vocabulary ∧ s'.contexts = s.contexts := by
  rw [h.rest]
  exact ⟨rfl, rfl, rfl, rfl⟩

/-- A shader has the same content in two tables that both keep what it includes. -/
theorem sameContent_of_keeps {w₀ w w' : FragmentStore} {s : Shader} (h : Keeps w₀ w) (h' : Keeps w₀ w')
    (hs : ∀ f ∈ s.sections, ∀ x ∈ f.targets, w₀.contains x = true) : SameContent w s w' s := by
  refine ⟨rfl, List.map_congr_left fun f hf => ?_⟩
  rw [h.contentOf (hs f hf), h'.contentOf (hs f hf)]

/-- Where the fragments match too, the text is the same. -/
theorem SameContent.sameText {w w' : Workspace} {s s' : Shader} (h : SameContent w.fragments s w'.fragments s')
    (ha : Matches w.fragments w'.fragments) (hset : w'.settings = w.settings) (hw : WellFormed w.fragments)
    (hw' : WellFormed w'.fragments) (hs : ∀ f ∈ s.sections, ∀ x ∈ f.targets, w.fragments.contains x = true)
    (hs' : ∀ f ∈ s'.sections, ∀ x ∈ f.targets, w'.fragments.contains x = true) : SameText w s w' s' := by
  obtain ⟨hname, -, hvocabulary, -⟩ := h.declared
  refine ⟨hname, hvocabulary, hset, fun i => ?_⟩
  have hat : (s'.sections[i]?).map w'.fragments.contentOf = (s.sections[i]?).map w.fragments.contentOf := by
    rw [← List.getElem?_map, ← List.getElem?_map, h.sections]
  unfold expandSection
  cases hf : s.sections[i]? with
  | none =>
    rw [hf] at hat
    rw [Option.map_eq_none_iff.1 hat, hname]
  | some f =>
    rw [hf] at hat
    obtain ⟨f', hf', hcontent⟩ := Option.map_eq_some_iff.1 hat
    rw [hf']
    have hi := SameIncludes.of_includedNames (List.forall_mem_map.1 (hs f (List.mem_of_getElem? hf)))
      (List.forall_mem_map.1 (hs' f' (List.mem_of_getElem? hf'))) (congrArg Content.includes hcontent)
    exact ha.assembleFragment_congr hw hw' (congrArg Content.text hcontent) hi

theorem name_ofDraft (name : String) (r : Except ShaderError (ShaderSource × List Fragment)) :
    (ofDraft name r).name = name := by
  cases r <;> rfl

end Shader

namespace Library

variable {l₀ l l' : Library} {m : String} {names names' : List String}

namespace Drafts

variable {s t : FragmentStore} {r₀ r r' : Except ShaderError (ShaderSource × List Fragment)}

theorem keeps (h : Drafts s r₀ r) (hk : Keeps s t) {name : String}
    (hs : ∀ f ∈ (Shader.ofDraft name r).sections, ∀ x ∈ f.targets, s.contains x = true) : Drafts t r₀ r := by
  cases h with
  | failed e => exact .failed e
  | done source fs₀ h =>
    refine .done source fs₀ (h ▸ List.map_congr_left fun f hf => ?_)
    exact hk.contentOf (hs f hf)

/-- Shaders of drafts that follow from one draft. -/
theorem sameContent (h : Drafts s r₀ r) (h' : Drafts t r₀ r') (name : String) :
    Shader.SameContent s (.ofDraft name r) t (.ofDraft name r') := by
  cases h with
  | failed e =>
    cases h' with
    | failed e => exact ⟨rfl, rfl⟩
  | done source fs₀ h =>
    cases h' with
    | done source fs₀ h' => exact ⟨rfl, h'.trans h.symm⟩

theorem forget (h : Drafts s r₀ r) : r.map (fun _ => ()) = r₀.map fun _ => () := by
  cases h <;> rfl

end Drafts

/-! ## One after another -/

def loadShaders (l : Library) : List String → List (String × Except ShaderError ShaderKey) × Library
  | [] => ([], l)
  | name :: names =>
    match l.loadShader name with
    | (r, l) =>
      match l.loadShaders names with
      | (rs, l) => ((name, r) :: rs, l)

def withoutKey (answer : String × Except ShaderError ShaderKey) : String × Except ShaderError Unit :=
  (answer.1, answer.2.map fun _ => ())

theorem Named.registered?_registerShader (h : l.Named) (s : Shader) (n : String) :
    (l.registerShader s).2.registered? n =
      if s.name = n then some ((l.registerShader s).1, s) else l.registered? n := by
  show ((Assoc.set l.names s.name (l.shaders.insert s).1).get? n).bind
    (fun k => ((l.shaders.insert s).2.get? k).map (k, ·)) = _
  rw [Assoc.get?_set]
  split
  · rw [Option.bind_some, SlotMap.get?_insert, if_pos rfl]
    rfl
  · refine Option.bind_congr fun k hk => ?_
    obtain ⟨t, ht, -⟩ := (h n k).1 hk
    have hne : (l.shaders.insert s).1 ≠ k := by
      rintro rfl
      rw [SlotMap.get?_insert_fst] at ht
      cases ht
    rw [SlotMap.get?_insert, if_neg hne]
    rfl

/-- What there is after shaders with certain names were loaded. The fragments are those that were there, and those that
each of the shaders brings on its own; a shader is what it is on its own. -/
structure Loads (l₀ : Library) (names : List String) (l : Library) : Prop where
  reachable : l.Reachable
  grown : Grown l₀ l
  fragments : ∀ n, l.fragments.Has n ↔ l₀.fragments.Has n ∨ ∃ m ∈ names, (l₀.draft m).2.fragments.Has n
  loaded : ∀ m ∈ names, ∃ k r, l.registered? m = some (k, .ofDraft m r) ∧ Drafts l.fragments (l₀.draft m).1 r
  others : ∀ m, m ∉ names → l.registered? m = l₀.registered? m

theorem loads_nil (h : l.Reachable) : Loads l [] l :=
  ⟨h, .refl h.regular.fragments, fun n => by simp, fun _ hm => absurd hm List.not_mem_nil, fun _ _ => rfl⟩

theorem Reachable.loadShader (h : l.Reachable) (name : String) : (l.loadShader name).2.Reachable :=
  h.step DryRun.empty (.loadShader name)

theorem Loads.load (h : Loads l₀ names l) (hl : WellFormed l₀.fragments) (hm : m ∉ names)
    (hnew : l₀.registered? m = none) :
    Loads l₀ (m :: names) (l.loadShader m).2 ∧
      (l.loadShader m).1.map (fun _ => ()) = (l₀.draft m).1.map fun _ => () := by
  -- The draft in `l` is that in `l₀` up to keys; registering its shader leaves the fragments.
  have hfree : l.registered? m = none := (h.others m hm).trans hnew
  have hreachable := h.reachable.loadShader m
  have hloaded := loaded_draft h.grown.wf m
  have hgrown := h.grown.trans (grown_draft h.grown.wf m)
  obtain ⟨hdrafts, hnames⟩ := h.grown.drafts hl m
  rw [loadShader_of_new hfree] at hreachable ⊢
  have hnamed : (l.draft m).2.Named := by
    unfold Named
    rw [hloaded.shaders, hloaded.names]
    exact h.reachable.named
  have hregistered := hnamed.registered?_registerShader (.ofDraft m (l.draft m).1)
  simp only [Shader.name_ofDraft, Session.registered?_loaded hloaded] at hregistered
  refine ⟨⟨hreachable, ⟨hgrown.settings, hgrown.sources, hgrown.fault, hgrown.keeps, hgrown.wf, hgrown.content⟩,
    fun n => ?_, fun n hn => ?_, fun n hn => ?_⟩, ?_⟩
  · refine (hnames n).trans ?_
    rw [h.fragments n]
    simp only [List.exists_mem_cons_iff]
    exact or_left_comm
  · rcases List.mem_cons.1 hn with rfl | hn
    · exact ⟨_, _, (hregistered n).trans (if_pos rfl), hdrafts⟩
    · obtain ⟨k, r, hr, hd⟩ := h.loaded n hn
      have hne : m ≠ n := fun he => hm (he ▸ hn)
      have hresolves := (h.reachable.regular.shaders k _ (Session.registered?_eq hr)).resolves
      exact ⟨k, r, ((hregistered n).trans (if_neg hne)).trans hr,
        hd.keeps hloaded.keeps fun f hf => (hresolves f hf).stored⟩
  · rw [List.mem_cons, not_or] at hn
    rw [hregistered n, if_neg (Ne.symm hn.1), h.others n hn.2]
  · rw [← hdrafts.forget]
    cases (l.draft m).1 <;> rfl

theorem Loads.loadShaders {done : List String} (h : Loads l₀ done l) (hl : WellFormed l₀.fragments)
    (hd : names.Nodup) (hnew : ∀ m ∈ names, m ∉ done ∧ l₀.registered? m = none) :
    Loads l₀ (names.reverse ++ done) (l.loadShaders names).2 ∧
      (l.loadShaders names).1.map withoutKey = names.map fun m => (m, (l₀.draft m).1.map fun _ => ()) := by
  induction names generalizing done l with
  | nil => exact ⟨h, rfl⟩
  | cons m names ih =>
    obtain ⟨hm, hd⟩ := List.nodup_cons.1 hd
    obtain ⟨hdone, hfree⟩ := hnew m List.mem_cons_self
    obtain ⟨hload, hanswer⟩ := h.load hl hdone hfree
    obtain ⟨hrest, hanswers⟩ := ih hload hd fun n hn =>
      ⟨fun hin => (List.mem_cons.1 hin).elim (fun he => hm (he ▸ hn)) (hnew n (List.mem_cons_of_mem m hn)).1,
        (hnew n (List.mem_cons_of_mem m hn)).2⟩
    rw [List.reverse_cons, List.append_assoc]
    refine ⟨hrest, ?_⟩
    rw [List.map_cons, ← hanswer, ← hanswers]
    rfl

/-! ## Libraries by name -/

/-- Libraries with the same fragments and shaders by name: what the fragments are, which shaders are loaded and why
others are not, what there is of a shader, and its source preview. -/
structure SameByName (l l' : Library) : Prop where
  fragments : ∀ name, l'.fragments.content? name = l.fragments.content? name
  status : ∀ name, (l'.registered? name).map (·.2.diagnostic) = (l.registered? name).map (·.2.diagnostic)
  shaders : ∀ name k s k' s', l.registered? name = some (k, s) → l'.registered? name = some (k', s') →
    Shader.SameContent l.fragments s l'.fragments s'
  preview : ∀ name k s k' s', l.registered? name = some (k, s) → l'.registered? name = some (k', s') →
    ∀ context mask, (l'.assembleStageSources k' context mask).1 = (l.assembleStageSources k context mask).1

namespace Loads

theorem matching (h : Loads l₀ names l) (h' : Loads l₀ names' l') (hl : WellFormed l₀.fragments)
    (hm : ∀ m, m ∈ names' ↔ m ∈ names) : Matches l.fragments l'.fragments := by
  intro n
  have hhas : l'.fragments.Has n ↔ l.fragments.Has n := by
    rw [h.fragments, h'.fragments]
    simp only [hm]
  by_cases hn : l.fragments.Has n
  · by_cases hold : l₀.fragments.Has n
    · rw [h.grown.keeps.content? hl h.grown.wf.named hold, h'.grown.keeps.content? hl h'.grown.wf.named hold]
    · have hfrom := (h.grown.content n hn).resolve_left hold
      have hfrom' := (h'.grown.content n (hhas.2 hn)).resolve_left hold
      exact hfrom.content?_eq hfrom'
  · rw [FragmentStore.content?_eq_none hn, FragmentStore.content?_eq_none (mt hhas.1 hn)]

theorem sameContent (h : Loads l₀ names l) (h' : Loads l₀ names' l') (hl : l₀.Regular)
    (hm : ∀ m, m ∈ names' ↔ m ∈ names) (m : String) :
    (l.registered? m = none ∧ l'.registered? m = none) ∨
      ∃ k s k' s', l.registered? m = some (k, s) ∧ l'.registered? m = some (k', s') ∧
        Shader.SameContent l.fragments s l'.fragments s' := by
  by_cases hin : m ∈ names
  · obtain ⟨k, r, hr, hd⟩ := h.loaded m hin
    obtain ⟨k', r', hr', hd'⟩ := h'.loaded m ((hm m).2 hin)
    exact Or.inr ⟨k, _, k', _, hr, hr', hd.sameContent hd' m⟩
  · rw [h.others m hin, h'.others m (mt (hm m).1 hin)]
    cases hr : l₀.registered? m with
    | none => exact Or.inl ⟨rfl, rfl⟩
    | some p =>
      obtain ⟨k, s⟩ := p
      have hresolves := (hl.shaders k s (Session.registered?_eq hr)).resolves
      exact Or.inr ⟨k, s, k, s, rfl, rfl,
        Shader.sameContent_of_keeps h.grown.keeps h'.grown.keeps fun f hf => (hresolves f hf).stored⟩

theorem sameByName (h : Loads l₀ names l) (h' : Loads l₀ names' l') (hl : l₀.Regular)
    (hm : ∀ m, m ∈ names' ↔ m ∈ names) : SameByName l l' := by
  have hmatches := h.matching h' hl.fragments hm
  have hshaders : ∀ n k s k' s', l.registered? n = some (k, s) → l'.registered? n = some (k', s') →
      Shader.SameContent l.fragments s l'.fragments s' := by
    intro n k s k' s' hs hs'
    rcases h.sameContent h' hl hm n with ⟨hr, -⟩ | ⟨x, t, x', t', hr, hr', hsame⟩
    · cases hr.symm.trans hs
    · cases hr.symm.trans hs
      cases hr'.symm.trans hs'
      exact hsame
  refine ⟨hmatches, fun n => ?_, hshaders, fun n k s k' s' hs hs' context mask => ?_⟩
  · rcases h.sameContent h' hl hm n with ⟨hr, hr'⟩ | ⟨k, s, k', s', hr, hr', hsame⟩
    · rw [hr, hr']
    · obtain ⟨-, hdiagnostic, -⟩ := hsame.declared
      rw [hr, hr', Option.map_some, Option.map_some, hdiagnostic]
  · have hsame := hshaders n k s k' s' hs hs'
    have hshader := Session.registered?_eq hs
    have hshader' := Session.registered?_eq hs'
    have hreg := h.reachable.regular.shaders k s hshader
    have hreg' := h'.reachable.regular.shaders k' s' hshader'
    have htext : Shader.SameText l.workspace s l'.workspace s' :=
      hsame.sameText hmatches (h'.grown.settings.trans h.grown.settings.symm) h.grown.wf h'.grown.wf
        (fun f hf => (hreg.resolves f hf).stored) fun f hf => (hreg'.resolves f hf).stored
    obtain ⟨-, hdiagnostic, -, hcontexts⟩ := hsame.declared
    exact assembleStageSources_congr hshader hshader' hreg.remembers hreg'.remembers htext hdiagnostic
      (congrArg (List.map Context.decl) hcontexts) context mask

end Loads

end Library

open Library in
/-- In every reachable library, when shaders with different new names are loaded one after another, the order makes no
difference but for keys. The answers are the same, with the same errors; every name is registered, loaded or with the
same reason; the fragments have the same content by name; and every shader has the same source preview, in every
context and for every mask. -/
theorem load_order {l : Library} (hl : l.Reachable) {names names' : List String} (hp : names'.Perm names)
    (hd : names.Nodup) (hnew : ∀ name ∈ names, l.findShader? name = none) :
    (l.loadShaders names).2.SameByName (l.loadShaders names').2 ∧
      (∀ name ∈ names, ∃ k s, (l.loadShaders names).2.registered? name = some (k, s)) ∧
        ((l.loadShaders names').1.map withoutKey).Perm ((l.loadShaders names).1.map withoutKey) := by
  have hfree : ∀ ms : List String, (∀ m ∈ ms, m ∈ names) → ∀ m ∈ ms, m ∉ [] ∧ l.registered? m = none :=
    fun ms hms m hm => ⟨List.not_mem_nil, (hl.named.registered?_eq_none_iff m).2 (hnew m (hms m hm))⟩
  obtain ⟨hloads, hanswers⟩ := (loads_nil hl).loadShaders hl.regular.fragments hd (hfree names fun _ => id)
  obtain ⟨hloads', hanswers'⟩ :=
    (loads_nil hl).loadShaders hl.regular.fragments (hp.nodup_iff.2 hd) (hfree names' fun _ => hp.mem_iff.1)
  refine ⟨hloads.sameByName hloads' hl.regular fun m => ?_, fun m hm => ?_, ?_⟩
  · simp only [List.append_nil, List.mem_reverse, hp.mem_iff]
  · obtain ⟨k, r, hr, -⟩ := hloads.loaded m (by simpa using hm)
    exact ⟨k, _, hr⟩
  · rw [hanswers, hanswers']
    exact hp.map _

def twiceIncluding (first second : String) : Bytes :=
  Utf8.encode (litText ["[[VS]]\n", "#include \"", first, "\"\n", "#include \"", second, "\"\n", "void main() {}\n",
    "[[FS]]\n", "void main() {}\n"])

/-- The library after a short run, over three shaders that share a source. One of them includes a source that is not
there. -/
def grainLibrary : Library :=
  { litRun.library with
    loader := .ofSources
      [("wood", twiceIncluding "grain" "skin"), ("glass", twiceIncluding "grain" "none"),
        ("stone", twiceIncluding "noise" "grain"), ("grain", Utf8.encode "#include \"noise\"\n".toList),
        ("noise", Utf8.encode "float noise;\n".toList)] }

/-- The shader that fails comes second or first. By name both orders give the same, but the shared source has another
key: in the second order it is rolled back and loaded again. -/
theorem load_order_grainLibrary :
    (grainLibrary.loadShaders ["wood", "glass", "stone"]).2.SameByName
        (grainLibrary.loadShaders ["glass", "stone", "wood"]).2 ∧
      (grainLibrary.loadShaders ["wood", "glass", "stone"]).2.fragments.find? "grain" ≠
        (grainLibrary.loadShaders ["glass", "stone", "wood"]).2.fragments.find? "grain" := by
  have hreach : grainLibrary.Reachable :=
    .step (.run (.new default default) litOps) litRun.compiler (.setLoader grainLibrary.loader)
  have hrun : (∀ name ∈ ["wood", "glass", "stone"], grainLibrary.findShader? name = none) ∧
      (grainLibrary.loadShaders ["wood", "glass", "stone"]).2.fragments.find? "grain" ≠
        (grainLibrary.loadShaders ["glass", "stone", "wood"]).2.fragments.find? "grain" := by
    decide +kernel
  obtain ⟨hnew, hkeys⟩ := hrun
  have hperm : ["glass", "stone", "wood"].Perm ["wood", "glass", "stone"] := by decide
  obtain ⟨hsame, -, -⟩ := load_order hreach hperm (by decide) hnew
  exact ⟨hsame, hkeys⟩

end ShaderVariant
