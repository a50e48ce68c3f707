import ShaderVariant.Proofs.Library.Eager
import ShaderVariant.Proofs.Library.Isolation
import ShaderVariant.Proofs.Library.Preview
import ShaderVariant.Proofs.Library.Recall
import ShaderVariant.Proofs.Shader.Renewal

/-!
# Reloading the same text

A shader that is given the text again that it was given last becomes what it was, with nothing built but what was asked
for.

* `Inclusion.resolve_stored`, `Library.resolveSections_stored` : what is stored under the names of includes is what they
  resolve to, and nothing is read;
* `Library.buildShader_of_profile` : so a text gives the sections that a shader made of it has, whatever has become of the
  fragments since;
* `Library.reloadShaderText_of_profile` : reloading renews the shader with its own sections;
* `reload_idempotent` : the main statement.
-/

namespace ShaderVariant

open FragmentStore (WellFormed Named)

/-! ## Sections and what they were scanned from -/

namespace FragmentStore

variable {s : FragmentStore}

/-- Includes are determined by their names, offsets and targets. -/
theorem eq_zipWith_of_includedNames {is : List Include} {ps : List PendingInclude}
    (h : s.includedNames is = ps.map fun i => (i.name, i.offset)) :
    (is.map (·.target)).map s.displayName = ps.map (·.name) ∧
      is = List.zipWith (fun (i : PendingInclude) k => ⟨k, i.offset⟩) ps (is.map (·.target)) := by
  induction is generalizing ps with
  | nil =>
    obtain rfl := List.map_eq_nil_iff.1 h.symm
    exact ⟨rfl, rfl⟩
  | cons i is ih =>
    obtain ⟨p, ps, rfl, hp, hps⟩ := List.map_eq_cons_iff.1 h.symm
    obtain ⟨hname, hoffset⟩ := Prod.mk.inj hp
    obtain ⟨hnames, his⟩ := ih hps.symm
    refine ⟨?_, ?_⟩
    · rw [List.map_cons, List.map_cons, List.map_cons, hnames, hname]
    · rw [List.map_cons, List.zipWith_cons_cons, hoffset, ← his]

/-- A section with the content of a scanned source is that of the source, with some targets. -/
theorem eq_ofScanned {f : Fragment} {scanned : Scanned} {name : String}
    (h : s.contentOf f = scanned.content name .zero) :
    f.targets.map s.displayName = scanned.includes.map (·.name) ∧ f = .ofScanned name scanned f.targets := by
  obtain ⟨hnames, hincludes⟩ := eq_zipWith_of_includedNames (congrArg Content.includes h)
  refine ⟨hnames, ?_⟩
  obtain ⟨fname, text, includes, flagRefs, version⟩ := f
  obtain rfl : fname = name := congrArg Content.name h
  obtain rfl : text = scanned.text := congrArg Content.text h
  obtain rfl : flagRefs = scanned.flagRefs := congrArg Content.flagRefs h
  obtain rfl : version = .zero := congrArg Content.version h
  exact congrArg (fun is => (⟨fname, scanned.text, is, scanned.flagRefs, .zero⟩ : Fragment)) hincludes

end FragmentStore

/-! ## Resolving again -/

/-- Names that are stored resolve to what is stored under them. -/
theorem Inclusion.resolve_stored (fault : String → IoError) (sources : Assoc String Bytes) (owner : String)
    {s : Inclusion} (hn : Named s.fragments) {includes : List PendingInclude} {ks : List FragmentKey}
    (hks : ∀ k ∈ ks, s.fragments.contains k = true)
    (hnames : ks.map s.fragments.displayName = includes.map (·.name)) :
    s.resolve fault sources owner includes = (.ok ks, s) := by
  induction includes generalizing ks with
  | nil =>
    obtain rfl := List.map_eq_nil_iff.1 hnames
    rw [resolve]
  | cons i more ih =>
    obtain ⟨k, ks, rfl, hk, hrest⟩ := List.map_eq_cons_iff.1 hnames
    obtain ⟨f, hf⟩ := FragmentStore.contains_iff.1 (hks k List.mem_cons_self)
    have hname : f.name = i.name := (FragmentStore.displayName_of_get? hf).symm.trans hk
    have hfind : s.fragments.find? i.name = some k := by
      rw [← hname]
      exact hn.find?_of_get? hf
    rw [resolve_cons, hfind]
    simp only
    rw [ih (fun x hx => hks x (List.mem_cons_of_mem k hx)) hrest]
    rfl

namespace Library

variable {l : Library}

theorem resolveSections_stored (l : Library) (owner : String) {s : Inclusion} (hn : FragmentStore.Named s.fragments)
    {sections : List CodeSection} {fs : List Fragment}
    (hfs : ∀ f ∈ fs, ∀ x ∈ f.targets, s.fragments.contains x = true)
    (h : fs.map s.fragments.contentOf = sections.map fun c => c.source.content c.name .zero) :
    l.resolveSections owner s sections = (.ok fs, s) := by
  induction sections generalizing fs with
  | nil =>
    obtain rfl := List.map_eq_nil_iff.1 h
    rfl
  | cons c cs ih =>
    obtain ⟨f, fs, rfl, hf, hrest⟩ := List.map_eq_cons_iff.1 h
    obtain ⟨hnames, hscanned⟩ := FragmentStore.eq_ofScanned hf
    rw [resolveSections_cons, Inclusion.resolve_stored _ _ owner hn (hfs f List.mem_cons_self) hnames]
    simp only
    rw [ih (fun g hg => hfs g (List.mem_cons_of_mem f hg)) hrest, ← hscanned]
    rfl

/-- A text gives the sections that a shader made of it has. Nothing is read, whatever the loader is. -/
theorem buildShader_of_profile (hl : l.Regular) {k : ShaderKey} {s : Shader} (hs : l.shader? k = some s) {t : Text}
    {source : ShaderSource} (hparse : ShaderSource.parse s.name t = .ok source)
    (hp : s.profile l.fragments = source.profile s.name) (loader : Loader) :
    ({ l with loader } : Library).buildShader s.name t = (.ok (source, s.sections), { l with loader }) := by
  have hstored := fun f hf => ((hl.shaders k s hs).resolves f hf).stored
  unfold buildShader
  rw [hparse]
  simp only
  rw [resolveSections_stored { l with loader } s.name (s := .ofLibrary { l with loader }) hl.fragments.named hstored
    (congrArg Profile.sections hp)]
  rfl

/-- So reloading the text renews the shader. -/
theorem reloadShaderText_of_profile {σ : Type} [ProgramCompiler σ] (hl : l.Regular) {k : ShaderKey} {s : Shader}
    (hs : l.shader? k = some s) {t : Text} {source : ShaderSource}
    (hparse : ShaderSource.parse s.name t = .ok source) (hp : s.profile l.fragments = source.profile s.name)
    (loader : Loader) (c : σ) :
    ({ l with loader } : Library).reloadShaderText k t c =
      (.ok (s.renew source s.sections l.workspace c).1,
        ({ l with loader } : Library).setShader k (s.renew source s.sections l.workspace c).2.1,
        (s.renew source s.sections l.workspace c).2.2) := by
  have hs' : ({ l with loader } : Library).shader? k = some s := hs
  unfold reloadShaderText
  simp only [hs', buildShader_of_profile hl hs hparse hp loader]
  unfold Shader.renew
  cases s.ready <;> rfl

end Library

/-! ## The same shader again -/

/-- The shader `s'` is what `s` is, in the next generation. The default values of its uniforms are those of the source
again. -/
structure Shader.Restored (source : ShaderSource) (s s' : Shader) : Prop where
  name : s'.name = s.name
  loaded : s'.isLoaded = true
  vocabulary : s'.vocabulary = s.vocabulary
  contexts : s'.contexts.map Context.decl = s.contexts.map Context.decl
  sections : s'.sections = s.sections
  samplers : s'.samplers = s.samplers
  uniforms : s'.uniforms = source.uniforms
  signatures : s'.uniforms.map Uniform.signature = s.uniforms.map Uniform.signature
  buffers : s'.buffers = s.buffers
  preLoad : s'.preLoad = s.preLoad
  generation : s'.generation = s.generation.next
  ready : s'.ready = s.ready

/-- A renewed shader is restored if its content is that of the source. -/
theorem Shader.Renewed.restored {w : Workspace} {s s' : Shader} {source : ShaderSource}
    (h : Renewed w (s.apply source s.sections) s') (hp : s.profile w.fragments = source.profile s.name)
    (hready : s'.ready = s.ready) : Restored source s s' := by
  have hvocabulary : s.vocabulary = source.vocabulary := congrArg Profile.vocabulary hp
  have hdecls : (s.apply source s.sections).contexts.map Context.decl = s.contexts.map Context.decl := by
    refine Eq.trans ?_ (congrArg Profile.contexts hp).symm
    show (source.contexts.map Context.ofDecl).map Context.decl = source.contexts
    rw [List.map_map]
    exact List.map_id _
  refine ⟨h.name, h.isLoaded, h.vocabulary.trans hvocabulary.symm, h.decls.trans hdecls, h.sections,
    h.samplers.trans (congrArg Profile.samplers hp).symm, h.uniforms, ?_, h.buffers.trans (congrArg Profile.buffers hp).symm,
    ?_, h.generation, hready⟩
  · rw [h.uniforms]
    exact (congrArg Profile.uniforms hp).symm
  · refine h.preLoad.trans (if_pos ?_)
    rw [hvocabulary]
    exact beq_self_eq_true _

open Session in
/-- In every library that operations lead to, with any compiler, take a loaded shader and the text that it was given last,
by whichever way. Reloading that text succeeds with every loader and reads nothing: the library is the same but for the
shader. The shader is what it was, with the same sections, the same fragments included in them, and the masks that were
asked for, and its stage sources are the same for every context and mask. Its generation is the next one. All programs
that it had are released first, in some order, after which there are only compilations. If it was ready it is ready
again, with just the combinations of the masks that were asked for, all of the new generation; otherwise it has none. -/
theorem reload_idempotent {σ : Type} [ProgramCompiler σ] {x : Session σ} {k : ShaderKey} {last : Option Text}
    (hx : x.library.Recalls k last) {s : Shader} (hs : x.library.shader? k = some s) (hload : s.isLoaded = true) :
    ∃ t source report s' compiles releases, last = some t ∧ ShaderSource.parse s.name t = .ok source ∧
      s.profile x.library.fragments = source.profile s.name ∧
      x.answer (.reloadShaderText k t) = .built (.ok report) ∧
      (x.step (.reloadShaderText k t)).library = x.library.setShader k s' ∧
      (∀ loader, ({ x.library with loader } : Library).reloadShaderText k t x.compiler =
        (.ok report, ({ x.library with loader } : Library).setShader k s', (x.step (.reloadShaderText k t)).compiler)) ∧
      Shader.Restored source s s' ∧
      (∀ context m, ((x.step (.reloadShaderText k t)).library.assembleStageSources k context m).1 =
        (x.library.assembleStageSources k context m).1) ∧
      x.calls [.reloadShaderText k t] = compiles ++ releases ∧ releases.Perm (s.programs.map .release) ∧
      (∀ call ∈ compiles, ∃ q r, call = .compile q r) ∧
      ∀ (i : Nat) (ctx : Context), s'.contexts[i]? = some ctx → ∀ key,
        ((∃ b, ctx.combination? key = some b) ↔
          s.ready = true ∧ ∃ m ∈ s.preLoad, (s'.combinationKey x.library.workspace i m).1 = key) ∧
        ∀ b, ctx.combination? key = some b → b.stamp = s'.generation := by
  have hreg := hx.reachable.regular
  obtain ⟨t, rfl, name, source, hparse, hmade⟩ := hx.madeOf (Library.profile?_of_shader hs hload)
  have hp : s.profile x.library.fragments = source.profile name :=
    Option.some.inj ((Library.profile?_of_shader hs hload).symm.trans hmade)
  obtain rfl : s.name = name := congrArg Profile.name hp
  obtain ⟨report, s', c', compiles, releases, hrenew, htraced, hperm, hcompiles, hready, hrenewed⟩ :=
    s.renew_spec source s.sections x.library.workspace x.compiler
  have hreload (loader : Loader) := Library.reloadShaderText_of_profile hreg hs hparse hp loader x.compiler
  rw [hrenew] at hreload
  have hcalls := Library.reloadShaderText_of_profile hreg hs hparse hp x.library.loader (⟨x.compiler, []⟩ : Traced σ)
  rw [htraced] at hcalls
  have hstep := hreload x.library.loader
  have hrestored := hrenewed.restored hp hready
  have hlib : (x.step (.reloadShaderText k t)).library = x.library.setShader k s' := congrArg (fun p => p.2.1) hstep
  have hcompiler : (x.step (.reloadShaderText k t)).compiler = c' := congrArg (fun p => p.2.2) hstep
  have hanswer : x.answer (.reloadShaderText k t) = .built (.ok report) :=
    congrArg Answer.built (congrArg (fun p => p.1) hstep)
  have hdiagnostic : s'.diagnostic = s.diagnostic :=
    (Option.isNone_iff_eq_none.1 hrestored.loaded).trans (Option.isNone_iff_eq_none.1 hload).symm
  refine ⟨t, source, report, s', compiles, releases, rfl, hparse, hp, hanswer, hlib,
    fun loader => (hreload loader).trans (by rw [hcompiler]), hrestored, fun context m => ?_,
    congrArg (fun p => p.2.2.calls) hcalls, hperm, hcompiles, fun i ctx hctx key => ⟨?_, fun b hb => ?_⟩⟩
  · rw [hlib]
    exact Library.assembleStageSources_congr hs (Library.shader?_setShader_self hs s') (hreg.shaders k s hs).remembers
      hrenewed.remembers (Shader.sameText_of_eq _ hrestored.name hrestored.vocabulary hrestored.sections)
      hdiagnostic hrestored.contexts context m
  · have hkept := hrenewed.kept i key
    rw [Shader.kept?_of_context hctx, Option.isSome_iff_exists, hready, hrestored.preLoad] at hkept
    have hi : i < s'.contexts.length := (List.getElem?_eq_some_iff.1 hctx).1
    exact hkept.trans (and_congr_right fun _ => and_iff_right hi)
  · exact hrenewed.stamped i key b ((Shader.kept?_of_context hctx key).trans hb)

/-- Two masks of the loaded shader are asked for and compiled, the fragment changes, and a third mask is looked up. -/
def editedOps : List Operation :=
  [.preLoadMask ⟨1, 1⟩ 0, .preLoadMask ⟨1, 1⟩ 1, .compileContexts ⟨1, 1⟩, litEdit, .getCombination ⟨1, 1⟩ "LIT" 2]

def editedRun : Session DryRun := litStart.run editedOps

open Session in
/-- Neither the change of the fragment nor what is asked for brings another text. -/
theorem recalls_editedRun : editedRun.library.Recalls ⟨1, 1⟩ (some litSource) := by
  let x : Session DryRun := (Session.start default default .empty).step (.addFragment "skin" (skinSource "vec4"))
  have hadded : x.library.Recalls ⟨1, 1⟩ none := (Library.Recalls.new default default).other _ fun _ h => nomatch h
  have hload : (x.library.registered? "lit").isNone = true ∧
      (x.library.loadShaderText "lit" litSource).1.toOption = some ⟨1, 1⟩ := by
    decide +kernel
  have hloaded : (x.step (.loadShaderText "lit" litSource)).library.Recalls ⟨1, 1⟩ (some litSource) := by
    refine hadded.brings _ (.loadText (fun y s hr => ?_) (congrArg Answer.shader (toOption_eq_some_iff.1 hload.2)))
    cases (Option.isNone_iff_eq_none.1 hload.1).symm.trans hr
  have hedited : editedRun = (x.step (.loadShaderText "lit" litSource)).run (.getCombination ⟨1, 1⟩ "LIT" 1 :: editedOps) := by
    simp only [editedRun, litStart, litOps, List.take_succ_cons, List.take_zero, run_cons, run_nil, x]
  rw [hedited]
  refine Library.Recalls.run hloaded _ fun op hop y t hb => ?_
  cases hb <;> simp [editedOps, litEdit] at hop

open Session in
/-- The text is reloaded. The three programs are given back, and just the masks that were asked for are compiled again, in
the next generation. -/
theorem reload_idempotent_editedRun :
    editedRun.library.Recalls ⟨1, 1⟩ (some litSource) ∧
    ∃ s s' source report, editedRun.library.shader? ⟨1, 1⟩ = some s ∧ s.isLoaded = true ∧ s.ready = true ∧
      ShaderSource.parse s.name litSource = .ok source ∧
      editedRun.answer (.reloadShaderText ⟨1, 1⟩ litSource) = .built (.ok report) ∧
      (editedRun.step (.reloadShaderText ⟨1, 1⟩ litSource)).library = editedRun.library.setShader ⟨1, 1⟩ s' ∧
      Shader.Restored source s s' ∧ s'.generation = ⟨3⟩ ∧
      (∀ p ∈ s.programs, .release p ∈ editedRun.calls [.reloadShaderText ⟨1, 1⟩ litSource]) ∧ s.programs.length = 3 ∧
      ∃ ctx, s'.contexts[0]? = some ctx ∧ ∀ key, (∃ b, ctx.combination? key = some b) ↔ key = 0 ∨ key = 1 := by
  have hrun : (editedRun.library.shader? ⟨1, 1⟩).any (fun s =>
      s.isLoaded && s.ready && s.preLoad == [0, 1] && s.generation == ⟨2⟩ && s.programs.length == 3 &&
        s.contexts.length == 2) ∧
      editedRun.library.workspace.settings.maskUnusedFlags = false := by
    decide +kernel
  obtain ⟨hshader, hsettings⟩ := hrun
  obtain ⟨s, hs, h⟩ := (Option.any_eq_true _ _).1 hshader
  simp only [Bool.and_eq_true, beq_iff_eq] at h
  obtain ⟨⟨⟨⟨⟨hloadable, hready⟩, hpreLoad⟩, hgeneration⟩, hprograms⟩, htwo⟩ := h
  obtain ⟨t, source, report, s', compiles, releases, ht, hparse, -, hanswer, hlib, -, hrestored, -, hcalls, hperm, -,
    hkept⟩ :=
    reload_idempotent recalls_editedRun hs hloadable
  cases ht
  have hlength := congrArg List.length hrestored.contexts
  rw [List.length_map, List.length_map, htwo] at hlength
  have hctx : s'.contexts[0]? = some (s'.contexts.get ⟨0, by omega⟩) := List.getElem?_eq_getElem _
  refine ⟨recalls_editedRun, s, s', source, report, hs, hloadable, hready, hparse, hanswer, hlib, hrestored, ?_,
    fun p hp => ?_, hprograms, _, hctx, fun key => ?_⟩
  · rw [hrestored.generation, hgeneration]
    rfl
  · rw [hcalls]
    exact List.mem_append_right _ (hperm.mem_iff.2 (List.mem_map_of_mem hp))
  · have hkey (m : Mask) : (s'.combinationKey editedRun.library.workspace 0 m).1 = m := by
      rw [Shader.combinationKey_fst, hsettings, if_neg Bool.false_ne_true]
    rw [(hkept 0 _ hctx key).1, and_iff_right hready, hpreLoad]
    simp only [hkey, exists_eq_right, List.mem_cons, List.not_mem_nil, or_false]

end ShaderVariant
