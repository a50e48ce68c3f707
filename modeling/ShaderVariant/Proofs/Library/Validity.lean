import ShaderVariant.Proofs.Declaration.WellFormed
import ShaderVariant.Proofs.Library.Avoids

/-!
# Validity of contexts

The contexts of a shader in a library are those of a text that was parsed, and so are the names of its sections. So what
a parsed source is like holds of them too, and builds need not look for contexts that are not valid.

* `ShaderError.IsInvalidContext` : stages form no program, or one of them is bound to a missing section;
* `Shader.OfText` : a text declares the contexts and names the sections of a shader, if it has contexts at all. All steps
  keep that (`Reachable.ofText`);
* `Shader.OfText.plansAvoid` : the plans of such a shader avoid invalid contexts, with whatever fragments and settings;
* `parsed_wellFormed` : parsed sources are well-formed, and no build, no combination and no answer of a reachable library
  tells of an invalid context.
-/

namespace ShaderVariant

/-- The stages of a context form no program, or one of them is bound to a missing section. -/
def ShaderError.IsInvalidContext (e : ShaderError) : Prop :=
  ∃ shader context cause, e = .invalidContext shader context cause

/-! ## Shaders of texts -/

namespace Shader

/-- A text declares the contexts of the shader, and its code sections have the names of those of the shader. -/
def DeclaredBy (s : Shader) (t : Text) : Prop :=
  ∃ source, ShaderSource.parse s.name t = .ok source ∧ s.contexts.map Context.decl = source.contexts ∧
    s.sections.map Fragment.name = source.sections.map CodeSection.name

/-- Some text declares the contexts and sections of the shader, if there are contexts at all. -/
def OfText (s : Shader) : Prop := s.contexts = [] ∨ ∃ t, s.DeclaredBy t

variable {s s' : Shader}

theorem OfText.congr (h : s.OfText) (hname : s'.name = s.name)
    (hdecls : s'.contexts.map Context.decl = s.contexts.map Context.decl) (hsections : s'.sections = s.sections) :
    s'.OfText := by
  rcases h with h | ⟨t, source, hparse, hcontexts, hnames⟩
  · rw [h] at hdecls
    exact Or.inl (List.map_eq_nil_iff.1 hdecls)
  · exact Or.inr ⟨t, source, hname ▸ hparse, hdecls.trans hcontexts, hsections ▸ hnames⟩

theorem OfText.frame (h : s.OfText) (hf : Frame s s') : s'.OfText := h.congr hf.name hf.decls hf.sections

theorem ofText_apply (s : Shader) {l : Library} {source : ShaderSource} {sections : List Fragment}
    (h : l.Contents s.name source sections) : (s.apply source sections).OfText := by
  obtain ⟨t, ht⟩ := h.parsed
  have hdecls : (source.contexts.map Context.ofDecl).map Context.decl = source.contexts := by
    rw [List.map_map]
    exact List.map_id _
  exact Or.inr ⟨t, source, ht, hdecls, h.named⟩

/-- The contexts of a shader that a text declares are valid: their stages form programs, bound to its sections. -/
theorem DeclaredBy.valid {t : Text} (h : s.DeclaredBy t) {d : ContextDecl} (hd : d ∈ s.contexts.map Context.decl) :
    d.stages.fault? = none ∧ ∀ stage i, d.stages.get stage = some i → i < s.sections.length := by
  obtain ⟨source, hparse, hcontexts, hnames⟩ := h
  obtain ⟨hwf, -⟩ := ShaderSource.wellFormed_of_parse hparse
  have hlength : s.sections.length = source.sections.length := by
    simpa only [List.length_map] using congrArg List.length hnames
  rw [hcontexts] at hd
  exact ⟨hwf.valid d hd, fun stage i hi => hlength ▸ hwf.bound d hd stage i hi⟩

theorem OfText.valid (h : s.OfText) {d : ContextDecl} (hd : d ∈ s.contexts.map Context.decl) :
    d.stages.fault? = none ∧ ∀ stage i, d.stages.get stage = some i → i < s.sections.length := by
  rcases h with h | ⟨t, h⟩
  · rw [h] at hd
    cases hd
  · exact h.valid hd

/-- Plans avoid invalid contexts, with whatever fragments and settings. -/
theorem OfText.plansAvoid (h : s.OfText) (w : Workspace) : s.PlansAvoid ShaderError.IsInvalidContext w := by
  refine .of_sections (fun d hd e he => ?_) (fun d hd b hb e he => ?_) nofun
  · rw [ContextDecl.error?, (h.valid hd).1] at he
    cases he
  · obtain ⟨stage, i⟩ := b
    have hi := (h.valid hd).2 stage i (StageBindings.mem_toList.1 hb)
    unfold expandSection at he
    rw [List.getElem?_eq_getElem hi] at he
    obtain ⟨cycle, rfl⟩ | ⟨key, rfl⟩ := FragmentStore.assembleFragment_error he
    · rintro ⟨_, _, _, hne⟩
      cases hne
    · rintro ⟨_, _, _, hne⟩
      cases hne

end Shader

/-! ## Libraries -/

theorem Session.Refills.ofText {l : Library} {s s' : Shader} (h : Refills l s s') (hs : s.OfText) : s'.OfText := by
  cases h with
  | cleared => exact hs.congr rfl (by rw [List.map_map]; rfl) rfl
  | failed diagnostic => exact Or.inl rfl
  | applied source sections h => exact s.ofText_apply h

def Library.OfText (l : Library) : Prop := ∀ k s, l.shader? k = some s → s.OfText

namespace Session

variable {σ : Type} [ProgramCompiler σ] {x y : Session σ}

theorem Quiet.ofText (h : Quiet x y) (hx : x.library.Regular) (ht : x.library.OfText) : y.library.OfText := by
  intro k s' hs'
  obtain ⟨s, hs, ⟨rfl, -⟩ | ⟨-, hwork⟩⟩ := h.shader hx hs'
  · exact ht k s' hs
  · exact (ht k s hs).frame hwork.frame

theorem Turn.ofText (h : Turn x y) (hx : x.library.Regular) (ht : x.library.OfText) : y.library.OfText := by
  intro k s' hs'
  cases h.shader hx hs' with
  | stays hs => exact ht k s' hs
  | stale hs => exact (ht k _ hs).congr rfl rfl rfl
  | refilled hs _ hr => exact hr.ofText (ht k _ hs)
  | registered _ hr =>
    rcases hr with rfl | hr
    · exact Or.inl rfl
    · exact hr.ofText (Or.inl rfl)

end Session

namespace Library

variable {l : Library}

theorem Reachable.ofText (h : l.Reachable) : l.OfText :=
  (h.of_steps (fun _ _ _ _ hs => nomatch hs) (fun hq hr ht => hq.ofText hr ht) fun ht hr hx => ht.ofText hr hx).2

/-- New content has valid contexts. -/
theorem avoidable_invalidContext : Avoidable ShaderError.IsInvalidContext where
  assembly e he := by
    obtain ⟨shader, context, cause, rfl⟩ := he
    exact .invalidContext shader context cause
  contents s _ _ _ hq := (s.ofText_apply hq).plansAvoid _

theorem OfText.plansAvoid (h : l.OfText) : l.PlansAvoid ShaderError.IsInvalidContext := fun k s hs =>
  (h k s hs).plansAvoid _

theorem Reachable.avoids_invalidContext (h : l.Reachable) : l.Avoids ShaderError.IsInvalidContext := by
  refine (h.of_steps (P := fun l => l.OfText ∧ l.Avoids ShaderError.IsInvalidContext) ?_ ?_ ?_).2.2
  · exact fun _ _ => ⟨nofun, nofun⟩
  · rintro σ _ x y hq hr ⟨ht, ha⟩
    have ht' := hq.ofText hr ht
    exact ⟨ht', hq.avoids avoidable_invalidContext hr ha ht'.plansAvoid⟩
  · rintro σ _ x y hturn hr ⟨ht, ha⟩
    have ht' := hturn.ofText hr ht
    exact ⟨ht', hturn.avoids hr ha ht'.plansAvoid⟩

end Library

/-! ## Parsed sources and what is built of them -/

/-- Every parsed source is well-formed, and its contexts are bound to the code sections that its declarations name. The
contexts of a shader in a reachable library are those of such a source: their stages form programs and are bound to
sections that the shader has. So, with whatever compiler, no build of a context, no combination and no answer to an
operation tells of an invalid context or of a missing section. -/
theorem parsed_wellFormed :
    (∀ name t source, ShaderSource.parse name t = .ok source →
      source.WellFormed ∧ ∃ ds, ShaderSource.Writes t (source.sections.map CodeSection.name) ds ∧
        ∀ c ∈ source.contexts, ∃ fields, .context c.name fields ∈ ds ∧
          c.Binds (source.sections.map CodeSection.name) fields) ∧
    ∀ l : Library, l.Reachable →
      (∀ k s, l.shader? k = some s → s.OfText ∧ ∀ ctx ∈ s.contexts, ctx.decl.stages.fault? = none ∧
        ∀ stage i, ctx.decl.stages.get stage = some i → i < s.sections.length) ∧
      (∀ k s, l.shader? k = some s → ∀ ctx ∈ s.contexts, ∀ key b, ctx.combination? key = some b →
        ∀ e, b.lastError = some e → ¬ e.IsInvalidContext) ∧
      ∀ {σ : Type} [ProgramCompiler σ] (c : σ),
        (∀ k s, l.shader? k = some s → ∀ i, ∀ ctx ∈ s.contexts, ∀ key e,
          (s.build l.workspace i ctx.decl key c).1 = .error e → ¬ e.IsInvalidContext) ∧
        ∀ op, ∀ e ∈ ((⟨l, c⟩ : Session σ).answer op).errors, ¬ e.IsInvalidContext := by
  refine ⟨fun name t source h => ShaderSource.wellFormed_of_parse h, fun l h => ?_⟩
  have ha := h.avoids_invalidContext
  refine ⟨fun k s hs => ⟨h.ofText k s hs, fun ctx hctx => (h.ofText k s hs).valid (List.mem_map_of_mem hctx)⟩,
    fun k s hs => (ha k s hs).kept, fun c => ⟨fun k s hs i ctx hctx key e he => ?_, fun op e he hinvalid => ?_⟩⟩
  · exact Shader.build_avoids Library.avoidable_invalidContext.assembly (ha k s hs) i hctx key c he
  · obtain ⟨x, rfl, -⟩ :=
      Session.answer_avoids (y := ⟨l, c⟩) Library.avoidable_invalidContext h.regular.fragments ha he hinvalid
    obtain ⟨shader, context, cause, hx⟩ := hinvalid
    cases hx

/-- After a short run the second context has a combination that keeps a failure. The compiler has reported it; the
context is bound to sections of the shader. -/
theorem parsed_wellFormed_litRun :
    ∃ s ctx b e, litRun.library.shader? ⟨1, 1⟩ = some s ∧ s.contexts[1]? = some ctx ∧ ctx.combination? 0 = some b ∧
      b.lastError = some e ∧ ¬ e.IsInvalidContext ∧ ctx.decl.stages.get .fragment = some 2 ∧ 2 < s.sections.length := by
  have hreach : litRun.library.Reachable := .run (.new default default) litOps
  have hrun : ∃ r ∈ litRun.cached? ⟨1, 1⟩ 1 0, r.2.2.lastError.isSome = true ∧
      r.2.1.decl.stages.get .fragment = some 2 := by decide +kernel
  obtain ⟨⟨s, ctx, b⟩, hb, herror, hstage⟩ := hrun
  obtain ⟨hs, hctx, hkey⟩ := Session.cached?_eq_some_iff.1 hb
  obtain ⟨e, he⟩ := Option.isSome_iff_exists.1 herror
  obtain ⟨hvalid, hkept, -⟩ := parsed_wellFormed.2 litRun.library hreach
  have hmem := List.mem_of_getElem? hctx
  exact ⟨s, ctx, b, e, hs, hctx, hkey, he, hkept _ s hs ctx hmem 0 b hkey e he, hstage,
    ((hvalid _ s hs).2 ctx hmem).2 _ _ hstage⟩

/-- A context without stages, which no text declares, does fail so. -/
example : ((Shader.failed "lit" "").build ⟨.empty, default⟩ 0 (.ofName "LIT") 0 DryRun.empty).1 =
    .error (.invalidContext "lit" "LIT" .missingStages) := rfl

end ShaderVariant
