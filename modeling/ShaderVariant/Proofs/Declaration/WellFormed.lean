import ShaderVariant.Proofs.Declaration.Acceptance
import ShaderVariant.Proofs.Declaration.UnitOrder

/-!
# Well-formed shader sources

* `Grammar.lastCode`, `ContextDecl.Binds` : a stage is bound to the section that is named for it last, and to no other
  (`Grammar.binds_contextOf`);
* `Grammar.perm_resources` : samplers, uniforms and buffers have the names that are declared;
* `ShaderSource.WellFormed` : what a source is like, whatever was written. Admissible declarations make it so
  (`Declares.wellFormed`);
* `ShaderSource.Writes` : the declarations that a file writes, with their sections (`exists_declares_of_parse`);
* `ShaderSource.wellFormed_of_parse` : every parsed source is well-formed;
* `Declarations.Sound`, `ShaderSource.sound_of_parse` : contexts have names of their own, and flags are identifiers.
-/

namespace ShaderVariant

open Grammar

/-! ## Bound stages -/

namespace Grammar

def ContextField.code? (s : Stage) : ContextField → Option String
  | stage bound code => if bound = s then some code else none
  | state _ => none

/-- The code section that fields name for a stage last. -/
def lastCode (s : Stage) (fields : List ContextField) : Option String :=
  (fields.filterMap (ContextField.code? s)).getLast?

end Grammar

/-- Every stage is bound to the section of the name that the fields give last, and to none if they give no name. -/
def ContextDecl.Binds (c : ContextDecl) (sections : List String) (fields : List ContextField) : Prop :=
  ∀ s, (c.stages.get s).map (sections[·]?) = (lastCode s fields).map some

namespace Grammar

variable {sections : List String} {name : String} {fields : List ContextField}

theorem lastCode_concat (s : Stage) (fields : List ContextField) (f : ContextField) :
    lastCode s (fields ++ [f]) = (f.code? s).or (lastCode s fields) := by
  unfold lastCode
  rw [List.filterMap_append, List.getLast?_append]
  cases hf : f.code? s <;> simp [hf]

theorem get_contextOf (sections : List String) (name : String) (fields : List ContextField) (s : Stage) :
    (contextOf sections name fields).stages.get s = (lastCode s fields).map sections.idxOf := by
  induction fields using List.reverseRecOn with
  | nil => exact PerStage.get_uniform none s
  | append_singleton fields f ih =>
    rw [lastCode_concat, contextOf, List.foldl_concat]
    cases f with
    | state field => exact ih
    | stage bound code =>
      by_cases hs : bound = s
      · subst hs
        rw [ContextField.code?, if_pos rfl]
        exact PerStage.get_set_self _ bound _
      · rw [ContextField.code?, if_neg hs, Option.none_or, ← ih]
        exact PerStage.get_set_of_ne hs _ _

theorem lastCode_mem (hfields : ∀ f ∈ fields, f.Fits sections) {s : Stage} {code : String}
    (h : lastCode s fields = some code) : code ∈ sections := by
  obtain ⟨f, hf, hcode⟩ := List.mem_filterMap.1 (List.mem_of_getLast? h)
  cases f with
  | stage bound code' =>
    obtain ⟨-, he⟩ := Option.ite_none_right_eq_some.1 hcode
    cases he
    exact hfields _ hf
  | state => cases hcode

/-- A context is bound to the sections that its fields name. -/
theorem binds_contextOf (hfields : ∀ f ∈ fields, f.Fits sections) :
    (contextOf sections name fields).Binds sections fields := by
  intro s
  rw [get_contextOf, Option.map_map]
  refine Option.map_congr fun code hcode => ?_
  exact List.getElem?_idxOf (lastCode_mem hfields hcode)

end Grammar

theorem ContextDecl.Binds.lt {c : ContextDecl} {sections : List String} {fields : List ContextField}
    (h : c.Binds sections fields) {s : Stage} {i : Nat} (hi : c.stages.get s = some i) : i < sections.length := by
  have hs := h s
  rw [hi] at hs
  obtain ⟨code, -, hcode⟩ := Option.map_eq_some_iff.1 hs.symm
  exact (List.getElem?_eq_some_iff.1 hcode.symm).1

/-! ## Numbers -/

namespace Grammar

theorem StateField.patchVertices_applyTo {state : RenderState} {field : StateField}
    (h : 1 ≤ state.patchVertices.toNat) (hrange : field.InRange) :
    1 ≤ (field.applyTo state).patchVertices.toNat := by
  cases field with
  | patchVertices found =>
    obtain ⟨hpos, hle⟩ := hrange
    show 1 ≤ (UInt16.ofNat found.toNat).toNat
    rw [UInt16.toNat_ofNat']
    omega
  | blendPreset preset =>
    have hpreset : (state.withPreset preset).patchVertices = state.patchVertices := by
      unfold RenderState.withPreset
      split <;> rfl
    exact hpreset ▸ h
  | depthWrite | depthTest | alphaToCoverage | depthFunc | cullMode | blendFactors => exact h

theorem patchVertices_contextOf {sections : List String} (name : String) {fields : List ContextField}
    (hfields : ∀ f ∈ fields, f.Fits sections) :
    1 ≤ (contextOf sections name fields).renderState.patchVertices.toNat := by
  have hstart : 1 ≤ (ContextDecl.ofName name).renderState.patchVertices.toNat := Nat.le_refl 1
  refine List.foldlRecOn (motive := fun c : ContextDecl => 1 ≤ c.renderState.patchVertices.toNat) fields _ hstart
    fun c hc f hf => ?_
  cases f with
  | stage => exact hc
  | state field => exact StateField.patchVertices_applyTo hc (hfields _ hf)

end Grammar

/-- Behind the values that are written components are zero. -/
theorem Uniform.getElem_defaults_ofValues (name : String) (kind : UniformKind) {values : List Binary32} {i : Nat}
    (hi : i < 4) (h : values.length ≤ i) : (ofValues name kind values).defaults[i] = .zero := by
  simp [ofValues, h]

theorem Uniform.size_eq (u : Uniform) : u.size = 1 ∨ u.size = 4 := by
  unfold Uniform.size
  cases u.kind <;> simp [UniformKind.size]

/-! ## Samplers -/

namespace SamplerDraft.AtUnits

variable {spare : List Nat} {ds : List SamplerDraft} {ss : List Sampler}

/-- A sampler is one that was declared, at the unit that it asks for or at a spare one. -/
theorem exists_draft (h : AtUnits spare ds ss) {i : Nat} {s : Sampler} (hs : ss[i]? = some s) :
    ∃ d, ds[i]? = some d ∧ s = d.withUnit s.unit ∧ (d.unit = some s.unit ∨ s.unit ∈ spare) := by
  have hi : i < ds.length := h.length_eq ▸ (List.getElem?_eq_some_iff.1 hs).1
  have hd : ds[i]? = some ds[i] := List.getElem?_eq_getElem hi
  cases hunit : ds[i].unit with
  | some u =>
    cases hs.symm.trans (h.own i _ u hd hunit)
    exact ⟨_, hd, rfl, Or.inl hunit⟩
  | none =>
    obtain ⟨u, hu, hss⟩ := h.given i _ hd hunit
    cases hs.symm.trans hss
    exact ⟨_, hd, rfl, Or.inr (List.mem_of_getElem? hu)⟩

theorem names_eq (h : AtUnits spare ds ss) : ss.map Sampler.name = ds.map SamplerDraft.name := by
  refine List.ext_getElem (by simp only [List.length_map, h.length_eq]) fun i hi _ => ?_
  rw [List.length_map] at hi
  obtain ⟨d, hd, hs, -⟩ := h.exists_draft (List.getElem?_eq_getElem hi)
  rw [List.getElem_map, List.getElem_map, hs, (List.getElem?_eq_some_iff.1 hd).2]
  rfl

end SamplerDraft.AtUnits

/-! ## Sources -/

namespace Grammar

/-- Samplers, uniforms and buffers have the names that declarations give them. -/
theorem perm_resources (ds : List Declaration) :
    List.Perm ((ds.filterMap Declaration.sampler?).map SamplerDraft.name ++
      (ds.filterMap Declaration.uniform?).map Uniform.name ++ ds.filterMap Declaration.buffer?)
      (ds.filterMap Declaration.resource?) := by
  induction ds with
  | nil => exact .nil
  | cons d ds ih =>
    cases d with
    | flag | context => exact ih
    | sampler kind name fields =>
      show List.Perm ((samplerOf 0 kind name fields).name :: _) (name :: _)
      rw [name_samplerOf]
      exact ih.cons name
    | uniform kind name defaults =>
      rw [List.append_assoc] at ih ⊢
      exact List.perm_middle.trans (ih.cons name)
    | buffer name => exact List.perm_middle.trans (ih.cons name)

end Grammar

namespace ShaderSource

/-- Names are distinct, every stage is bound to a section, stages form programs, and numbers are in range. -/
structure WellFormed (x : ShaderSource) : Prop where
  flags : x.vocabulary.names.Nodup
  flags_le : x.vocabulary.names.length ≤ maxFlags
  resources : (x.samplers.map Sampler.name ++ x.uniforms.map Uniform.name ++ x.buffers).Nodup
  contexts : (x.contexts.map ContextDecl.name).Nodup
  sections : (x.sections.map CodeSection.name).Nodup
  named : ∀ c ∈ x.sections, c.name ≠ "" ∧ c.name ≠ declarationSection
  bound : ∀ c ∈ x.contexts, ∀ s i, c.stages.get s = some i → i < x.sections.length
  valid : ∀ c ∈ x.contexts, c.stages.fault? = none
  units : ∀ s ∈ x.samplers, s.unit < textureUnits
  anisotropy : ∀ s ∈ x.samplers, 1 ≤ s.anisotropy ∧ s.anisotropy ≤ 16
  patchVertices : ∀ c ∈ x.contexts, 1 ≤ c.renderState.patchVertices.toNat
  sizes : ∀ u ∈ x.uniforms, u.size = 1 ∨ u.size = 4
  unused : ∀ u ∈ x.uniforms, ∀ i (hi : i < 4), u.size ≤ i → u.defaults[i] = .zero

variable {source : ShaderSource} {code : List CodeSection} {ds : List Declaration}

theorem Declares.exists_context (h : source.Declares code ds) {c : ContextDecl} (hc : c ∈ source.contexts) :
    ∃ name fields, .context name fields ∈ ds ∧ c = contextOf (source.sections.map CodeSection.name) name fields := by
  rw [h.contexts] at hc
  obtain ⟨d, hd, hcontext⟩ := List.mem_filterMap.1 hc
  cases d with
  | context name fields =>
    cases hcontext
    exact ⟨name, fields, hd, by rw [h.sections]⟩
  | flag | sampler | uniform | buffer => cases hcontext

theorem Declares.exists_sampler (h : source.Declares code ds) {s : Sampler} (hs : s ∈ source.samplers) :
    ∃ kind name fields, .sampler kind name fields ∈ ds ∧ s = (samplerOf 0 kind name fields).withUnit s.unit ∧
      ((samplerOf 0 kind name fields).unit = some s.unit ∨ s.unit < textureUnits) := by
  have hunits : SamplerDraft.AtUnits _ _ source.samplers := SamplerDraft.assignFrom_eq_ok_iff.1 h.samplers
  obtain ⟨i, hi⟩ := List.getElem?_of_mem hs
  obtain ⟨d, hd, hdraft, hunit⟩ := hunits.exists_draft hi
  obtain ⟨decl, hdecl, hsampler⟩ := List.mem_filterMap.1 (List.mem_of_getElem? hd)
  cases decl with
  | sampler kind name fields =>
    cases hsampler
    exact ⟨kind, name, fields, hdecl, hdraft, hunit.imp_right fun hspare => (SamplerDraft.mem_spareUnits.1 hspare).1⟩
  | flag | uniform | buffer | context => cases hsampler

theorem Declares.exists_uniform (h : source.Declares code ds) {u : Uniform} (hu : u ∈ source.uniforms) :
    ∃ name kind values, .uniform kind name values ∈ ds ∧ u = .ofValues name kind values := by
  rw [h.uniforms] at hu
  obtain ⟨d, hd, huniform⟩ := List.mem_filterMap.1 hu
  cases d with
  | uniform kind name values =>
    cases huniform
    exact ⟨name, kind, values, hd, rfl⟩
  | flag | sampler | buffer | context => cases huniform

theorem Declares.fields_fit (h : source.Declares code ds) (hfits : ∀ d ∈ ds, d.Fits (code.map CodeSection.name))
    {name : String} {fields : List ContextField} (hd : .context name fields ∈ ds) :
    (∀ f ∈ fields, f.Fits (source.sections.map CodeSection.name)) ∧
      (contextOf (source.sections.map CodeSection.name) name fields).stages.fault? = none := by
  rw [h.sections]
  exact hfits _ hd

/-- Every context is bound to the sections that its declaration names. -/
theorem Declares.binds (h : source.Declares code ds) (hfits : ∀ d ∈ ds, d.Fits (code.map CodeSection.name))
    {c : ContextDecl} (hc : c ∈ source.contexts) :
    ∃ fields, .context c.name fields ∈ ds ∧ c.Binds (source.sections.map CodeSection.name) fields := by
  obtain ⟨name, fields, hd, rfl⟩ := h.exists_context hc
  exact ⟨fields, (name_contextOf _ name fields).symm ▸ hd, binds_contextOf (h.fields_fit hfits hd).1⟩

/-- Admissible declarations introduce a well-formed source, if the code sections have names of their own. -/
theorem Declares.wellFormed (h : source.Declares code ds) (ha : Admissible (code.map CodeSection.name) ds)
    (hdistinct : (code.map CodeSection.name).Nodup) (hnamed : ∀ c ∈ code, c.name ≠ "" ∧ c.name ≠ declarationSection) :
    source.WellFormed where
  flags := h.flags ▸ ha.flags
  flags_le := h.flags ▸ ha.flags_le
  resources := by
    have hunits : SamplerDraft.AtUnits _ _ source.samplers := SamplerDraft.assignFrom_eq_ok_iff.1 h.samplers
    rw [hunits.names_eq, h.uniforms, h.buffers]
    exact (perm_resources ds).nodup_iff.2 ha.resources
  contexts := h.contexts ▸ ha.contexts
  sections := h.sections ▸ hdistinct
  named := h.sections ▸ hnamed
  bound c hc s i hi := by
    obtain ⟨fields, -, hbinds⟩ := h.binds ha.fits hc
    simpa using hbinds.lt hi
  valid c hc := by
    obtain ⟨name, fields, hd, rfl⟩ := h.exists_context hc
    exact (h.fields_fit ha.fits hd).2
  units s hs := by
    obtain ⟨kind, name, fields, hd, -, hunit⟩ := h.exists_sampler hs
    exact hunit.elim ((SamplerDraft.inRange_samplerOf 0 kind name (ha.fits _ hd)).unit _) id
  anisotropy s hs := by
    obtain ⟨kind, name, fields, hd, hs, -⟩ := h.exists_sampler hs
    rw [hs]
    exact (SamplerDraft.inRange_samplerOf 0 kind name (ha.fits _ hd)).anisotropy
  patchVertices c hc := by
    obtain ⟨name, fields, hd, rfl⟩ := h.exists_context hc
    exact patchVertices_contextOf name (h.fields_fit ha.fits hd).1
  sizes u _ := u.size_eq
  unused u hu i hi hsize := by
    obtain ⟨name, kind, values, hd, rfl⟩ := h.exists_uniform hu
    exact Uniform.getElem_defaults_ofValues name kind hi (Nat.le_trans (ha.fits _ hd) hsize)

/-! ## Files -/

/-- The declaration section of a text writes declarations, and `names` are the names of its other sections. -/
def Writes (t : Text) (names : List String) (ds : List Declaration) : Prop :=
  ∃ sections fx, Section.Partition t sections ∧ fx ∈ sections ∧ fx.name = declarationSection ∧
    Derives Token.Alike ds fx.tokens ∧ names = (sections.map Section.name).filter (· != declarationSection)

theorem names_scanSections {name : String} {ss : List Section} (h : scanSections name ss = .ok code) :
    code.map CodeSection.name = ss.map Section.name := by
  induction ss generalizing code with
  | nil =>
    cases h
    rfl
  | cons s ss ih =>
    unfold scanSections at h
    split at h
    · cases h
    · next scanned _ =>
      obtain ⟨rest, hrest, rfl⟩ := map_cons_eq_ok_iff.1 h
      exact congrArg (s.name :: ·) (ih hrest)

/-- Behind a parsed source are sections, scanned code and declarations. -/
theorem exists_declares_of_parse {name : String} {t : Text} (h : parse name t = .ok source) :
    ∃ sections code ds, Section.split name t = .ok sections ∧
      scanSections name (sections.filter (·.name != declarationSection)) = .ok code ∧
      (∃ fx ∈ sections, fx.name = declarationSection ∧ Derives Token.Alike ds fx.tokens) ∧
      Admissible (code.map CodeSection.name) ds ∧ source.Declares code ds := by
  cases hsplit : Section.split name t with
  | error e => simp [parse, hsplit] at h
  | ok sections =>
    cases hscan : scanSections name (sections.filter (·.name != declarationSection)) with
    | error e =>
      unfold parse at h
      simp only [hsplit, hscan] at h
      split at h <;> cases h
    | ok code =>
      obtain ⟨fx, hfx, hname, ds, hds, ha⟩ := exists_derives_of_parse hsplit hscan h
      exact ⟨sections, code, ds, rfl, hscan, ⟨fx, hfx, hname, hds⟩, ha,
        (parse_accepts hsplit hscan).2 source h fx hfx hname ds hds ha⟩

theorem wellFormed_of_parse {name : String} {t : Text} (h : parse name t = .ok source) :
    source.WellFormed ∧ ∃ ds, Writes t (source.sections.map CodeSection.name) ds ∧
      ∀ c ∈ source.contexts, ∃ fields, .context c.name fields ∈ ds ∧
        c.Binds (source.sections.map CodeSection.name) fields := by
  obtain ⟨sections, code, ds, hsplit, hscan, ⟨fx, hfx, hname, hds⟩, ha, hdeclares⟩ := exists_declares_of_parse h
  have hpartition := Section.split_eq_ok_iff.1 hsplit
  have hnames : code.map CodeSection.name = (sections.map Section.name).filter (· != declarationSection) := by
    rw [names_scanSections hscan, List.filter_map]
    rfl
  have hnamed (c : CodeSection) (hc : c ∈ code) : c.name ≠ "" ∧ c.name ≠ declarationSection := by
    have hmem := List.mem_map_of_mem (f := CodeSection.name) hc
    rw [hnames, List.mem_filter, bne_iff_ne] at hmem
    obtain ⟨hmem, hne⟩ := hmem
    obtain ⟨s, hs, hsname⟩ := List.mem_map.1 hmem
    exact ⟨hsname ▸ (hpartition.named s hs).1, hne⟩
  refine ⟨hdeclares.wellFormed ha (hnames ▸ hpartition.distinct.filter _) hnamed, ds, ?_, fun c hc =>
    hdeclares.binds ha.fits hc⟩
  exact ⟨sections, fx, hpartition, hfx, hname, hds, by rw [hdeclares.sections, hnames]⟩

end ShaderSource

/-! ## Flags are identifiers -/

/-- A declaration is written in the section that it comes from. -/
theorem Grammar.Derives.exists_written {R : Token → Token → Prop} {ds : List Declaration} {ts : List Token}
    (h : Derives R ds ts) {d : Declaration} (hd : d ∈ ds) : ∃ keyword us, d.Written R keyword us := by
  induction h with
  | nil => cases hd
  | cons first _ ih =>
    rcases List.mem_cons.1 hd with rfl | hd
    · exact ⟨_, _, first⟩
    · exact ih hd

/-- Contexts have names of their own, and flags are identifiers. -/
structure Declarations.Sound (v : Vocabulary) (contexts : List ContextDecl) : Prop where
  contexts : (contexts.map ContextDecl.name).Nodup
  flags : ∀ i name, v.nameOf? i = some name → Text.isIdentifier name.toList = true

theorem Declarations.sound_empty : Sound empty.vocabulary empty.contexts := ⟨List.nodup_nil, fun _ _ h => nomatch h⟩

/-- Every source that is parsed has sound declarations. -/
theorem ShaderSource.sound_of_parse {name : String} {t : Text} {source : ShaderSource}
    (h : parse name t = .ok source) : Declarations.Sound source.vocabulary source.contexts := by
  obtain ⟨sections, code, ds, -, -, ⟨fx, -, -, hds⟩, ha, hdeclares⟩ := exists_declares_of_parse h
  refine ⟨hdeclares.contexts ▸ ha.contexts, fun i flag hflag => ?_⟩
  obtain ⟨symbol, hsymbol, hresolve⟩ := Option.bind_eq_some_iff.1 hflag
  have hmem : flag ∈ source.vocabulary.names := List.mem_filterMap.2 ⟨symbol, List.mem_of_getElem? hsymbol, hresolve⟩
  rw [hdeclares.flags] at hmem
  obtain ⟨d, hd, hname⟩ := List.mem_filterMap.1 hmem
  obtain ⟨keyword, us, hwritten⟩ := hds.exists_written hd
  cases d with
  | flag =>
    cases hname
    cases hwritten with
    | flag hidentifier => exact hidentifier
  | sampler | uniform | buffer | context => cases hname

end ShaderVariant
