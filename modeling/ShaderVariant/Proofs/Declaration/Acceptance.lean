import ShaderVariant.Proofs.Declaration.Consistency
import ShaderVariant.Proofs.Declaration.Units
import ShaderVariant.Proofs.Source.Sections

/-!
# Accepted shader sources

A file is parsed just if its declaration section derives from the grammar of declarations, with any token of the right
spelling for marks and for the words `sampler_state` and `compile`, and if the declarations are admissible.

* `ShaderSource.exists_derives_of_parse`, `exists_parse_of_derives` : the two directions;
* `ShaderSource.parse_accepts` : which files are parsed, and what they declare;
* `ShaderSource.parse_quotedSemicolon` : a file that is parsed and is not written to the letter.
-/

namespace ShaderVariant

open Grammar

/-! ## Files -/

namespace ShaderSource

variable {name : String} {t : Text} {sections : List Section} {code : List CodeSection}

/-- Behind its sections and its code, a file is parsed just if its declarations are read and get their units. -/
theorem parse_eq_ok_iff (hsplit : Section.split name t = .ok sections)
    (hscan : scanSections name (sections.filter (·.name != declarationSection)) = .ok code) {source : ShaderSource} :
    parse name t = .ok source ↔ ∃ fx ∈ sections, fx.name = declarationSection ∧ ∃ d,
      Declarations.read (code.map CodeSection.name) (.ofText name fx.body fx.firstLine) = .ok d ∧
        ofDeclarations name d code = .ok source := by
  simp only [parse, hsplit]
  cases hfind : sections.find? (·.name == declarationSection) with
  | none =>
    refine iff_of_false (fun h => nomatch h) ?_
    rintro ⟨fx, hfx, hname, -⟩
    exact List.find?_eq_none.1 hfind fx hfx (beq_iff_eq.2 hname)
  | some fx =>
    have hfx := List.mem_of_find?_eq_some hfind
    have hname := List.find?_some hfind
    rw [beq_iff_eq] at hname
    simp only [hscan]
    constructor
    · intro h
      split at h
      · cases h
      · next d hread => exact ⟨fx, hfx, hname, d, hread, h⟩
    · rintro ⟨fx', hfx', hname', d, hread, hsource⟩
      obtain rfl := List.inj_on_of_nodup_map (Section.split_eq_ok_iff.1 hsplit).distinct hfx' hfx (hname'.trans hname.symm)
      rw [hread]
      exact hsource

/-- The units that admissible samplers ask for exist. -/
theorem inUse_of_fits {sections : List String} {ds : List Declaration} (h : ∀ d ∈ ds, d.Fits sections) :
    SamplerDraft.InUse ((ds.filterMap Declaration.sampler?).filterMap (·.unit)) := by
  intro u hu
  obtain ⟨s, hs, hunit⟩ := List.mem_filterMap.1 hu
  obtain ⟨d, hd, hsampler⟩ := List.mem_filterMap.1 hs
  cases d with
  | sampler kind name fields =>
    cases hsampler
    exact (SamplerDraft.inRange_samplerOf 0 kind name (h _ hd)).unit u hunit
  | flag | uniform | buffer | context => cases hsampler

theorem ofDeclarations_eq_ok_iff {d : Declarations} {source : ShaderSource} :
    ofDeclarations name d code = .ok source ↔
      ∃ samplers, SamplerDraft.assignUnits d.samplers = .ok samplers ∧
        source = ⟨d.vocabulary, samplers, d.uniforms, d.buffers, d.contexts, code⟩ := by
  unfold ofDeclarations
  split
  · next e he => simp [he]
  · next samplers hs => simp [hs, eq_comm]

theorem exists_derives_of_parse (hsplit : Section.split name t = .ok sections)
    (hscan : scanSections name (sections.filter (·.name != declarationSection)) = .ok code) {source : ShaderSource}
    (h : parse name t = .ok source) :
    ∃ fx ∈ sections, fx.name = declarationSection ∧ ∃ ds, Derives Token.Alike ds fx.tokens ∧
      Admissible (code.map CodeSection.name) ds := by
  obtain ⟨fx, hfx, hname, d, hread, hsource⟩ := (parse_eq_ok_iff hsplit hscan).1 h
  obtain ⟨ds, hds, hall⟩ := Declarations.read_iff.1 ⟨d, hread, rfl⟩
  obtain ⟨hholds, hconsistent⟩ :=
    Declarations.holds_of_extendsAll (Declarations.holds_empty _) (Declarations.consistent_nil _) hall
  obtain ⟨samplers, hunits, -⟩ := ofDeclarations_eq_ok_iff.1 hsource
  refine ⟨fx, hfx, hname, ds, hds, ⟨hconsistent, ?_⟩⟩
  have hsamplers : d.samplers.map SamplerDraft.unplaced = ds.filterMap Declaration.sampler? := hholds.samplers
  rw [← SamplerDraft.assignUnits_unplaced, hsamplers] at hunits
  exact (SamplerDraft.assignUnits_ok_iff (inUse_of_fits hconsistent.fits)).1 ⟨_, hunits⟩

/-- A file with admissible declarations is parsed, and declares them. -/
theorem exists_parse_of_derives (hsplit : Section.split name t = .ok sections)
    (hscan : scanSections name (sections.filter (·.name != declarationSection)) = .ok code) {fx : Section}
    (hfx : fx ∈ sections) (hname : fx.name = declarationSection) {ds : List Declaration}
    (hds : Derives Token.Alike ds fx.tokens) (h : Admissible (code.map CodeSection.name) ds) :
    ∃ source, parse name t = .ok source ∧ source.Declares code ds := by
  have hholds := Declarations.holds_empty (code.map CodeSection.name)
  obtain ⟨e, hall⟩ := Declarations.exists_extendsAll hholds (show Consistent _ ([] ++ ds) from h.toConsistent)
  obtain ⟨hholds, -⟩ := Declarations.holds_of_extendsAll hholds (Declarations.consistent_nil _) hall
  obtain ⟨d, hread, rfl⟩ := (Declarations.read_iff (s := .ofText name fx.body fx.firstLine)).2 ⟨ds, hds, hall⟩
  obtain ⟨samplers, hunits⟩ := (SamplerDraft.assignUnits_ok_iff (inUse_of_fits h.fits)).2 h.units
  have hsamplers : d.samplers.map SamplerDraft.unplaced = ds.filterMap Declaration.sampler? := hholds.samplers
  have hunits' := hunits
  rw [← hsamplers, SamplerDraft.assignUnits_unplaced] at hunits'
  have hparse := (parse_eq_ok_iff hsplit hscan).2
    ⟨fx, hfx, hname, d, hread, ofDeclarations_eq_ok_iff.2 ⟨samplers, hunits', rfl⟩⟩
  exact ⟨_, hparse, hholds.flags, hunits, hholds.uniforms, hholds.buffers, hholds.contexts, rfl⟩

/-- A file whose sections are distinct and whose code is in order is parsed just if it has a declaration section that
derives from admissible declarations, where marks and the words `sampler_state` and `compile` may be any token of their
spelling. What it declares is what such declarations introduce, in their order. -/
theorem parse_accepts (hsplit : Section.split name t = .ok sections)
    (hscan : scanSections name (sections.filter (·.name != declarationSection)) = .ok code) :
    ((∃ source, parse name t = .ok source) ↔ ∃ fx ∈ sections, fx.name = declarationSection ∧ ∃ ds,
      Derives Token.Alike ds fx.tokens ∧ Admissible (code.map CodeSection.name) ds) ∧
    ∀ source, parse name t = .ok source → ∀ fx ∈ sections, fx.name = declarationSection → ∀ ds,
      Derives Token.Alike ds fx.tokens → Admissible (code.map CodeSection.name) ds → source.Declares code ds := by
  refine ⟨⟨fun ⟨source, h⟩ => exists_derives_of_parse hsplit hscan h, ?_⟩, ?_⟩
  · rintro ⟨fx, hfx, hname, ds, hds, hadmissible⟩
    obtain ⟨source, h, -⟩ := exists_parse_of_derives hsplit hscan hfx hname hds hadmissible
    exact ⟨source, h⟩
  · intro source h fx hfx hname ds hds hadmissible
    obtain ⟨source', h', hdeclares⟩ := exists_parse_of_derives hsplit hscan hfx hname hds hadmissible
    cases h.symm.trans h'
    exact hdeclares

/-- In particular a file is parsed whose declarations are written to the letter. -/
theorem exists_parse_of_derives_eq (hsplit : Section.split name t = .ok sections)
    (hscan : scanSections name (sections.filter (·.name != declarationSection)) = .ok code) {fx : Section}
    (hfx : fx ∈ sections) (hname : fx.name = declarationSection) {ds : List Declaration} (hds : Derives Eq ds fx.tokens)
    (h : Admissible (code.map CodeSection.name) ds) : ∃ source, parse name t = .ok source ∧ source.Declares code ds :=
  exists_parse_of_derives hsplit hscan hfx hname (hds.mono fun _ _ heq => congrArg Token.spelling heq.symm) h

def waterFile : Text :=
  ("[[FX]]\nflag FOAM;\nfloat depth <m> = 0.5;\ncontext MAIN \x7bVertexShader = compile GLSL VS;\n" ++
    "PixelShader = compile GLSL VS;\x7d\n[[VS]]\nv\n").toList

theorem parse_accepts_waterFile :
    ∃ sections code source, Section.split "water" waterFile = .ok sections ∧
      scanSections "water" (sections.filter (·.name != declarationSection)) = .ok code ∧
      parse "water" waterFile = .ok source ∧ source.contexts.map ContextDecl.name = ["MAIN"] ∧
      ∃ fx ∈ sections, fx.name = declarationSection ∧ ∃ ds, Derives Token.Alike ds fx.tokens ∧
        Admissible (code.map CodeSection.name) ds ∧ source.Declares code ds := by
  have hsplit : Section.split "water" waterFile = .ok
      [⟨"FX", ("flag FOAM;\nfloat depth <m> = 0.5;\ncontext MAIN \x7bVertexShader = compile GLSL VS;\n" ++
        "PixelShader = compile GLSL VS;\x7d\n").toList, 2⟩, ⟨"VS", "v\n".toList, 7⟩] := by decide +kernel
  have hscan : scanSections "water" [⟨"VS", "v\n".toList, 7⟩] = .ok [⟨"VS", 7, ⟨"v\n".toList, [], []⟩⟩] := by
    decide +kernel
  have hcontexts : (parse "water" waterFile).map (fun source => source.contexts.map ContextDecl.name) =
      .ok ["MAIN"] := by decide +kernel
  cases hparse : parse "water" waterFile with
  | error e => rw [hparse] at hcontexts; cases hcontexts
  | ok source =>
    rw [hparse] at hcontexts
    obtain ⟨haccepts, hdeclares⟩ := parse_accepts hsplit hscan
    obtain ⟨fx, hfx, hname, ds, hds, hadmissible⟩ := haccepts.1 ⟨source, hparse⟩
    exact ⟨_, _, source, hsplit, hscan, rfl, Except.ok.inj hcontexts, fx, hfx, hname, ds, hds, hadmissible,
      hdeclares source hparse fx hfx hname ds hds hadmissible⟩

/-- A file in which a quoted string stands for a semicolon. -/
def quotedSemicolon : Text := "[[FX]]\nflag A \";\"\n".toList

/-- Quoted strings that spell marks stand for them: such a file is parsed, although its declaration section does not
derive from the grammar to the letter. -/
theorem parse_quotedSemicolon :
    ∃ sections, Section.split "s" quotedSemicolon = .ok sections ∧
      scanSections "s" (sections.filter (·.name != declarationSection)) = .ok [] ∧
      (∃ source, parse "s" quotedSemicolon = .ok source) ∧
      ¬ ∃ fx ∈ sections, fx.name = declarationSection ∧ ∃ ds, Derives Eq ds fx.tokens ∧ Admissible [] ds := by
  have hsplit : Section.split "s" quotedSemicolon = .ok [⟨"FX", "flag A \";\"\n".toList, 2⟩] := by decide +kernel
  have hparse : (parse "s" quotedSemicolon).isOk = true := by decide +kernel
  have htokens : (Section.tokens ⟨"FX", "flag A \";\"\n".toList, 2⟩).getLast? = some (.quoted ";") := by decide +kernel
  refine ⟨_, hsplit, by decide +kernel, ?_, ?_⟩
  · cases h : parse "s" quotedSemicolon with
    | ok source => exact ⟨source, rfl⟩
    | error e =>
      rw [h] at hparse
      cases hparse
  · rintro ⟨fx, hfx, -, ds, hds, -⟩
    obtain rfl := List.mem_singleton.1 hfx
    rcases hds.getLast htokens with h | h <;> cases h

end ShaderSource

end ShaderVariant
