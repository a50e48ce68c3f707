import ShaderVariant.Declaration.Reading
import ShaderVariant.Source.Section
import ShaderVariant.Source.Scan

/-!
# Shader sources

A shader file holds declarations in its section `FX` and code in all others.

* `ShaderSource.parse` : the declarations and the scanned code sections of a file.

Faults are looked for in the sections first, then in the code, then in the declarations.
-/

namespace ShaderVariant

/-- A code section without its include directives. -/
structure CodeSection where
  name : String
  firstLine : UInt32
  source : Scanned
  deriving DecidableEq, Repr

/-- All that a shader file says. -/
structure ShaderSource where
  vocabulary : Vocabulary
  samplers : List Sampler
  uniforms : List Uniform
  buffers : List String
  contexts : List ContextDecl
  sections : List CodeSection

namespace ShaderSource

/-- The name of the section with the declarations. -/
def declarationSection : String := "FX"

def scanSections (source : String) : List Section → Except ParseError (List CodeSection)
  | [] => .ok []
  | s :: ss =>
    match Scanned.ofText source s.body s.firstLine with
    | .error e => .error e
    | .ok scanned => (scanSections source ss).map (⟨s.name, s.firstLine, scanned⟩ :: ·)

/-- Puts the declarations and the code of a file together; samplers get their texture units. -/
def ofDeclarations (source : String) (d : Declarations) (sections : List CodeSection) :
    Except ParseError ShaderSource :=
  match SamplerDraft.assignUnits d.samplers with
  | .error s => .error ⟨source, s.line, .noFreeTextureUnit s.name⟩
  | .ok samplers =>
    .ok { vocabulary := d.vocabulary, samplers, uniforms := d.uniforms, buffers := d.buffers, contexts := d.contexts,
          sections }

def parse (source : String) (t : Text) : Except ParseError ShaderSource :=
  match Section.split source t with
  | .error e => .error e
  | .ok sections =>
    match sections.find? (·.name == declarationSection) with
    | none => .error ⟨source, 0, .missingDeclarations⟩
    | some fx =>
      match scanSections source (sections.filter (·.name != declarationSection)) with
      | .error e => .error e
      | .ok code =>
        match Declarations.read (code.map (·.name)) (.ofText source fx.body fx.firstLine) with
        | .error e => .error e
        | .ok d => ofDeclarations source d code

end ShaderSource

end ShaderVariant
