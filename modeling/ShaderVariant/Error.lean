import ShaderVariant.Text.Utf8
import ShaderVariant.Flag.Vocabulary
import ShaderVariant.Source.Token
import ShaderVariant.Table.SlotMap
import ShaderVariant.Stage

/-!
# Errors

Every failure is kept as its cause; the wording is in the `message` functions.

* `IoError` : why a file cannot be read;
* `ParseError` : what is wrong with a source (`ParseFault`), in which file and on which line, 0 for no line;
* `CompileFailure` : what the program compiler reports;
* `ShaderError` : all failures of loading, assembling, looking up and compiling.
-/

namespace ShaderVariant

abbrev FragmentKey := SlotKey

abbrev ShaderKey := SlotKey

def displayFragmentKey (k : FragmentKey) : String := s!"FragmentId({k.display})"

def displayShaderKey (k : ShaderKey) : String := s!"ShaderId({k.display})"

/-! ## Reading files -/

/-- Why a file cannot be read. -/
inductive IoError where
  | noSource (name : String)
  | notFound
  | isDirectory
  | notDirectory
  | nameTooLong
  | zeroInName
  deriving DecidableEq, Repr

def IoError.message : IoError → String
  | .noSource name => s!"no source named '{name}'"
  | .notFound => "No such file or directory (os error 2)"
  | .isDirectory => "Is a directory (os error 21)"
  | .notDirectory => "Not a directory (os error 20)"
  | .nameTooLong => "File name too long (os error 36)"
  | .zeroInName => "file name contained an unexpected NUL byte"

/-! ## Contexts -/

/-- Why the stages of a context form no program, or cannot be built. -/
inductive ContextFault where
  | mixedCompute
  | missingStages
  | missingSection (section_ : Nat)
  deriving DecidableEq, Repr

def ContextFault.message : ContextFault → String
  | .mixedCompute => "compute stage cannot be combined with graphics stages"
  | .missingStages => "requires a vertex and a fragment stage, or a compute stage"
  | .missingSection i => s!"stage bound to missing section #{i}"

def invalidContextMessage (shader context : String) (fault : ContextFault) : String :=
  s!"Invalid context '{context}' in shader '{shader}': {fault.message}"

/-! ## Sources -/

/-- What is wrong with a source. A token that was found is `none` at the end of the section. -/
inductive ParseFault where
  | expected (text : String) (found : Option Token)
  | expectedIdentifier (found : Option Token)
  | expectedString (found : Option Token)
  | expectedInteger (found : Option Token)
  | expectedNumber (found : Option Token)
  | expectedBoolean (found : Option Token)
  | missingClose (mark : Char)
  | emptySectionName
  | contentBeforeHeader
  | duplicateSection (name : String)
  | missingHeaders
  | missingDeclarations
  | unexpectedKeyword (keyword : String)
  | duplicateName (name : String)
  | flag (cause : VocabularyError)
  | textureUnitRange (unit : Int)
  | unknownAddressMode (name : String)
  | unknownFilter (name : String)
  | anisotropyRange (found : Int)
  | unknownSamplerKey (key : String)
  | tooManyDefaults (name : String) (size : Nat)
  | duplicateContext (name : String)
  | undefinedSection (name : String)
  | unknownDepthFunc (name : String)
  | unknownCullMode (name : String)
  | unknownBlendMode (name : String)
  | unknownBlendFactor (name : String)
  | patchVerticesRange (found : Int)
  | unknownContextKey (key : String)
  | invalidContext (shader context : String) (cause : ContextFault)
  | noFreeTextureUnit (sampler : String)
  | malformedInclude
  | unterminatedInclude
  | namelessInclude
  | unresolvedInclude (name : String) (cause : IoError)
  | notUtf8 (cause : Utf8Error)
  | other (text : String)
  deriving DecidableEq, Repr

namespace ParseFault

/-- What was asked for, and what stood there. -/
def expectedMessage (wanted : String) (found : Option Token) : String :=
  match found with
  | some t => s!"expected {wanted}, found '{t.display}'"
  | none => s!"expected {wanted}, found end of section"

def message : ParseFault → String
  | expected text found => expectedMessage s!"'{text}'" found
  | expectedIdentifier found => expectedMessage "identifier" found
  | expectedString found => expectedMessage "string" found
  | expectedInteger found => expectedMessage "integer" found
  | expectedNumber found => expectedMessage "number" found
  | expectedBoolean (some t) => expectedMessage "'true' or 'false'" (some t)
  | expectedBoolean none => expectedMessage "boolean" none
  | missingClose c => s!"missing '{c}'"
  | emptySectionName => "empty section name"
  | contentBeforeHeader => "content before the first section header"
  | duplicateSection name => s!"section '{name}' is defined twice"
  | missingHeaders => "missing section headers"
  | missingDeclarations => "missing [[FX]] section"
  | unexpectedKeyword keyword => s!"unexpected '{keyword}'"
  | duplicateName name => s!"'{name}' is declared twice"
  | flag cause => cause.message
  | textureUnitRange unit => s!"TexUnit {unit} out of range"
  | unknownAddressMode name => s!"unknown address mode '{name}'"
  | unknownFilter name => s!"unknown filter '{name}'"
  | anisotropyRange found => s!"MaxAnisotropy {found} out of range 1..16"
  | unknownSamplerKey key => s!"unknown sampler_state key '{key}'"
  | tooManyDefaults name size => s!"too many default values for '{name}' (expected {size})"
  | duplicateContext name => s!"context '{name}' is defined twice"
  | undefinedSection name => s!"undefined code section '{name}'"
  | unknownDepthFunc name => s!"unknown depth function '{name}'"
  | unknownCullMode name => s!"unknown cull mode '{name}'"
  | unknownBlendMode name => s!"unknown blend mode '{name}'"
  | unknownBlendFactor name => s!"unknown blend factor '{name}'"
  | patchVerticesRange found => s!"TessPatchVertices must be at least 1, found {found}"
  | unknownContextKey key => s!"unknown context key '{key}'"
  | invalidContext shader context cause => invalidContextMessage shader context cause
  | noFreeTextureUnit sampler => s!"no free texture unit for sampler '{sampler}'"
  | malformedInclude => "malformed #include directive, expected \"name\""
  | unterminatedInclude => "unterminated #include directive"
  | namelessInclude => "#include directive without a name"
  | unresolvedInclude name cause => s!"cannot resolve include '{name}': {cause.message}"
  | notUtf8 cause => s!"source is not valid UTF-8: {cause.message}"
  | other text => text

end ParseFault

structure ParseError where
  source : String
  line : UInt32
  fault : ParseFault
  deriving DecidableEq, Repr

def ParseError.message (e : ParseError) : String := s!"{e.source}:{e.line}: {e.fault.message}"

/-! ## Gating -/

/-- What is wrong with the conditionals of a text. -/
inductive ConditionalFault where
  | elifOnFlag
  | unmatchedElif
  | duplicateElse
  | unmatchedElse
  | unmatchedEndif
  | unterminated
  deriving DecidableEq, Repr

def ConditionalFault.message : ConditionalFault → String
  | .elifOnFlag => "#elif cannot continue a feature-flag conditional"
  | .unmatchedElif => "#elif without matching #if"
  | .duplicateElse => "duplicate #else"
  | .unmatchedElse => "#else without matching #ifdef"
  | .unmatchedEndif => "#endif without matching #ifdef"
  | .unterminated => "unterminated conditional block"

/-! ## Compiling -/

/-- What the program compiler reports: the stage and the line within it are given when they are known. -/
structure CompileFailure where
  stage : Option Stage
  line : Option UInt32
  text : String
  deriving DecidableEq, Repr

/-- The text of a compiler report. A line without a stage is left out. -/
def CompileFailure.message (f : CompileFailure) : String :=
  match f.stage, f.line with
  | some stage, some line => s!"[{stage.label}:{line}] {f.text}"
  | some stage, none => s!"[{stage.label}] {f.text}"
  | none, _ => f.text

/-! ## All failures -/

/-- A failure of loading, assembling, looking up or compiling. -/
inductive ShaderError where
  | parse (cause : ParseError)
  | io (name : String) (cause : IoError)
  | notLoaded (shader diagnostic : String)
  | cyclicDependency (cycle : List String)
  | danglingFragment (key : FragmentKey)
  | conditional (line : UInt32) (cause : ConditionalFault)
  | unknownShader (name : String)
  | unknownContext (shader context : String)
  | invalidContext (shader context : String) (cause : ContextFault)
  | unknownFlag (name : String)
  | fragmentInUse (name : String)
  | compile (shader context : String) (mask : Mask) (failure : CompileFailure)
  deriving DecidableEq, Repr

def ShaderError.message : ShaderError → String
  | .parse cause => s!"Parse error: {cause.message}"
  | .io name cause => s!"Failed to read source '{name}': {cause.message}"
  | .notLoaded shader diagnostic => s!"Shader '{shader}' is not loaded: {diagnostic}"
  | .cyclicDependency cycle =>
    let names := String.intercalate " -> " cycle
    s!"Cyclic include dependency: {names}"
  | .danglingFragment key => s!"Dangling fragment reference {displayFragmentKey key}"
  | .conditional line cause => s!"Conditional error at line {line}: {cause.message}"
  | .unknownShader name => s!"Unknown shader '{name}'"
  | .unknownContext shader context => s!"Shader '{shader}' has no context '{context}'"
  | .invalidContext shader context cause => invalidContextMessage shader context cause
  | .unknownFlag name => s!"Unknown flag '{name}'"
  | .fragmentInUse name => s!"Fragment '{name}' is still referenced"
  | .compile shader context mask failure =>
    s!"failed to compile shader '{shader}' context '{context}' combination {mask.display}: {failure.message}"

end ShaderVariant
