import ShaderVariant.Declaration.ShaderSource
import Mathlib.Data.Finset.Card
import Mathlib.Data.Finset.Dedup

/-!
# The grammar of declarations

The declaration section as a sequence of declarations, apart from how it is read.

* `Grammar.Declaration` : a declaration with its fields, in the order in which they are written;
* `Grammar.Derives` : the tokens of declarations, where `R g t` says that the text may have `t` where the grammar has
  the mark or the word `g`. `Derives Eq` is the grammar to the letter; in `Derives Token.Alike` marks and the words
  `sampler_state` and `compile` may be any token of their spelling, so that quoted strings may stand for them;
* `Grammar.Admissible` : the conditions on declarations that go beyond the grammar;
* `ShaderSource.Declares` : a parsed source has what declarations introduce, in order.
-/

namespace ShaderVariant

/-- The second token spells what the first one does, of whatever kind it is. -/
def Token.Alike (g t : Token) : Prop := t.spelling = g.spelling

def Section.tokens (s : Section) : List Token := (Token.lex s.body s.firstLine).1.map (·.token)

namespace Grammar

/-! ## Declarations -/

inductive SamplerField where
  | texture (file : String)
  | unit (found : Int)
  | address (mode : AddressMode)
  | filter (mode : FilterMode)
  | anisotropy (found : Int)

inductive StateField where
  | depthWrite (on : Bool)
  | depthTest (on : Bool)
  | alphaToCoverage (on : Bool)
  | depthFunc (func : DepthFunc)
  | cullMode (mode : CullMode)
  | blendPreset (preset : BlendPreset)
  | blendFactors (source destination : BlendFactor)
  | patchVertices (found : Int)

/-- A field of a context: the code section of a stage, or a field of the render state. -/
inductive ContextField where
  | stage (bound : Stage) (code : String)
  | state (field : StateField)

inductive Declaration where
  | flag (name : String)
  | sampler (kind : SamplerKind) (name : String) (fields : List SamplerField)
  | uniform (kind : UniformKind) (name : String) (defaults : List Binary32)
  | buffer (name : String)
  | context (name : String) (fields : List ContextField)

/-! ## How they are written -/

def IsIdentifier (name : String) : Prop := Text.isIdentifier name.toList = true

instance (name : String) : Decidable (IsIdentifier name) := inferInstanceAs (Decidable (_ = true))

def IsInt (w : String) (found : Int) : Prop := Numeral.int64? w.toList = some found

/-- A word that is a number, with or without the letter behind it. -/
def IsFloat (w : String) (value : Binary32) : Prop := Binary32.parse? (Reader.dropFloatSuffix w.toList) = some value

def switchWord (on : Bool) : String := if on then "true" else "false"

def stageKeys : List (String × Stage) :=
  [("VertexShader", .vertex), ("PixelShader", .fragment), ("FragmentShader", .fragment), ("GeometryShader", .geometry),
    ("TessCtlShader", .tessControl), ("TessEvalShader", .tessEval), ("ComputeShader", .compute)]

def samplerKeyword : SamplerKind → String
  | .tex2D => "sampler2D"
  | .tex3D => "sampler3D"
  | .texCube => "samplerCube"
  | .tex2DArray => "sampler2DArray"

def uniformKeyword : UniformKind → String
  | .float => "float"
  | .float4 => "float4"

/-- The key of a sampler field, and the tokens of its value. -/
inductive SamplerField.Written : SamplerField → String → List Token → Prop
  | texture (file : String) : Written (.texture file) "Texture" [.quoted file]
  | unit {w : String} {found : Int} (int : IsInt w found) : Written (.unit found) "TexUnit" [.word w]
  | address (mode : AddressMode) : Written (.address mode) "Address" [.word mode.name]
  | filter (mode : FilterMode) : Written (.filter mode) "Filter" [.word mode.name]
  | anisotropy {w : String} {found : Int} (int : IsInt w found) : Written (.anisotropy found) "MaxAnisotropy" [.word w]

section Written

variable (R : Token → Token → Prop)

/-- The key of a render state field, and the tokens of its value. -/
inductive StateField.Written : StateField → String → List Token → Prop
  | depthWrite (on : Bool) : Written (.depthWrite on) "ZWriteEnable" [.word (switchWord on)]
  | depthTest (on : Bool) : Written (.depthTest on) "ZEnable" [.word (switchWord on)]
  | alphaToCoverage (on : Bool) : Written (.alphaToCoverage on) "AlphaToCoverage" [.word (switchWord on)]
  | depthFunc (func : DepthFunc) : Written (.depthFunc func) "ZFunc" [.word func.name]
  | cullMode (mode : CullMode) : Written (.cullMode mode) "CullMode" [.word mode.name]
  | blendPreset (preset : BlendPreset) : Written (.blendPreset preset) "BlendMode" [.word preset.name]
  | blendFactors (source destination : BlendFactor) {opening comma closing : Token} (opens : R (.punct '\x7b') opening)
      (separates : R (.punct ',') comma) (closes : R (.punct '\x7d') closing) :
      Written (.blendFactors source destination) "BlendMode"
        [opening, .word source.name, comma, .word destination.name, closing]
  | patchVertices {w : String} {found : Int} (int : IsInt w found) :
      Written (.patchVertices found) "TessPatchVertices" [.word w]

/-- The key of a context field, and the tokens of its value. -/
inductive ContextField.Written : ContextField → String → List Token → Prop
  | stage {key language code : String} {bound : Stage} {compile : Token} (hkey : (key, bound) ∈ stageKeys)
      (compiles : R (.word "compile") compile) (hlanguage : IsIdentifier language) (hcode : IsIdentifier code) :
      Written (.stage bound code) key [compile, .word language, .word code]
  | state {field : StateField} {key : String} {value : List Token} (written : field.Written R key value) :
      Written (.state field) key value

/-- Fields: a key, `=`, a value and `;` for each. `Value` tells the key and the value of a field. -/
inductive Fields {F : Type} (Value : F → String → List Token → Prop) : List F → List Token → Prop
  | nil : Fields Value [] []
  | cons {f : F} {fs : List F} {key : String} {value ts : List Token} {equals ends : Token}
      (written : Value f key value) (sets : R (.punct '=') equals) (closes : R (.punct ';') ends)
      (others : Fields Value fs ts) :
      Fields Value (f :: fs) (.word key :: equals :: (value ++ ends :: ts))

/-- Annotations, from `<` to the first `>`. They may be absent. -/
inductive Annotations : List Token → Prop
  | absent : Annotations []
  | present {opening : Token} {inner : List Token} (opens : R (.punct '<') opening)
      (inside : ∀ t ∈ inner, t ≠ .punct '>') : Annotations (opening :: (inner ++ [.punct '>']))

inductive Numbers : List Binary32 → List Token → Prop
  | last {w : String} {value : Binary32} (float : IsFloat w value) : Numbers [value] [.word w]
  | more {w : String} {value : Binary32} {values : List Binary32} {comma : Token} {ts : List Token}
      (float : IsFloat w value) (separates : R (.punct ',') comma) (others : Numbers values ts) :
      Numbers (value :: values) (.word w :: comma :: ts)

/-- The default values of a uniform: one number or several in braces behind `=`. They may be absent. -/
inductive Defaults : List Binary32 → List Token → Prop
  | absent : Defaults [] []
  | single {w : String} {value : Binary32} {equals : Token} (sets : R (.punct '=') equals) (float : IsFloat w value) :
      Defaults [value] [equals, .word w]
  | braced {values : List Binary32} {equals opening closing : Token} {ts : List Token} (sets : R (.punct '=') equals)
      (opens : R (.punct '\x7b') opening) (numbers : Numbers R values ts) (closes : R (.punct '\x7d') closing) :
      Defaults values (equals :: opening :: (ts ++ [closing]))

/-- The tokens of a declaration behind its keyword. The keyword is the text in the middle. -/
inductive Declaration.Written : Declaration → String → List Token → Prop
  | flag {name : String} {ends : Token} (hname : IsIdentifier name) (closes : R (.punct ';') ends) :
      Written (.flag name) "flag" [.word name, ends]
  | sampler {kind : SamplerKind} {name : String} {ends : Token} (hname : IsIdentifier name)
      (closes : R (.punct ';') ends) : Written (.sampler kind name []) (samplerKeyword kind) [.word name, ends]
  | samplerState {kind : SamplerKind} {name : String} {fields : List SamplerField} {ts : List Token}
      {equals state opening closing ends : Token} (hname : IsIdentifier name) (sets : R (.punct '=') equals)
      (states : R (.word "sampler_state") state) (opens : R (.punct '\x7b') opening)
      (hfields : Fields R SamplerField.Written fields ts) (closes : R (.punct '\x7d') closing)
      (ended : R (.punct ';') ends) :
      Written (.sampler kind name fields) (samplerKeyword kind)
        (.word name :: equals :: state :: opening :: (ts ++ [closing, ends]))
  | uniform {kind : UniformKind} {name : String} {defaults : List Binary32} {ts us : List Token} {ends : Token}
      (hname : IsIdentifier name) (annotations : Annotations R ts) (hdefaults : Defaults R defaults us)
      (closes : R (.punct ';') ends) :
      Written (.uniform kind name defaults) (uniformKeyword kind) (.word name :: (ts ++ (us ++ [ends])))
  | buffer {name : String} {ends : Token} (hname : IsIdentifier name) (closes : R (.punct ';') ends) :
      Written (.buffer name) "buffer" [.word name, ends]
  | context {name : String} {fields : List ContextField} {ts : List Token} {opening closing : Token}
      (hname : IsIdentifier name) (opens : R (.punct '\x7b') opening)
      (hfields : Fields R (ContextField.Written R) fields ts) (closes : R (.punct '\x7d') closing) :
      Written (.context name fields) "context" (.word name :: opening :: (ts ++ [closing]))
  | contextEnded {name : String} {fields : List ContextField} {ts : List Token} {opening closing ends : Token}
      (hname : IsIdentifier name) (opens : R (.punct '\x7b') opening)
      (hfields : Fields R (ContextField.Written R) fields ts) (closes : R (.punct '\x7d') closing)
      (ended : R (.punct ';') ends) :
      Written (.context name fields) "context" (.word name :: opening :: (ts ++ [closing, ends]))

inductive Derives : List Declaration → List Token → Prop
  | nil : Derives [] []
  | cons {d : Declaration} {ds : List Declaration} {keyword : String} {ts us : List Token}
      (first : d.Written R keyword ts) (others : Derives ds us) : Derives (d :: ds) (.word keyword :: (ts ++ us))

end Written

/-! ## Freer spelling -/

section Mono

variable {R S : Token → Token → Prop} (hRS : ∀ g t, R g t → S g t)

include hRS

theorem StateField.Written.mono {f : StateField} {key : String} {value : List Token} (h : f.Written R key value) :
    f.Written S key value := by
  cases h with
  | depthWrite on => exact .depthWrite on
  | depthTest on => exact .depthTest on
  | alphaToCoverage on => exact .alphaToCoverage on
  | depthFunc func => exact .depthFunc func
  | cullMode mode => exact .cullMode mode
  | blendPreset preset => exact .blendPreset preset
  | blendFactors source destination ho hc hcl =>
    exact .blendFactors source destination (hRS _ _ ho) (hRS _ _ hc) (hRS _ _ hcl)
  | patchVertices hint => exact .patchVertices hint

theorem ContextField.Written.mono {f : ContextField} {key : String} {value : List Token} (h : f.Written R key value) :
    f.Written S key value := by
  cases h with
  | stage hkey hcompile hlanguage hcode => exact .stage hkey (hRS _ _ hcompile) hlanguage hcode
  | state hw => exact .state (hw.mono hRS)

theorem Fields.mono {F : Type} {V W : F → String → List Token → Prop}
    (hVW : ∀ f key value, V f key value → W f key value) {fs : List F} {ts : List Token} (h : Fields R V fs ts) :
    Fields S W fs ts := by
  induction h with
  | nil => exact .nil
  | cons hw heq hends _ ih => exact .cons (hVW _ _ _ hw) (hRS _ _ heq) (hRS _ _ hends) ih

theorem Numbers.mono {values : List Binary32} {ts : List Token} (h : Numbers R values ts) : Numbers S values ts := by
  induction h with
  | last hfloat => exact .last hfloat
  | more hfloat hc _ ih => exact .more hfloat (hRS _ _ hc) ih

theorem Declaration.Written.mono {d : Declaration} {keyword : String} {ts : List Token} (h : d.Written R keyword ts) :
    d.Written S keyword ts := by
  cases h with
  | flag hid hends => exact .flag hid (hRS _ _ hends)
  | sampler hid hends => exact .sampler hid (hRS _ _ hends)
  | samplerState hid heq hstate ho hfields hcl hends =>
    exact .samplerState hid (hRS _ _ heq) (hRS _ _ hstate) (hRS _ _ ho) (hfields.mono hRS fun _ _ _ => id) (hRS _ _ hcl)
      (hRS _ _ hends)
  | uniform hid hannotations hdefaults hends =>
    refine .uniform hid ?_ ?_ (hRS _ _ hends)
    · cases hannotations with
      | absent => exact .absent
      | present ho hinner => exact .present (hRS _ _ ho) hinner
    · cases hdefaults with
      | absent => exact .absent
      | single heq hfloat => exact .single (hRS _ _ heq) hfloat
      | braced heq ho hnumbers hcl => exact .braced (hRS _ _ heq) (hRS _ _ ho) (hnumbers.mono hRS) (hRS _ _ hcl)
  | buffer hid hends => exact .buffer hid (hRS _ _ hends)
  | context hid ho hfields hcl =>
    exact .context hid (hRS _ _ ho) (hfields.mono hRS fun _ _ _ hw => hw.mono hRS) (hRS _ _ hcl)
  | contextEnded hid ho hfields hcl hends =>
    exact .contextEnded hid (hRS _ _ ho) (hfields.mono hRS fun _ _ _ hw => hw.mono hRS) (hRS _ _ hcl) (hRS _ _ hends)

/-- Tokens that derive from declarations do so where marks and words may be spelled in more ways. -/
theorem Derives.mono {ds : List Declaration} {ts : List Token} (h : Derives R ds ts) : Derives S ds ts := by
  induction h with
  | nil => exact .nil
  | cons hw _ ih => exact .cons (hw.mono hRS) ih

end Mono

/-- A declaration ends with a semicolon, or a context with its closing brace. -/
theorem Declaration.Written.getLast {R : Token → Token → Prop} {d : Declaration} {keyword : String} {ts : List Token}
    (h : d.Written R keyword ts) : ∃ t, ts.getLast? = some t ∧
      (R (.punct ';') t ∨ (∃ name fields, d = .context name fields) ∧ R (.punct '\x7d') t) := by
  cases h with
  | flag _ hends | sampler _ hends | buffer _ hends => exact ⟨_, rfl, Or.inl hends⟩
  | samplerState _ _ _ _ _ _ hends | contextEnded _ _ _ _ hends | uniform _ _ _ hends =>
    exact ⟨_, by simp [List.getLast?_cons], Or.inl hends⟩
  | context _ _ _ hcl => exact ⟨_, by simp [List.getLast?_cons], Or.inr ⟨⟨_, _, rfl⟩, hcl⟩⟩

theorem Derives.getLast {R : Token → Token → Prop} {ds : List Declaration} {ts : List Token} (h : Derives R ds ts)
    {t : Token} (ht : ts.getLast? = some t) : R (.punct ';') t ∨ R (.punct '\x7d') t := by
  induction h with
  | nil => cases ht
  | @cons d ds keyword ts us hw _ ih =>
    obtain ⟨last, hlast, hend⟩ := hw.getLast
    cases hus : us.getLast? with
    | none =>
      simp only [List.getLast?_cons, List.getLast?_append, hlast, hus, Option.none_or, Option.getD_some,
        Option.some.injEq] at ht
      exact ht ▸ hend.imp_right And.right
    | some u =>
      simp only [List.getLast?_cons, List.getLast?_append, hus, Option.some_or, Option.getD_some,
        Option.some.injEq] at ht
      exact ih (hus.trans (congrArg some ht))

/-! ## What they mean -/

def SamplerField.applyTo (s : SamplerDraft) : SamplerField → SamplerDraft
  | texture file => { s with texture := some file }
  | unit found => { s with unit := some found.toNat }
  | address mode => { s with address := mode }
  | filter mode => { s with filter := mode }
  | anisotropy found => { s with anisotropy := found.toNat }

def SamplerField.InRange : SamplerField → Prop
  | unit found => 0 ≤ found ∧ found < textureUnits
  | anisotropy found => 1 ≤ found ∧ found ≤ 16
  | _ => True

def StateField.applyTo (s : RenderState) : StateField → RenderState
  | depthWrite on => { s with depthWrite := on }
  | depthTest on => { s with depthTest := on }
  | alphaToCoverage on => { s with alphaToCoverage := on }
  | depthFunc func => { s with depthFunc := func }
  | cullMode mode => { s with cullMode := mode }
  | blendPreset preset => s.withPreset preset
  | blendFactors source destination => s.withFactors source destination
  | patchVertices found => { s with patchVertices := UInt16.ofNat found.toNat }

def StateField.InRange : StateField → Prop
  | patchVertices found => 1 ≤ found ∧ found ≤ 65535
  | _ => True

/-- A context with another field. `sections` are the names of the code sections. -/
def ContextField.applyTo (sections : List String) (c : ContextDecl) : ContextField → ContextDecl
  | stage bound code => { c with stages := c.stages.bind bound (sections.idxOf code) }
  | state field => { c with renderState := field.applyTo c.renderState }

/-- The code section of a stage exists, and a number is one that the field may have. -/
def ContextField.Fits (sections : List String) : ContextField → Prop
  | stage _ code => code ∈ sections
  | state field => field.InRange

def samplerOf (line : UInt32) (kind : SamplerKind) (name : String) (fields : List SamplerField) : SamplerDraft :=
  fields.foldl SamplerField.applyTo (.ofName name kind line)

def contextOf (sections : List String) (name : String) (fields : List ContextField) : ContextDecl :=
  fields.foldl (ContextField.applyTo sections) (.ofName name)

namespace Declaration

def flag? : Declaration → Option String
  | flag name => some name
  | _ => none

/-- The sampler that is declared, as if on line 0. -/
def sampler? : Declaration → Option SamplerDraft
  | sampler kind name fields => some (samplerOf 0 kind name fields)
  | _ => none

def uniform? : Declaration → Option Uniform
  | uniform kind name defaults => some (.ofValues name kind defaults)
  | _ => none

def buffer? : Declaration → Option String
  | buffer name => some name
  | _ => none

def context? (sections : List String) : Declaration → Option ContextDecl
  | context name fields => some (contextOf sections name fields)
  | _ => none

def resource? : Declaration → Option String
  | sampler _ name _ => some name
  | uniform _ name _ => some name
  | buffer name => some name
  | _ => none

/-- What a declaration has to fulfil for itself. -/
def Fits (sections : List String) : Declaration → Prop
  | sampler _ _ fields => ∀ f ∈ fields, f.InRange
  | uniform kind _ defaults => defaults.length ≤ kind.size
  | context name fields =>
    (∀ f ∈ fields, f.Fits sections) ∧ (contextOf sections name fields).stages.fault? = none
  | _ => True

end Declaration

/-- What declarations have to fulfil together, apart from texture units. -/
structure Consistent (sections : List String) (ds : List Declaration) : Prop where
  flags : (ds.filterMap Declaration.flag?).Nodup
  flags_le : (ds.filterMap Declaration.flag?).length ≤ maxFlags
  resources : (ds.filterMap Declaration.resource?).Nodup
  contexts : ((ds.filterMap (Declaration.context? sections)).map ContextDecl.name).Nodup
  fits : ∀ d ∈ ds, d.Fits sections

/-- The samplers without a unit fit into the units that the others leave. -/
def HasUnits (ss : List SamplerDraft) : Prop :=
  ss.countP (·.unit.isNone) + (ss.filterMap (·.unit)).toFinset.card ≤ textureUnits

/-- The conditions on declarations that go beyond the grammar. -/
structure Admissible (sections : List String) (ds : List Declaration) : Prop extends Consistent sections ds where
  units : HasUnits (ds.filterMap Declaration.sampler?)

end Grammar

open Grammar in
/-- A source has what declarations introduce, in order, and code sections. -/
structure ShaderSource.Declares (source : ShaderSource) (code : List CodeSection) (ds : List Declaration) : Prop where
  flags : source.vocabulary.names = ds.filterMap Declaration.flag?
  samplers : SamplerDraft.assignUnits (ds.filterMap Declaration.sampler?) = .ok source.samplers
  uniforms : source.uniforms = ds.filterMap Declaration.uniform?
  buffers : source.buffers = ds.filterMap Declaration.buffer?
  contexts : source.contexts = ds.filterMap (Declaration.context? (code.map CodeSection.name))
  sections : source.sections = code

end ShaderVariant
