import ShaderVariant.Json.Record
import ShaderVariant.Settings.Basic

/-!
# Settings as JSON

* `Settings.ofJson` : settings from a text; fields that are not written have their defaults;
* `Settings.toJson` : the text of settings, with all fields in a fixed order.
-/

namespace ShaderVariant.Settings

open Json

/-- The name of a stage's preamble is the label of the stage. -/
def preambleField (s : Stage) : RecordField (PerStage Text) :=
  .of s.label readText shortens_readText fun preamble p => p.set s preamble

def preambleFields : List (RecordField (PerStage Text)) := Stage.all.map preambleField

def switchField (name : String) (set : Bool → Settings → Settings) : RecordField Settings :=
  .of name readBool shortens_readBool set

/-- The preambles of the settings. Those that are not written are empty. -/
def preamblesField : RecordField Settings :=
  .of "preambles" (readRecord preambleFields (.uniform [])) (shortens_readRecord _ _) fun p s => { s with preambles := p }

def fields : List (RecordField Settings) :=
  [preamblesField,
    switchField "emit_flag_defines" fun b s => { s with emitFlagDefines := b },
    switchField "strict_flags" fun b s => { s with strictFlags := b },
    switchField "memoize_assembly" fun b s => { s with memoizeAssembly := b },
    switchField "mask_unused_flags" fun b s => { s with maskUnusedFlags := b }]

def ofJson (t : Text) : Except Fault Settings := readDocument (readRecord fields default) t

def preambleMembers (p : PerStage Text) : List (String × Text) := Stage.all.map fun s => (s.label, quote (p.get s))

def toJson (s : Settings) : Text :=
  writeObject 1
    [("preambles", writeObject 2 (preambleMembers s.preambles)),
      ("emit_flag_defines", writeBool s.emitFlagDefines),
      ("strict_flags", writeBool s.strictFlags),
      ("memoize_assembly", writeBool s.memoizeAssembly),
      ("mask_unused_flags", writeBool s.maskUnusedFlags)]

end ShaderVariant.Settings
