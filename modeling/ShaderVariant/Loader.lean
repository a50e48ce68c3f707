import ShaderVariant.Error
import ShaderVariant.Source.Directive
import ShaderVariant.Table.Assoc

/-!
# Loaders

A loader serves the bytes of named sources and counts the successful readings.

* `Loader.ofSources`, `Loader.ofReadings` : a loader of sources in memory, and of what reading some names gave;
* `Loader.read` : the bytes of a source;
* `decodeSource` : the text of a source, which must be UTF-8;
* `includedNames` : the names that the include lines of a source mention.
-/

namespace ShaderVariant

/-- Named sources. `fault` says why a name that is not among them cannot be read. -/
structure Loader where
  sources : Assoc String Bytes
  fault : String → IoError
  reads : Nat

namespace Loader

def ofSources (sources : Assoc String Bytes) : Loader := { sources, fault := .noSource, reads := 0 }

instance : Inhabited Loader := ⟨ofSources []⟩

/-- Why a name cannot be read, by what reading some names gave. -/
def faultIn (readings : Assoc String (Except IoError Bytes)) (name : String) : IoError :=
  match readings.get? name with
  | some (.error e) => e
  | _ => .notFound

/-- A loader that repeats what reading some names gave. There is no other source. -/
def ofReadings (readings : Assoc String (Except IoError Bytes)) : Loader :=
  { sources := readings.filterMap fun r => r.2.toOption.map (r.1, ·), fault := faultIn readings, reads := 0 }

def insert (l : Loader) (name : String) (bytes : Bytes) : Loader := { l with sources := l.sources.set name bytes }

def remove (l : Loader) (name : String) : Loader := { l with sources := l.sources.erase name }

def has (l : Loader) (name : String) : Bool := l.sources.has name

def read (l : Loader) (name : String) : Except IoError Bytes × Loader :=
  match l.sources.get? name with
  | none => (.error (l.fault name), l)
  | some bytes => (.ok bytes, { l with reads := l.reads + 1 })

end Loader

def decodeSource (name : String) (bytes : Bytes) : Except ParseError Text :=
  match Utf8.decode bytes with
  | .error e => .error ⟨name, 0, .notUtf8 e⟩
  | .ok t => .ok t

theorem length_of_decodeSource {name : String} {bytes : Bytes} {t : Text} (h : decodeSource name bytes = .ok t) :
    t.length ≤ bytes.length := by
  unfold decodeSource at h
  split at h
  · cases h
  · next ht =>
    cases h
    exact Utf8.length_of_decode ht

def includedName? (line : Text) : Option String :=
  match Directive.ofLine? line with
  | some (.inclusion argument) =>
    match Directive.splitInclude line argument with
    | .error _ => none
    | .ok (_, name, _) => some name
  | _ => none

def includedNames (bytes : Bytes) : List String :=
  match Utf8.decode bytes with
  | .error _ => []
  | .ok t => t.splitLines.filterMap includedName?

end ShaderVariant
