import ShaderVariant.Error

/-!
# Sections

A shader file is split at its header lines, `[[NAME]]` with white space allowed behind it. What stands before the
first header has to be blank.

* `Section.header?` : the name on a header line;
* `Section.cut` : the lines of a file before the first header, and its sections;
* `Section.split` : the sections, or the first fault in the order of the lines.
-/

namespace ShaderVariant

/-- A section: its name, its text, and the line of the file on which the text starts. -/
structure Section where
  name : String
  body : Text
  firstLine : UInt32
  deriving DecidableEq, Repr

namespace Section

def header? (line : Text) : Option String :=
  (Text.stripFront? "[[".toList line.trimEnd).bind fun t =>
    (Text.stripBack? "]]".toList t).map fun name => String.ofList name.trim

/-- Puts a numbered line before what follows it: a header opens a section with the lines collected behind it. -/
def consLine (line : Text × Nat) (after : List Text × List Section) : List Text × List Section :=
  match header? line.1 with
  | some name => ([], ⟨name, after.1.flatten, UInt32.ofNat (line.2 + 1)⟩ :: after.2)
  | none => (line.1 :: after.1, after.2)

def cut (t : Text) : List Text × List Section := ((t.splitLines.zipIdx 1).foldr consLine ([], []))

/-- The first section that has no name or the name of an earlier one. -/
def check (source : String) (seen : List String) : List Section → Except ParseError Unit
  | [] => .ok ()
  | s :: ss =>
    if s.name = "" then .error ⟨source, s.firstLine - 1, .emptySectionName⟩
    else if s.name ∈ seen then .error ⟨source, s.firstLine - 1, .duplicateSection s.name⟩
    else check source (seen ++ [s.name]) ss

def isBlankText (t : Text) : Bool := t.all Text.isBlank

/-- Splits a file into sections. The name of the first header is looked at before the text above it. -/
def split (source : String) (t : Text) : Except ParseError (List Section) :=
  match cut t with
  | (prologue, []) => if isBlankText prologue.flatten then .ok [] else .error ⟨source, 1, .missingHeaders⟩
  | (prologue, s :: ss) =>
    if s.name = "" then .error ⟨source, s.firstLine - 1, .emptySectionName⟩
    else if !isBlankText prologue.flatten then .error ⟨source, 1, .contentBeforeHeader⟩
    else match check source [] (s :: ss) with
      | .error e => .error e
      | .ok () => .ok (s :: ss)

end Section

end ShaderVariant
