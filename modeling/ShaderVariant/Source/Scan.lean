import ShaderVariant.Source.Directive

/-!
# Scanned sources

Scanning takes the include directives out of a source and remembers where they stood.

* `Scanned.ofText` : the text without its include directives, the includes with their byte offsets in that text and
  their lines in the file, and the flags referred to; or the first include line that is malformed.
-/

namespace ShaderVariant

/-- An include that is not resolved yet: the name, the byte offset where the included text belongs, and the line. -/
structure PendingInclude where
  name : String
  offset : Nat
  line : UInt32
  deriving DecidableEq, Repr

structure Scanned where
  text : Text
  includes : List PendingInclude
  flagRefs : List String
  deriving DecidableEq, Repr

namespace Scanned

/-- The text of lines without their include directives, and the includes. `line` is the number of the first line, and
`offset` the length of the text before it. -/
def scanLines (source : String) (line : UInt32) (offset : Nat) :
    List Text → Except ParseError (Text × List PendingInclude)
  | [] => .ok ([], [])
  | l :: ls =>
    match Directive.ofLine? l with
    | some (.inclusion argument) =>
      match Directive.splitInclude l argument with
      | .error fault => .error ⟨source, line, fault⟩
      | .ok (before, name, after) =>
        match scanLines source (line + 1) (offset + before.byteLength + after.byteLength) ls with
        | .error e => .error e
        | .ok (text, includes) =>
          .ok (before ++ after ++ text, ⟨name, offset + before.byteLength, line⟩ :: includes)
    | _ =>
      match scanLines source (line + 1) (offset + l.byteLength) ls with
      | .error e => .error e
      | .ok (text, includes) => .ok (l ++ text, includes)

theorem length_includes_of_scanLines {source : String} {ls : List Text} {line : UInt32} {offset : Nat}
    {r : Text × List PendingInclude} (h : scanLines source line offset ls = .ok r) : r.2.length ≤ ls.length := by
  fun_induction scanLines source line offset ls generalizing r with
  | case1 => cases h; exact Nat.le_refl _
  | case2 => cases h
  | case3 => cases h
  | case4 line offset l ls argument _ before name after _ text includes hrest ih =>
    cases h
    exact Nat.succ_le_succ (ih hrest)
  | case5 => cases h
  | case6 line offset l ls text includes hrest _ ih =>
    cases h
    have := ih hrest
    exact Nat.le_trans this (Nat.le_succ _)

def ofText (source : String) (t : Text) (firstLine : UInt32) : Except ParseError Scanned :=
  match scanLines source firstLine 0 t.splitLines with
  | .error e => .error e
  | .ok (text, includes) => .ok ⟨text, includes, ShaderVariant.flagRefs t⟩

theorem length_includes_of_ofText {source : String} {t : Text} {firstLine : UInt32} {scanned : Scanned}
    (h : ofText source t firstLine = .ok scanned) : scanned.includes.length ≤ t.length := by
  unfold ofText at h
  split at h
  · cases h
  · next text includes hlines =>
    cases h
    exact Nat.le_trans (length_includes_of_scanLines hlines) (Text.length_splitLines_le t)

end Scanned

end ShaderVariant
