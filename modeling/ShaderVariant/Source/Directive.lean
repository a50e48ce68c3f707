import ShaderVariant.Error

/-!
# Directives

A directive is a line whose first mark is `#`, followed by a keyword of letters; white space may stand around both.

* `Directive.ofLine?` : the directive on a line;
* `Directive.splitInclude` : an include line as the text before the directive, the included name, and the text behind
  its closing delimiter;
* `flagRefs` : the names that the `#ifdef` and `#ifndef` lines of a text refer to, in order of first reference.
-/

namespace ShaderVariant

/-- A line for the preprocessor. `ifdef` and `ifndef` hold the name that they test, if one is given; `inclusion` holds
the text behind its keyword. -/
inductive Directive where
  | ifdef (name : Option String)
  | ifndef (name : Option String)
  | ifExpr
  | elifExpr
  | elseBranch
  | endif
  | inclusion (argument : Text)
  | other
  deriving DecidableEq, Repr

namespace Directive

/-- The identifier characters at the start of an argument, if there are any. -/
def argumentName? (argument : Text) : Option String :=
  let name := argument.takeWhile Text.isIdentifierChar
  if name.isEmpty then none else some (String.ofList name)

def ofKeyword (keyword : String) (argument : Text) : Directive :=
  match keyword with
  | "ifdef" => ifdef (argumentName? argument)
  | "ifndef" => ifndef (argumentName? argument)
  | "if" => ifExpr
  | "elif" => elifExpr
  | "else" => elseBranch
  | "endif" => endif
  | "include" => inclusion argument
  | _ => other

def ofLine? (line : Text) : Option Directive :=
  match line.trimStart with
  | '#' :: t =>
    let t := Text.trimStart t
    some (ofKeyword (String.ofList (t.takeWhile Text.isLetter)) (Text.trim (t.dropWhile Text.isLetter)))
  | _ => none

/-- The name that a line tests as a flag. -/
def flagRef? (line : Text) : Option String :=
  match ofLine? line with
  | some (ifdef name) => name
  | some (ifndef name) => name
  | _ => none

/-- The mark that closes a name opened by the first mark of an include argument. -/
def closing? : Text → Option (Char × Char)
  | '"' :: _ => some ('"', '"')
  | '<' :: _ => some ('<', '>')
  | _ => none

/-- An include line taken apart: the text before `#`, the name, and the text behind the closing mark. -/
def splitInclude (line argument : Text) : Except ParseFault (Text × String × Text) :=
  match closing? argument with
  | none => .error .malformedInclude
  | some (opening, closing) =>
    let before := line.takeWhile (· != '#')
    let inside := ((line.dropWhile (· != '#')).dropWhile (· != opening)).drop 1
    match inside.dropWhile (· != closing) with
    | [] => .error .unterminatedInclude
    | _ :: after =>
      let name := Text.trim (inside.takeWhile (· != closing))
      if name.isEmpty then .error .namelessInclude else .ok (before, String.ofList name, after)

end Directive

/-- The names tested as flags, in order of first reference. -/
def flagRefs (t : Text) : List String := (t.splitLines.filterMap Directive.flagRef?).eraseDups

end ShaderVariant
