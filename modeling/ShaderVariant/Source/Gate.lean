import ShaderVariant.Source.Directive

/-!
# Gating

Gating decides the `#ifdef` and `#ifndef` conditionals on declared flags for one mask. The lines of the branches that
are not taken, and the directives of those conditionals, become empty; all other lines stay, so that line numbers do
not change. Conditionals on other names, and `#if` and `#elif`, are left to the compiler and only tracked.

* `Gate.Frame` : an open conditional;
* `Gate.step` : what one line does: whether it stays, and the conditionals open behind it;
* `gate` : the text for a mask, or the first line at which its conditionals go wrong.
-/

namespace ShaderVariant

namespace Gate

/-- An open conditional: on a flag, with the branch in force and whether `#else` was seen, or on something else. Each
knows whether the text around it is kept and the line on which it was opened. -/
inductive Frame where
  | flag (taking seenElse parentActive : Bool) (line : UInt32)
  | foreign (parentActive : Bool) (line : UInt32)
  deriving DecidableEq, Repr

def Frame.active : Frame → Bool
  | flag taking _ parentActive _ => taking && parentActive
  | foreign parentActive _ => parentActive

def Frame.line : Frame → UInt32
  | flag _ _ _ line => line
  | foreign _ line => line

/-- Whether the text inside the open conditionals is kept. The innermost stands first. -/
def isActive : List Frame → Bool
  | [] => true
  | f :: _ => f.active

def bitOf? (v : Vocabulary) (name : Option String) : Option Nat := name.bind v.bitOf?

/-- Opens a conditional on a name: `wanted` says which value of the flag takes the first branch. -/
def openConditional (v : Vocabulary) (m : Mask) (wanted : Bool) (name : Option String) (line : UInt32)
    (stack : List Frame) : Bool × List Frame :=
  match bitOf? v name with
  | some bit => (false, .flag (m.isSet bit == wanted) false (isActive stack) line :: stack)
  | none => (isActive stack, .foreign (isActive stack) line :: stack)

/-- What a line does under the open conditionals: whether it is kept, and the conditionals open behind it. -/
def step (v : Vocabulary) (m : Mask) (line : UInt32) (stack : List Frame) :
    Option Directive → Except ConditionalFault (Bool × List Frame)
  | some (.ifdef name) => .ok (openConditional v m true name line stack)
  | some (.ifndef name) => .ok (openConditional v m false name line stack)
  | some .ifExpr => .ok (isActive stack, .foreign (isActive stack) line :: stack)
  | some .elifExpr =>
    match stack with
    | .flag .. :: _ => .error .elifOnFlag
    | .foreign parentActive _ :: _ => .ok (parentActive, stack)
    | [] => .error .unmatchedElif
  | some .elseBranch =>
    match stack with
    | .flag _ true _ _ :: _ => .error .duplicateElse
    | .flag taking false parentActive opened :: rest => .ok (false, .flag (!taking) true parentActive opened :: rest)
    | .foreign parentActive _ :: _ => .ok (parentActive, stack)
    | [] => .error .unmatchedElse
  | some .endif =>
    match stack with
    | .flag .. :: rest => .ok (false, rest)
    | .foreign parentActive _ :: rest => .ok (parentActive, rest)
    | [] => .error .unmatchedEndif
  | some (.inclusion _) => .ok (isActive stack, stack)
  | some .other => .ok (isActive stack, stack)
  | none => .ok (isActive stack, stack)

/-- What is left of a line that is not kept: its line feed. -/
def reduce (line : Text) : Text := if line.endsLine then ['\n'] else []

def gateLines (v : Vocabulary) (m : Mask) (line : UInt32) (stack : List Frame) :
    List Text → Except (UInt32 × ConditionalFault) (List Text)
  | [] =>
    match stack with
    | [] => .ok []
    | f :: _ => .error (f.line, .unterminated)
  | l :: ls =>
    match step v m line stack (Directive.ofLine? l) with
    | .error fault => .error (line, fault)
    | .ok (keep, stack) =>
      match gateLines v m (line + 1) stack ls with
      | .error e => .error e
      | .ok out => .ok ((if keep then l else reduce l) :: out)

end Gate

/-- The text for a mask, with the line numbers of `t`. -/
def gate (v : Vocabulary) (m : Mask) (t : Text) : Except ShaderError Text :=
  match Gate.gateLines v m 1 [] t.splitLines with
  | .error (line, fault) => .error (.conditional line fault)
  | .ok lines => .ok lines.flatten

end ShaderVariant
