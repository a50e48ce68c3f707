import ShaderVariant.Compiler.Basic
import ShaderVariant.Table.Assoc
import ShaderVariant.Table.Distinct

/-!
# The dry-run compiler

A deterministic compiler without a graphics device.

* Programs are numbered from 1 on.
* A request without stages fails, and so does one with an `#error` line; the first such line of the first such stage is
  reported.
* The slot of a uniform is the number of distinct identifiers that occur before it; samplers and buffers that occur are
  at their unit and index.

`DryRun.compile`, `DryRun.release` and `DryRun.slot?` do the work; `compiles`, `failures`, `releases` and `live` count it.
-/

namespace ShaderVariant

/-- What the compiler keeps of a live program: its sources, and its identifiers in order of first occurrence. -/
structure LinkedProgram where
  stages : List StageSource
  identifiers : List String
  deriving DecidableEq, Repr

/-- The state of the dry-run compiler. -/
structure DryRun where
  issued : UInt32
  programs : Assoc Program LinkedProgram
  compiles : Nat
  failures : Nat
  releases : Nat

namespace DryRun

def empty : DryRun := { issued := 0, programs := [], compiles := 0, failures := 0, releases := 0 }

instance : Inhabited DryRun := ⟨empty⟩

/-! ## Identifiers -/

/-- The runs of identifier characters of a text, empty ones among them. -/
def pieces (t : Text) : List Text := Text.splitWhere (fun c => !Text.isIdentifierChar c) t

/-- Whether a piece is an identifier: it is not empty and starts with a letter or `_`. -/
def startsIdentifier (p : Text) : Bool := (p.head?.map Text.isIdentifierStart).getD false

def occurrences (t : Text) : List String := ((pieces t).filter startsIdentifier).map String.ofList

/-- The identifiers of all stages, in order of first occurrence. -/
def identifiers (stages : List StageSource) : List String :=
  distinct (stages.flatMap fun s => occurrences s.source)

/-! ## Errors in sources -/

def errorLine? (line : Text) : Option String :=
  (Text.stripFront? "#error".toList line.trimStart).map fun t => String.ofList t.trim

def firstErrorLine? (stage : Stage) (n : UInt32) : List Text → Option CompileFailure
  | [] => none
  | l :: ls =>
    match errorLine? l with
    | some text => some { stage := some stage, line := some n, text }
    | none => firstErrorLine? stage (n + 1) ls

def stageError? (s : StageSource) : Option CompileFailure := firstErrorLine? s.stage 1 s.source.lines

/-- Why the stages of a request do not compile. -/
def failure? (stages : List StageSource) : Option CompileFailure :=
  if stages.isEmpty then some { stage := none, line := none, text := "program has no stages" }
  else stages.findSome? stageError?

/-! ## Calls -/

def compile (r : CompileRequest) (c : DryRun) : Except CompileFailure Program × DryRun :=
  match failure? r.stages with
  | some f => (.error f, { c with compiles := c.compiles + 1, failures := c.failures + 1 })
  | none =>
    let p : Program := ⟨c.issued + 1⟩
    (.ok p,
      { c with
        compiles := c.compiles + 1
        issued := c.issued + 1
        programs := c.programs.set p ⟨r.stages, identifiers r.stages⟩ })

def isLive (c : DryRun) (p : Program) : Bool := c.programs.has p

/-- Destroys a program. A program that is not live changes nothing. -/
def release (p : Program) (c : DryRun) : DryRun :=
  if c.isLive p then { c with programs := c.programs.erase p, releases := c.releases + 1 } else c

def sources? (c : DryRun) (p : Program) : Option (List StageSource) := (c.programs.get? p).map (·.stages)

def live (c : DryRun) : Nat := c.programs.length

def slot? (c : DryRun) (p : Program) (kind : SlotKind) (name : String) : Option Int32 :=
  (c.programs.get? p).bind fun linked =>
    (linked.identifiers.findIdx? (· == name)).map fun ordinal =>
      match kind with
      | .uniform => Int32.ofNat ordinal
      | .sampler unit => unit.toInt32
      | .buffer index => index.toInt32

instance : ProgramCompiler DryRun := ⟨compile, release, slot?⟩

end DryRun

end ShaderVariant
