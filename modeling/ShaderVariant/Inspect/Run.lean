import ShaderVariant.Compiler.DryRun
import ShaderVariant.FileTree
import ShaderVariant.Inspect.Arguments
import ShaderVariant.Inspect.Listing
import ShaderVariant.Settings.Json

/-!
# Inspecting a shader

The inspector loads a shader, builds one combination in each of its contexts with the dry-run compiler, and lists what
it got.

* `Inspect.run` : the outcome for arguments, given the bytes of the settings file and a loader of sources;
* `Inspect.runIn` : the outcome in a file tree, for arguments as they were typed.
-/

namespace ShaderVariant.Inspect

/-- Why an inspection does not succeed. -/
inductive Problem where
  | settingsUnread (path : Text)
  | settingsMalformed (path : Text)
  | noFileName
  | notLoaded (path : Text)
  | noContext
  | contextsFailed (failed total : Nat)
  deriving DecidableEq, Repr

def Problem.message : Problem → String
  | settingsUnread path => "reading settings " ++ String.ofList path
  | settingsMalformed path => "parsing settings " ++ String.ofList path
  | noFileName => "shader path has no file name"
  | notLoaded path => "loading " ++ String.ofList path
  | noContext => "no matching context"
  | contextsFailed failed total => s!"{failed} of {total} contexts failed to compile"

/-- The lines that were listed, and the problem that ended the inspection or was met on the way. -/
structure Outcome where
  lines : List String
  problem : Option Problem
  deriving DecidableEq, Repr

namespace Outcome

def ofProblem (p : Problem) : Outcome := ⟨[], some p⟩

def code (o : Outcome) : UInt32 := if o.problem.isSome then 1 else 0

def output (o : Outcome) : String := String.join (o.lines.map (· ++ "\n"))

def report (o : Outcome) : String :=
  match o.problem with
  | none => ""
  | some p => "Error: " ++ p.message

end Outcome

def misuseCode : UInt32 := 2

/-- The settings that were asked for. `file` is what reading their file gave. -/
def settings (path : Option Text) (file : Except IoError Bytes) : Except Problem Settings :=
  match path with
  | none => .ok .default
  | some path =>
    match file with
    | .error _ => .error (.settingsUnread path)
    | .ok bytes =>
      match Utf8.decode bytes with
      | .error _ => .error (.settingsUnread path)
      | .ok t =>
        match Settings.ofJson t with
        | .error _ => .error (.settingsMalformed path)
        | .ok s => .ok s

def wanted (context : Option String) (s : Shader) : List ContextDecl :=
  (s.contexts.map Context.decl).filter fun d => context.all (· == d.name)

/-- Builds the combination of a mask in contexts: the lines, and the number of failures. -/
def listContexts (k : ShaderKey) (m : Mask) (sources : Bool) : List ContextDecl → Library → DryRun → List String × Nat
  | [], _, _ => ([], 0)
  | d :: ds, l, c =>
    match l.getCombination k d.name m c with
    | (.error e, l, c) =>
      match listContexts k m sources ds l c with
      | (lines, failed) => (failureLines d e ++ lines, failed + 1)
    | (.ok b, l, c) =>
      match listContexts k m sources ds l c with
      | (lines, failed) =>
        (combinationLines d b (if sources then (b.program.bind c.sources?).getD [] else []) ++ lines, failed)

def list (a : Arguments) (k : ShaderKey) (s : Shader) (l : Library) : Outcome :=
  let mask := s.encode a.flagNames
  let head := declarationLines s ++ [fragmentsLine l.fragments.size]
  match wanted a.context s with
  | [] => ⟨head, some .noContext⟩
  | ds =>
    match listContexts k mask a.sources ds l .empty with
    | (lines, failed) =>
      ⟨head ++ maskLine mask :: lines, if failed = 0 then none else some (.contextsFailed failed ds.length)⟩

/-- Inspects the shader named by the arguments. `file` is what reading the settings file gave. -/
def run (a : Arguments) (file : Except IoError Bytes) (loader : Loader) : Outcome :=
  match settings a.settings file with
  | .error p => .ofProblem p
  | .ok settings =>
    match Path.fileName? a.shader with
    | none => .ofProblem .noFileName
    | some name =>
      match (Library.new loader settings).loadShader (String.ofList name) with
      | (.error _, _) => .ofProblem (.notLoaded a.shader)
      | (.ok k, l) =>
        match l.shader? k with
        | none => .ofProblem (.notLoaded a.shader)
        | some s => list a k s l

/-- Inspects a shader in a file tree, in the root of which the arguments were typed. Misuse has no outcome. -/
def runIn (t : FileTree) (args : List Text) : Option Outcome :=
  (Arguments.parse? args).map fun a =>
    run a (t.read (a.settings.getD [])) (t.loader (t.sourceRoot a.shader) ((Path.fileName? a.shader).map String.ofList).toList)

end ShaderVariant.Inspect
