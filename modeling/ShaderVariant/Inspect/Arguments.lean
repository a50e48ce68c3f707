import ShaderVariant.Text.Basic

/-!
# Arguments of the inspector

One shader path, and the options `--flags A,B`, `--context NAME`, `--settings FILE` and `--sources`, in any order.

* A value follows its option, or is attached with `=`. One that follows does not start with a hyphen, unless it is one
  hyphen.
* `--flags` may be repeated, the others not.
* Behind `--` everything is a path. A path is not empty.

`Arguments.parse?` reads them; anything else is misuse.
-/

namespace ShaderVariant.Inspect

/-- What to inspect, and how. -/
structure Arguments where
  shader : Text
  flags : List Text
  context : Option String
  settings : Option Text
  sources : Bool
  deriving DecidableEq, Repr

namespace Arguments

/-- Arguments read so far, perhaps without the shader. -/
structure Draft where
  shader : Option Text
  flags : List Text
  context : Option String
  settings : Option Text
  sources : Bool
  deriving DecidableEq, Repr

def Draft.empty : Draft := { shader := none, flags := [], context := none, settings := none, sources := false }

def Draft.withShader? (d : Draft) (path : Text) : Option Draft :=
  if path.isEmpty || d.shader.isSome then none else some { d with shader := some path }

def Draft.withValue? (d : Draft) (option : String) (value : Text) : Option Draft :=
  match option with
  | "flags" => some { d with flags := d.flags ++ value.splitWhere (· == ',') }
  | "context" => if d.context.isSome then none else some { d with context := some (String.ofList value) }
  | "settings" => if value.isEmpty || d.settings.isSome then none else some { d with settings := some value }
  | _ => none

def Draft.withSwitch? (d : Draft) (option : String) : Option Draft :=
  match option with
  | "sources" => if d.sources then none else some { d with sources := true }
  | _ => none

def takesValue (option : String) : Bool := ["flags", "context", "settings"].contains option

/-- Whether an argument can be the value of the option before it. -/
def isValue (a : Text) : Bool := a.head? != some '-' || a == ['-']

def readPaths (d : Draft) : List Text → Option Draft
  | [] => some d
  | a :: as => (d.withShader? a).bind (readPaths · as)

/-- The name of a long option and its attached value. -/
def splitOption (a : Text) : String × Option Text :=
  (String.ofList (a.takeWhile (· != '=')),
    match a.dropWhile (· != '=') with
    | [] => none
    | _ :: value => some value)

def read (d : Draft) : List Text → Option Draft
  | [] => some d
  | ['-', '-'] :: as => readPaths d as
  | ('-' :: '-' :: a) :: as =>
    match splitOption a with
    | (option, some value) => (d.withValue? option value).bind (read · as)
    | (option, none) =>
      if takesValue option then
        match as with
        | [] => none
        | value :: as => if isValue value then (d.withValue? option value).bind (read · as) else none
      else (d.withSwitch? option).bind (read · as)
  | a :: as => if isValue a then (d.withShader? a).bind (read · as) else none

/-- The arguments, if they are used as they should be. -/
def parse? (args : List Text) : Option Arguments :=
  (read .empty args).bind fun d => d.shader.map fun shader =>
    { shader, flags := d.flags, context := d.context, settings := d.settings, sources := d.sources }

/-- The names of the requested flags: blanks around them are dropped, and so are empty ones. -/
def flagNames (a : Arguments) : List String :=
  ((a.flags.map Text.trim).filter (!·.isEmpty)).map String.ofList

end Arguments

end ShaderVariant.Inspect
