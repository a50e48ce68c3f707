import ShaderVariant.Inspect.Run

/-!
# The inspector

`main` reads the files that the arguments name and those that they include, and prints the outcome of the inspection.
-/

namespace ShaderVariant.Inspect

def readingFault : IO.Error → IoError
  | .noFileOrDirectory .. => .notFound
  | .inappropriateType _ code _ => if code = 20 then .notDirectory else .isDirectory
  | .otherError code _ => if code = 36 then .nameTooLong else .notFound
  | _ => .notFound

def readFile (path : Text) : IO (Except IoError Bytes) := do
  try
    let bytes ← IO.FS.readBinFile (String.ofList path)
    return .ok bytes.data.toList
  catch e => return .error (readingFault e)

/-- Reads sources below a directory, and then the sources that these include. -/
partial def gather (root : Text) (readings : Assoc String (Except IoError Bytes)) :
    List String → IO (Assoc String (Except IoError Bytes))
  | [] => return readings
  | name :: names => do
    if readings.has name then gather root readings names
    else
      let r ← readFile (Path.join root name.toList)
      let included := match r with
        | .ok bytes => includedNames bytes
        | .error _ => []
      gather root (readings.set name r) (included ++ names)

def usage : String := "usage: SHADER [--flags A,B] [--context NAME] [--settings FILE] [--sources]"

/-- Reads what the arguments ask for and inspects it. -/
def inspect (a : Arguments) : IO Outcome := do
  let file ← readFile (a.settings.getD [])
  let shader ← readFile a.shader
  let root := Path.sourceRoot a.shader shader.isOk
  let readings ← gather root [] ((Path.fileName? a.shader).map String.ofList).toList
  return run a file (.ofReadings readings)

end ShaderVariant.Inspect

def main (args : List String) : IO UInt32 := do
  match ShaderVariant.Inspect.Arguments.parse? (args.map String.toList) with
  | none =>
    IO.eprintln ShaderVariant.Inspect.usage
    return ShaderVariant.Inspect.misuseCode
  | some a =>
    let outcome ← ShaderVariant.Inspect.inspect a
    IO.print outcome.output
    if outcome.problem.isSome then IO.eprintln outcome.report
    return outcome.code
