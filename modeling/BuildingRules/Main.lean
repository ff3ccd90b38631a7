import BuildingRules.CommandLine

/-!
# The program

Reads the arguments and the files they name, and leaves the output of the run.
-/

set_option autoImplicit false

namespace BuildingRules.Main

/-- The number that the operating system gives a failure; some calls give it with a minus sign. -/
def systemNumber (code : UInt32) : Nat := code.toInt32.toInt.natAbs

def faultOf : IO.Error → CommandLine.FileFault
  | .noFileOrDirectory .. => .missing
  | .permissionDenied .. => .denied
  | .inappropriateType _ code details =>
    match systemNumber code with
    | 20 => .notDirectory
    | 21 => .directory
    | number => .other (details ++ " (os error " ++ Nat.repr number ++ ")")
  | .invalidArgument _ code details =>
    match systemNumber code with
    | 36 => .nameTooLong
    | number => .other (details ++ " (os error " ++ Nat.repr number ++ ")")
  | failure => .other (toString failure)

def load (path : String) : IO (Except CommandLine.FileFault String) := do
  try
    let bytes ← IO.FS.readBinFile path
    match String.fromUTF8? bytes with
    | some text => return .ok text
    | none => return .error .notText
  catch failure => return .error (faultOf failure)

def loadAll : List String → IO (List (String × Except CommandLine.FileFault String))
  | [] => return []
  | path :: rest => do
    let text ← load path
    return (path, text) :: (← loadAll rest)

/-- The reader of JSON does not say what is wrong with a text. -/
def complaint (_ : String) : String := "<json error>"

def filesOf (arguments : List String) : List String :=
  match CommandLine.Request.none.read arguments with
  | .ok request => request.files
  | .error _ => []

end BuildingRules.Main

def main (arguments : List String) : IO UInt32 := do
  let texts ← BuildingRules.Main.loadAll (BuildingRules.Main.filesOf arguments)
  let files : BuildingRules.CommandLine.Files := fun path =>
    (texts.lookup path).getD (.error .missing)
  let output := BuildingRules.CommandLine.run BuildingRules.Main.complaint files arguments
  (← IO.getStdout).putStr output.stdout
  (← IO.getStderr).putStr output.stderr
  return if output.succeeded then 0 else 1
