import MiniTriangle.CommandLine

/-! The command line: reads the source file, prints the report or writes the code. -/

namespace MiniTriangle

/-- Carries out an outcome and answers the exit status. -/
def Outcome.perform : Outcome → IO UInt32
  | .printed line => do
    IO.println line
    return 0
  | .write path code => do
    IO.FS.writeFile path code.listing
    return 0
  | .unread path cause => do
    IO.eprintln (cause.message path)
    return 1
  | .failed cause => do
    IO.eprintln (cause.message?.getD "")
    return 1

/-- Why a file could not be opened or read, if the path is the cause. -/
def pathCause? : IO.Error → Option PathError
  | .noFileOrDirectory _ _ _ => some .missing
  | .inappropriateType (some _) _ _ => some .notDirectory
  | .inappropriateType none _ _ => some .isDirectory
  | .invalidArgument _ _ _ => some .tooLong
  | _ => none

end MiniTriangle

def main (arguments : List String) : IO UInt32 := do
  match MiniTriangle.sourcePath? arguments with
  | none => MiniTriangle.Outcome.perform (.printed MiniTriangle.usage)
  | some path =>
    match ← (IO.FS.readFile path).toBaseIO with
    | .ok text => (MiniTriangle.compileFile path text).perform
    | .error error =>
      match MiniTriangle.pathCause? error with
      | some cause => MiniTriangle.Outcome.perform (.unread path cause)
      | none => throw error
