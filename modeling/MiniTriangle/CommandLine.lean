import MiniTriangle.Code.Listing
import MiniTriangle.Compile
import MiniTriangle.Directory

/-! The command: it takes the path of one source file, compiles the file, and writes the code beside it.
Here the files are a value, and what the command does is its outcome. -/

namespace MiniTriangle

/-- The characters after the last slash. -/
def lastStep (path : List Char) : List Char := (path.reverse.takeWhile (· ≠ '/')).reverse

/-- The characters before the last dot of the last step, unless only dots stand before it there. -/
def stem (path : String) : String :=
  let characters := path.toList
  let last := lastStep characters
  let steps := characters.take (characters.length - last.length)
  let extension := last.reverse.takeWhile (· ≠ '.')
  let base := last.take (last.length - (extension.length + 1))
  if base.all (· = '.') then path else String.ofList (steps ++ base)

/-- What the command does. -/
inductive Outcome where
  /-- Prints a line and ends. -/
  | printed (line : String)
  /-- Hands the code over to be written to a file. -/
  | write (path : String) (code : Routine)
  /-- Fails to read the file. -/
  | unread (path : String) (cause : PathError)
  /-- Fails without a report of its own. -/
  | failed (cause : Failure)

def usage : String := "Usage: codegen.py <mini_triangle_source.mt>"

/-- Whether the path is that of a source file. -/
def isSource (path : String) : Bool := ".mt".toList.isSuffixOf path.toList

/-- Compiles a text and says where the code goes. Unexpected characters and tokens are reported; any other
failure is not. -/
def compileFile (path text : String) : Outcome :=
  match compile text with
  | .ok (code, _) => .write (stem path ++ ".pyc") code
  | .error (.scanning (.unexpected position character)) =>
    .printed (ScanError.message (.unexpected position character))
  | .error (.parsing (.unexpected token)) =>
    match ParseError.message? (.unexpected token) with
    | some message => .printed message
    | none => .failed (.parsing (.unexpected token))
  | .error cause => .failed cause

/-- The source file to compile: the only argument, if it is the path of one. -/
def sourcePath? : List String → Option String
  | [path] => if isSource path then some path else none
  | _ => none

/-- What the command does with its arguments in a directory. -/
def runCommand (arguments : List String) (files : Directory) : Outcome :=
  match sourcePath? arguments with
  | none => .printed usage
  | some path =>
    match files.read path with
    | .ok text => compileFile path text
    | .error cause => .unread path cause

/-- The directory after the command. -/
def Outcome.apply (files : Directory) : Outcome → Directory
  | .write path code => files.write path code.listing
  | _ => files

end MiniTriangle
