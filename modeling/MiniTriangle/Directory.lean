import MiniTriangle.Text.Quoted

/-! A flat directory of files, and the files that paths lead to. A path is walked step by step from the
directory, and the first step that cannot be taken says why the path leads nowhere. The limits on lengths and
the numbers of the errors are those of Linux. -/

namespace MiniTriangle

/-- The files of a directory by name, with their contents. -/
abbrev Directory := List (String × String)

/-- Why a path leads to no file. -/
inductive PathError where
  | missing
  /-- A step goes on from a file. -/
  | notDirectory
  | isDirectory
  /-- The path or one of its steps has more bytes than a path or a name may have. -/
  | tooLong
  /-- The path holds the character with code zero. -/
  | zeroCharacter
  deriving DecidableEq

def PathError.message (path : String) (cause : PathError) : String :=
  let shown := ": " ++ String.ofList (Text.quoted path.toList)
  match cause with
  | .missing => "[Errno 2] No such file or directory" ++ shown
  | .notDirectory => "[Errno 20] Not a directory" ++ shown
  | .isDirectory => "[Errno 21] Is a directory" ++ shown
  | .tooLong => "[Errno 36] File name too long" ++ shown
  | .zeroCharacter => "embedded null byte"

/-- The characters between the slashes; there is one step more than there are slashes. -/
def splitSteps : List Char → List (List Char)
  | [] => [[]]
  | c :: rest =>
    match splitSteps rest with
    | [] => [[c]]
    | step :: steps => if c = '/' then [] :: step :: steps else (c :: step) :: steps

/-- The steps of a path. -/
def pathSteps (path : String) : List String := (splitSteps path.toList).map String.ofList

/-- Where a walk along a path has come to. -/
inductive Place where
  /-- The directory itself. -/
  | home
  /-- A directory outside, of which no file is known. -/
  | outside
  | file (name contents : String)
  /-- A name that no file of the directory has. -/
  | vacant (name : String)
  deriving DecidableEq

namespace Directory

/-- The number of bytes that a name may have: `NAME_MAX` of Linux. -/
def nameLimit : Nat := 255

/-- The number of bytes that a path may have: `PATH_MAX` of Linux, which counts a zero byte at the end. -/
def pathLimit : Nat := 4095

/-- One step of a walk. An empty step and a single dot stay in a directory, and two dots lead out of it. -/
def step (files : Directory) : Place → String → Except PathError Place
  | .file _ _, _ => .error .notDirectory
  | .vacant _, _ => .error .missing
  | .home, name =>
    if name = "" ∨ name = "." then .ok .home
    else if name = ".." then .ok .outside
    else
      match files.lookup name with
      | some contents => .ok (.file name contents)
      | none => if nameLimit < name.utf8ByteSize then .error .tooLong else .ok (.vacant name)
  | .outside, name =>
    if name = "" ∨ name = "." ∨ name = ".." then .ok .outside
    else if nameLimit < name.utf8ByteSize then .error .tooLong
    else .error .missing

/-- Walks a path from the directory, or from the root if it starts with a slash. -/
def walk (files : Directory) (path : String) : Except PathError Place :=
  if path.toList.contains (Char.ofNat 0) then .error .zeroCharacter
  else if pathLimit < path.utf8ByteSize then .error .tooLong
  else (pathSteps path).foldlM files.step (if path.toList.head? = some '/' then .outside else .home)

/-- The contents of the file that a path leads to. The name of a file is a path to it. -/
def read (files : Directory) (path : String) : Except PathError String :=
  match files.lookup path with
  | some contents => .ok contents
  | none =>
    match files.walk path with
    | .ok (.file _ contents) => .ok contents
    | .ok (.vacant _) => .error .missing
    | .ok .home => .error .isDirectory
    | .ok .outside => .error .isDirectory
    | .error cause => .error cause

/-- The files with one of the given name, in place of any other of that name. -/
def put (files : Directory) (name contents : String) : Directory :=
  files.filter (·.1 ≠ name) ++ [(name, contents)]

/-- Writes the file that a path leads to, in place of the one there if there is one. A path that leads to no
file and to no vacant name of the directory, such as one with too long a name, leaves the files as they are. -/
def write (files : Directory) (path contents : String) : Directory :=
  match files.walk path with
  | .ok (.file name _) => files.put name contents
  | .ok (.vacant name) => files.put name contents
  | _ => files

end Directory

end MiniTriangle
