import MiniTriangle.Code.Generate
import MiniTriangle.Grammar.Rule
import MiniTriangle.Token.Scan

/-! Compiling: from the text of a program to its code, which is a row of instructions. That a program compiles says
that the row is made; whether an assembler takes the row is left open. -/

namespace MiniTriangle

/-- The step that failed, and why. -/
inductive Failure where
  | scanning (cause : ScanError)
  | parsing (cause : ParseError)
  | generating (cause : GenerateError)
  deriving DecidableEq

/-- The text of a failure; a token of unknown kind has none. -/
def Failure.message? : Failure → Option String
  | .scanning cause => some cause.message
  | .parsing cause => cause.message?
  | .generating cause => some cause.message

/-- The program that the tokens start with. -/
def parseProgram (tokens : List Token) : Except ParseError Tree :=
  match Rule.program.parseTokens tokens with
  | .ok (tree, _) => .ok tree
  | .error cause => .error cause

/-- The code of a program, and the state of generation after it. -/
def compileTree (tree : Tree) : Except GenerateError (Routine × State) :=
  match Generate.program tree State.empty with
  | .ok code state => .ok (⟨[], code⟩, state)
  | .error cause _ => .error cause

def compileTokens (tokens : List Token) : Except Failure (Routine × State) := do
  let tree ← (parseProgram tokens).mapError Failure.parsing
  (compileTree tree).mapError Failure.generating

def compile (text : String) : Except Failure (Routine × State) := do
  let tokens ← (Token.ofText text).mapError Failure.scanning
  compileTokens tokens

end MiniTriangle
