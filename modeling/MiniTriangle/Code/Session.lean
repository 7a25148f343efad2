import MiniTriangle.Code.Generate
import MiniTriangle.Session

/-! The requests that a generator answers one at a time. A construct may be asked for on a tree of another
kind that happens to have the parts it needs; it fails at the first part that is missing, with the code up
to there emitted. -/

namespace MiniTriangle.Generate

/-- The constructs whose code can be asked for on any tree. -/
inductive Construct where
  | assign
  | call
  | sequence
  | conditional
  | loop
  | letIn
  | returns
  deriving DecidableEq

/-- The code of a construct with the parts of the given tree. -/
def Construct.code (tree : Tree) : Construct → Generate Unit
  | .assign =>
    assignCode (do part (← part tree .target) .identifier) (do expression (← part tree .expression))
  | .call => do
    let name ← part tree .identifier
    callCode name (do soleArgument (← part tree .expression)) (do argumentTarget (← part tree .expression))
      (do arguments (← part tree .expression))
  | .sequence => do
    command (← part tree .firstCommand)
    command (← part tree .secondCommand)
  | .conditional =>
    conditionalCode (do expression (← part tree .expression)) (do command (← part tree .firstCommand))
      (do command (← part tree .secondCommand))
  | .loop => loopCode (do expression (← part tree .expression)) (do command (← part tree .command))
  | .letIn => letCode (do declaration (← part tree .declaration)) (do command (← part tree .command))
  | .returns => returnCode (do expression (← part tree .expression))

inductive Request where
  | openScope
  | closeScope
  | leaveLet
  | openFrame
  | closeFrame
  | program (tree : Tree)
  | declare (name : Tree)
  | lookup (name : Tree)
  | emit (code : Opcode) (operand : Tree)
  | command (tree : Tree)
  | expression (tree : Tree)
  | declaration (tree : Tree)
  | arguments (tree : Tree)
  | parameterNames (tree : Tree)
  | construct (kind : Construct) (tree : Tree)
  deriving DecidableEq

inductive Reply where
  | done
  | slot (name : Tree)
  | count (number : Nat)
  | names (names : List Tree)
  | code (code : List Instr)
  | scope (scope : Scope)

/-- The reply to a request that is made for its effect. -/
def done (action : Generate Unit) : Generate Reply := do
  action
  return .done

def Request.answer : Request → Generate Reply
  | .openScope => done Generate.openScope
  | .closeScope => return .scope (← Generate.closeScope)
  | .leaveLet => done Generate.leaveLet
  | .openFrame => done Generate.openFrame
  | .closeFrame => return .code (← Generate.closeFrame)
  | .program tree => return .code (← Generate.program tree)
  | .declare name => return .slot (← Generate.declare name)
  | .lookup name => return .slot (← Generate.lookup name)
  | .emit code operand => done (emitOp code operand)
  | .command tree => done (Generate.command tree)
  | .expression tree => done (Generate.expression tree)
  | .declaration tree => done (Generate.declaration tree)
  | .arguments tree => return .count (← Generate.arguments tree)
  | .parameterNames tree => return .names (← Generate.parameterNames tree)
  | .construct kind tree => done (kind.code tree)

/-- Answers the requests from the empty state. -/
def answers (requests : List Request) : List (Answer GenerateError State Reply) :=
  session Request.answer (fun _ => false) requests State.empty

end MiniTriangle.Generate
