import MiniTriangle.Tree

/-! Instructions of the stack machine that runs compiled programs. -/

namespace MiniTriangle

/-- What an instruction does with its operand. The generator emits all of these but the last, which stands
for any other operation by name. -/
inductive Opcode where
  | loadConst
  | loadFast
  | loadGlobal
  | storeFast
  | binaryAdd
  | binarySubtract
  | binaryMultiply
  | binaryDivide
  | binaryModulo
  | compareOp
  | printItem
  | printNewline
  | callFunction
  | makeFunction
  | returnValue
  | other (name : String)
  deriving DecidableEq

def Opcode.name : Opcode → String
  | .loadConst => "LOAD_CONST"
  | .loadFast => "LOAD_FAST"
  | .loadGlobal => "LOAD_GLOBAL"
  | .storeFast => "STORE_FAST"
  | .binaryAdd => "BINARY_ADD"
  | .binarySubtract => "BINARY_SUBTRACT"
  | .binaryMultiply => "BINARY_MULTIPLY"
  | .binaryDivide => "BINARY_DIVIDE"
  | .binaryModulo => "BINARY_MODULO"
  | .compareOp => "COMPARE_OP"
  | .printItem => "PRINT_ITEM"
  | .printNewline => "PRINT_NEWLINE"
  | .callFunction => "CALL_FUNCTION"
  | .makeFunction => "MAKE_FUNCTION"
  | .returnValue => "RETURN_VALUE"
  | .other name => name

def Opcode.ofName : String → Opcode
  | "LOAD_CONST" => .loadConst
  | "LOAD_FAST" => .loadFast
  | "LOAD_GLOBAL" => .loadGlobal
  | "STORE_FAST" => .storeFast
  | "BINARY_ADD" => .binaryAdd
  | "BINARY_SUBTRACT" => .binarySubtract
  | "BINARY_MULTIPLY" => .binaryMultiply
  | "BINARY_DIVIDE" => .binaryDivide
  | "BINARY_MODULO" => .binaryModulo
  | "COMPARE_OP" => .compareOp
  | "PRINT_ITEM" => .printItem
  | "PRINT_NEWLINE" => .printNewline
  | "CALL_FUNCTION" => .callFunction
  | "MAKE_FUNCTION" => .makeFunction
  | "RETURN_VALUE" => .returnValue
  | name => .other name

inductive Jump where
  /-- Takes a value off the stack and jumps if it is false. -/
  | ifFalse
  /-- Jumps ahead. -/
  | forward
  /-- Jumps to a place already passed. -/
  | back
  deriving DecidableEq

def Jump.name : Jump → String
  | .ifFalse => "POP_JUMP_IF_FALSE"
  | .forward => "JUMP_FORWARD"
  | .back => "JUMP_ABSOLUTE"

abbrev Label := Nat

inductive Instr where
  | op (code : Opcode) (operand : Tree)
  | jump (kind : Jump) (target : Label)
  /-- Marks the place of a label. -/
  | place (label : Label)
  /-- Loads a routine with its parameters and its own code. -/
  | routine (parameters : List Tree) (body : List Instr)

/-- A compiled program or function, before it is assembled. -/
structure Routine where
  parameters : List Tree
  body : List Instr

/-- The name that every routine carries. -/
def Routine.name : String := "gencode"

end MiniTriangle
