import MiniTriangle.Code.State

/-! Code for expressions, commands, declarations and programs. The shape of the code of each construct is a
function of the code of its parts. Generation ends with the rows of instructions of the program and its
functions. An assembler outside this library brings such a row into the form that the machine loads, with tables
of constants and names, the depth of the stack and the offsets of jumps, and makes a function of it; it may refuse
a row that is made here. -/

namespace MiniTriangle.Generate

/-- A value stored into the slot of a name. The name is looked up before the value is computed. -/
def assignCode (target : Generate Tree) (value : Generate Unit) : Generate Unit := do
  let slot ← lookup (← target)
  value
  emitOp .storeFast slot

def conditionalCode (test yes no : Generate Unit) : Generate Unit := do
  let otherwise ← freshLabel
  let done ← freshLabel
  test
  emit (.jump .ifFalse otherwise)
  yes
  emit (.jump .forward done)
  emit (.place otherwise)
  no
  emit (.place done)

def loopCode (test body : Generate Unit) : Generate Unit := do
  let start ← freshLabel
  let done ← freshLabel
  emit (.place start)
  test
  emit (.jump .ifFalse done)
  body
  emit (.jump .back start)
  emit (.place done)

def letCode (declaration body : Generate Unit) : Generate Unit := do
  declaration
  body
  leaveLet

def returnCode (value : Generate Unit) : Generate Unit := do
  value
  emitOp .returnValue .absent

/-- A call. Two names are built in: `putint` prints its only argument, and `getint` reads a number into the
variable that is its only argument, after loading the variable. Any other name is loaded as it is, before
its arguments. -/
def callCode (name : Tree) (argument : Generate Unit) (target : Generate Tree) (arguments : Generate Nat) :
    Generate Unit := do
  if name = .text "putint" then
    argument
    emitOp .printItem .absent
    emitOp .printNewline .absent
  else if name = .text "getint" then
    argument
    let slot ← lookup (← target)
    emitOp .loadGlobal (.text "input")
    emitOp .callFunction (.number 0)
    emitOp .storeFast slot
  else
    emitOp .loadFast name
    let count ← arguments
    emitOp .callFunction (.number count)

/-- The names in a parameter list. -/
def parameterNames : Tree → Generate (List Tree)
  | .parameter name _ => return [name]
  | .parameters first second => do
    let names ← parameterNames first
    return names ++ (← parameterNames second)
  | tree => throw (.unexpected tree .parameter)

/-- A function: its body is generated in a frame and a scope of its own. -/
def functionCode (name parameters : Tree) (body : Generate Unit) : Generate Unit := do
  openFrame
  openScope
  let names ← parameterNames parameters
  names.forM fun name => discard (declare name)
  body
  let code ← closeFrame
  let _ ← closeScope
  emit (.routine names code)
  emitOp .makeFunction (.number 0)
  emitOp .storeFast name

/-- The instruction of a binary operator; an unknown operator has none. -/
def operatorInstr? : Tree → Option Instr
  | .text "+" => some (.op .binaryAdd .absent)
  | .text "-" => some (.op .binarySubtract .absent)
  | .text "*" => some (.op .binaryMultiply .absent)
  | .text "/" => some (.op .binaryDivide .absent)
  | .text ">" => some (.op .compareOp (.text ">"))
  | .text "<" => some (.op .compareOp (.text "<"))
  | .text "=" => some (.op .compareOp (.text "=="))
  | .text "\\" => some (.op .binaryModulo (.number 0))
  | _ => none

/-- The identifier of the variable that is the only argument of a call. -/
def argumentTarget (arguments : Tree) : Generate Tree := do
  let argument ← part arguments .argument
  let target ← part argument .target
  part target .identifier

mutual
def expression : Tree → Generate Unit
  | .integer value => emitOp .loadConst value
  | .reference target => do
    let slot ← lookup (← part target .identifier)
    emitOp .loadFast slot
  | .unary operator operand =>
    if operator = .text "-" then do
      expression operand
      throw .negation
    else if operator = .text "+" then expression operand
    else throw (.unexpected (.unary operator operand) .sign)
  | .binary left operator right => do
    expression left
    expression right
    match operatorInstr? operator with
    | some instr => emit instr
    | none => return
  | .call name list => callCode name (soleArgument list) (argumentTarget list) (arguments list)
  | .parameters first second => do
    let _ ← arguments first
    let _ ← arguments second
  | tree => throw (.unexpected tree .expression)

/-- The only argument of a built-in call. -/
def soleArgument : Tree → Generate Unit
  | .parameter value _ => expression value
  | tree => throw (.missing tree .argument)

/-- The arguments of a call in order; answers their number. -/
def arguments : Tree → Generate Nat
  | .parameter value _ => do
    expression value
    return 1
  | .parameters first second => do
    let count ← arguments first
    return count + (← arguments second)
  | tree => throw (.unexpected tree .parameter)
end

mutual
def command : Tree → Generate Unit
  | .assign target value => assignCode (part target .identifier) (expression value)
  | .call name list => callCode name (soleArgument list) (argumentTarget list) (arguments list)
  | .sequence first second => do
    command first
    command second
  | .ifElse test yes no => conditionalCode (expression test) (command yes) (command no)
  | .whileDo test body => loopCode (expression test) (command body)
  | .letIn declared body => letCode (declaration declared) (command body)
  | .returns value => returnCode (expression value)
  | tree => throw (.unexpected tree .command)

/-- A declaration; a tree that is none declares nothing. -/
def declaration : Tree → Generate Unit
  | .varDecl name _ => do
    let slot ← declare name
    emitOp .loadConst .absent
    emitOp .storeFast slot
  | .constDecl name value => do
    let slot ← declare name
    expression value
    emitOp .storeFast slot
  | .declarations first second => do
    declaration first
    declaration second
  | .funcDecl name parameters _ body => functionCode name parameters (command body)
  | _ => return
end

/-- The code of a whole program, whose command has to be a `let`. It is not assembled. -/
def program : Tree → Generate (List Instr)
  | .program (.letIn declared body) => do
    openFrame
    openScope
    command (.letIn declared body)
    emitOp .loadConst .absent
    emitOp .returnValue .absent
    let code ← closeFrame
    let _ ← closeScope
    return code
  | .program other => throw (.unexpected other .letCommand)
  | tree => throw (.unexpected tree .program)

end MiniTriangle.Generate
