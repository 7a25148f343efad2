import MiniTriangle.Grammar.Expression

/-! Commands and declarations.

    Program      ::= Block
    Block        ::= 'if' Expression 'then' Single 'else' Single
                  |  'while' Expression 'do' Single
                  |  'let' Declarations 'in' Single
                  |  'begin' Command 'end'
    Command      ::= Single Single*
    Single       ::= Block | Simple ';'
    Simple       ::= Name ':=' Expression | Identifier '(' Arguments ')' | 'return' Expression
    Declarations ::= (Declaration ';' | Function)*
    Declaration  ::= 'const' Identifier '~' Expression | 'var' Identifier ':' Type
    Function     ::= 'func' Identifier '(' Parameters ')' ':' Type Single
    Parameters   ::= Identifier ':' Type (',' Identifier ':' Type)*

A command ends where the text ends or before the word `end`. Sequences of commands and declarations
associate to the right, and every sequence of declarations ends with a missing one. Tokens after the block
of a program are left alone. -/

namespace MiniTriangle.Parse

def typeName : Parse Tree := do return .typeName (.atom (← anyValue))

/-- One parameter with its type. -/
def parameter : Parse Tree := do
  let name ← identifier
  accept .colon
  return .parameter (.atom name) (← typeName)

/-- The commas and parameters after the first one. -/
def moreParametersWithin : Nat → Tree → Parse Tree
  | 0, _ => throw .endless
  | bound + 1, list => do
    if (← current).kind = .comma then
      advance
      let next ← parameter
      moreParametersWithin bound (.parameters list next)
    else return list

def parameters : Parse Tree := do
  let first ← parameter
  bounded fun bound => moreParametersWithin bound first

/-- The declaration of a constant or a variable, without the semicolon. -/
def declaration : Parse Tree := do
  match (← current).kind with
  | .kwConst =>
    advance
    let name ← identifier
    accept .tilde
    return .constDecl (.atom name) (← expression)
  | .kwVar =>
    advance
    let name ← identifier
    accept .colon
    return .varDecl (.atom name) (← typeName)
  | _ => reject

/-- A command that is no block, without the semicolon. The token after the first one decides between an
assignment and a call before the first one is looked at. -/
def simpleCommand : Parse Tree := do
  let token ← current
  let next ← lookahead
  if next.kind = .becomes then
    let target ← name
    accept .becomes
    return .assign target (← expression)
  else if next.kind = .leftParen then callOf arguments
  else if token.kind = .kwReturn then
    advance
    return .returns (← expression)
  else reject

/-- Whether a token of this kind starts a block. -/
def startsBlock : Kind → Bool
  | .kwIf | .kwWhile | .kwLet | .kwBegin => true
  | _ => false

/-- Whether a command goes on with a token of this kind. -/
def continuesCommand : Kind → Bool
  | .endOfText | .kwEnd => false
  | _ => true

mutual
def blockWithin : Nat → Parse Tree
  | 0 => throw .endless
  | bound + 1 => do
    match (← current).kind with
    | .kwIf =>
      advance
      let test ← expression
      accept .kwThen
      let yes ← singleWithin bound
      accept .kwElse
      return .ifElse test yes (← singleWithin bound)
    | .kwWhile =>
      advance
      let test ← expression
      accept .kwDo
      return .whileDo test (← singleWithin bound)
    | .kwLet =>
      advance
      let declared ← declarationsWithin bound
      accept .kwIn
      return .letIn declared (← singleWithin bound)
    | .kwBegin =>
      advance
      let inner ← commandWithin bound
      accept .kwEnd
      return inner
    | _ => reject

def singleWithin : Nat → Parse Tree
  | 0 => throw .endless
  | bound + 1 => do
    if startsBlock (← current).kind then blockWithin bound
    else
      let simple ← simpleCommand
      accept .semicolon
      return simple

def commandWithin : Nat → Parse Tree
  | 0 => throw .endless
  | bound + 1 => do
    let first ← singleWithin bound
    if continuesCommand (← current).kind then return .sequence first (← commandWithin bound)
    else return first

def declarationsWithin : Nat → Parse Tree
  | 0 => throw .endless
  | bound + 1 => do
    match (← current).kind with
    | .kwVar | .kwConst =>
      let first ← declaration
      accept .semicolon
      return .declarations first (← declarationsWithin bound)
    | .kwFunc =>
      let first ← functionWithin bound
      return .declarations first (← declarationsWithin bound)
    | _ => return .absent

/-- The declaration of a function. The token in place of the word `func` is stepped over unread. -/
def functionWithin : Nat → Parse Tree
  | 0 => throw .endless
  | bound + 1 => do
    advance
    let name ← identifier
    accept .leftParen
    let list ← parameters
    accept .rightParen
    accept .colon
    let result ← typeName
    return .funcDecl (.atom name) list result (← singleWithin bound)
end

def block : Parse Tree := bounded blockWithin

def single : Parse Tree := bounded singleWithin

def command : Parse Tree := bounded commandWithin

def declarations : Parse Tree := bounded declarationsWithin

def function : Parse Tree := bounded functionWithin

def program : Parse Tree := do return .program (← block)

end MiniTriangle.Parse
