import MiniTriangle.Grammar.Stream
import MiniTriangle.Tree

/-! Expressions and argument lists.

    Expression ::= Identifier '(' Arguments ')' | Term (('+' | '-' | '<' | '>' | '=') Term)*
    Term       ::= Factor (('*' | '/' | '\') Factor)*
    Factor     ::= Integer | Identifier | Operator Factor | '(' Expression ')'
    Arguments  ::= Expression (',' Expression)*

Operators of one level and arguments associate to the left. A token followed by an opening parenthesis
starts a call, whatever it is. -/

namespace MiniTriangle.Parse

/-- Whether a token is one of the given operators. -/
def isOneOf (token : Token) (operators : List String) : Bool :=
  token.kind = .operator && operators.any fun operator => token.value = .text operator

def isAdditive (token : Token) : Bool := isOneOf token ["+", "-", "<", ">", "="]

def isMultiplicative (token : Token) : Bool := isOneOf token ["*", "/", "\\"]

/-- The name of a target of assignment or of a value that is used. -/
def name : Parse Tree := do return .name (.atom (← anyValue))

/-- A call, given how to parse its arguments. -/
def callOf (arguments : Parse Tree) : Parse Tree := do
  let name ← identifier
  accept .leftParen
  let list ← arguments
  accept .rightParen
  return .call (.atom name) list

/-- An expression as the argument of a call. -/
def argumentNode (value : Tree) : Tree := .parameter value .absent

mutual
def expressionWithin : Nat → Parse Tree
  | 0 => throw .endless
  | bound + 1 => do
    if (← lookahead).kind = .leftParen then callOf (argumentsWithin bound)
    else
      let left ← termWithin bound
      sumWithin bound left

/-- The additive operators and terms after a sum. -/
def sumWithin : Nat → Tree → Parse Tree
  | 0, _ => throw .endless
  | bound + 1, left => do
    let token ← current
    if isAdditive token then
      advance
      let right ← termWithin bound
      sumWithin bound (.binary left (.atom token.value) right)
    else return left

def termWithin : Nat → Parse Tree
  | 0 => throw .endless
  | bound + 1 => do
    let left ← factorWithin bound
    productWithin bound left

/-- The multiplicative operators and factors after a product. -/
def productWithin : Nat → Tree → Parse Tree
  | 0, _ => throw .endless
  | bound + 1, left => do
    let token ← current
    if isMultiplicative token then
      advance
      let right ← factorWithin bound
      productWithin bound (.binary left (.atom token.value) right)
    else return left

def factorWithin : Nat → Parse Tree
  | 0 => throw .endless
  | bound + 1 => do
    let token ← current
    match token.kind with
    | .integer =>
      advance
      return .integer (.atom token.value)
    | .identifier => return .reference (← name)
    | .operator =>
      advance
      return .unary (.atom token.value) (← factorWithin bound)
    | .leftParen =>
      advance
      let inner ← expressionWithin bound
      accept .rightParen
      return inner
    | _ => reject

def argumentsWithin : Nat → Parse Tree
  | 0 => throw .endless
  | bound + 1 => do
    let first ← expressionWithin bound
    moreArgumentsWithin bound (argumentNode first)

/-- The commas and expressions after the first argument. -/
def moreArgumentsWithin : Nat → Tree → Parse Tree
  | 0, _ => throw .endless
  | bound + 1, list => do
    if (← current).kind = .comma then
      advance
      let next ← expressionWithin bound
      moreArgumentsWithin bound (.parameters list (argumentNode next))
    else return list
end

def expression : Parse Tree := bounded expressionWithin

def term : Parse Tree := bounded termWithin

def factor : Parse Tree := bounded factorWithin

def arguments : Parse Tree := bounded argumentsWithin

end MiniTriangle.Parse
