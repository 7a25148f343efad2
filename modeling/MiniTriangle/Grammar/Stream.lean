import MiniTriangle.Token

/-! A row of tokens with one of them current. The end-of-text token is never passed; where a row lacks it,
stepping beyond the last token fails, and only the index moves. -/

namespace MiniTriangle

/-- The current token, its index, and the tokens that follow it. -/
structure Stream where
  current : Token
  ahead : List Token
  index : Nat
  deriving DecidableEq

/-- The stream at the first of the tokens; there is none without tokens. -/
def Stream.ofTokens? : List Token → Option Stream
  | [] => none
  | token :: rest => some ⟨token, rest, 0⟩

/-- Why a token list is not the text of a phrase. -/
inductive ParseError where
  /-- The phrase cannot go on with this token. -/
  | unexpected (token : Token)
  /-- A token is needed beyond the last one. -/
  | noToken
  /-- More steps than the tokens allow. -/
  | endless
  deriving DecidableEq

/-- The text of the error; it has none if the token is of unknown kind. -/
def ParseError.message? : ParseError → Option String
  | .unexpected token =>
    token.kind.name?.map fun name =>
      "(Found bad token " ++ name ++ "(" ++ token.value.render ++ ") at " ++ Text.decimal token.position ++ ")"
  | .noToken => some "list index out of range"
  | .endless => some "parser goes beyond its bound"

/-- Parsing moves along the stream and may fail, leaving the stream where it stopped. -/
abbrev Parse := EStateM ParseError Stream

namespace Parse

def current : Parse Token := do return (← get).current

/-- The token after the current one. -/
def lookahead : Parse Token := do
  match (← get).ahead with
  | [] => throw .noToken
  | token :: _ => return token

/-- Steps to the next token, unless the current one ends the text. -/
def advance : Parse Unit := do
  let stream ← get
  if stream.current.kind = .endOfText then return
  else
    match stream.ahead with
    | [] =>
      set { stream with index := stream.index + 1 }
      throw .noToken
    | token :: rest => set (⟨token, rest, stream.index + 1⟩ : Stream)

/-- Fails at the current token. -/
def reject {α : Type} : Parse α := do throw (.unexpected (← current))

/-- Steps over a token of the given kind. -/
def accept (kind : Kind) : Parse Unit := do
  if (← current).kind = kind then advance else reject

/-- The value of the current token, which is stepped over if it is an identifier. -/
def identifier : Parse Atom := do
  let token ← current
  accept .identifier
  return token.value

/-- The value of the current token, which is stepped over whatever its kind. -/
def anyValue : Parse Atom := do
  let token ← current
  advance
  return token.value

/-- Runs a parser with a bound on the depth of its recursion. Each token ahead allows for four steps: the
rules call each other at most three deep before one of them steps over a token. -/
def bounded {α : Type} (parser : Nat → Parse α) : Parse α := do
  parser (4 * ((← get).ahead.length + 1))

end Parse

end MiniTriangle
