import MiniTriangle.Grammar.Command

/-! The rules of the grammar as data: each names a phrase that can be parsed by itself. -/

namespace MiniTriangle

inductive Rule where
  | program
  | block
  | command
  | single
  | simpleCommand
  | arguments
  | expression
  | term
  | factor
  | declarations
  | declaration
  | function
  | parameters
  | typeName
  | name
  deriving DecidableEq

def Rule.parse : Rule → Parse Tree
  | .program => Parse.program
  | .block => Parse.block
  | .command => Parse.command
  | .single => Parse.single
  | .simpleCommand => Parse.simpleCommand
  | .arguments => Parse.arguments
  | .expression => Parse.expression
  | .term => Parse.term
  | .factor => Parse.factor
  | .declarations => Parse.declarations
  | .declaration => Parse.declaration
  | .function => Parse.function
  | .parameters => Parse.parameters
  | .typeName => Parse.typeName
  | .name => Parse.name

/-- The phrase at the start of the tokens, and the stream after it. -/
def Rule.parseTokens (rule : Rule) (tokens : List Token) : Except ParseError (Tree × Stream) :=
  match Stream.ofTokens? tokens with
  | none => .error .noToken
  | some stream =>
    match rule.parse stream with
    | .ok tree stream => .ok (tree, stream)
    | .error cause _ => .error cause

end MiniTriangle
