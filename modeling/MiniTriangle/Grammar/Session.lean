import MiniTriangle.Grammar.Rule
import MiniTriangle.Session

/-! The requests that a parser answers one at a time. -/

namespace MiniTriangle.Parse

inductive Request where
  | rule (phrase : Rule)
  | current
  | lookahead
  | advance
  | accept (kind : Kind)
  deriving DecidableEq

inductive Reply where
  | tree (tree : Tree)
  | token (token : Token)
  | done
  deriving DecidableEq

def Request.answer : Request → Parse Reply
  | .rule phrase => return .tree (← phrase.parse)
  | .current => return .token (← Parse.current)
  | .lookahead => return .token (← Parse.lookahead)
  | .advance => do
    Parse.advance
    return .done
  | .accept kind => do
    Parse.accept kind
    return .done

/-- Answers the requests on one stream. -/
def answers (stream : Stream) (requests : List Request) : List (Answer ParseError Stream Reply) :=
  session Request.answer (fun _ => false) requests stream

end MiniTriangle.Parse
