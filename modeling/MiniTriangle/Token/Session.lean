import MiniTriangle.Session
import MiniTriangle.Token.Scan

/-! The requests that a scan answers one at a time. -/

namespace MiniTriangle.Scan

inductive Request where
  | tokens
  | token
  | integer
  | word
  | colon
  | current
  | take
  | position
  | atEnd
  deriving DecidableEq

inductive Reply where
  | tokens (tokens : List Token)
  | token (token : Token)
  | character (character : Option Char)
  | position (offset : Nat)
  | flag (value : Bool)
  deriving DecidableEq

def Request.answer : Request → Scan Reply
  | .tokens => return .tokens (← Scan.tokens)
  | .token => return .token (← Scan.token)
  | .integer => return .token (← Scan.integer)
  | .word => return .token (← Scan.word)
  | .colon => return .token (← Scan.colon)
  | .current => return .character (← get).current?
  | .take => return .character (← Scan.take)
  | .position => return .position (← Scan.position)
  | .atEnd => return .flag (← get).atEnd

/-- Answers the requests on one text. Nothing follows a scan without end. -/
def answers (text : String) (requests : List Request) : List (Answer ScanError Cursor Reply) :=
  session Request.answer (· == .endless) requests (Cursor.start text)

end MiniTriangle.Scan
