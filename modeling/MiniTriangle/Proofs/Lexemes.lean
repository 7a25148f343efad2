import MiniTriangle.Token.Scan
import Mathlib.Data.Nat.Digits.Defs

/-! The words of the language, told without a scanner: what may separate two tokens, which texts are tokens
of which kind and value, and how a text is cut into them with every token as long as it can be. -/

namespace MiniTriangle

open Alphabet

/-- White space and whole comments, each from an exclamation mark to the end of its line. -/
inductive Separator : List Char → Prop where
  | empty : Separator []
  | space {c : Char} {rest : List Char} (blank : isSpace c = true) (more : Separator rest) : Separator (c :: rest)
  | comment {body rest : List Char} (oneLine : '\n' ∉ body) (more : Separator rest) :
      Separator ('!' :: (body ++ '\n' :: rest))

def marks : List (Char × Kind) :=
  [(';', .semicolon), (',', .comma), ('~', .tilde), ('(', .leftParen), (')', .rightParen), (':', .colon)]

def IsWord (text : List Char) : Prop :=
  ∃ first rest, text = first :: rest ∧ isLetter first = true ∧ ∀ c ∈ rest, isAlphanumeric c = true

/-- The texts of tokens, with their kind and value. -/
inductive Lexeme : List Char → Kind → Atom → Prop where
  | keyword {word : List Char} {kind : Kind} (spelled : IsWord word)
      (listed : (String.ofList word, kind) ∈ keywords) : Lexeme word kind (.number 0)
  | identifier {word : List Char} (spelled : IsWord word)
      (free : ∀ kind, (String.ofList word, kind) ∉ keywords) :
      Lexeme word .identifier (.text (String.ofList word))
  | integer {digits : List Char} {values : List Nat} (nonempty : digits ≠ [])
      (spelled : ∀ c ∈ digits, isDigit c = true) (valued : digits.mapM decimalValue? = some values) :
      Lexeme digits .integer (.number (Nat.ofDigits 10 values.reverse : Nat))
  | becomes : Lexeme [':', '='] .becomes (.number 0)
  | mark {c : Char} {kind : Kind} (listed : (c, kind) ∈ marks) : Lexeme [c] kind (.number 0)
  | operator {c : Char} (listed : c ∈ ['+', '-', '*', '/', '<', '>', '=', '\\']) :
      Lexeme [c] .operator (.text (String.ofList [c]))

/-- Whether a token of this kind would go on with the given character. -/
def Kind.continues : Kind → Char → Bool
  | .integer, c => isDigit c
  | .colon, c => c = '='
  | .operator, _ | .semicolon, _ | .comma, _ | .tilde, _ | .leftParen, _ | .rightParen, _ | .becomes, _ => false
  | _, c => isAlphanumeric c

/-- A text cut into separators and the longest possible tokens between them; the first number is the position
of the text. -/
inductive Cut : Nat → List Char → List Token → Prop where
  | done {start : Nat} {text : List Char} (blank : Separator text) : Cut start text []
  | token {start : Nat} {separator lexeme rest : List Char} {kind : Kind} {value : Atom} {tokens : List Token}
      (blank : Separator separator) (spelled : Lexeme lexeme kind value)
      (longest : ∀ c ∈ rest.head?, kind.continues c = false)
      (more : Cut (start + separator.length + lexeme.length) rest tokens) :
      Cut start (separator ++ lexeme ++ rest) (⟨kind, value, (start + separator.length : Nat)⟩ :: tokens)

end MiniTriangle
