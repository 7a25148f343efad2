import MiniTriangle.Atom

/-! Tokens of Mini Triangle: their kinds, the numbers and names of the kinds, and their text. -/

namespace MiniTriangle

/-- The kinds of token. A token list made by hand may hold a number that stands for no kind. -/
inductive Kind where
  | identifier
  | integer
  | operator
  | kwBegin
  | kwConst
  | kwDo
  | kwElse
  | kwEnd
  | kwIf
  | kwIn
  | kwLet
  | kwThen
  | kwVar
  | kwWhile
  | semicolon
  | colon
  | becomes
  | tilde
  | leftParen
  | rightParen
  | endOfText
  | kwFunc
  | comma
  | kwReturn
  | unknown (number : Int)
  deriving DecidableEq

/-- The kind with a given number. -/
def Kind.ofNumber : Int → Kind
  | 0 => .identifier
  | 1 => .integer
  | 2 => .operator
  | 3 => .kwBegin
  | 4 => .kwConst
  | 5 => .kwDo
  | 6 => .kwElse
  | 7 => .kwEnd
  | 8 => .kwIf
  | 9 => .kwIn
  | 10 => .kwLet
  | 11 => .kwThen
  | 12 => .kwVar
  | 13 => .kwWhile
  | 14 => .semicolon
  | 15 => .colon
  | 16 => .becomes
  | 17 => .tilde
  | 18 => .leftParen
  | 19 => .rightParen
  | 20 => .endOfText
  | 21 => .kwFunc
  | 22 => .comma
  | 23 => .kwReturn
  | number => .unknown number

def Kind.number : Kind → Int
  | .identifier => 0
  | .integer => 1
  | .operator => 2
  | .kwBegin => 3
  | .kwConst => 4
  | .kwDo => 5
  | .kwElse => 6
  | .kwEnd => 7
  | .kwIf => 8
  | .kwIn => 9
  | .kwLet => 10
  | .kwThen => 11
  | .kwVar => 12
  | .kwWhile => 13
  | .semicolon => 14
  | .colon => 15
  | .becomes => 16
  | .tilde => 17
  | .leftParen => 18
  | .rightParen => 19
  | .endOfText => 20
  | .kwFunc => 21
  | .comma => 22
  | .kwReturn => 23
  | .unknown number => number

/-- The name of a kind; an unknown number has none. -/
def Kind.name? : Kind → Option String
  | .identifier => some "IDENTIFIER"
  | .integer => some "INTLITERAL"
  | .operator => some "OPERATOR"
  | .kwBegin => some "BEGIN"
  | .kwConst => some "CONST"
  | .kwDo => some "DO"
  | .kwElse => some "ELSE"
  | .kwEnd => some "END"
  | .kwIf => some "IF"
  | .kwIn => some "IN"
  | .kwLet => some "LET"
  | .kwThen => some "THEN"
  | .kwVar => some "VAR"
  | .kwWhile => some "WHILE"
  | .semicolon => some "SEMICOLON"
  | .colon => some "COLON"
  | .becomes => some "BECOMES"
  | .tilde => some "IS"
  | .leftParen => some "LPAREN"
  | .rightParen => some "RPAREN"
  | .endOfText => some "EOT"
  | .kwFunc => some "FUNC"
  | .comma => some "COMMA"
  | .kwReturn => some "RETURN"
  | .unknown _ => none

/-- The word of each keyword kind. -/
def keywords : List (String × Kind) :=
  [("begin", .kwBegin), ("const", .kwConst), ("do", .kwDo), ("else", .kwElse), ("end", .kwEnd), ("if", .kwIf),
   ("in", .kwIn), ("let", .kwLet), ("then", .kwThen), ("var", .kwVar), ("while", .kwWhile), ("func", .kwFunc),
   ("return", .kwReturn)]

/-- A token with its value and the position of its first character in the text. -/
structure Token where
  kind : Kind
  value : Atom
  position : Int
  deriving DecidableEq

/-- A token whose kind says all: its value is zero. -/
def Token.plain (kind : Kind) (position : Int) : Token := ⟨kind, .number 0, position⟩

/-- The kind, value and position of a token; a token of unknown kind has no text. -/
def Token.render? (token : Token) : Option String :=
  token.kind.name?.map fun name =>
    "(" ++ name ++ "(" ++ token.value.render ++ ") at " ++ Text.decimal token.position ++ ")"

/-- The texts of all tokens between brackets. -/
def Token.renderAll? (tokens : List Token) : Option String :=
  (tokens.mapM Token.render?).map fun texts => "[" ++ ", ".intercalate texts ++ "]"

end MiniTriangle
