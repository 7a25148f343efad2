import MiniTriangle.Alphabet.Alphanumeric
import MiniTriangle.Text.Quoted
import MiniTriangle.Token
import MiniTriangle.Token.Cursor

/-! Scanning: the longest token at the cursor, after the separators in front of it. A failing scan leaves
the cursor where it stopped, so that what was taken stays taken. -/

namespace MiniTriangle

/-- Why a scan stops. -/
inductive ScanError where
  /-- No token starts with this character. -/
  | unexpected (position : Nat) (character : Char)
  /-- The text of a number holds more than decimal digits. -/
  | notInteger (text : List Char)
  /-- The text ends inside a comment, whose line end is sought without end. -/
  | endless
  deriving DecidableEq

def ScanError.message : ScanError → String
  | .unexpected position character =>
    "ScannerError at pos = " ++ Text.decimal position ++ ", char = " ++ String.ofList [character]
  | .notInteger text =>
    -- A long text is shown by the first two hundred characters of its quoted form.
    "invalid literal for int() with base 10: " ++ String.ofList ((Text.quoted text).take 200)
  | .endless => "scanner reads past the end of the text forever"

/-- A scan moves the cursor and may fail. -/
abbrev Scan := EStateM ScanError Cursor

namespace Scan

open Alphabet

def position : Scan Nat := do return (← get).offset

/-- Takes one character, or none at the end of the text. -/
def take : Scan (Option Char) := do
  let cursor ← get
  set cursor.next
  return cursor.current?

/-- Takes the characters ahead that satisfy the test. -/
def takeWhile (test : Char → Bool) : Scan (List Char) := do
  let cursor ← get
  set (cursor.skipWhile test)
  return cursor.ahead.takeWhile test

/-- A number: one character, whatever it is, and the digits after it. -/
def integer : Scan Token := do
  let start ← position
  let first ← take
  let digits ← takeWhile isDigit
  let text := first.toList ++ digits
  match Text.readInteger? text with
  | some value => return ⟨.integer, .number value, start⟩
  | none => throw (.notInteger text)

/-- The token of a word: a keyword or an identifier. -/
def wordToken (word : String) (position : Nat) : Token :=
  match keywords.lookup word with
  | some kind => .plain kind position
  | none => ⟨.identifier, .text word, position⟩

/-- A word: one character, whatever it is, and the letters, digits and numerals after it. -/
def word : Scan Token := do
  let start ← position
  let first ← take
  let others ← takeWhile isAlphanumeric
  return wordToken (String.ofList (first.toList ++ others)) start

/-- A colon, or the sign of assignment if an equals sign follows at once. -/
def colon : Scan Token := do
  let start ← position
  let _ ← take
  if (← get).current? = some '=' then
    let _ ← take
    return .plain .becomes start
  else
    return .plain .colon start

/-- The characters that are operators. -/
def operators : List Char := ['+', '-', '*', '/', '<', '>', '=', '\\']

/-- The tokens of a single character. -/
def symbol? (c : Char) (position : Nat) : Option Token :=
  if c = ';' then some (.plain .semicolon position)
  else if c = ',' then some (.plain .comma position)
  else if c = '~' then some (.plain .tilde position)
  else if c = '(' then some (.plain .leftParen position)
  else if c = ')' then some (.plain .rightParen position)
  else if operators.contains c then some ⟨.operator, .text (String.ofList [c]), position⟩
  else none

/-- The token that starts with the given character, which the cursor stands at. -/
def tokenAt (c : Char) : Scan Token := do
  if isDigit c then integer
  else if isLetter c then word
  else if c = ':' then colon
  else
    let start ← position
    match symbol? c start with
    | some token =>
      let _ ← take
      return token
    | none => throw (.unexpected start c)

/-- The cursor at the next character that is neither white space nor part of a comment, or nothing if the
text ends inside a comment. A comment runs from an exclamation mark to the end of its line. -/
def skipSeparators (inComment : Bool) (offset : Nat) : List Char → Option Cursor
  | [] => if inComment then none else some ⟨[], offset⟩
  | c :: rest =>
    if inComment then skipSeparators (c != '\n') (offset + 1) rest
    else if isSpace c then skipSeparators false (offset + 1) rest
    else if c = '!' then skipSeparators true (offset + 1) rest
    else some ⟨c :: rest, offset⟩

/-- The next token; at the end of the text, the token that says so. -/
def token : Scan Token := do
  let cursor ← get
  match skipSeparators false cursor.offset cursor.ahead with
  | none => throw .endless
  | some cursor =>
    set cursor
    match cursor.ahead with
    | [] => return .plain .endOfText cursor.offset
    | c :: _ => tokenAt c

/-- The tokens up to the end of the text, at most as many as the bound allows. -/
def tokensWithin : Nat → Scan (List Token)
  | 0 => throw .endless
  | bound + 1 => do
    let next ← token
    if next.kind = .endOfText then return [next]
    else return next :: (← tokensWithin bound)

/-- The tokens up to the end of the text. Every token but the last takes a character, which bounds their
number. -/
def tokens : Scan (List Token) := do tokensWithin ((← get).ahead.length + 1)

end Scan

/-- The tokens of a text. -/
def Token.ofText (text : String) : Except ScanError (List Token) :=
  match Scan.tokens (Cursor.start text) with
  | .ok tokens _ => .ok tokens
  | .error cause _ => .error cause

end MiniTriangle
