import MiniTriangle.Alphabet.Digit
import MiniTriangle.Alphabet.Space

/-! Integers as text: the decimal form that is written, and the forms that can be read. -/

namespace MiniTriangle.Text

open Alphabet

/-- The decimal form of an integer: a minus sign if it is negative, and no leading zeros. -/
def decimal : Int → String
  | .ofNat n => String.ofList (Nat.toDigits 10 n)
  | .negSucc n => "-" ++ String.ofList (Nat.toDigits 10 (n + 1))

/-- The number that decimal digits of any script continue, or nothing at another character. -/
def readDigits? (value : Nat) : List Char → Option Nat
  | [] => some value
  | c :: rest =>
    match decimalValue? c with
    | some digit => readDigits? (10 * value + digit) rest
    | none => none

/-- The number written by one or more decimal digits. -/
def readNatural? : List Char → Option Nat
  | [] => none
  | c :: rest => readDigits? 0 (c :: rest)

/-- The text without the blanks around it. -/
def trimBlanks (text : List Char) : List Char :=
  ((text.dropWhile isBlank).reverse.dropWhile isBlank).reverse

/-- The integer that a text denotes: one or more decimal digits after at most one sign, with blanks around. -/
def readInteger? (text : List Char) : Option Int :=
  match trimBlanks text with
  | '+' :: digits => (readNatural? digits).map Int.ofNat
  | '-' :: digits => (readNatural? digits).map fun n => -(n : Int)
  | digits => (readNatural? digits).map Int.ofNat

end MiniTriangle.Text
