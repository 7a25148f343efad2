/-! A cursor in a text: the characters still ahead and the number of characters taken so far. Taking a
character at the end of the text finds none, but still counts as a step. -/

namespace MiniTriangle

structure Cursor where
  ahead : List Char
  offset : Nat
  deriving DecidableEq

def Cursor.start (text : String) : Cursor := ⟨text.toList, 0⟩

def Cursor.current? (cursor : Cursor) : Option Char := cursor.ahead.head?

def Cursor.atEnd (cursor : Cursor) : Bool := cursor.ahead.isEmpty

/-- The cursor after one step. -/
def Cursor.next (cursor : Cursor) : Cursor := ⟨cursor.ahead.tail, cursor.offset + 1⟩

/-- The cursor after all characters ahead that satisfy the test. -/
def Cursor.skipWhile (cursor : Cursor) (test : Char → Bool) : Cursor :=
  ⟨cursor.ahead.dropWhile test, cursor.offset + (cursor.ahead.takeWhile test).length⟩

end MiniTriangle
