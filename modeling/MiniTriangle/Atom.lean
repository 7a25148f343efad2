import MiniTriangle.Text.Decimal

/-! Atoms: the values that tokens carry and that stand at the leaves of syntax trees. -/

namespace MiniTriangle

/-- A name or an operator, an integer, or nothing. -/
inductive Atom where
  | absent
  | text (characters : String)
  | number (value : Int)
  deriving DecidableEq

def Atom.render : Atom → String
  | .absent => "None"
  | .text characters => characters
  | .number value => Text.decimal value

/-- The name of the kind of value, as error messages give it. -/
def Atom.label : Atom → String
  | .absent => "NoneType"
  | .text _ => "str"
  | .number _ => "int"

end MiniTriangle
