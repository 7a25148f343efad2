import MiniTriangle.Tree.Part

/-! The reasons why code generation fails, and their texts. -/

namespace MiniTriangle

/-- What a tree should have been. -/
inductive Expected where
  | program
  | letCommand
  | command
  | expression
  | parameter
  | sign
  deriving DecidableEq

def Expected.render : Expected → String
  | .program => "<class 'ast.Program'>"
  | .letCommand => "<class 'ast.LetCommand'>"
  | .command => "<class 'ast.Command'>"
  | .expression => "<class 'ast.Expression'>"
  | .parameter => "[<class 'ast.Parameter'>, <class 'ast.SequentialParameter'>]"
  | .sign => "['-', '+']"

/-- Why no code can be generated. -/
inductive GenerateError where
  /-- A tree of another kind was expected. -/
  | unexpected (tree : Tree) (expected : Expected)
  /-- A node lacks a part. -/
  | missing (tree : Tree) (part : Part)
  /-- The minus sign is applied to the code of its operand, which is no number. -/
  | negation
  | noScope
  | noFrame
  /-- The slots of a name are all taken away. -/
  | noSlot
  /-- There is no scope or frame to close. -/
  | nothingOpen
  /-- A repeated name is no text that a number could be added to. -/
  | notNumberable (name : Tree)
  /-- A slot is no text that could end with a number. -/
  | notText (slot : Tree)
  deriving DecidableEq

def GenerateError.message : GenerateError → String
  | .unexpected tree expected => "Error at ast node: " ++ tree.render ++ " expected: " ++ expected.render
  | .missing tree part => "'" ++ tree.label ++ "' object has no attribute '" ++ part.name ++ "'"
  | .negation => "bad operand type for unary -: 'NoneType'"
  | .noScope | .noFrame | .noSlot => "list index out of range"
  | .nothingOpen => "pop from empty list"
  | .notNumberable name => "unsupported operand type(s) for +: '" ++ name.label ++ "' and 'str'"
  | .notText slot => "'" ++ slot.label ++ "' object has no attribute 'endswith'"

end MiniTriangle
