import MiniTriangle.Atom

/-! Syntax trees of Mini Triangle programs, and their text. All parts of a tree are trees again, so that a
tree made by hand may hold anything anywhere; which of them are programs is for the grammar to say. -/

namespace MiniTriangle

inductive Tree where
  | atom (value : Atom)
  | program (command : Tree)
  | assign (target value : Tree)
  | call (name arguments : Tree)
  | sequence (first second : Tree)
  | ifElse (test yes no : Tree)
  | whileDo (test body : Tree)
  | letIn (declaration body : Tree)
  | returns (value : Tree)
  | integer (value : Tree)
  | reference (target : Tree)
  | unary (operator operand : Tree)
  | binary (left operator right : Tree)
  | name (identifier : Tree)
  | constDecl (identifier value : Tree)
  | varDecl (identifier type : Tree)
  | funcDecl (name parameters type body : Tree)
  | parameter (name type : Tree)
  | parameters (first second : Tree)
  | declarations (first second : Tree)
  | typeName (identifier : Tree)
  /-- A node of which only the label is known. -/
  | bare (label : String)
  deriving DecidableEq

namespace Tree

/-- The missing part of a tree. -/
@[match_pattern] abbrev absent : Tree := .atom .absent

@[match_pattern] abbrev text (characters : String) : Tree := .atom (.text characters)

@[match_pattern] abbrev number (value : Int) : Tree := .atom (.number value)

/-- The name of the kind of node, as error messages give it. -/
def label : Tree → String
  | .atom value => value.label
  | .program _ => "Program"
  | .assign _ _ => "AssignCommand"
  | .call _ _ => "CallCommand"
  | .sequence _ _ => "SequentialCommand"
  | .ifElse _ _ _ => "IfCommand"
  | .whileDo _ _ => "WhileCommand"
  | .letIn _ _ => "LetCommand"
  | .returns _ => "ReturnCommand"
  | .integer _ => "IntegerExpression"
  | .reference _ => "VnameExpression"
  | .unary _ _ => "UnaryExpression"
  | .binary _ _ _ => "BinaryExpression"
  | .name _ => "Vname"
  | .constDecl _ _ => "ConstDeclaration"
  | .varDecl _ _ => "VarDeclaration"
  | .funcDecl _ _ _ _ => "FunctionDeclaration"
  | .parameter _ _ => "Parameter"
  | .parameters _ _ => "SequentialParameter"
  | .declarations _ _ => "SequentialDeclaration"
  | .typeName _ => "TypeDenoter"
  | .bare label => label

/-- A label with the texts of the parts, divided by commas, between parentheses. -/
def form (label : String) (parts : List String) : String := label ++ "(" ++ ",".intercalate parts ++ ")"

/-- The text of a tree. The label of a type name is written in a spelling of its own. -/
def render : Tree → String
  | .atom value => value.render
  | .program c => form "Program" [c.render]
  | .assign v e => form "AssignCommand" [v.render, e.render]
  | .call n a => form "CallCommand" [n.render, a.render]
  | .sequence a b => form "SequentialCommand" [a.render, b.render]
  | .ifElse e a b => form "IfCommand" [e.render, a.render, b.render]
  | .whileDo e c => form "WhileCommand" [e.render, c.render]
  | .letIn d c => form "LetCommand" [d.render, c.render]
  | .returns e => form "ReturnCommand" [e.render]
  | .integer n => form "IntegerExpression" [n.render]
  | .reference v => form "VnameExpression" [v.render]
  | .unary o e => form "UnaryExpression" [o.render, e.render]
  | .binary a o b => form "BinaryExpression" [a.render, o.render, b.render]
  | .name n => form "Vname" [n.render]
  | .constDecl n e => form "ConstDeclaration" [n.render, e.render]
  | .varDecl n t => form "VarDeclaration" [n.render, t.render]
  | .funcDecl n p t c => form "FunctionDeclaration" [n.render, p.render, t.render, c.render]
  | .parameter n t => form "Parameter" [n.render, t.render]
  | .parameters a b => form "SequentialParameter" [a.render, b.render]
  | .declarations a b => form "SequentialDeclaration" [a.render, b.render]
  | .typeName n => form "TypeDonoter" [n.render]
  | .bare label => form label []

end Tree

end MiniTriangle
