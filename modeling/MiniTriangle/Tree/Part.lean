import MiniTriangle.Tree

/-! Parts of a node asked for by name. Nodes of several kinds may share a part, and a node that lacks it
answers nothing. -/

namespace MiniTriangle

inductive Part where
  | expression
  | command
  | firstCommand
  | secondCommand
  | declaration
  | target
  | identifier
  | argument
  deriving DecidableEq

/-- The name of a part, as error messages give it. -/
def Part.name : Part → String
  | .expression => "expression"
  | .command => "command"
  | .firstCommand => "command1"
  | .secondCommand => "command2"
  | .declaration => "declaration"
  | .target => "variable"
  | .identifier => "identifier"
  | .argument => "argname"

def Tree.part? : Tree → Part → Option Tree
  | .assign _ e, .expression => some e
  | .call _ e, .expression => some e
  | .ifElse e _ _, .expression => some e
  | .whileDo e _, .expression => some e
  | .returns e, .expression => some e
  | .unary _ e, .expression => some e
  | .constDecl _ e, .expression => some e
  | .program c, .command => some c
  | .whileDo _ c, .command => some c
  | .letIn _ c, .command => some c
  | .funcDecl _ _ _ c, .command => some c
  | .sequence c _, .firstCommand => some c
  | .ifElse _ c _, .firstCommand => some c
  | .sequence _ c, .secondCommand => some c
  | .ifElse _ _ c, .secondCommand => some c
  | .letIn d _, .declaration => some d
  | .assign v _, .target => some v
  | .reference v, .target => some v
  | .call n _, .identifier => some n
  | .name n, .identifier => some n
  | .constDecl n _, .identifier => some n
  | .varDecl n _, .identifier => some n
  | .typeName n, .identifier => some n
  | .parameter n _, .argument => some n
  | _, _ => none

end MiniTriangle
