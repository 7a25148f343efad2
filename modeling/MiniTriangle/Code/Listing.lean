import MiniTriangle.Code.Instr

/-! Listings. In the listing of a routine the labels are numbered from zero in the order in which they first
appear, as the target of a jump or in their place; a routine inside it has a numbering of its own. -/

namespace MiniTriangle

/-- The labels of a routine in order, each as often as it appears. -/
def labels : List Instr → List Label
  | [] => []
  | .jump _ target :: rest => target :: labels rest
  | .place label :: rest => label :: labels rest
  | .op _ _ :: rest => labels rest
  | .routine _ _ :: rest => labels rest

mutual
/-- An instruction with each label replaced by its place in the given order. -/
def Instr.relabel (order : List Label) : Instr → Instr
  | .op code operand => .op code operand
  | .jump kind target => .jump kind (order.idxOf target)
  | .place label => .place (order.idxOf label)
  | .routine parameters body => .routine parameters (relabelAll (labels body).eraseDups body)

def relabelAll (order : List Label) : List Instr → List Instr
  | [] => []
  | instr :: rest => instr.relabel order :: relabelAll order rest
end

/-- Code with its labels numbered by first appearance. -/
def relabel (code : List Instr) : List Instr := relabelAll (labels code).eraseDups code

mutual
/-- The lines of a listing, with the code of a routine indented below its head. -/
def Instr.lines (indent : String) : Instr → List String
  | .op code .absent => [indent ++ code.name]
  | .op code operand => [indent ++ code.name ++ " " ++ operand.render]
  | .jump kind target => [indent ++ kind.name ++ " L" ++ Text.decimal target]
  | .place label => [indent ++ "L" ++ Text.decimal label ++ ":"]
  | .routine parameters body =>
    (indent ++ Tree.form Routine.name (parameters.map Tree.render)) :: linesOf (indent ++ "  ") body

def linesOf (indent : String) : List Instr → List String
  | [] => []
  | instr :: rest => instr.lines indent ++ linesOf indent rest
end

/-- The text of a routine, a line for each instruction. -/
def Routine.listing (routine : Routine) : String :=
  "\n".intercalate (linesOf "" (relabel [.routine routine.parameters routine.body])) ++ "\n"

end MiniTriangle
