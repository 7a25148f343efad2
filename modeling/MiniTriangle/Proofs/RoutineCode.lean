import MiniTriangle.Proofs.CodeForms
import Mathlib.Data.List.Forall2

/-! The routines inside code. They come from the functions declared in the tree, one from each, in the order of the
declarations, at any depth. -/

namespace MiniTriangle

mutual
/-- The bodies of the functions declared in a command, each before those inside it. -/
def Tree.commandBodies : Tree → List Tree
  | .sequence first second => first.commandBodies ++ second.commandBodies
  | .ifElse _ yes no => yes.commandBodies ++ no.commandBodies
  | .whileDo _ body => body.commandBodies
  | .letIn declared body => declared.declarationBodies ++ body.commandBodies
  | _ => []

def Tree.declarationBodies : Tree → List Tree
  | .declarations first second => first.declarationBodies ++ second.declarationBodies
  | .funcDecl _ _ _ body => body :: body.commandBodies
  | _ => []
end

def Tree.bodies (duty : Duty) (tree : Tree) : List Tree :=
  match duty with
  | .command => tree.commandBodies
  | .declaration => tree.declarationBodies

mutual
def Instr.routines : Instr → List (List Instr)
  | .routine _ body => body :: routinesIn body
  | _ => []

def routinesIn : List Instr → List (List Instr)
  | [] => []
  | instr :: rest => instr.routines ++ routinesIn rest
end

theorem routinesIn_append (before later : List Instr) :
    routinesIn (before ++ later) = routinesIn before ++ routinesIn later := by
  induction before with
  | nil => rfl
  | cons instr rest ih => rw [List.cons_append, routinesIn, routinesIn, ih, List.append_assoc]

theorem OperandCode.routinesIn_nil {operand : Operand} {tree : Tree} {code : List Instr}
    (form : OperandCode operand tree code) : routinesIn code = [] := by
  induction form with
  | @binary left operator right _ _ _ _ leftIH rightIH =>
    have last : routinesIn (Generate.operatorInstr? operator).toList = [] := by
      unfold Generate.operatorInstr?
      split <;> rfl
    rw [routinesIn_append, routinesIn_append, leftIH, rightIH, last]
    rfl
  | _ => simp_all [routinesIn, routinesIn_append, Instr.routines]

/-- The routines inside code are those of the functions declared in its tree. -/
theorem DutyCode.routines {duty : Duty} {tree : Tree} {label last : Label} {code : List Instr}
    (form : DutyCode duty tree label code last) :
    List.Forall₂ (fun list body => ∃ first next, DutyCode .command body first list next) (routinesIn code)
      (tree.bodies duty) := by
  induction form with
  | assign slot valued =>
    rw [routinesIn_append, valued.routinesIn_nil]
    exact .nil
  | call called =>
    rw [called.routinesIn_nil]
    exact .nil
  | sequence _ _ oneIH otherIH =>
    rw [routinesIn_append]
    exact List.rel_append oneIH otherIH
  | conditional tests _ _ takesIH othersIH =>
    simp only [routinesIn_append, routinesIn, Instr.routines, tests.routinesIn_nil, List.nil_append, List.append_nil]
    exact List.rel_append takesIH othersIH
  | loop tests _ repeatsIH =>
    simp only [routinesIn_append, routinesIn, Instr.routines, tests.routinesIn_nil, List.nil_append, List.append_nil]
    exact repeatsIH
  | scope _ _ declaresIH doesIH =>
    rw [routinesIn_append]
    exact List.rel_append declaresIH doesIH
  | returns valued =>
    rw [routinesIn_append, valued.routinesIn_nil]
    exact .nil
  | var slot => exact .nil
  | const slot valued =>
    rw [routinesIn_append, valued.routinesIn_nil]
    exact .nil
  | declarations _ _ oneIH otherIH =>
    rw [routinesIn_append]
    exact List.rel_append oneIH otherIH
  | @function name list type body names label last code does ih =>
    have inside : routinesIn [.routine names code, .op .makeFunction (.number 0), .op .storeFast name] =
        code :: routinesIn code := by
      simp [routinesIn, Instr.routines]
    rw [inside]
    exact .cons ⟨label, last, does⟩ ih
  | @nothing tree label other =>
    have empty : tree.declarationBodies = [] := by
      cases tree with
      | declarations first second => cases other
      | funcDecl name list type body => cases other
      | _ => rfl
    show List.Forall₂ _ [] tree.declarationBodies
    rw [empty]
    exact .nil

end MiniTriangle
