import MiniTriangle.Code.Generate
import MiniTriangle.Proofs.NumberedNames

/-! Programs without functions in which every name is declared before it is used, and the two ways of choosing
names under which slots follow lexical scoping: no name is declared twice, or every inner `let` declares again
one name of the outermost. -/

namespace MiniTriangle

namespace Lexical

def operators : List String := ["+", "-", "*", "/", "\\", "<", ">", "="]

inductive Expression (names : List String) : Tree → Prop where
  | integer (amount : Int) : Expression names (.integer (.number amount))
  | reference {name : String} (declared : name ∈ names) : Expression names (.reference (.name (.text name)))
  | plus {operand : Tree} (inner : Expression names operand) : Expression names (.unary (.text "+") operand)
  | binary {left right : Tree} {operator : String} (listed : operator ∈ operators) (first : Expression names left)
      (second : Expression names right) : Expression names (.binary left (.text operator) right)

/-- Declarations of variables and constants, with the names in scope before and after them. The value of a
constant does not use the name of the constant. -/
inductive Declaration : List String → Tree → List String → Prop where
  | nothing (names : List String) : Declaration names .absent names
  | var (names : List String) (name : String) (type : Tree) :
      Declaration names (.varDecl (.text name) type) (name :: names)
  | const {names : List String} {name : String} {value : Tree}
      (valued : Expression (names.filter (· ≠ name)) value) :
      Declaration names (.constDecl (.text name) value) (name :: names)
  | sequence {names middle after : List String} {first second : Tree} (before : Declaration names first middle)
      (later : Declaration middle second after) : Declaration names (.declarations first second) after

inductive Command : List String → Tree → Prop where
  | assign {names : List String} {name : String} {value : Tree} (declared : name ∈ names)
      (valued : Expression names value) : Command names (.assign (.name (.text name)) value)
  | print {names : List String} {argument type : Tree} (valued : Expression names argument) :
      Command names (.call (.text "putint") (.parameter argument type))
  | sequence {names : List String} {first second : Tree} (before : Command names first)
      (later : Command names second) : Command names (.sequence first second)
  | conditional {names : List String} {test yes no : Tree} (tested : Expression names test)
      (taken : Command names yes) (otherwise : Command names no) : Command names (.ifElse test yes no)
  | loop {names : List String} {test body : Tree} (tested : Expression names test)
      (repeated : Command names body) : Command names (.whileDo test body)
  | scope {names inner : List String} {declared body : Tree} (declares : Declaration names declared inner)
      (inside : Command inner body) : Command names (.letIn declared body)
  | returns {names : List String} {value : Tree} (valued : Expression names value) : Command names (.returns value)

theorem Expression.mono {names more : List String} {tree : Tree} (valued : Expression names tree)
    (within : ∀ name ∈ names, name ∈ more) : Expression more tree := by
  induction valued with
  | integer amount => exact .integer amount
  | reference declared => exact .reference (within _ declared)
  | plus _ ih => exact .plus ih
  | binary listed _ _ firstIH secondIH => exact .binary listed firstIH secondIH

end Lexical

namespace Tree

def declaredNames : Tree → List String
  | .varDecl (.text characters) _ => [characters]
  | .constDecl (.text characters) _ => [characters]
  | .declarations first second => first.declaredNames ++ second.declaredNames
  | .sequence first second => first.declaredNames ++ second.declaredNames
  | .ifElse _ yes no => yes.declaredNames ++ no.declaredNames
  | .whileDo _ body => body.declaredNames
  | .letIn declared body => declared.declaredNames ++ body.declaredNames
  | _ => []

/-- No name is declared twice, and none ends with a zero. -/
def DeclaresOnce (tree : Tree) : Prop :=
  tree.declaredNames.Nodup ∧ ∀ name ∈ tree.declaredNames, name.toList.getLast? ≠ some '0'

def ShadowsOne (names : List String) : Tree → Prop
  | .sequence first second => first.ShadowsOne names ∧ second.ShadowsOne names
  | .ifElse _ yes no => yes.ShadowsOne names ∧ no.ShadowsOne names
  | .whileDo _ body => body.ShadowsOne names
  | .letIn declared body => (∃ name ∈ names, declared.declaredNames = [name]) ∧ body.ShadowsOne names
  | _ => True

/-- The outermost `let` declares names apart from each other, none of which ends with a digit, and every `let`
inside declares one of them again. -/
def DeclaresAgain (declared body : Tree) : Prop :=
  declared.declaredNames.Nodup ∧ (∀ name ∈ declared.declaredNames, Undigited name) ∧
    body.ShadowsOne declared.declaredNames

end Tree

end MiniTriangle
