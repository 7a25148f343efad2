import MiniTriangle.Proofs.RoutineCode
import MiniTriangle.Proofs.SourceTexts
import MiniTriangle.Proofs.TreeHeights

/-! Which compiled programs are safe on the stack. The code of the program and that of each of its functions is safe
exactly if the heights can be followed through the command it comes from. -/

namespace MiniTriangle

/-- The code of a compiled program and of each function inside it is safe exactly if the heights of its command are
told. -/
theorem compiled_stackSafe_iff {text : String} {routine : Routine} {state : State}
    (compiled : compile text = .ok (routine, state)) :
    ∃ command, readProgram? text = some (.program command) ∧
      List.Forall₂ (fun list body => StackSafe list ↔ (body.heightDone? 0).isSome)
        (routine.body :: routinesIn routine.body) (command :: command.commandBodies) := by
  obtain ⟨tree, read, generated⟩ := compile_eq_ok.mp compiled
  obtain ⟨command, _, treeIs, _⟩ := derives_of_read read
  subst treeIs
  obtain ⟨code, last, form, whole⟩ := Generate.program_code (compileTree_eq_ok.mp generated).2
  have inside : routinesIn routine.body = routinesIn code := by
    rw [whole, routinesIn_append]
    exact List.append_nil _
  refine ⟨command, read, .cons ?_ ?_⟩
  · rw [whole]
    refine form.stackSafe_iff _ fun marks height => ?_
    cases height with
    | none => exact ⟨none, rfl⟩
    | some height => exact ⟨none, rfl⟩
  · rw [inside]
    refine form.routines.imp fun list body made => ?_
    obtain ⟨first, next, bodyForm⟩ := made
    have alone := bodyForm.stackSafe_iff [] fun _ height => ⟨height, rfl⟩
    rwa [List.append_nil] at alone

/-- Calls a function again and again and uses no result. -/
def callingLoop : String := "let func f(a: Integer): Integer return a; in while 1 < 2 do f(1);"

def callingCommand : Tree :=
  .letIn (.declarations (.funcDecl (.text "f") (.parameter (.text "a") (.typeName (.text "Integer")))
      (.typeName (.text "Integer")) (.returns (.reference (.name (.text "a"))))) .absent)
    (.whileDo (.binary (.integer (.number 1)) (.text "<") (.integer (.number 2)))
      (.call (.text "f") (.parameter (.integer (.number 1)) .absent)))

/-- The function is safe, but the loop that calls it comes back with one more value each time. -/
theorem callingLoop_unsafe : ∃ routine state list, compile callingLoop = .ok (routine, state) ∧
    routinesIn routine.body = [list] ∧ StackSafe list ∧ ¬ StackSafe routine.body := by
  have readAs : readProgram? callingLoop = some (.program callingCommand) := by decide +kernel
  obtain ⟨routine, state, compiled⟩ := compiles_of_read readAs (by decide +kernel)
  obtain ⟨command, read, lists⟩ := compiled_stackSafe_iff compiled
  cases readAs.symm.trans read
  obtain ⟨loops, inside⟩ := List.forall₂_cons.mp lists
  cases functions : routinesIn routine.body with
  | nil =>
    rw [functions] at inside
    cases inside
  | cons list others =>
    rw [functions] at inside
    obtain ⟨returns, rest⟩ := List.forall₂_cons.mp inside
    cases rest
    exact ⟨routine, state, list, compiled, functions, returns.mpr rfl, fun safe => absurd (loops.mp safe) (by decide)⟩

end MiniTriangle
