import MiniTriangle.Proofs.SourceMeaning
import MiniTriangle.Proofs.StackMachine
import MiniTriangle.Proofs.Translation

/-! The code of a program does what the program means. While the machine runs the code of a command, the slots
of the names in scope hold the values of their bindings, and a command that gets to its end leaves the machine
with the code that follows and the stack as it was. -/

namespace MiniTriangle

open Machine Source

structure Matches (live : Live) (world : World) (machine : Machine) : Prop where
  printed : machine.printed = world.printed
  values : live.map (fun entry => (entry.1, machine.slots (.text entry.2))) =
    world.bindings.map (fun binding => (binding.1, some binding.2))

namespace Matches

variable {live : Live} {world : World} {machine : Machine}

theorem lookup (matches_ : Matches live world machine) {name : String} (declared : name ∈ live.names) :
    ∃ value, world.bindings.lookup name = some value ∧ machine.slots (.text (live.slotOf name)) = some value := by
  obtain ⟨_, values⟩ := matches_
  generalize world.bindings = bindings at values
  induction live generalizing bindings with
  | nil => cases declared
  | cons entry rest ih =>
    obtain ⟨known, slot⟩ := entry
    cases bindings with
    | nil => cases values
    | cons binding others =>
      obtain ⟨bound, value⟩ := binding
      simp only [List.map_cons, List.cons.injEq, Prod.mk.injEq] at values
      obtain ⟨⟨same, held⟩, values⟩ := values
      subst same
      by_cases here : name = known
      · subst here
        exact ⟨value, List.lookup_cons_self, by rw [Live.slotOf_here]; exact held⟩
      · have apart : (name == known) = false := beq_eq_false_iff_ne.mpr here
        obtain ⟨found, looked, holds⟩ := ih (Live.mem_names_later here declared) others values
        exact ⟨found, by simpa [List.lookup_cons, apart] using looked, by rw [Live.slotOf_later here]; exact holds⟩

theorem moved (matches_ : Matches live world machine) (rest : List Instr) (stack : List Value) :
    Matches live world { machine with rest := rest, stack := stack } := ⟨matches_.printed, matches_.values⟩

private theorem stored_values (live : Live) (machine : Machine) {slot : String} (value : Value)
    (fresh : slot ∉ live.slots) :
    live.map (fun entry => (entry.1, (machine.store (.text slot) value).slots (.text entry.2))) =
      live.map (fun entry => (entry.1, machine.slots (.text entry.2))) := by
  apply List.map_congr_left
  intro entry member
  have apart : (Tree.text entry.2) ≠ .text slot := by
    intro same
    have equal : entry.2 = slot := by injection same with same; injection same
    exact fresh (equal ▸ List.mem_map_of_mem member)
  simp [Machine.store, apart]

theorem bind (matches_ : Matches live world machine) {slot : String} (fresh : slot ∉ live.slots) (name : String)
    (value : Value) :
    Matches ((name, slot) :: live) (Source.bind name value world) (machine.store (.text slot) value) := by
  refine ⟨matches_.printed, ?_⟩
  simp only [Source.bind, List.map_cons, stored_values live machine value fresh, matches_.values]
  simp [Machine.store]

theorem assign (matches_ : Matches live world machine) (distinct : live.slots.Nodup) {name : String}
    (declared : name ∈ live.names) (value : Value) :
    Matches live { world with bindings := Source.assign name value world.bindings }
      (machine.store (.text (live.slotOf name)) value) := by
  obtain ⟨printed, values⟩ := matches_
  refine ⟨printed, ?_⟩
  show _ = (Source.assign name value world.bindings).map _
  generalize world.bindings = bindings at values
  induction live generalizing bindings with
  | nil => cases declared
  | cons entry rest ih =>
    obtain ⟨known, slot⟩ := entry
    cases bindings with
    | nil => cases values
    | cons binding others =>
      obtain ⟨bound, old⟩ := binding
      simp only [List.map_cons, List.cons.injEq, Prod.mk.injEq] at values
      obtain ⟨⟨same, held⟩, values⟩ := values
      subst same
      obtain ⟨fresh, distinctRest⟩ := List.nodup_cons.mp distinct
      by_cases here : name = known
      · subst here
        rw [Live.slotOf_here, List.map_cons, stored_values rest machine value fresh, values]
        simp [Source.assign, Machine.store]
      · have inRest := Live.mem_names_later here declared
        have otherSlot : slot ≠ Live.slotOf rest name := by
          intro same
          exact fresh (same ▸ Live.slotOf_mem inRest)
        rw [Live.slotOf_later here, List.map_cons, ih distinctRest inRest others values]
        simp [Source.assign, Ne.symm here, Machine.store, otherSlot, held]

/-- The bindings of a `let` go when it is left, and the outer ones stay. -/
theorem leave {added : Live} (matches_ : Matches (added ++ live) world machine) :
    Matches live (Source.leave live.length world) machine := by
  obtain ⟨printed, values⟩ := matches_
  refine ⟨printed, ?_⟩
  have lengths := congrArg List.length values
  simp only [List.length_map, List.length_append] at lengths
  have excess : world.bindings.length - live.length = added.length := by omega
  have dropped := congrArg (List.drop added.length) values
  simp only [List.map_append] at dropped
  rw [List.drop_left' (by simp)] at dropped
  simp only [Source.leave, excess, List.map_drop]
  exact dropped

theorem length_eq (matches_ : Matches live world machine) : world.bindings.length = live.length := by
  have lengths := congrArg List.length matches_.values
  simpa using lengths.symm

end Matches

/-- The machine computes a value on top of its stack and comes to the given code, or fails as the value does. -/
def Computes (program : List Instr) (machine : Machine) (rest : List Instr) : Except Fault Value → Prop
  | .ok value => ∃ count, Leads program count machine { machine with rest := rest, stack := value :: machine.stack }
  | .error fault => ∃ count last, Leads program count machine last ∧
      last.step program = .ends (.failed fault machine.printed)

private theorem binary_eq {machine : Machine} {code : Opcode} {operand : Tree} {left right : Value}
    {operation : Value → Value → Except Fault Value} {below : List Value}
    (means : operation? code operand = some operation) (held : machine.stack = right :: left :: below) :
    machine.binary code operand = match operation left right with
      | .ok value => .next { machine with stack := value :: below }
      | .error cause => machine.fault cause := by
  cases result : operation left right with
  | ok value => simp only [Machine.binary, means, held, result]
  | error cause => simp only [Machine.binary, means, held, result]

/-- Every operator has an instruction that does what the operator means. -/
private theorem operator_does {operator : String} (listed : operator ∈ Lexical.operators) :
    ∃ code operand, Generate.operatorInstr? (.text operator) = some (.op code operand) ∧
      operation? code operand = some (operate operator) ∧
      ∀ machine : Machine, machine.perform code operand = machine.binary code operand := by
  simp only [Lexical.operators, List.mem_cons, List.not_mem_nil, or_false] at listed
  rcases listed with same | same | same | same | same | same | same | same <;> subst same <;>
    exact ⟨_, _, rfl, rfl, fun _ => rfl⟩

/-- The code of an expression computes its value. -/
theorem expression_computes {program : List Instr} {live : Live} {world : World} {tree : Tree}
    (valued : Lexical.Expression live.names tree) {machine : Machine} {rest : List Instr}
    (matches_ : Matches live world machine) (here : machine.rest = valueCode live tree ++ rest) :
    Computes program machine rest (evaluate world.bindings tree) := by
  induction valued generalizing machine rest with
  | integer amount =>
    refine ⟨1, .one ?_⟩
    unfold step
    rw [here]
    rfl
  | @reference name declared =>
    obtain ⟨value, found, held⟩ := matches_.lookup declared
    simp only [evaluate, found]
    refine ⟨1, .one ?_⟩
    unfold step
    rw [here]
    simp only [valueCode, List.cons_append, List.nil_append, perform, held]
    rfl
  | plus _ ih =>
    simp only [evaluate]
    exact ih matches_ here
  | @binary left right operator listed _ _ leftIH rightIH =>
    obtain ⟨code, operand, instr, means, performs⟩ := operator_does listed
    simp only [valueCode, instr, Option.toList_some, List.append_assoc] at here
    have first := leftIH matches_ here
    simp only [evaluate]
    cases leftIs : evaluate world.bindings left with
    | error fault =>
      rw [leftIs] at first
      exact first
    | ok leftValue =>
      rw [leftIs] at first
      obtain ⟨count, leads⟩ := first
      have second := rightIH (matches_.moved (valueCode live right ++ ([.op code operand] ++ rest))
        (leftValue :: machine.stack)) rfl
      cases rightIs : evaluate world.bindings right with
      | error fault =>
        rw [rightIs] at second
        obtain ⟨more, last, later, fails⟩ := second
        exact ⟨_, last, leads.trans later, fails⟩
      | ok rightValue =>
        rw [rightIs] at second
        obtain ⟨more, later⟩ := second
        have both := leads.trans later
        -- Both operands are on the stack, the right one on top.
        let ready : Machine := { machine with rest := rest, stack := rightValue :: leftValue :: machine.stack }
        have performed : ready.perform code operand = _ := (performs ready).trans (binary_eq means rfl)
        show Computes program machine rest (operate operator leftValue rightValue)
        cases result : operate operator leftValue rightValue with
        | ok value =>
          rw [result] at performed
          exact ⟨_, both.trans (.one performed)⟩
        | error cause =>
          rw [result] at performed
          exact ⟨_, _, both, performed⟩

/-- The machine follows a command. It reaches a machine as described where the command goes on, ends as the command
ends, and runs for at least the given number of steps where the command is not finished. -/
def Follows (program : List Instr) (bound : Nat) (machine : Machine) (reached : World → Machine → Prop) : Result → Prop
  | .goesOn world => ∃ count last, Leads program count machine last ∧ reached world last
  | .stops (.unfinished printed) => ∃ count last, bound ≤ count ∧ Leads program count machine last ∧ last.printed = printed
  | .stops ending => ∃ count last, Leads program count machine last ∧ last.step program = .ends ending

namespace Follows

variable {program : List Instr} {bound : Nat} {first second : Machine} {reached : World → Machine → Prop} {result : Result}

/-- Steps before count towards the bound. -/
theorem after {count : Nat} (leads : Leads program count first second)
    (follows : Follows program bound second reached result) : Follows program (count + bound) first reached result := by
  match result, follows with
  | .goesOn world, ⟨more, last, later, held⟩ => exact ⟨_, last, leads.trans later, held⟩
  | .stops (.unfinished printed), ⟨more, last, enough, later, same⟩ =>
    exact ⟨_, last, Nat.add_le_add_left enough count, leads.trans later, same⟩
  | .stops (.returned value printed), ⟨more, last, later, ends⟩ => exact ⟨_, last, leads.trans later, ends⟩
  | .stops (.failed fault printed), ⟨more, last, later, ends⟩ => exact ⟨_, last, leads.trans later, ends⟩

theorem weaken {smaller : Nat} (less : smaller ≤ bound) (follows : Follows program bound first reached result) :
    Follows program smaller first reached result := by
  match result, follows with
  | .goesOn world, follows => exact follows
  | .stops (.unfinished printed), ⟨count, last, enough, rest⟩ => exact ⟨count, last, Nat.le_trans less enough, rest⟩
  | .stops (.returned value printed), follows => exact follows
  | .stops (.failed fault printed), follows => exact follows

theorem later {count : Nat} (leads : Leads program count first second)
    (follows : Follows program bound second reached result) : Follows program bound first reached result :=
  (after leads follows).weaken (Nat.le_add_left bound count)

theorem andThen {next : World → Result} {finally_ : World → Machine → Prop}
    (follows : Follows program bound first reached result)
    (rest : ∀ world machine, reached world machine → Follows program bound machine finally_ (next world)) :
    Follows program bound first finally_ (Source.andThen result next) := by
  match result, follows with
  | .goesOn world, ⟨count, last, leads, held⟩ => exact later leads (rest world last held)
  | .stops (.unfinished printed), follows => exact follows
  | .stops (.returned value printed), follows => exact follows
  | .stops (.failed fault printed), follows => exact follows

theorem onward {finally_ : World → Machine → Prop} (follows : Follows program bound first reached result)
    (moves : ∀ world machine, reached world machine →
      ∃ count last, Leads program count machine last ∧ finally_ world last) :
    Follows program bound first finally_ result := by
  match result, follows with
  | .goesOn world, ⟨count, middle, leads, held⟩ =>
    obtain ⟨more, last, later, arrives⟩ := moves world middle held
    exact ⟨_, last, leads.trans later, arrives⟩
  | .stops (.unfinished printed), follows => exact follows
  | .stops (.returned value printed), follows => exact follows
  | .stops (.failed fault printed), follows => exact follows

theorem withValue {rest : List Instr} {value : Except Fault Value} {next : Value → Result}
    (computes : Computes program first rest value)
    (goes : ∀ value, Follows program bound { first with rest := rest, stack := value :: first.stack } reached (next value)) :
    Follows program bound first reached (Source.withValue value first.printed next) := by
  match value, computes with
  | .ok value, ⟨count, leads⟩ => exact later leads (goes value)
  | .error fault, ⟨count, last, leads, fails⟩ => exact ⟨count, last, leads, fails⟩

end Follows

end MiniTriangle
