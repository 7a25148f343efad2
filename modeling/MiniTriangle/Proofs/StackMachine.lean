import MiniTriangle.Code.Instr
import MiniTriangle.Proofs.Values

/-! The stack machine that runs the code of a program, and its runs. The machine holds the code still to run, and
a jump goes on with what follows the place of its label in the whole code. -/

namespace MiniTriangle

structure Machine where
  /-- The code still to run. -/
  rest : List Instr
  stack : List Value
  slots : Tree → Option Value
  printed : String

inductive Stepped where
  | next (machine : Machine)
  | ends (ending : Ending)

def Stepped.printed : Stepped → String
  | .next machine => machine.printed
  | .ends ending => ending.printed

namespace Machine

def fault (machine : Machine) (cause : Fault) : Stepped := .ends (.failed cause machine.printed)

def push (machine : Machine) (value : Value) : Machine := { machine with stack := value :: machine.stack }

def store (machine : Machine) (slot : Tree) (value : Value) : Machine :=
  { machine with slots := fun other => if other = slot then some value else machine.slots other }

def constant? : Tree → Option Value
  | .absent => some .nothing
  | .number amount => some (.number amount)
  | _ => none

def operation? : Opcode → Tree → Option (Value → Value → Except Fault Value)
  | .binaryAdd, _ => some Value.add
  | .binarySubtract, _ => some Value.subtract
  | .binaryMultiply, _ => some Value.multiply
  | .binaryDivide, _ => some Value.divide
  | .binaryModulo, _ => some Value.modulo
  | .compareOp, .text "<" => some Value.less
  | .compareOp, .text ">" => some Value.greater
  | .compareOp, .text "==" => some Value.equal
  | _, _ => none

/-- An instruction with two operands, of which the second is on top of the stack. -/
def binary (machine : Machine) (code : Opcode) (operand : Tree) : Stepped :=
  match operation? code operand, machine.stack with
  | some operation, right :: left :: below =>
    match operation left right with
    | .ok value => .next { machine with stack := value :: below }
    | .error cause => machine.fault cause
  | _, _ => machine.fault .malformed

def perform (machine : Machine) (code : Opcode) (operand : Tree) : Stepped :=
  match code with
  | .loadConst =>
    match constant? operand with
    | some value => .next (machine.push value)
    | none => machine.fault .malformed
  | .loadFast =>
    match machine.slots operand with
    | some value => .next (machine.push value)
    | none => machine.fault .unbound
  | .storeFast =>
    match machine.stack with
    | value :: below => .next ({ machine with stack := below }.store operand value)
    | [] => machine.fault .malformed
  | .printItem =>
    match machine.stack with
    | value :: below => .next { machine with stack := below, printed := machine.printed ++ value.render }
    | [] => machine.fault .malformed
  | .printNewline => .next { machine with printed := machine.printed ++ "\n" }
  | .returnValue =>
    match machine.stack with
    | value :: _ => .ends (.returned value machine.printed)
    | [] => machine.fault .malformed
  | code => machine.binary code operand

def codeAfter (label : Label) : List Instr → Option (List Instr)
  | [] => none
  | .place other :: rest => if other = label then some rest else codeAfter label rest
  | _ :: rest => codeAfter label rest

def goTo (machine : Machine) (program : List Instr) (label : Label) : Stepped :=
  match codeAfter label program with
  | some rest => .next { machine with rest := rest }
  | none => machine.fault .malformed

/-- One step. Code that ends without returning has no meaning, and neither do functions here. -/
def step (program : List Instr) (machine : Machine) : Stepped :=
  match machine.rest with
  | [] => machine.fault .malformed
  | .op code operand :: rest => { machine with rest := rest }.perform code operand
  | .place _ :: rest => .next { machine with rest := rest }
  | .routine _ _ :: _ => machine.fault .malformed
  | .jump .ifFalse label :: rest =>
    match machine.stack with
    | value :: below =>
      if value.isTrue then .next { machine with rest := rest, stack := below }
      else { machine with stack := below }.goTo program label
    | [] => machine.fault .malformed
  | .jump .forward label :: _ | .jump .back label :: _ => machine.goTo program label

def runFrom (program : List Instr) : Nat → Machine → Ending
  | 0, machine => .unfinished machine.printed
  | more + 1, machine =>
    match machine.step program with
    | .next after => runFrom program more after
    | .ends ending => ending

/-- A program runs from its first instruction, with no values anywhere. -/
def start (program : List Instr) : Machine := ⟨program, [], fun _ => none, ""⟩

def run (program : List Instr) (steps : Nat) : Ending := runFrom program steps (start program)

inductive Leads (program : List Instr) : Nat → Machine → Machine → Prop where
  | refl (machine : Machine) : Leads program 0 machine machine
  | step {count : Nat} {first second last : Machine} (stepped : first.step program = .next second)
      (more : Leads program count second last) : Leads program (count + 1) first last

namespace Leads

variable {program : List Instr} {first second third : Machine} {count more : Nat}

theorem one (stepped : first.step program = .next second) : Leads program 1 first second :=
  .step stepped (.refl second)

theorem trans (before : Leads program count first second) (later : Leads program more second third) :
    Leads program (count + more) first third := by
  induction before with
  | refl machine =>
    rw [Nat.zero_add]
    exact later
  | step stepped _ ih =>
    rw [Nat.add_right_comm]
    exact .step stepped (ih later)

theorem runFrom_add (leads : Leads program count first second) (more : Nat) :
    runFrom program (count + more) first = runFrom program more second := by
  induction leads with
  | refl machine => rw [Nat.zero_add]
  | step stepped _ ih =>
    rw [Nat.add_right_comm]
    simp only [runFrom, stepped]
    exact ih

end Leads

theorem runFrom_finished {program : List Instr} {steps : Nat} {machine : Machine} {ending : Ending}
    (ran : runFrom program steps machine = ending) (finished : ending.isFinished = true) (more : Nat) :
    runFrom program (steps + more) machine = ending := by
  induction steps generalizing machine with
  | zero =>
    subst ran
    cases finished
  | succ steps ih =>
    rw [Nat.add_right_comm]
    simp only [runFrom] at ran ⊢
    cases stepped : machine.step program with
    | next after =>
      simp only [stepped] at ran
      exact ih ran
    | ends last =>
      simp only [stepped] at ran
      exact ran

private theorem perform_prints (machine : Machine) (code : Opcode) (operand : Tree) :
    ∃ more, (machine.perform code operand).printed = machine.printed ++ more := by
  have same {result : Stepped} (kept : result.printed = machine.printed) :
      ∃ more, result.printed = machine.printed ++ more := ⟨"", by rw [kept, String.append_empty]⟩
  have binary : (machine.binary code operand).printed = machine.printed := by
    unfold Machine.binary
    split
    · split <;> rfl
    · rfl
  unfold perform
  split
  · split <;> exact same rfl
  · split <;> exact same rfl
  · split <;> exact same rfl
  · split
    · next value below _ => exact ⟨value.render, rfl⟩
    · exact same rfl
  · exact ⟨"\n", rfl⟩
  · split <;> exact same rfl
  · exact same binary

theorem step_prints (program : List Instr) (machine : Machine) :
    ∃ more, (machine.step program).printed = machine.printed ++ more := by
  have same {result : Stepped} (kept : result.printed = machine.printed) :
      ∃ more, result.printed = machine.printed ++ more := ⟨"", by rw [kept, String.append_empty]⟩
  have jumps (other : Machine) (label : Label) (kept : other.printed = machine.printed) :
      (other.goTo program label).printed = machine.printed := by
    unfold goTo
    split <;> exact kept
  unfold step
  split
  · exact same rfl
  · next code operand rest _ => exact perform_prints { machine with rest := rest } code operand
  · exact same rfl
  · exact same rfl
  · split
    · split
      · exact same rfl
      · exact same (jumps _ _ rfl)
    · exact same rfl
  · exact same (jumps _ _ rfl)
  · exact same (jumps _ _ rfl)

theorem runFrom_prints (program : List Instr) (steps more : Nat) (machine : Machine) :
    ∃ added, (runFrom program (steps + more) machine).printed = (runFrom program steps machine).printed ++ added := by
  induction steps generalizing machine with
  | zero =>
    rw [Nat.zero_add]
    show ∃ added, _ = machine.printed ++ added
    induction more generalizing machine with
    | zero => exact ⟨"", (String.append_empty).symm⟩
    | succ more ih =>
      obtain ⟨first, printed⟩ := step_prints program machine
      simp only [runFrom]
      cases stepped : machine.step program with
      | next after =>
        rw [stepped] at printed
        obtain ⟨later, rest⟩ := ih after
        refine ⟨first ++ later, ?_⟩
        have kept : after.printed = machine.printed ++ first := printed
        simp only [rest, kept, String.append_assoc]
      | ends ending =>
        rw [stepped] at printed
        exact ⟨first, printed⟩
  | succ steps ih =>
    rw [Nat.add_right_comm]
    simp only [runFrom]
    cases stepped : machine.step program with
    | next after => exact ih after
    | ends ending => exact ⟨"", (String.append_empty).symm⟩

end Machine

/-- Two ways of running show the same. They finish with the same endings, every stage of the first is a later
stage of the second, and the second prints nothing that the first does not print. -/
structure SameBehaviour (first second : Nat → Ending) : Prop where
  finished : ∀ ending : Ending, ending.isFinished = true → ((∃ n, first n = ending) ↔ ∃ n, second n = ending)
  stages : ∀ n, ∃ m, n ≤ m ∧ second m = first n
  printed : ∀ n, ∃ m more, (first m).printed = (second n).printed ++ more

/-- A machine that comes by every stage of another run, however late, behaves as that run. -/
theorem Machine.sameBehaviour {program : List Instr} {other : Nat → Ending}
    (stages : ∀ n, ∃ m, n ≤ m ∧ Machine.run program m = other n) : SameBehaviour other (Machine.run program) where
  stages := stages
  finished := by
    intro ending finished
    constructor
    · rintro ⟨n, reached⟩
      obtain ⟨m, _, same⟩ := stages n
      exact ⟨m, same.trans reached⟩
    · rintro ⟨n, reached⟩
      obtain ⟨m, later, same⟩ := stages n
      obtain ⟨more, isLater⟩ := Nat.exists_eq_add_of_le later
      have stays := Machine.runFrom_finished reached finished more
      rw [← isLater] at stays
      exact ⟨n, same.symm.trans stays⟩
  printed := by
    intro n
    obtain ⟨m, later, same⟩ := stages n
    obtain ⟨more, isLater⟩ := Nat.exists_eq_add_of_le later
    obtain ⟨added, printed⟩ := Machine.runFrom_prints program n more (Machine.start program)
    rw [← isLater] at printed
    exact ⟨n, added, (congrArg Ending.printed same).symm.trans printed⟩

end MiniTriangle
