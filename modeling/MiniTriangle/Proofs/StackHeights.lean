import MiniTriangle.Code.Listing
import MiniTriangle.Proofs.ControlFlow

/-! Heights of the operand stack. Code is safe on the stack if every position that control may come to has one height,
whatever way control took, and no instruction takes more values than there are. It is enough to give the heights at
the labels: the others follow along the code. -/

namespace MiniTriangle

def Tree.valueCount : Tree → Nat
  | .number count => count.toNat
  | _ => 0

def Instr.pops : Instr → Nat
  | .op .storeFast _ | .op .printItem _ | .op .returnValue _ | .jump .ifFalse _ => 1
  | .op .binaryAdd _ | .op .binarySubtract _ | .op .binaryMultiply _ | .op .binaryDivide _ | .op .binaryModulo _
  | .op .compareOp _ => 2
  | .op .callFunction operand | .op .makeFunction operand => operand.valueCount + 1
  | _ => 0

def Instr.pushes : Instr → Nat
  | .op .loadConst _ | .op .loadFast _ | .op .loadGlobal _ | .op .binaryAdd _ | .op .binarySubtract _
  | .op .binaryMultiply _ | .op .binaryDivide _ | .op .binaryModulo _ | .op .compareOp _ | .op .callFunction _
  | .op .makeFunction _ | .routine _ _ => 1
  | _ => 0

def exchange? (pops pushes height : Nat) : Option Nat :=
  if pops ≤ height then some (height - pops + pushes) else none

def Instr.move? (instr : Instr) (height : Nat) : Option Nat := exchange? instr.pops instr.pushes height

/-- A height for each position, right along every way that control may take. -/
structure Steady (code : List Instr) (height : Nat → Nat) : Prop where
  starts : height 0 = 0
  enough : ∀ {here instr}, Reached code here → code[here]? = some instr → instr.pops ≤ height here
  moves : ∀ {here there instr}, Reached code here → code[here]? = some instr → Goes code here there →
    height there = height here - instr.pops + instr.pushes

def StackSafe (code : List Instr) : Prop := ∃ height, Steady code height

/-- The height at an instruction, if control comes there. A label has a height of its own, which control that comes
from above has to agree with. -/
def Instr.enter? (marks : Label → Option Nat) : Instr → Option Nat → Option (Option Nat)
  | .place label, height => if height = none ∨ height = marks label then some (marks label) else none
  | _, height => some height

/-- The height below an instruction, if control goes there. A jump has to agree with its label. -/
def Instr.leave? (marks : Label → Option Nat) (instr : Instr) : Option Nat → Option (Option Nat)
  | none => some none
  | some height =>
    ((instr.move? height).filter fun after => instr.target?.all (marks · == some after)).map fun after =>
      if instr.fallsThrough then some after else none

def Instr.pass? (marks : Label → Option Nat) (height : Option Nat) (instr : Instr) : Option (Option Nat) :=
  (instr.enter? marks height).bind (instr.leave? marks)

/-- The height at the end of the code, if control comes there; nothing if heights disagree or values lack. -/
def follow? (marks : Label → Option Nat) (code : List Instr) (height : Option Nat) : Option (Option Nat) :=
  code.foldlM (Instr.pass? marks) height

section

variable {marks : Label → Option Nat} {code : List Instr}

theorem follow?_append (before later : List Instr) (height : Option Nat) :
    follow? marks (before ++ later) height = (follow? marks before height).bind (follow? marks later) :=
  List.foldlM_append

theorem follow?_cons (instr : Instr) (rest : List Instr) (height : Option Nat) :
    follow? marks (instr :: rest) height = (instr.pass? marks height).bind (follow? marks rest) := rfl

/-- The height above a position of code that is followed from the start. -/
def above (marks : Label → Option Nat) (code : List Instr) (here : Nat) : Option Nat :=
  (follow? marks (code.take here) (some 0)).join

def entered (marks : Label → Option Nat) (code : List Instr) (here : Nat) : Option Nat :=
  match code[here]? with
  | some instr => (instr.enter? marks (above marks code here)).join
  | none => above marks code here

theorem enter?_some {instr : Instr} {height : Nat} {inside : Option Nat}
    (enters : instr.enter? marks (some height) = some inside) : inside = some height := by
  unfold Instr.enter? at enters
  split at enters
  · split at enters
    · next agrees =>
      rcases agrees with missing | agrees
      · cases missing
      · cases enters
        exact agrees.symm
    · cases enters
  · cases enters
    rfl

theorem follow?_at {final : Option Nat} {here : Nat} {instr : Instr} (followed : follow? marks code (some 0) = some final)
    (found : code[here]? = some instr) :
    instr.enter? marks (above marks code here) = some (entered marks code here) ∧
      instr.leave? marks (entered marks code here) = some (above marks code (here + 1)) := by
  obtain ⟨inside, same⟩ := List.getElem?_eq_some_iff.mp found
  have split : code = code.take here ++ instr :: code.drop (here + 1) := by
    rw [← same, List.getElem_cons_drop, List.take_append_drop]
  rw [split, follow?_append] at followed
  obtain ⟨height, reaching, rest⟩ := Option.bind_eq_some_iff.mp followed
  obtain ⟨after, passing, _⟩ := Option.bind_eq_some_iff.mp rest
  obtain ⟨at_, enters, leaves⟩ := Option.bind_eq_some_iff.mp passing
  have aboveHere : above marks code here = height := congrArg Option.join reaching
  have enteredHere : entered marks code here = at_ := by
    simp only [entered, found, aboveHere, enters]
    rfl
  have belowHere : above marks code (here + 1) = after := by
    unfold above
    rw [List.take_add_one, found, follow?_append, reaching]
    simp [passing, follow?]
  rw [aboveHere, enteredHere, belowHere]
  exact ⟨enters, leaves⟩

private theorem entered_of_above {final : Option Nat} {here height : Nat} (followed : follow? marks code (some 0) = some final)
    (known : above marks code here = some height) : entered marks code here = some height := by
  cases found : code[here]? with
  | none =>
    simp only [entered, found]
    exact known
  | some instr =>
    have enters := (follow?_at followed found).1
    rw [known] at enters
    exact enter?_some enters

/-- A step of control from a position of known height leads to one of known height. -/
private theorem entered_goes {final : Option Nat} {here there height : Nat} {instr : Instr}
    (followed : follow? marks code (some 0) = some final) (known : entered marks code here = some height)
    (found : code[here]? = some instr) (goes : Goes code here there) :
    entered marks code there = some (height - instr.pops + instr.pushes) := by
  have leaves := (follow?_at followed found).2
  rw [known] at leaves
  obtain ⟨after, moves, rest⟩ := Option.map_eq_some_iff.mp leaves
  obtain ⟨moved, agrees⟩ := Option.filter_eq_some_iff.mp moves
  have after_eq : after = height - instr.pops + instr.pushes := by
    unfold Instr.move? exchange? at moved
    split at moved
    · exact (Option.some.inj moved).symm
    · cases moved
  rw [← after_eq]
  cases goes with
  | next same falls =>
    cases found.symm.trans same
    rw [if_pos falls] at rest
    exact entered_of_above followed rest.symm
  | jump same aims placed =>
    cases found.symm.trans same
    rw [aims] at agrees
    have marked : marks _ = some after := eq_of_beq agrees
    have enters := (follow?_at followed placed).1
    simp only [Instr.enter?] at enters
    split at enters
    · rw [← Option.some.inj enters, marked]
    · cases enters

private theorem entered_reached {final : Option Nat} (followed : follow? marks code (some 0) = some final) {here : Nat}
    (reached : Reached code here) : ∃ height, entered marks code here = some height := by
  induction reached with
  | start => exact ⟨0, entered_of_above followed rfl⟩
  | step _ goes ih =>
    obtain ⟨height, known⟩ := ih
    cases goes with
    | next found falls => exact ⟨_, entered_goes followed known found (.next found falls)⟩
    | jump found aims placed => exact ⟨_, entered_goes followed known found (.jump found aims placed)⟩

/-- Code whose heights can be followed is safe. -/
theorem stackSafe_of_follow {final : Option Nat} (followed : follow? marks code (some 0) = some final) :
    StackSafe code := by
  refine ⟨fun here => (entered marks code here).getD 0, ?_, ?_, ?_⟩
  · rw [entered_of_above followed rfl]
    rfl
  · intro here instr reached found
    obtain ⟨height, known⟩ := entered_reached followed reached
    have leaves := (follow?_at followed found).2
    rw [known] at leaves
    obtain ⟨after, moves, _⟩ := Option.map_eq_some_iff.mp leaves
    have moved := (Option.filter_eq_some_iff.mp moves).1
    unfold Instr.move? exchange? at moved
    split at moved
    · next enough =>
      rw [known]
      exact enough
    · cases moved
  · intro here there instr reached found goes
    obtain ⟨height, known⟩ := entered_reached followed reached
    rw [entered_goes followed known found goes, known]
    rfl

end

/-- An instruction that neither jumps nor is jumped to. -/
def Instr.straight : Instr → Bool
  | .op .returnValue _ | .jump _ _ | .place _ => false
  | _ => true

theorem goesOn_of_straight {instr : Instr} (straight : instr.straight = true) :
    instr.target? = none ∧ instr.fallsThrough = true := by
  cases instr with
  | op code operand =>
    cases code with
    | returnValue => cases straight
    | _ => exact ⟨rfl, rfl⟩
  | jump kind label => cases straight
  | _ => exact ⟨rfl, rfl⟩

/-- The height after code in which every instruction is followed by the next. -/
def run? (code : List Instr) (height : Nat) : Option Nat := code.foldlM (fun height instr => instr.move? height) height

theorem run?_append (before later : List Instr) (height : Nat) :
    run? (before ++ later) height = (run? before height).bind (run? later) :=
  List.foldlM_append

theorem run?_one (instr : Instr) : run? [instr] = instr.move? := by
  funext height
  exact Option.bind_fun_some _

section

variable {marks : Label → Option Nat} {label : Label}

theorem pass?_straight {instr : Instr} (straight : instr.straight = true) (height : Nat) :
    instr.pass? marks (some height) = (instr.move? height).map some := by
  have enters : instr.enter? marks (some height) = some (some height) := by
    cases instr with
    | place label => cases straight
    | _ => rfl
  simp only [Instr.pass?, enters, Option.bind_some, Instr.leave?, goesOn_of_straight straight, Option.all_none, if_true]
  cases instr.move? height <;> rfl

theorem follow?_straight {code : List Instr} (straight : ∀ instr ∈ code, instr.straight = true) (height : Nat) :
    follow? marks code (some height) = (run? code height).map some := by
  induction code generalizing height with
  | nil => rfl
  | cons instr rest ih =>
    obtain ⟨first, others⟩ := List.forall_mem_cons.mp straight
    rw [follow?_cons, pass?_straight first]
    show _ = ((instr.move? height).bind (run? rest)).map some
    cases instr.move? height with
    | none => rfl
    | some after => exact ih others after

theorem pass?_place {height : Option Nat} (agrees : height = none ∨ height = marks label) :
    (Instr.place label).pass? marks height = some (marks label) := by
  simp only [Instr.pass?, Instr.enter?, if_pos agrees, Option.bind_some]
  cases marks label <;> rfl

theorem pass?_fork {height tested : Nat} (taken : exchange? 1 0 height = some tested)
    (marked : marks label = some tested) : (Instr.jump .ifFalse label).pass? marks (some height) = some (some tested) := by
  have moved : (Instr.jump .ifFalse label).move? height = some tested := taken
  simp [Instr.pass?, Instr.enter?, Instr.leave?, moved, Instr.target?, marked, Instr.fallsThrough]

theorem pass?_jump (kind : Jump) {height : Option Nat} (always : kind ≠ .ifFalse)
    (agrees : height = none ∨ height = marks label) : (Instr.jump kind label).pass? marks height = some none := by
  cases height with
  | none => rfl
  | some height =>
    have marked : marks label = some height := agrees.elim nofun Eq.symm
    cases kind with
    | ifFalse => exact absurd rfl always
    | _ => simp [Instr.pass?, Instr.enter?, Instr.leave?, Instr.move?, exchange?, Instr.pops, Instr.pushes,
        Instr.target?, marked, Instr.fallsThrough]

theorem pass?_return {operand : Tree} {height after : Nat} (enough : exchange? 1 0 height = some after) :
    (Instr.op .returnValue operand).pass? marks (some height) = some none := by
  have moved : (Instr.op .returnValue operand).move? height = some after := enough
  simp [Instr.pass?, Instr.enter?, Instr.leave?, moved, Instr.target?, Instr.fallsThrough]

/-- Code that control never comes to has no heights. -/
theorem follow?_unreached (code : List Instr) : follow? (fun _ => none) code none = some none := by
  induction code with
  | nil => rfl
  | cons instr rest ih =>
    have passes : instr.pass? (fun _ => none) none = some none := by
      cases instr <;> rfl
    rw [follow?_cons, passes]
    exact ih

/-- Only the labels of the code matter. -/
theorem follow?_congr {other : Label → Option Nat} {code : List Instr}
    (agree : ∀ label ∈ labels code, marks label = other label) (height : Option Nat) :
    follow? marks code height = follow? other code height := by
  induction code generalizing height with
  | nil => rfl
  | cons instr rest ih =>
    have first : instr.pass? marks height = instr.pass? other height := by
      cases instr with
      | jump kind label =>
        have same : marks label = other label := agree label List.mem_cons_self
        cases height <;>
          simp only [Instr.pass?, Instr.enter?, Option.bind_some, Instr.leave?, Instr.target?, Option.all_some, same]
      | place label =>
        have same : marks label = other label := agree label List.mem_cons_self
        simp only [Instr.pass?, Instr.enter?, same]
        rfl
      | _ => cases height <;> rfl
    have others : ∀ label ∈ labels rest, marks label = other label := by
      intro label inside
      refine agree label ?_
      cases instr with
      | jump kind target => exact List.mem_cons_of_mem _ inside
      | place target => exact List.mem_cons_of_mem _ inside
      | _ => exact inside
    rw [follow?_cons, follow?_cons, first]
    exact Option.bind_congr fun after _ => ih others after

end

namespace Steady

variable {code : List Instr} {height : Nat → Nat} {here there : Nat} {instr : Instr}

theorem goes (steady : Steady code height) (reached : Reached code here) (found : code[here]? = some instr)
    (goes : Goes code here there) : Reached code there ∧ instr.move? (height here) = some (height there) := by
  refine ⟨reached.step goes, ?_⟩
  unfold Instr.move? exchange?
  rw [if_pos (steady.enough reached found), steady.moves reached found goes]

/-- Code without jumps is passed to its end. -/
theorem passed {part : List Instr} (steady : Steady code height) (reached : Reached code here)
    (located : Located code here part) (straight : ∀ instr ∈ part, instr.straight = true) :
    Reached code (here + part.length) ∧ run? part (height here) = some (height (here + part.length)) := by
  induction part generalizing here with
  | nil => exact ⟨reached, rfl⟩
  | cons instr rest ih =>
    obtain ⟨first, others⟩ := List.forall_mem_cons.mp straight
    obtain ⟨next, moved⟩ := steady.goes reached located.head (.next located.head (goesOn_of_straight first).2)
    obtain ⟨ended, ran⟩ := ih next located.tail others
    have length : here + (instr :: rest).length = here + 1 + rest.length := by
      rw [List.length_cons]
      omega
    rw [length]
    refine ⟨ended, ?_⟩
    show (instr.move? (height here)).bind (run? rest) = _
    rw [moved]
    exact ran

end Steady

end MiniTriangle
