import MiniTriangle.Proofs.RoutineCode
import MiniTriangle.Proofs.SourceTexts
import MiniTriangle.Proofs.TreeHeights

/-! Where control runs off the end of code. A command that returns on every path leaves no way to the end of its code,
and any other command leaves one. The program itself ends with a return, the functions in it only if their bodies do. -/

namespace MiniTriangle

def Tree.alwaysReturns : Tree → Bool
  | .returns _ => true
  | .sequence first second => first.alwaysReturns || second.alwaysReturns
  | .ifElse _ yes no => yes.alwaysReturns && no.alwaysReturns
  | .letIn _ body => body.alwaysReturns
  | _ => false

def Instr.label? : Instr → Option Label
  | .jump _ label => some label
  | .place label => some label
  | _ => none

/-- Whether control may come to the next instruction, if it may come to this one from above or, at a place, by a jump to
a live label. -/
def Instr.onward (live : Label → Bool) (comes : Bool) : Instr → Bool
  | .place label => live label
  | instr => comes && instr.fallsThrough

def onward (live : Label → Bool) (comes : Bool) (code : List Instr) : Bool := code.foldl (Instr.onward live) comes

def Heeds (live : Label → Bool) (comes : Bool) : List Instr → Prop
  | [] => True
  | instr :: rest =>
    (comes = true → ∀ label, instr.label? = some label → live label = true) ∧ Heeds live (instr.onward live comes) rest

section

variable {live other : Label → Bool} {comes : Bool} {code before later : List Instr}

theorem onward_append : onward live comes (before ++ later) = onward live (onward live comes before) later :=
  List.foldl_append

theorem onward_cons (instr : Instr) : onward live comes (instr :: later) = onward live (instr.onward live comes) later := rfl

theorem heeds_append :
    Heeds live comes (before ++ later) ↔ Heeds live comes before ∧ Heeds live (onward live comes before) later := by
  induction before generalizing comes with
  | nil => exact ⟨fun heeds => ⟨trivial, heeds⟩, fun both => both.2⟩
  | cons instr rest ih =>
    rw [List.cons_append, Heeds, Heeds, ih, and_assoc]
    rfl

theorem heeds_at (heeds : Heeds live comes code) {here : Nat} {instr : Instr} (found : code[here]? = some instr)
    (reaches : onward live comes (code.take here) = true) {label : Label} (labelled : instr.label? = some label) :
    live label = true := by
  induction code generalizing here comes with
  | nil => cases found
  | cons first rest ih =>
    cases here with
    | zero =>
      cases found
      exact heeds.1 reaches label labelled
    | succ here => exact ih heeds.2 found reaches

def ComesAt (live : Label → Bool) (code : List Instr) (here : Nat) : Prop :=
  onward live true (code.take here) = true ∨ ∃ label, code[here]? = some (.place label) ∧ live label = true

theorem comesAt_goes (heeds : Heeds live true code) {here there : Nat} (comes : ComesAt live code here)
    (goes : Goes code here there) : ComesAt live code there := by
  cases goes with
  | @next instr found falls =>
    left
    rw [List.take_add_one, found, onward_append]
    show instr.onward live (onward live true (code.take here)) = true
    rcases comes with above | ⟨label, placed, alive⟩
    · cases instr with
      | place label => exact heeds_at heeds found above rfl
      | _ => exact Bool.and_eq_true_iff.mpr ⟨above, falls⟩
    · cases found.symm.trans placed
      exact alive
  | @jump there instr label found aims placed =>
    right
    refine ⟨label, placed, ?_⟩
    rcases comes with above | ⟨other, place, _⟩
    · refine heeds_at heeds found above ?_
      cases instr with
      | jump kind target => exact aims
      | _ => cases aims
    · cases found.symm.trans place
      cases aims

/-- If no label that is live or comes to leads to the end, control never comes there. -/
theorem not_reached_of_heeds (heeds : Heeds live true code) (ends : onward live true code = false) :
    ¬ Reached code code.length := by
  intro reached
  have all {here : Nat} (reached : Reached code here) : ComesAt live code here := by
    induction reached with
    | start => exact .inl rfl
    | step _ goes ih => exact comesAt_goes heeds ih goes
  rcases all reached with above | ⟨label, placed, _⟩
  · rw [List.take_length, ends] at above
    cases above
  · rw [List.getElem?_eq_none (Nat.le_refl _)] at placed
    cases placed

/-- Where all labels are live, control may come anywhere. -/
theorem heeds_of_live (alive : ∀ label ∈ labels code, live label = true) : Heeds live comes code := by
  induction code generalizing comes with
  | nil => trivial
  | cons instr rest ih =>
    cases instr with
    | jump kind target =>
      obtain ⟨own, others⟩ := List.forall_mem_cons.mp alive
      refine ⟨fun _ label same => ?_, ih others⟩
      cases same
      exact own
    | place target =>
      obtain ⟨own, others⟩ := List.forall_mem_cons.mp alive
      refine ⟨fun _ label same => ?_, ih others⟩
      cases same
      exact own
    | _ => exact ⟨fun _ _ same => (nomatch same), ih alive⟩

/-- Code that control does not come to, with no live label, is not entered. -/
theorem heeds_of_dead (dead : ∀ label ∈ labels code, live label = false) :
    Heeds live false code ∧ onward live false code = false := by
  induction code with
  | nil => exact ⟨trivial, rfl⟩
  | cons instr rest ih =>
    cases instr with
    | jump kind target =>
      obtain ⟨heeds, ends⟩ := ih (List.forall_mem_cons.mp dead).2
      exact ⟨⟨nofun, heeds⟩, ends⟩
    | place target =>
      obtain ⟨own, others⟩ := List.forall_mem_cons.mp dead
      obtain ⟨heeds, ends⟩ := ih others
      have closed : (Instr.place target).onward live false = false := own
      refine ⟨⟨nofun, ?_⟩, ?_⟩
      · rw [closed]
        exact heeds
      · rw [onward_cons, closed]
        exact ends
    | _ =>
      obtain ⟨heeds, ends⟩ := ih dead
      exact ⟨⟨nofun, heeds⟩, ends⟩

end

/-- Control that comes to the start of the code does not come to its end. The live labels of the range show this, whatever
the others are. -/
def Blocks (first last : Nat) (code : List Instr) : Prop :=
  ∃ live : Nat → Bool, ∀ other : Nat → Bool, (∀ label, first ≤ label → label < last → other label = live label) →
    ∀ comes, Heeds other comes code ∧ onward other comes code = false

namespace Blocks

variable {first middle last label : Nat} {before later tested taken otherwise : List Instr}

theorem returns (none : labels before = []) (value : Tree) : Blocks label label (before ++ [.op .returnValue value]) := by
  refine ⟨fun _ => true, fun live _ comes => ⟨heeds_of_live ?_, ?_⟩⟩
  · rw [labels_append, none]
    exact nofun
  · rw [onward_append]
    exact Bool.and_false _

/-- Code after a block is not entered. -/
theorem ahead (blocks : Blocks first middle before) (within : ∀ label ∈ labels later, middle ≤ label ∧ label < last)
    (up : first ≤ middle) (onto : middle ≤ last) : Blocks first last (before ++ later) := by
  obtain ⟨live, shows⟩ := blocks
  refine ⟨fun label => if label < middle then live label else false, fun other agrees comes => ?_⟩
  have same (label : Nat) (low : first ≤ label) (high : label < middle) : other label = live label :=
    (agrees label low (by omega)).trans (if_pos high)
  have dead (label : Nat) (member : label ∈ labels later) : other label = false := by
    obtain ⟨low, high⟩ : middle ≤ label ∧ label < last := within label member
    exact (agrees label (by omega) high).trans (if_neg (by omega))
  obtain ⟨heeds, ends⟩ := shows other same comes
  rw [heeds_append, onward_append, ends]
  exact ⟨⟨heeds, (heeds_of_dead dead).1⟩, (heeds_of_dead dead).2⟩

/-- A block after any code. -/
theorem behind (blocks : Blocks middle last later) (within : ∀ label ∈ labels before, first ≤ label ∧ label < middle)
    (up : first ≤ middle) (onto : middle ≤ last) : Blocks first last (before ++ later) := by
  obtain ⟨live, shows⟩ := blocks
  refine ⟨fun label => if label < middle then true else live label, fun other agrees comes => ?_⟩
  have same (label : Nat) (low : middle ≤ label) (high : label < last) : other label = live label :=
    (agrees label (by omega) high).trans (if_neg (by omega))
  have alive (label : Nat) (member : label ∈ labels before) : other label = true := by
    obtain ⟨low, high⟩ : first ≤ label ∧ label < middle := within label member
    exact (agrees label low (by omega)).trans (if_pos high)
  obtain ⟨heeds, ends⟩ := shows other same (onward other comes before)
  rw [heeds_append, onward_append]
  exact ⟨⟨heeds_of_live alive, heeds⟩, ends⟩

/-- Control comes to both commands of a conditional, and to the end of neither. -/
theorem conditional (none : labels tested = []) (takes : Blocks (label + 2) middle taken)
    (others : Blocks middle last otherwise) (up : label + 2 ≤ middle) (onto : middle ≤ last) :
    Blocks label last (tested ++ Instr.jump .ifFalse label :: (taken ++ Instr.jump .forward (label + 1) ::
      .place label :: (otherwise ++ [Instr.place (label + 1)]))) := by
  obtain ⟨live, shows⟩ := takes
  obtain ⟨rival, rivalShows⟩ := others
  refine ⟨fun used => if used = label then true else if used = label + 1 then false else
    if used < middle then live used else rival used, fun other agrees comes => ?_⟩
  have elseLive : other label = true := (agrees label (by omega) (by omega)).trans (if_pos rfl)
  have doneDead : other (label + 1) = false :=
    (agrees (label + 1) (by omega) (by omega)).trans ((if_neg (by omega)).trans (if_pos rfl))
  have same (used : Nat) (low : label + 2 ≤ used) (high : used < middle) : other used = live used :=
    (agrees used (by omega) (by omega)).trans ((if_neg (by omega)).trans ((if_neg (by omega)).trans (if_pos high)))
  have rivalSame (used : Nat) (low : middle ≤ used) (high : used < last) : other used = rival used :=
    (agrees used (by omega) high).trans ((if_neg (by omega)).trans ((if_neg (by omega)).trans (if_neg (by omega))))
  have testHeeds : Heeds other comes tested := heeds_of_live (by rw [none]; exact nofun)
  obtain ⟨takenHeeds, takenEnds⟩ := shows other same (onward other comes tested)
  obtain ⟨otherHeeds, otherEnds⟩ := rivalShows other rivalSame true
  simp only [heeds_append, onward_append, Heeds, onward_cons, Instr.onward, Instr.fallsThrough, Bool.and_true,
    Bool.and_false, elseLive, doneDead, takenEnds, otherEnds]
  have skipped {claim : Prop} (comes : false = true) : claim := absurd comes Bool.false_ne_true
  refine ⟨⟨testHeeds, ?_, takenHeeds, skipped, skipped, otherHeeds, skipped, trivial⟩, rfl⟩
  intro _ used own
  cases own
  exact elseLive

end Blocks

namespace DutyCode

variable {duty : Duty} {tree : Tree} {label last : Label} {code : List Instr}

/-- The code of a command that always returns is a block. -/
theorem blocks (form : DutyCode duty tree label code last) (commands : duty = .command)
    (returns : tree.alwaysReturns = true) : Blocks label last code := by
  induction form with
  | sequence one other oneIH otherIH =>
    have up := one.labels_within
    have onto := other.labels_within
    rcases Bool.or_eq_true_iff.mp returns with first | second
    · exact (oneIH rfl first).ahead onto.2 up.1 onto.1
    · exact (otherIH rfl second).behind up.2 up.1 onto.1
  | conditional tests takes others takesIH othersIH =>
    obtain ⟨taken, otherwise⟩ := Bool.and_eq_true_iff.mp returns
    exact .conditional tests.labels_nil (takesIH rfl taken) (othersIH rfl otherwise) takes.labels_within.1
      others.labels_within.1
  | scope declares does _ doesIH =>
    have up := declares.labels_within
    exact (doesIH rfl returns).behind up.2 up.1 does.labels_within.1
  | returns valued => exact .returns valued.labels_nil _
  | assign | call | loop => cases returns
  | _ => cases commands

end DutyCode

section

variable {whole part : List Instr} {here : Nat}

theorem Reached.passes (reached : Reached whole here) (located : Located whole here part)
    (straight : ∀ instr ∈ part, instr.straight = true) : Reached whole (here + part.length) := by
  induction part generalizing here with
  | nil => exact reached
  | cons instr rest ih =>
    obtain ⟨first, others⟩ := List.forall_mem_cons.mp straight
    have next := reached.step (.next located.head (goesOn_of_straight first).2)
    have ended := ih next located.tail others
    rwa [List.length_cons, Nat.add_comm rest.length 1, ← Nat.add_assoc]

/-- Control comes to both commands of a conditional and, from the end of either, to its own end. -/
theorem Reached.conditional {label : Nat} {tested taken otherwise : List Instr} {test yes no : Tree}
    (reached : Reached whole here) (tests : OperandCode .value test tested)
    (located : Located whole here (tested ++ Instr.jump .ifFalse label :: (taken ++ Instr.jump .forward (label + 1) ::
      .place label :: (otherwise ++ [Instr.place (label + 1)]))))
    (taking : ∀ {here}, Reached whole here → Located whole here taken → yes.alwaysReturns = false →
      Reached whole (here + taken.length))
    (passing : ∀ {here}, Reached whole here → Located whole here otherwise → no.alwaysReturns = false →
      Reached whole (here + otherwise.length))
    (goesOn : (Tree.ifElse test yes no).alwaysReturns = false) :
    Reached whole (here + tested.length + 1 + taken.length + 1 + 1 + otherwise.length + 1) := by
  have fork := located.second
  have leap := fork.tail.second
  have branch := leap.tail
  have done := branch.tail.second
  have atTest := reached.passes located.first tests.straight
  have atTaken := atTest.step (.next fork.head rfl)
  have atOther := (atTest.step (.jump fork.head rfl branch.head)).step (.next branch.head rfl)
  have atDone : Reached whole (here + tested.length + 1 + taken.length + 1 + 1 + otherwise.length) := by
    rcases Bool.and_eq_false_iff.mp goesOn with taken | otherwise
    · exact (taking atTaken fork.tail.first taken).step (.jump leap.head rfl done.head)
    · exact passing atOther branch.tail.first otherwise
  exact atDone.step (.next done.head rfl)

/-- A loop is left when its test fails, whatever its body does. -/
theorem Reached.loop {label : Nat} {tested repeated : List Instr} {test : Tree} (reached : Reached whole here)
    (tests : OperandCode .value test tested)
    (located : Located whole here
      (.place label :: (tested ++ Instr.jump .ifFalse (label + 1) ::
        (repeated ++ [Instr.jump .back label, .place (label + 1)])))) :
    Reached whole (here + 1 + tested.length + 1 + repeated.length + 1 + 1) := by
  have fork := located.tail.second
  have done := fork.tail.second.tail
  have atStart := reached.step (.next located.head rfl)
  have atTest := atStart.passes located.tail.first tests.straight
  exact (atTest.step (.jump fork.head rfl done.head)).step (.next done.head rfl)

end

/-- Control goes through the code of a command that does not always return, and through every declaration. -/
theorem DutyCode.reaches {duty : Duty} {tree : Tree} {label last : Label} {code whole : List Instr} {here : Nat}
    (form : DutyCode duty tree label code last) (reached : Reached whole here) (located : Located whole here code)
    (goesOn : duty = .command → tree.alwaysReturns = false) : Reached whole (here + code.length) := by
  induction form generalizing here with
  | assign slot valued => exact reached.passes located (Straight.stored valued slot).straight
  | call called => exact reached.passes located called.straight
  | sequence _ _ oneIH otherIH =>
    obtain ⟨first, second⟩ := Bool.or_eq_false_iff.mp (goesOn rfl)
    rw [List.length_append, ← Nat.add_assoc]
    exact otherIH (oneIH reached located.first fun _ => first) located.second fun _ => second
  | conditional tests _ _ takesIH othersIH =>
    have ended := reached.conditional tests located (fun reached located goesOn => takesIH reached located fun _ => goesOn)
      (fun reached located goesOn => othersIH reached located fun _ => goesOn) (goesOn rfl)
    simpa [Nat.add_assoc, Nat.add_comm, Nat.add_left_comm] using ended
  | loop tests _ _ =>
    have ended := reached.loop tests located
    simpa [Nat.add_assoc, Nat.add_comm, Nat.add_left_comm] using ended
  | scope declares does declaresIH doesIH =>
    rw [List.length_append, ← Nat.add_assoc]
    exact doesIH (declaresIH reached located.first nofun) located.second goesOn
  | returns valued => cases goesOn rfl
  | var slot => exact reached.passes located (Straight.var slot).straight
  | const slot valued => exact reached.passes located (Straight.stored valued slot).straight
  | declarations _ _ oneIH otherIH =>
    rw [List.length_append, ← Nat.add_assoc]
    exact otherIH (oneIH reached located.first nofun) located.second nofun
  | function names does ih => exact reached.passes located (Straight.function names _ _).straight
  | nothing other => exact reached

/-- The end of the code of a command is reached exactly if the command does not always return. -/
theorem DutyCode.reached_end_iff {tree : Tree} {label last : Label} {code : List Instr}
    (form : DutyCode .command tree label code last) : Reached code code.length ↔ tree.alwaysReturns = false := by
  constructor
  · intro reached
    apply Bool.eq_false_iff.mpr
    intro returns
    obtain ⟨live, shows⟩ := form.blocks rfl returns
    obtain ⟨heeds, ends⟩ := shows live (fun _ _ _ => rfl) true
    exact not_reached_of_heeds heeds ends reached
  · intro goesOn
    have located := Located.whole code []
    rw [List.append_nil] at located
    have ended := form.reaches .start located fun _ => goesOn
    rwa [Nat.zero_add] at ended

/-- Control never runs off code that ends with a return or a jump that is always taken. -/
theorem not_reached_end {before : List Instr} {instr : Instr} (stops : instr.fallsThrough = false) :
    ¬ Reached (before ++ [instr]) (before ++ [instr]).length := by
  generalize whole : before ++ [instr] = code
  generalize ended : code.length = last
  intro reached
  cases reached with
  | start => simp [← whole] at ended
  | @step here _ _ goes =>
    cases goes with
    | next found falls =>
      have own : code[here]? = some instr := by
        rw [← whole, List.length_append, List.length_singleton] at ended
        rw [← whole, ← Nat.succ.inj ended, List.getElem?_append_right (Nat.le_refl _), Nat.sub_self]
        rfl
      cases found.symm.trans own
      rw [stops] at falls
      cases falls
    | jump found aims placed =>
      rw [List.getElem?_eq_none (Nat.le_of_eq ended)] at placed
      cases placed

/-- Control never runs off the end of a compiled program. It runs off the end of a function in it exactly if the body of
the function does not always return. -/
theorem runs_off_iff {tree : Tree} {routine : Routine} {state : State}
    (compiled : compileTree tree = .ok (routine, state)) :
    ∃ command, tree = .program command ∧ ¬ Reached routine.body routine.body.length ∧
      List.Forall₂ (fun list body => Reached list list.length ↔ body.alwaysReturns = false) (routinesIn routine.body)
        command.commandBodies := by
  have generated := (compileTree_eq_ok.mp compiled).2
  cases tree with
  | program command =>
    obtain ⟨code, last, form, whole⟩ := Generate.program_code generated
    have inside : routinesIn routine.body = routinesIn code := by
      rw [whole, routinesIn_append]
      exact List.append_nil _
    refine ⟨command, rfl, ?_, ?_⟩
    · have split : routine.body = (code ++ [.op .loadConst .absent]) ++ [.op .returnValue .absent] := by
        rw [whole, List.append_assoc]
        rfl
      rw [split]
      exact not_reached_end rfl
    · rw [inside]
      refine form.routines.imp fun list body made => ?_
      obtain ⟨first, next, bodyForm⟩ := made
      exact bodyForm.reached_end_iff
  | _ => exact absurd generated Sequencing.throw_ne_ok

/-- Two functions of one test, of which the second returns in one branch only. -/
def halfReturning : Tree :=
  let tests := Tree.binary (.reference (.name (.text "a"))) (.text "<") (.integer (.number 1))
  let returned := Tree.returns (.reference (.name (.text "a")))
  .letIn (.declarations
      (.funcDecl (.text "f") (.parameter (.text "a") .absent) .absent (.ifElse tests returned returned))
      (.funcDecl (.text "g") (.parameter (.text "a") .absent) .absent
        (.ifElse tests returned (.assign (.name (.text "a")) (.integer (.number 2))))))
    (.call (.text "putint") (.parameter (.call (.text "f") (.parameter (.integer (.number 1)) .absent)) .absent))

theorem halfReturning_runs_off : ∃ routine state first second,
    compileTree (.program halfReturning) = .ok (routine, state) ∧ ¬ Reached routine.body routine.body.length ∧
      routinesIn routine.body = [first, second] ∧ ¬ Reached first first.length ∧ Reached second second.length := by
  have compiles : (compileTree (.program halfReturning)).isOk = true := by decide +kernel
  cases answer : compileTree (.program halfReturning) with
  | error cause => rw [answer] at compiles; cases compiles
  | ok result =>
    obtain ⟨command, same, ends, lists⟩ := runs_off_iff answer
    cases same
    generalize listed : routinesIn result.1.body = routines at lists
    cases lists with
    | @cons first _ _ _ always rest =>
      cases rest with
      | @cons second _ _ _ sometimes rest =>
        cases rest
        exact ⟨result.1, result.2, first, second, rfl, ends, listed,
          fun reached => absurd (always.mp reached) (by decide), sometimes.mpr rfl⟩

end MiniTriangle
