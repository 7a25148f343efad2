import MiniTriangle.Proofs.ControlFlow
import MiniTriangle.Proofs.RoutineCode
import MiniTriangle.Proofs.Translation

/-! How often labels are used. A label is used as the target of a jump or as a place. The labels handed out while a tree
is generated are used once in each way, over its code and the code of all the routines inside it. -/

namespace MiniTriangle

def targets (code : List Instr) : List Label := code.filterMap Instr.target?

inductive Use where
  | target
  | place

def Use.labels : Use → List Instr → List Label
  | .target => targets
  | .place => placed

/-- How often a label is used in the code and in that of the routines inside it. -/
def uses (use : Use) (code : List Instr) (label : Label) : Nat := ((code :: routinesIn code).flatMap use.labels).count label

theorem Use.labels_append (use : Use) (before later : List Instr) :
    use.labels (before ++ later) = use.labels before ++ use.labels later := by
  cases use <;> exact List.filterMap_append

theorem count_labels (code : List Instr) (label : Label) :
    (labels code).count label = (targets code).count label + (placed code).count label := by
  induction code with
  | nil => rfl
  | cons instr rest ih =>
    cases instr with
    | jump kind target =>
      show (target :: labels rest).count label = (target :: targets rest).count label + (placed rest).count label
      rw [List.count_cons, List.count_cons, ih]
      omega
    | place target =>
      show (target :: labels rest).count label = (targets rest).count label + (target :: placed rest).count label
      rw [List.count_cons, List.count_cons, ih]
      omega
    | _ => exact ih

section

variable {use : Use} {code before later : List Instr}

theorem uses_append (label : Label) : uses use (before ++ later) label = uses use before label + uses use later label := by
  simp only [uses, List.flatMap_cons, routinesIn_append, List.flatMap_append, List.count_append, use.labels_append]
  omega

/-- A jump to a label and its place use it once in each way. -/
theorem uses_pair (use : Use) (kind : Jump) (label used : Nat) :
    uses use [.jump kind label] used + uses use [.place label] used = if label = used then 1 else 0 := by
  cases use with
  | target =>
    show [label].count used + 0 = _
    simp [List.count_singleton]
  | place =>
    show 0 + [label].count used = _
    simp [List.count_singleton]

theorem uses_straight (none : labels code = []) (plain : routinesIn code = []) (label : Label) :
    uses use code label = 0 := by
  have total := count_labels code label
  rw [none, List.count_nil] at total
  simp only [uses, plain, List.flatMap_cons, List.flatMap_nil, List.append_nil]
  cases use <;> simp only [Use.labels] <;> omega

theorem uses_function (names : List Tree) (name : Tree) (label : Label) :
    uses use [.routine names code, .op .makeFunction (.number 0), .op .storeFast name] label = uses use code label := by
  have inside : routinesIn [.routine names code, .op .makeFunction (.number 0), .op .storeFast name] =
      code :: routinesIn code := by
    simp [routinesIn, Instr.routines]
  rw [uses, List.flatMap_cons, inside]
  cases use <;> rfl

end

/-- Each label of a range is the target of one jump and has one place, in the code and the routines inside it, and no
other label is used. -/
def UsesOnce (first last : Nat) (code : List Instr) : Prop :=
  ∀ (use : Use) (label : Nat), uses use code label = if first ≤ label ∧ label < last then 1 else 0

namespace UsesOnce

variable {first middle last label : Nat} {code before later tested taken otherwise repeated : List Instr}

theorem straight (none : labels code = []) (plain : routinesIn code = []) : UsesOnce first first code := by
  intro use label
  have empty : ¬ (first ≤ label ∧ label < first) := by omega
  rw [if_neg empty]
  exact uses_straight none plain label

theorem append (one : UsesOnce first middle before) (other : UsesOnce middle last later) (up : first ≤ middle)
    (onward : middle ≤ last) : UsesOnce first last (before ++ later) := by
  intro use label
  rw [uses_append, one, other]
  split_ifs <;> omega

theorem conditional (none : labels tested = []) (plain : routinesIn tested = [])
    (takes : UsesOnce (label + 2) middle taken) (others : UsesOnce middle last otherwise) (up : label + 2 ≤ middle)
    (onward : middle ≤ last) :
    UsesOnce label last (tested ++ Instr.jump .ifFalse label :: (taken ++ Instr.jump .forward (label + 1) ::
      .place label :: (otherwise ++ [Instr.place (label + 1)]))) := by
  intro use used
  have elsePair := uses_pair use .ifFalse label used
  have donePair := uses_pair use .forward (label + 1) used
  show uses use (tested ++ ([Instr.jump .ifFalse label] ++ (taken ++ ([Instr.jump .forward (label + 1)] ++
    ([Instr.place label] ++ (otherwise ++ [Instr.place (label + 1)])))))) used = _
  simp only [uses_append, uses_straight none plain, takes use used, others use used]
  split_ifs at * <;> omega

theorem loop (none : labels tested = []) (plain : routinesIn tested = []) (repeats : UsesOnce (label + 2) last repeated)
    (up : label + 2 ≤ last) :
    UsesOnce label last
      (.place label :: (tested ++ Instr.jump .ifFalse (label + 1) ::
        (repeated ++ [Instr.jump .back label, .place (label + 1)]))) := by
  intro use used
  have startPair := uses_pair use .back label used
  have donePair := uses_pair use .ifFalse (label + 1) used
  show uses use ([Instr.place label] ++ (tested ++ ([Instr.jump .ifFalse (label + 1)] ++ (repeated ++
    ([Instr.jump .back label] ++ [Instr.place (label + 1)]))))) used = _
  simp only [uses_append, uses_straight none plain, repeats use used]
  split_ifs at * <;> omega

end UsesOnce

/-- The labels handed out while a tree is generated are those that its code uses, each once. -/
theorem DutyCode.usesOnce {duty : Duty} {tree : Tree} {first last : Label} {code : List Instr}
    (form : DutyCode duty tree first code last) : UsesOnce first last code := by
  have stored {tree : Tree} {code : List Instr} (valued : OperandCode .value tree code) (kind : Opcode) (operand : Tree)
      (label : Label) : UsesOnce label label (code ++ [.op kind operand]) := by
    refine .straight ?_ ?_
    · rw [labels_append, valued.labels_nil]
      rfl
    · rw [routinesIn_append, valued.routinesIn_nil]
      rfl
  induction form with
  | assign slot valued => exact stored valued _ _ _
  | call called => exact .straight called.labels_nil called.routinesIn_nil
  | sequence one other oneIH otherIH => exact oneIH.append otherIH one.labels_within.1 other.labels_within.1
  | conditional tests takes others takesIH othersIH =>
    exact .conditional tests.labels_nil tests.routinesIn_nil takesIH othersIH takes.labels_within.1 others.labels_within.1
  | loop tests repeats repeatsIH => exact .loop tests.labels_nil tests.routinesIn_nil repeatsIH repeats.labels_within.1
  | scope declares does declaresIH doesIH =>
    exact declaresIH.append doesIH declares.labels_within.1 does.labels_within.1
  | returns valued => exact stored valued _ _ _
  | var slot => exact .straight rfl rfl
  | const slot valued => exact stored valued _ _ _
  | declarations one other oneIH otherIH => exact oneIH.append otherIH one.labels_within.1 other.labels_within.1
  | function names does ih =>
    intro use label
    rw [uses_function]
    exact ih use label
  | nothing other => exact .straight rfl rfl

/-- A label that occurs in a list at all is used once in each way. -/
theorem UsesOnce.of_mem {first last : Nat} {code list : List Instr} (once : UsesOnce first last code)
    (member : list ∈ code :: routinesIn code) {label : Nat} (occurs : label ∈ labels list) (use : Use) :
    uses use code label = 1 := by
  have used (use : Use) (here : 0 < (use.labels list).count label) : 0 < uses use code label :=
    List.count_pos_iff.mpr (List.mem_flatMap.mpr ⟨list, member, List.count_pos_iff.mp here⟩)
  have counted : 0 < (targets list).count label + (placed list).count label := by
    rw [← count_labels]
    exact List.count_pos_iff.mpr occurs
  have inside : first ≤ label ∧ label < last := by
    apply Classical.byContradiction
    intro outside
    have unused (use : Use) : ¬ 0 < (use.labels list).count label := by
      intro here
      have positive := used use here
      rw [once use label, if_neg outside] at positive
      exact Nat.lt_irrefl 0 positive
    have noTarget := unused .target
    have noPlace := unused .place
    simp only [Use.labels] at noTarget noPlace
    omega
  rw [once use label, if_pos inside]

end MiniTriangle
