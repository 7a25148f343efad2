import MiniTriangle.Proofs.LabelUses
import MiniTriangle.Proofs.SourceTexts

/-! Jumps and the places they go to. Every conditional and every loop has two labels, with jump and place in the code of
the routine that the command belongs to, and the stretch between the two holds other commands as a whole or not at all. -/

namespace MiniTriangle

structure Target where
  label : Label
  kind : Jump
  jump : Nat
  place : Nat

namespace Target

/-- Jump and place are in the code. A jump back goes to an earlier position, any other jump to a later one. -/
structure Stands (code : List Instr) (target : Target) : Prop where
  jumps : code[target.jump]? = some (.jump target.kind target.label)
  placed : code[target.place]? = some (.place target.label)
  ordered : if target.kind = .back then target.place < target.jump else target.jump < target.place

def first (target : Target) : Nat := min target.jump target.place

def last (target : Target) : Nat := max target.jump target.place

/-- Two stretches between jump and place are apart, or one lies inside the other. -/
def Clear (target other : Target) : Prop :=
  target.last < other.first ∨ other.last < target.first ∨
    target.first < other.first ∧ other.last < target.last ∨ other.first < target.first ∧ target.last < other.last

end Target

abbrev Site := List Target

def Site.Clear (site other : Site) : Prop := ∀ target ∈ site, ∀ rival ∈ other, target.Clear rival

/-- The jumps of a conditional and of a loop, apart from those of the commands inside it. -/
def Tree.jumps : Tree → List Jump
  | .ifElse _ _ _ => [.ifFalse, .forward]
  | .whileDo _ _ => [.back, .ifFalse]
  | _ => []

/-- The conditionals and loops of a command, each before those inside it, without those in the functions it declares. -/
def Tree.branchings : Tree → List Tree
  | .sequence first second => first.branchings ++ second.branchings
  | .ifElse test yes no => .ifElse test yes no :: (yes.branchings ++ no.branchings)
  | .whileDo test body => .whileDo test body :: body.branchings
  | .letIn _ body => body.branchings
  | _ => []

/-- A site for each of the branchings, between two positions of the code: its jumps are there, and no two sites cross. -/
structure Sited (code : List Instr) (low high : Nat) (branchings : List Tree) (sites : List Site) : Prop where
  kinds : sites.map (·.map Target.kind) = branchings.map Tree.jumps
  stands : ∀ site ∈ sites, ∀ target ∈ site, target.Stands code
  between : ∀ site ∈ sites, ∀ target ∈ site, low ≤ target.first ∧ target.last < high
  clear : sites.Pairwise Site.Clear

def Covers (sites : List Site) (code : List Instr) : Prop := labels code ⊆ sites.flatten.map Target.label

namespace Sited

variable {code : List Instr} {low middle next high : Nat} {branchings others : List Tree} {sites rivals : List Site}

theorem nothing : Sited code low high [] [] := ⟨rfl, by simp, by simp, .nil⟩

/-- Sites one after the other. -/
theorem join (first : Sited code low middle branchings sites) (second : Sited code next high others rivals)
    (begins : low ≤ next) (after : middle ≤ next) (ends : middle ≤ high) :
    Sited code low high (branchings ++ others) (sites ++ rivals) := by
  refine ⟨?_, ?_, ?_, List.pairwise_append.mpr ⟨first.clear, second.clear, ?_⟩⟩
  · rw [List.map_append, List.map_append, first.kinds, second.kinds]
  · intro site member
    rcases List.mem_append.mp member with early | late
    · exact first.stands site early
    · exact second.stands site late
  · intro site member target own
    rcases List.mem_append.mp member with early | late
    · have bounds := first.between site early target own
      omega
    · have bounds := second.between site late target own
      omega
  · intro site early rival late target own other foreign
    have low := first.between site early target own
    have high := second.between rival late other foreign
    left
    omega

theorem widen (sited : Sited code low middle branchings sites) (wider : middle ≤ high) :
    Sited code low high branchings sites := by
  refine ⟨sited.kinds, sited.stands, ?_, sited.clear⟩
  intro site member target own
  have bounds := sited.between site member target own
  omega

/-- The site of a command around those of the commands inside it. -/
theorem around {branching : Tree} {one other : Target} (inner : Sited code low high branchings sites)
    (kinds : [one.kind, other.kind] = branching.jumps) (oneStands : one.Stands code) (otherStands : other.Stands code)
    {first last : Nat} (begins : first ≤ one.first ∧ first ≤ other.first ∧ first ≤ low)
    (ends : one.last < last ∧ other.last < last ∧ high ≤ last)
    (clear : ∀ site ∈ sites, ∀ target ∈ site, one.Clear target ∧ other.Clear target) :
    Sited code first last (branching :: branchings) ([one, other] :: sites) := by
  refine ⟨?_, ?_, ?_, List.pairwise_cons.mpr ⟨?_, inner.clear⟩⟩
  · show [one.kind, other.kind] :: sites.map _ = branching.jumps :: branchings.map _
    rw [kinds, inner.kinds]
  · refine List.forall_mem_cons.mpr ⟨?_, inner.stands⟩
    simp [oneStands, otherStands]
  · refine List.forall_mem_cons.mpr ⟨?_, ?_⟩
    · simp [begins, ends]
    · intro site member target own
      have bounds := inner.between site member target own
      omega
  · intro site member target own rival foreign
    have apart := clear site member rival foreign
    rcases List.mem_cons.mp own with rfl | own
    · exact apart.1
    · rw [List.mem_singleton.mp own]
      exact apart.2

end Sited

theorem Covers.append {sites rivals : List Site} {before later : List Instr} (first : Covers sites before)
    (second : Covers rivals later) : Covers (sites ++ rivals) (before ++ later) := by
  unfold Covers at *
  rw [labels_append, List.flatten_append, List.map_append]
  exact List.append_subset.mpr ⟨List.subset_append_of_subset_left _ first, List.subset_append_of_subset_right _ second⟩

theorem Covers.around {sites : List Site} {inside code : List Instr} {one other : Target} (inner : Covers sites inside)
    (rest : ∀ label ∈ labels code, label = one.label ∨ label = other.label ∨ label ∈ labels inside) :
    Covers ([one, other] :: sites) code := by
  intro label member
  rcases rest label member with rfl | rfl | within
  · exact List.mem_cons_self
  · exact List.mem_cons_of_mem _ List.mem_cons_self
  · exact List.mem_cons_of_mem _ (List.mem_cons_of_mem _ (inner within))

theorem covers_straight {code : List Instr} (none : labels code = []) : Covers [] code := by
  unfold Covers
  rw [none]
  exact List.nil_subset _

namespace DutyCode

variable {tree : Tree} {label middle last : Label} {code whole : List Instr} {here : Nat}

/-- Declarations have no labels of their own; those of a function are in its own code. -/
theorem labels_declared {duty : Duty} (form : DutyCode duty tree label code last) (declares : duty = .declaration) :
    labels code = [] := by
  induction form with
  | const slot valued => rw [labels_append, valued.labels_nil]; rfl
  | declarations _ _ oneIH otherIH => rw [labels_append, oneIH rfl, otherIH rfl]; rfl
  | var slot => rfl
  | function names does ih => rfl
  | nothing other => rfl
  | _ => cases declares

theorem sited_conditional {test yes no : Tree} {tested taken otherwise : List Instr} (tests : OperandCode .value test tested)
    (located : Located whole here (tested ++ Instr.jump .ifFalse label :: (taken ++ Instr.jump .forward (label + 1) ::
      .place label :: (otherwise ++ [Instr.place (label + 1)]))))
    (taking : ∀ {here}, Located whole here taken →
      ∃ sites, Sited whole here (here + taken.length) yes.branchings sites ∧ Covers sites taken)
    (passing : ∀ {here}, Located whole here otherwise →
      ∃ sites, Sited whole here (here + otherwise.length) no.branchings sites ∧ Covers sites otherwise) :
    ∃ sites, Sited whole here (here + tested.length + 1 + taken.length + 1 + 1 + otherwise.length + 1)
        (Tree.ifElse test yes no).branchings sites ∧
      Covers sites (tested ++ Instr.jump .ifFalse label :: (taken ++ Instr.jump .forward (label + 1) ::
        .place label :: (otherwise ++ [Instr.place (label + 1)]))) := by
  have fork := located.second
  have leap := fork.tail.second
  have branch := leap.tail
  have done := branch.tail.second
  obtain ⟨sites, sited, covers⟩ := taking fork.tail.first
  obtain ⟨rivals, rivalSited, rivalCovers⟩ := passing branch.tail.first
  let one : Target := ⟨label, .ifFalse, here + tested.length, here + tested.length + 1 + taken.length + 1⟩
  let other : Target := ⟨label + 1, .forward, here + tested.length + 1 + taken.length,
    here + tested.length + 1 + taken.length + 1 + 1 + otherwise.length⟩
  have oneStands : one.Stands whole := ⟨fork.head, branch.head, by simp [one]; omega⟩
  have otherStands : other.Stands whole := ⟨leap.head, done.head, by simp [other]; omega⟩
  have inner := sited.join rivalSited (by omega) (by omega) (by omega)
  refine ⟨[one, other] :: (sites ++ rivals), inner.around rfl oneStands otherStands ?_ ?_ ?_, ?_⟩
  · simp only [one, other, Target.first]
    omega
  · simp only [one, other, Target.last]
    omega
  · -- The stretch from the test to the second command holds the first one, and that from there to the end the second.
    intro site member target own
    simp only [one, other, Target.Clear, Target.first, Target.last]
    rcases List.mem_append.mp member with early | late
    · have bounds := sited.between site early target own
      simp only [Target.first, Target.last] at bounds
      omega
    · have bounds := rivalSited.between site late target own
      simp only [Target.first, Target.last] at bounds
      omega
  · refine (covers.append rivalCovers).around fun used member => ?_
    simp only [labels_append, labels, tests.labels_nil, List.nil_append, List.mem_cons, List.mem_append] at member ⊢
    grind

theorem sited_loop {test body : Tree} {tested repeated : List Instr} (tests : OperandCode .value test tested)
    (located : Located whole here
      (.place label :: (tested ++ Instr.jump .ifFalse (label + 1) ::
        (repeated ++ [Instr.jump .back label, .place (label + 1)]))))
    (repeating : ∀ {here}, Located whole here repeated →
      ∃ sites, Sited whole here (here + repeated.length) body.branchings sites ∧ Covers sites repeated) :
    ∃ sites, Sited whole here (here + 1 + tested.length + 1 + repeated.length + 1 + 1)
        (Tree.whileDo test body).branchings sites ∧
      Covers sites
        (.place label :: (tested ++ Instr.jump .ifFalse (label + 1) ::
          (repeated ++ [Instr.jump .back label, .place (label + 1)]))) := by
  have fork := located.tail.second
  have leap := fork.tail.second
  have done := leap.tail
  obtain ⟨sites, sited, covers⟩ := repeating fork.tail.first
  let one : Target := ⟨label, .back, here + 1 + tested.length + 1 + repeated.length, here⟩
  let other : Target := ⟨label + 1, .ifFalse, here + 1 + tested.length,
    here + 1 + tested.length + 1 + repeated.length + 1⟩
  have oneStands : one.Stands whole := ⟨leap.head, located.head, by simp [one]; omega⟩
  have otherStands : other.Stands whole := ⟨fork.head, done.head, by simp [other]; omega⟩
  refine ⟨[one, other] :: sites, sited.around rfl oneStands otherStands ?_ ?_ ?_, ?_⟩
  · simp only [one, other, Target.first]
    omega
  · simp only [one, other, Target.last]
    omega
  · intro site member target own
    have bounds := sited.between site member target own
    simp only [one, other, Target.Clear, Target.first, Target.last] at bounds ⊢
    omega
  · refine covers.around fun used member => ?_
    simp only [labels_append, labels, tests.labels_nil, List.nil_append, List.mem_cons, List.mem_append] at member
    grind

/-- The conditionals and loops of a command have their sites in its code. -/
theorem sited {duty : Duty} (form : DutyCode duty tree label code last) (commands : duty = .command)
    (located : Located whole here code) :
    ∃ sites, Sited whole here (here + code.length) tree.branchings sites ∧ Covers sites code := by
  induction form generalizing here with
  | assign slot valued =>
    refine ⟨[], .nothing, covers_straight ?_⟩
    rw [labels_append, valued.labels_nil]
    rfl
  | call called => exact ⟨[], .nothing, covers_straight called.labels_nil⟩
  | sequence _ _ oneIH otherIH =>
    obtain ⟨sites, sited, covers⟩ := oneIH rfl located.first
    obtain ⟨rivals, rivalSited, rivalCovers⟩ := otherIH rfl located.second
    rw [List.length_append, ← Nat.add_assoc]
    exact ⟨_, sited.join rivalSited (by omega) (by omega) (by omega), covers.append rivalCovers⟩
  | conditional tests _ _ takesIH othersIH =>
    obtain ⟨sites, sited, covers⟩ := sited_conditional tests located (takesIH rfl) (othersIH rfl)
    refine ⟨sites, ?_, covers⟩
    simpa [Nat.add_assoc, Nat.add_comm, Nat.add_left_comm] using sited
  | loop tests _ repeatsIH =>
    obtain ⟨sites, sited, covers⟩ := sited_loop tests located (repeatsIH rfl)
    refine ⟨sites, ?_, covers⟩
    simpa [Nat.add_assoc, Nat.add_comm, Nat.add_left_comm] using sited
  | scope declares _ _ doesIH =>
    obtain ⟨sites, sited, covers⟩ := doesIH rfl located.second
    rw [List.length_append, ← Nat.add_assoc]
    have none := covers_straight (declares.labels_declared rfl)
    exact ⟨_, Sited.nothing.join sited (by omega) (Nat.le_refl _) (by omega), none.append covers⟩
  | returns valued =>
    refine ⟨[], .nothing, covers_straight ?_⟩
    rw [labels_append, valued.labels_nil]
    rfl
  | _ => cases commands

/-- The sites in the code of a command that is followed by code without labels. -/
theorem sited_whole (form : DutyCode .command tree label code last) (rest : List Instr) (none : labels rest = []) :
    ∃ sites, Sited (code ++ rest) 0 (code ++ rest).length tree.branchings sites ∧ Covers sites (code ++ rest) := by
  obtain ⟨sites, sited, covers⟩ := form.sited rfl (.whole code rest)
  have all := covers.append (covers_straight none)
  rw [List.append_nil] at all
  refine ⟨sites, sited.widen ?_, all⟩
  rw [List.length_append]
  omega

end DutyCode

/-- Whatever tree compiles, every label in its code is the target of one jump and has one place in all the code there
is. In the program and in each of its functions the conditionals and loops have sites of their own that do not cross,
and these hold all the jumps and places. -/
theorem jump_targets_wellFormed {tree : Tree} {routine : Routine} {state : State}
    (compiled : compileTree tree = .ok (routine, state)) :
    ∃ command, tree = .program command ∧
      (∀ list ∈ routine.body :: routinesIn routine.body, ∀ label ∈ labels list,
        ((routine.body :: routinesIn routine.body).flatMap targets).count label = 1 ∧
          ((routine.body :: routinesIn routine.body).flatMap placed).count label = 1) ∧
      List.Forall₂ (fun list body => ∃ sites, Sited list 0 list.length body.branchings sites ∧ Covers sites list)
        (routine.body :: routinesIn routine.body) (command :: command.commandBodies) := by
  have generated := (compileTree_eq_ok.mp compiled).2
  cases tree with
  | program command =>
    obtain ⟨code, last, form, whole⟩ := Generate.program_code generated
    have noRoutine : routinesIn [.op .loadConst .absent, .op .returnValue .absent] = [] := rfl
    have inside : routinesIn routine.body = routinesIn code := by
      rw [whole, routinesIn_append, noRoutine, List.append_nil]
    have once : UsesOnce 0 last routine.body := by
      rw [whole]
      exact form.usesOnce.append (.straight rfl noRoutine) (Nat.zero_le _) (Nat.le_refl _)
    refine ⟨command, rfl, ?_, .cons ?_ ?_⟩
    · intro list member label occurs
      exact ⟨once.of_mem member occurs .target, once.of_mem member occurs .place⟩
    · rw [whole]
      exact form.sited_whole _ rfl
    · rw [inside]
      refine form.routines.imp fun list body made => ?_
      obtain ⟨first, next, bodyForm⟩ := made
      have alone := bodyForm.sited_whole [] rfl
      rwa [List.append_nil] at alone
  | _ => exact absurd generated Sequencing.throw_ne_ok

/-- A function with a loop of its own, declared inside a branch inside a loop. -/
def loopInBranch : Tree :=
  .letIn (.varDecl (.text "x") .absent) <| .whileDo (.reference (.name (.text "x"))) <|
    .ifElse (.reference (.name (.text "x")))
      (.letIn (.funcDecl (.text "f") (.parameter (.text "a") .absent) .absent
          (.whileDo (.reference (.name (.text "a"))) (.returns (.reference (.name (.text "a"))))))
        (.call (.text "f") (.parameter (.reference (.name (.text "x"))) .absent)))
      (.assign (.name (.text "x")) (.reference (.name (.text "x"))))

theorem loopInBranch_targets : ∃ routine state, compileTree (.program loopInBranch) = .ok (routine, state) ∧
    ∃ command, Tree.program loopInBranch = .program command ∧
      (∀ list ∈ routine.body :: routinesIn routine.body, ∀ label ∈ labels list,
        ((routine.body :: routinesIn routine.body).flatMap targets).count label = 1 ∧
          ((routine.body :: routinesIn routine.body).flatMap placed).count label = 1) ∧
      List.Forall₂ (fun list body => ∃ sites, Sited list 0 list.length body.branchings sites ∧ Covers sites list)
        (routine.body :: routinesIn routine.body) (command :: command.commandBodies) := by
  have compiles : (compileTree (.program loopInBranch)).isOk = true := by decide +kernel
  cases answer : compileTree (.program loopInBranch) with
  | error cause => rw [answer] at compiles; cases compiles
  | ok result => exact ⟨result.1, result.2, rfl, jump_targets_wellFormed answer⟩

end MiniTriangle
