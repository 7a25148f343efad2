import MiniTriangle.Proofs.CodeForms
import MiniTriangle.Proofs.StackHeights

/-! Heights of the stack told from trees. The heights are followed through the tree of a command without its code: a
call stands for the same code wherever it is made, so a call of a function leaves a value behind as a command, and
printing leaves none as an expression. The code is safe exactly if the heights can be followed through the tree. -/

namespace MiniTriangle

open Sequencing

def Tree.argumentCount : Tree → Nat
  | .parameters first second => first.argumentCount + second.argumentCount
  | _ => 1

/-- The height after an expression, or after a list of arguments. -/
def Tree.heightAfter? : Tree → Nat → Option Nat
  | .integer _, height => some (height + 1)
  | .reference _, height => some (height + 1)
  | .unary _ operand, height => operand.heightAfter? height
  | .binary left operator right, height =>
    (left.heightAfter? height).bind fun first => (right.heightAfter? first).bind fun second =>
      if (Generate.operatorInstr? operator).isSome then exchange? 2 1 second else some second
  | .call callee list, height =>
    if callee = .text "putint" then (list.heightAfter? height).bind (exchange? 1 0)
    else if callee = .text "getint" then list.heightAfter? height
    else (list.heightAfter? (height + 1)).bind (exchange? (list.argumentCount + 1) 1)
  | .parameter value _, height => value.heightAfter? height
  | .parameters first second, height => (first.heightAfter? height).bind second.heightAfter?
  | _, _ => none

/-- The height after a declaration. The body of a function does not count. -/
def Tree.heightDeclared? : Tree → Nat → Option Nat
  | .constDecl _ value, height => (value.heightAfter? height).bind (exchange? 1 0)
  | .declarations first second, height => (first.heightDeclared? height).bind second.heightDeclared?
  | _, height => some height

/-- Two ways that meet have one height; a way that control does not come by has none. -/
def meet? : Option Nat → Option Nat → Option (Option Nat)
  | none, height => some height
  | height, none => some height
  | some first, some second => if first = second then some (some first) else none

/-- The height after a command, if control comes to its end; nothing if two ways meet at different heights or an
instruction lacks values. -/
def Tree.heightDone? : Tree → Nat → Option (Option Nat)
  | .assign _ value, height => ((value.heightAfter? height).bind (exchange? 1 0)).map some
  | .call callee list, height => ((Tree.call callee list).heightAfter? height).map some
  | .sequence first second, height =>
    (first.heightDone? height).bind fun
      | some middle => second.heightDone? middle
      | none => some none
  | .ifElse test yes no, height =>
    ((test.heightAfter? height).bind (exchange? 1 0)).bind fun tested =>
      (yes.heightDone? tested).bind fun taken => (no.heightDone? tested).bind (meet? taken)
  | .whileDo test body, height =>
    ((test.heightAfter? height).bind (exchange? 1 0)).bind fun tested =>
      (body.heightDone? tested).bind fun repeated => (meet? repeated (some height)).map fun _ => some tested
  | .letIn declared body, height => (declared.heightDeclared? height).bind body.heightDone?
  | .returns value, height => ((value.heightAfter? height).bind (exchange? 1 0)).map fun _ => none
  | _, _ => none

theorem operator_moves {operator : Tree} {instr : Instr} (known : Generate.operatorInstr? operator = some instr) :
    instr.straight = true ∧ instr.move? = exchange? 2 1 := by
  unfold Generate.operatorInstr? at known
  split at known <;> cases known <;> exact ⟨rfl, rfl⟩

private theorem run?_operator (operator : Tree) (height : Nat) : run? (Generate.operatorInstr? operator).toList height =
    if (Generate.operatorInstr? operator).isSome then exchange? 2 1 height else some height := by
  cases known : Generate.operatorInstr? operator with
  | none => rfl
  | some instr =>
    rw [Option.toList_some, run?_one, (operator_moves known).2]
    rfl

private theorem run?_print : run? [.op .printItem .absent, .op .printNewline .absent] = exchange? 1 0 := by
  funext height
  exact Option.bind_fun_some _

namespace OperandCode

variable {operand : Operand} {tree : Tree} {code : List Instr}

theorem straight (form : OperandCode operand tree code) : ∀ instr ∈ code, instr.straight = true := by
  induction form with
  | binary _ _ leftIH rightIH =>
    intro instr inside
    rcases List.mem_append.mp inside with before | inside
    · exact leftIH instr before
    · rcases List.mem_append.mp inside with later | last
      · exact rightIH instr later
      · exact (operator_moves (Option.mem_toList.mp last)).1
  | _ => simp_all [Instr.straight, or_imp]

theorem count_eq {count : Nat} (form : OperandCode (.arguments count) tree code) : count = tree.argumentCount := by
  generalize given : Operand.arguments count = operand at form
  induction form generalizing count with
  | argument =>
    cases given
    rfl
  | arguments _ _ oneIH otherIH =>
    cases given
    rw [oneIH rfl, otherIH rfl]
    rfl
  | _ => cases given

theorem run?_eq (form : OperandCode operand tree code) (height : Nat) : run? code height = tree.heightAfter? height := by
  induction form generalizing height with
  | integer value => rfl
  | reference target slot => rfl
  | plus _ ih => exact ih height
  | binary _ _ leftIH rightIH =>
    rw [run?_append, leftIH]
    refine Option.bind_congr fun first _ => ?_
    rw [run?_append, rightIH]
    exact Option.bind_congr fun second _ => run?_operator _ second
  | print _ ih => rw [run?_append, ih, run?_print]; rfl
  | read slot _ ih => exact (run?_append ..).trans ((Option.bind_fun_some _).trans (ih height))
  | call notPrint notRead inner ih =>
    show run? (_ ++ _) (height + 1) = _
    rw [run?_append, ih, inner.count_eq, run?_one]
    simp only [Tree.heightAfter?, if_neg notPrint, if_neg notRead]
    rfl
  | pair _ _ oneIH otherIH =>
    rw [run?_append, oneIH]
    exact Option.bind_congr fun middle _ => otherIH middle
  | argument _ ih => exact ih height
  | arguments _ _ oneIH otherIH =>
    rw [run?_append, oneIH]
    exact Option.bind_congr fun middle _ => otherIH middle

theorem follow?_eq {marks : Label → Option Nat} (form : OperandCode operand tree code) (height : Nat) :
    follow? marks code (some height) = (tree.heightAfter? height).map some := by
  rw [follow?_straight form.straight, form.run?_eq]

theorem passed {whole : List Instr} {height : Nat → Nat} {here : Nat} (form : OperandCode operand tree code)
    (steady : Steady whole height) (reached : Reached whole here) (located : Located whole here code) :
    Reached whole (here + code.length) ∧ tree.heightAfter? (height here) = some (height (here + code.length)) := by
  rw [← form.run?_eq]
  exact steady.passed reached located form.straight

end OperandCode

/-- If a height can be told, control comes to the position at this height. -/
def ComesTo (code : List Instr) (height : Nat → Nat) (there : Nat) (told : Option Nat) : Prop :=
  ∀ after, told = some after → Reached code there ∧ height there = after

namespace ComesTo

variable {code : List Instr} {height : Nat → Nat} {here there : Nat}

/-- A jump or a label on the way leaves the height as it is. -/
theorem onwards {told : Option Nat} {instr : Instr} (comes : ComesTo code height here told) (steady : Steady code height)
    (found : code[here]? = some instr) (idle : instr.pops = 0 ∧ instr.pushes = 0) (goes : Goes code here there) :
    ComesTo code height there told := by
  intro after same
  obtain ⟨reached, held⟩ := comes after same
  refine ⟨reached.step goes, ?_⟩
  rw [steady.moves reached found goes, idle.1, idle.2]
  exact held

/-- Two ways that come to one position meet there. -/
theorem meet {first second : Option Nat} (one : ComesTo code height there first) (other : ComesTo code height there second) :
    ∃ met, meet? first second = some met ∧ ComesTo code height there met := by
  cases first with
  | none => exact ⟨second, rfl, other⟩
  | some left =>
    cases second with
    | none => exact ⟨some left, rfl, one⟩
    | some right =>
      have same : left = right := (one left rfl).2.symm.trans (other right rfl).2
      exact ⟨some left, if_pos same, one⟩

theorem of_reached (reached : Reached code there) : ComesTo code height there (some (height there)) := by
  intro after same
  exact ⟨reached, Option.some.inj same⟩

end ComesTo

/-- Code that is passed from its start to its end, with the heights told by a function. -/
structure Straight (code : List Instr) (heights : Nat → Option (Option Nat)) : Prop where
  straight : ∀ instr ∈ code, instr.straight = true
  told : ∀ height, heights height = (run? code height).map some

namespace Straight

variable {code : List Instr} {heights : Nat → Option (Option Nat)}

theorem followed {marks : Label → Option Nat} {height : Nat} {final : Option Nat} (plain : Straight code heights)
    (known : heights height = some final) : follow? marks code (some height) = some final := by
  rw [follow?_straight plain.straight, ← plain.told, known]

theorem comes {whole : List Instr} {height : Nat → Nat} {here : Nat} (plain : Straight code heights)
    (steady : Steady whole height) (reached : Reached whole here) (located : Located whole here code) :
    ∃ final, heights (height here) = some final ∧ ComesTo whole height (here + code.length) final := by
  obtain ⟨ended, ran⟩ := steady.passed reached located plain.straight
  exact ⟨some (height (here + code.length)), by rw [plain.told, ran, Option.map_some], .of_reached ended⟩

theorem value {operand : Operand} {tree : Tree} (form : OperandCode operand tree code) :
    Straight code fun height => (tree.heightAfter? height).map some :=
  ⟨form.straight, fun height => by rw [form.run?_eq]⟩

theorem stored {operand : Operand} {tree : Tree} (form : OperandCode operand tree code) (slot : Tree) :
    Straight (code ++ [.op .storeFast slot]) fun height => ((tree.heightAfter? height).bind (exchange? 1 0)).map some := by
  refine ⟨?_, fun height => by rw [run?_append, form.run?_eq, run?_one]; rfl⟩
  intro instr inside
  rcases List.mem_append.mp inside with before | last
  · exact form.straight instr before
  · rw [List.mem_singleton.mp last]
    rfl

theorem var (slot : Tree) : Straight [.op .loadConst .absent, .op .storeFast slot] fun height => some (some height) :=
  ⟨by simp [Instr.straight], fun _ => rfl⟩

theorem function (names : List Tree) (code : List Instr) (slot : Tree) :
    Straight [.routine names code, .op .makeFunction (.number 0), .op .storeFast slot] fun height => some (some height) :=
  ⟨by simp [Instr.straight], fun _ => rfl⟩

theorem nothing {tree : Tree} (other : tree.declares = false) :
    Straight [] fun height => (tree.heightDeclared? height).map some := by
  refine ⟨by simp, fun height => ?_⟩
  cases tree <;> first | rfl | cases other

end Straight

def Tree.heightOf? (duty : Duty) (tree : Tree) (height : Nat) : Option (Option Nat) :=
  match duty with
  | .command => tree.heightDone? height
  | .declaration => (tree.heightDeclared? height).map some

def joined (bound : Label) (first second : Label → Option Nat) (label : Label) : Option Nat :=
  if label < bound then first label else second label

def marked (label : Label) (first second : Option Nat) (rest : Label → Option Nat) (other : Label) : Option Nat :=
  if other = label then first else if other = label + 1 then second else rest other

theorem meets_with {first second final : Option Nat} (meets : meet? first second = some final) :
    (first = none ∨ first = final) ∧ (second = none ∨ second = final) := by
  unfold meet? at meets
  split at meets
  · cases meets
    exact ⟨.inl rfl, .inr rfl⟩
  · cases meets
    exact ⟨.inr rfl, .inl rfl⟩
  · split at meets
    · next same =>
      cases meets
      exact ⟨.inr rfl, .inr (congrArg some same.symm)⟩
    · cases meets

namespace DutyCode

variable {duty : Duty} {tree : Tree} {label middle last : Label} {code before later : List Instr}

theorem follow?_joined {firstDuty secondDuty : Duty} {first second : Tree} {one other : Label → Option Nat}
    {start between final : Option Nat} (firstForm : DutyCode firstDuty first label before middle)
    (secondForm : DutyCode secondDuty second middle later last) (begins : follow? one before start = some between)
    (ends : follow? other later between = some final) :
    follow? (joined middle one other) (before ++ later) start = some final := by
  have lower : ∀ label ∈ labels before, joined middle one other label = one label := fun label inside =>
    if_pos (firstForm.labels_within.2 label inside).2
  have upper : ∀ label ∈ labels later, joined middle one other label = other label := fun label inside =>
    if_neg (Nat.not_lt.mpr (secondForm.labels_within.2 label inside).1)
  rw [follow?_append, follow?_congr lower, begins, Option.bind_some, follow?_congr upper, ends]

/-- Code after the two labels of a construct is followed without them. -/
theorem follow?_marked (form : DutyCode duty tree middle code last) (after : label + 2 ≤ middle)
    (first second : Option Nat) (rest : Label → Option Nat) (height : Option Nat) :
    follow? (marked label first second rest) code height = follow? rest code height := by
  refine follow?_congr (fun other inside => ?_) height
  have above : label + 1 < other := Nat.le_trans after (form.labels_within.2 other inside).1
  unfold marked
  rw [if_neg (Nat.ne_of_gt (Nat.lt_of_succ_lt above)), if_neg (Nat.ne_of_gt above)]

theorem follow?_conditional {test yes no : Tree} {tested taken otherwise : List Instr} {one other : Label → Option Nat}
    {height forked : Nat} {first second final : Option Nat} (tests : OperandCode .value test tested)
    (takes : DutyCode .command yes (label + 2) taken middle) (others : DutyCode .command no middle otherwise last)
    (testing : (test.heightAfter? height).bind (exchange? 1 0) = some forked)
    (takenFollowed : follow? one taken (some forked) = some first)
    (otherFollowed : follow? other otherwise (some forked) = some second) (meets : meet? first second = some final) :
    follow? (marked label (some forked) final (joined middle one other))
      (tested ++ Instr.jump .ifFalse label :: (taken ++ Instr.jump .forward (label + 1) ::
        .place label :: (otherwise ++ [Instr.place (label + 1)]))) (some height) = some final := by
  obtain ⟨value, valued, forks⟩ := Option.bind_eq_some_iff.mp testing
  obtain ⟨firstMeets, secondMeets⟩ := meets_with meets
  have atElse : marked label (some forked) final (joined middle one other) label = some forked := if_pos rfl
  have atDone : marked label (some forked) final (joined middle one other) (label + 1) = final :=
    (if_neg (Nat.succ_ne_self label)).trans (if_pos rfl)
  have lower : ∀ label ∈ labels taken, joined middle one other label = one label := fun label inside =>
    if_pos (takes.labels_within.2 label inside).2
  have upper : ∀ label ∈ labels otherwise, joined middle one other label = other label := fun label inside =>
    if_neg (Nat.not_lt.mpr (others.labels_within.2 label inside).1)
  rw [← atDone] at firstMeets secondMeets
  rw [follow?_append, tests.follow?_eq, valued, Option.map_some, Option.bind_some, follow?_cons, pass?_fork forks atElse,
    Option.bind_some, follow?_append, takes.follow?_marked (Nat.le_refl _), follow?_congr lower, takenFollowed,
    Option.bind_some, follow?_cons, pass?_jump .forward nofun firstMeets, Option.bind_some, follow?_cons, pass?_place (.inl rfl),
    Option.bind_some, atElse, follow?_append, others.follow?_marked takes.labels_within.1, follow?_congr upper,
    otherFollowed, Option.bind_some, follow?_cons, pass?_place secondMeets, Option.bind_some, atDone]
  rfl

theorem follow?_loop {test body : Tree} {tested repeated : List Instr} {rest : Label → Option Nat} {height forked : Nat}
    {again final : Option Nat} (tests : OperandCode .value test tested)
    (repeats : DutyCode .command body (label + 2) repeated last)
    (testing : (test.heightAfter? height).bind (exchange? 1 0) = some forked)
    (followed : follow? rest repeated (some forked) = some again) (meets : meet? again (some height) = some final) :
    follow? (marked label (some height) (some forked) rest)
      (.place label :: (tested ++ Instr.jump .ifFalse (label + 1) ::
        (repeated ++ [Instr.jump .back label, .place (label + 1)])))
      (some height) = some (some forked) := by
  obtain ⟨value, valued, forks⟩ := Option.bind_eq_some_iff.mp testing
  have atStart : marked label (some height) (some forked) rest label = some height := if_pos rfl
  have atDone : marked label (some height) (some forked) rest (label + 1) = some forked :=
    (if_neg (Nat.succ_ne_self label)).trans (if_pos rfl)
  have back : again = none ∨ again = marked label (some height) (some forked) rest label := by
    rw [atStart]
    obtain ⟨firstMeets, missing | same⟩ := meets_with meets
    · cases missing
    · rw [same]
      exact firstMeets
  rw [follow?_cons, pass?_place (.inr atStart.symm), Option.bind_some, atStart, follow?_append, tests.follow?_eq, valued,
    Option.map_some, Option.bind_some, follow?_cons, pass?_fork forks atDone, Option.bind_some, follow?_append,
    repeats.follow?_marked (Nat.le_refl _), followed, Option.bind_some, follow?_cons, pass?_jump .back nofun back,
    Option.bind_some, follow?_cons, pass?_place (.inl rfl), Option.bind_some, atDone]
  rfl

/-- Heights that can be followed through the tree can be followed through its code. -/
theorem follow?_of_heights (form : DutyCode duty tree label code last) {height : Nat} {final : Option Nat}
    (known : tree.heightOf? duty height = some final) : ∃ marks, follow? marks code (some height) = some final := by
  induction form generalizing height final with
  | assign slot valued => exact ⟨fun _ => none, (Straight.stored valued slot).followed known⟩
  | call called => exact ⟨fun _ => none, (Straight.value called).followed known⟩
  | sequence one other oneIH otherIH =>
    obtain ⟨between, first, rest⟩ := Option.bind_eq_some_iff.mp known
    obtain ⟨begins, begun⟩ := oneIH first
    cases between with
    | none =>
      cases rest
      exact ⟨_, follow?_joined one other begun (follow?_unreached _)⟩
    | some next =>
      obtain ⟨ends, ended⟩ := otherIH rest
      exact ⟨_, follow?_joined one other begun ended⟩
  | conditional tests takes others takesIH othersIH =>
    obtain ⟨forked, testing, rest⟩ := Option.bind_eq_some_iff.mp known
    obtain ⟨first, taking, rest⟩ := Option.bind_eq_some_iff.mp rest
    obtain ⟨second, passing, meets⟩ := Option.bind_eq_some_iff.mp rest
    obtain ⟨one, takenFollowed⟩ := takesIH taking
    obtain ⟨other, otherFollowed⟩ := othersIH passing
    exact ⟨_, follow?_conditional tests takes others testing takenFollowed otherFollowed meets⟩
  | loop tests repeats repeatsIH =>
    obtain ⟨forked, testing, rest⟩ := Option.bind_eq_some_iff.mp known
    obtain ⟨again, repeating, rest⟩ := Option.bind_eq_some_iff.mp rest
    obtain ⟨met, meets, same⟩ := Option.map_eq_some_iff.mp rest
    obtain ⟨marks, followed⟩ := repeatsIH repeating
    rw [← same]
    exact ⟨_, follow?_loop tests repeats testing followed meets⟩
  | scope declares does declaresIH doesIH =>
    obtain ⟨between, first, rest⟩ := Option.bind_eq_some_iff.mp known
    obtain ⟨begins, begun⟩ := declaresIH (congrArg (Option.map some) first)
    obtain ⟨ends, ended⟩ := doesIH rest
    exact ⟨_, follow?_joined declares does begun ended⟩
  | returns valued =>
    obtain ⟨after, valuing, same⟩ := Option.map_eq_some_iff.mp known
    obtain ⟨value, held, enough⟩ := Option.bind_eq_some_iff.mp valuing
    rw [← same]
    refine ⟨fun _ => none, ?_⟩
    rw [follow?_append, valued.follow?_eq, held, Option.map_some, Option.bind_some, follow?_cons, pass?_return enough]
    rfl
  | var slot => exact ⟨fun _ => none, (Straight.var slot).followed known⟩
  | const slot valued => exact ⟨fun _ => none, (Straight.stored valued slot).followed known⟩
  | declarations one other oneIH otherIH =>
    obtain ⟨after, declared, same⟩ := Option.map_eq_some_iff.mp known
    obtain ⟨between, first, second⟩ := Option.bind_eq_some_iff.mp declared
    obtain ⟨begins, begun⟩ := oneIH (congrArg (Option.map some) first)
    obtain ⟨ends, ended⟩ := otherIH (congrArg (Option.map some) second)
    rw [← same]
    exact ⟨_, follow?_joined one other begun ended⟩
  | function names does ih => exact ⟨fun _ => none, (Straight.function names _ _).followed known⟩
  | nothing other => exact ⟨fun _ => none, (Straight.nothing other).followed known⟩

section

variable {whole : List Instr} {height : Nat → Nat} {here : Nat}

theorem comes_conditional {test yes no : Tree} {tested taken otherwise : List Instr} (tests : OperandCode .value test tested)
    (steady : Steady whole height) (reached : Reached whole here)
    (located : Located whole here (tested ++ Instr.jump .ifFalse label :: (taken ++ Instr.jump .forward (label + 1) ::
      .place label :: (otherwise ++ [Instr.place (label + 1)]))))
    (taking : ∀ {here}, Reached whole here → Located whole here taken →
      ∃ final, yes.heightDone? (height here) = some final ∧ ComesTo whole height (here + taken.length) final)
    (passing : ∀ {here}, Reached whole here → Located whole here otherwise →
      ∃ final, no.heightDone? (height here) = some final ∧ ComesTo whole height (here + otherwise.length) final) :
    ∃ final, (Tree.ifElse test yes no).heightDone? (height here) = some final ∧
      ComesTo whole height (here + tested.length + 1 + taken.length + 1 + 1 + otherwise.length + 1) final := by
  obtain ⟨atTest, held⟩ := tests.passed steady reached located.first
  have fork := located.second
  have jump := fork.tail.second
  have branch := jump.tail
  have done := branch.tail.second
  obtain ⟨atTaken, falls⟩ := steady.goes atTest fork.head (.next fork.head rfl)
  obtain ⟨atBranch, jumps⟩ := steady.goes atTest fork.head (.jump fork.head rfl branch.head)
  obtain ⟨atOther, enters⟩ := steady.goes atBranch branch.head (.next branch.head rfl)
  obtain ⟨first, firstTold, firstComes⟩ := taking atTaken fork.tail.first
  obtain ⟨second, secondTold, secondComes⟩ := passing atOther branch.tail.first
  -- Control comes to both commands at the height after the test.
  have level : height (here + tested.length + 1 + taken.length + 1 + 1) = height (here + tested.length + 1) :=
    (Option.some.inj enters).symm.trans (Option.some.inj (jumps.symm.trans falls))
  rw [level] at secondTold
  have skips := firstComes.onwards steady jump.head ⟨rfl, rfl⟩ (.jump jump.head rfl done.head)
  obtain ⟨final, meets, comes⟩ := skips.meet secondComes
  refine ⟨final, ?_, comes.onwards steady done.head ⟨rfl, rfl⟩ (.next done.head rfl)⟩
  have testing : (test.heightAfter? (height here)).bind (exchange? 1 0) = some (height (here + tested.length + 1)) := by
    rw [held]
    exact falls
  simp only [Tree.heightDone?, testing, Option.bind_some, firstTold, secondTold, meets]

theorem comes_loop {test body : Tree} {tested repeated : List Instr} (tests : OperandCode .value test tested)
    (steady : Steady whole height) (reached : Reached whole here)
    (located : Located whole here
      (.place label :: (tested ++ Instr.jump .ifFalse (label + 1) ::
        (repeated ++ [Instr.jump .back label, .place (label + 1)]))))
    (repeating : ∀ {here}, Reached whole here → Located whole here repeated →
      ∃ final, body.heightDone? (height here) = some final ∧ ComesTo whole height (here + repeated.length) final) :
    ∃ final, (Tree.whileDo test body).heightDone? (height here) = some final ∧
      ComesTo whole height (here + 1 + tested.length + 1 + repeated.length + 1 + 1) final := by
  have fork := located.tail.second
  have jump := fork.tail.second
  have done := jump.tail
  obtain ⟨atStart, enters⟩ := steady.goes reached located.head (.next located.head rfl)
  have level : height (here + 1) = height here := (Option.some.inj enters).symm
  obtain ⟨atTest, held⟩ := tests.passed steady atStart located.tail.first
  rw [level] at held
  obtain ⟨atBody, falls⟩ := steady.goes atTest fork.head (.next fork.head rfl)
  obtain ⟨atDone, jumps⟩ := steady.goes atTest fork.head (.jump fork.head rfl done.head)
  obtain ⟨again, told, comes⟩ := repeating atBody fork.tail.first
  have back := comes.onwards steady jump.head ⟨rfl, rfl⟩ (.jump jump.head rfl located.head)
  obtain ⟨met, meets, _⟩ := back.meet (.of_reached reached)
  have testing : (test.heightAfter? (height here)).bind (exchange? 1 0) =
      some (height (here + 1 + tested.length + 1)) := by
    rw [held]
    exact falls
  have leaves := (ComesTo.of_reached atDone).onwards steady done.head ⟨rfl, rfl⟩ (.next done.head rfl)
  rw [← Option.some.inj (falls.symm.trans jumps)] at leaves
  refine ⟨_, ?_, leaves⟩
  simp only [Tree.heightDone?, testing, Option.bind_some, told, meets, Option.map_some]

end

/-- Safe code tells the heights of its tree. -/
theorem heights_of_steady (form : DutyCode duty tree label code last) {whole : List Instr} {height : Nat → Nat} {here : Nat}
    (steady : Steady whole height) (reached : Reached whole here) (located : Located whole here code) :
    ∃ final, tree.heightOf? duty (height here) = some final ∧ ComesTo whole height (here + code.length) final := by
  induction form generalizing here with
  | assign slot valued => exact (Straight.stored valued slot).comes steady reached located
  | call called => exact (Straight.value called).comes steady reached located
  | sequence one other oneIH otherIH =>
    obtain ⟨between, firstTold, firstComes⟩ := oneIH reached located.first
    rw [List.length_append, ← Nat.add_assoc]
    cases between with
    | none => exact ⟨none, Option.bind_eq_some_iff.mpr ⟨none, firstTold, rfl⟩, nofun⟩
    | some middle =>
      obtain ⟨atMiddle, level⟩ := firstComes middle rfl
      obtain ⟨final, told, comes⟩ := otherIH atMiddle located.second
      rw [level] at told
      exact ⟨final, Option.bind_eq_some_iff.mpr ⟨_, firstTold, told⟩, comes⟩
  | conditional tests takes others takesIH othersIH =>
    obtain ⟨final, told, comes⟩ := comes_conditional tests steady reached located takesIH othersIH
    refine ⟨final, told, ?_⟩
    simpa [Nat.add_assoc, Nat.add_comm, Nat.add_left_comm] using comes
  | loop tests repeats repeatsIH =>
    obtain ⟨final, told, comes⟩ := comes_loop tests steady reached located repeatsIH
    refine ⟨final, told, ?_⟩
    simpa [Nat.add_assoc, Nat.add_comm, Nat.add_left_comm] using comes
  | scope declares does declaresIH doesIH =>
    obtain ⟨between, firstTold, firstComes⟩ := declaresIH reached located.first
    obtain ⟨middle, declared, same⟩ := Option.map_eq_some_iff.mp firstTold
    obtain ⟨atMiddle, level⟩ := firstComes middle same.symm
    obtain ⟨final, told, comes⟩ := doesIH atMiddle located.second
    rw [level] at told
    rw [List.length_append, ← Nat.add_assoc]
    exact ⟨final, Option.bind_eq_some_iff.mpr ⟨_, declared, told⟩, comes⟩
  | @returns value _ code valued =>
    obtain ⟨atEnd, held⟩ := valued.passed steady reached located.first
    have enough := steady.enough atEnd located.second.head
    have taken : (value.heightAfter? (height here)).bind (exchange? 1 0) = some (height (here + code.length) - 1 + 0) := by
      rw [held]
      exact if_pos enough
    exact ⟨none, congrArg (Option.map fun _ => none) taken, nofun⟩
  | var slot => exact (Straight.var slot).comes steady reached located
  | const slot valued => exact (Straight.stored valued slot).comes steady reached located
  | declarations one other oneIH otherIH =>
    obtain ⟨between, firstTold, firstComes⟩ := oneIH reached located.first
    obtain ⟨middle, declared, same⟩ := Option.map_eq_some_iff.mp firstTold
    obtain ⟨atMiddle, level⟩ := firstComes middle same.symm
    obtain ⟨final, told, comes⟩ := otherIH atMiddle located.second
    rw [level] at told
    obtain ⟨after, declaredToo, ends⟩ := Option.map_eq_some_iff.mp told
    rw [List.length_append, ← Nat.add_assoc]
    exact ⟨final, Option.map_eq_some_iff.mpr ⟨after, Option.bind_eq_some_iff.mpr ⟨_, declared, declaredToo⟩, ends⟩, comes⟩
  | function names does ih => exact (Straight.function names _ _).comes steady reached located
  | nothing other => exact (Straight.nothing other).comes steady reached located

/-- Code followed by a rest without labels, whatever its height, is safe exactly if the heights of its tree are told. -/
theorem stackSafe_iff (form : DutyCode .command tree label code last) (rest : List Instr)
    (goesOn : ∀ marks height, ∃ final, follow? marks rest height = some final) :
    StackSafe (code ++ rest) ↔ (tree.heightDone? 0).isSome := by
  constructor
  · rintro ⟨height, steady⟩
    obtain ⟨final, told, _⟩ := form.heights_of_steady steady .start (.whole code rest)
    rw [steady.starts] at told
    exact Option.isSome_iff_exists.mpr ⟨final, told⟩
  · intro known
    obtain ⟨final, told⟩ := Option.isSome_iff_exists.mp known
    obtain ⟨marks, followed⟩ := form.follow?_of_heights told
    obtain ⟨ended, goes⟩ := goesOn marks final
    have whole : follow? marks (code ++ rest) (some 0) = some ended := by
      rw [follow?_append, followed]
      exact goes
    exact stackSafe_of_follow whole

end DutyCode

end MiniTriangle
