import MiniTriangle.Code.Listing
import MiniTriangle.Proofs.SlotNaming

/-! The forms of code. Whatever the scopes give as slots, the code of a tree is made of the code of its parts in one
way for each construct, and the labels of a construct are the next two that were never used. What the generator
emits for a tree, of any shape, has the form described here. -/

namespace MiniTriangle

open Sequencing

/-- What the code of an expression leaves: its value, or a number of arguments. -/
inductive Operand where
  | value
  | arguments (count : Nat)

inductive OperandCode : Operand → Tree → List Instr → Prop where
  | integer (value : Tree) : OperandCode .value (.integer value) [.op .loadConst value]
  | reference (target slot : Tree) : OperandCode .value (.reference target) [.op .loadFast slot]
  | plus {operand : Tree} {code : List Instr} (inner : OperandCode .value operand code) :
      OperandCode .value (.unary (.text "+") operand) code
  | binary {left operator right : Tree} {first second : List Instr} (before : OperandCode .value left first)
      (later : OperandCode .value right second) :
      OperandCode .value (.binary left operator right) (first ++ (second ++ (Generate.operatorInstr? operator).toList))
  | print {argument type : Tree} {code : List Instr} (inner : OperandCode .value argument code) :
      OperandCode .value (.call (.text "putint") (.parameter argument type))
        (code ++ [.op .printItem .absent, .op .printNewline .absent])
  | read {argument type : Tree} (slot : Tree) {code : List Instr} (inner : OperandCode .value argument code) :
      OperandCode .value (.call (.text "getint") (.parameter argument type))
        (code ++ [.op .loadGlobal (.text "input"), .op .callFunction (.number 0), .op .storeFast slot])
  | call {name list : Tree} {count : Nat} {code : List Instr} (notPrint : name ≠ .text "putint")
      (notRead : name ≠ .text "getint") (inner : OperandCode (.arguments count) list code) :
      OperandCode .value (.call name list) (.op .loadFast name :: (code ++ [.op .callFunction (.number count)]))
  | pair {first second : Tree} {count more : Nat} {before later : List Instr}
      (one : OperandCode (.arguments count) first before) (other : OperandCode (.arguments more) second later) :
      OperandCode .value (.parameters first second) (before ++ later)
  | argument {value type : Tree} {code : List Instr} (inner : OperandCode .value value code) :
      OperandCode (.arguments 1) (.parameter value type) code
  | arguments {first second : Tree} {count more : Nat} {before later : List Instr}
      (one : OperandCode (.arguments count) first before) (other : OperandCode (.arguments more) second later) :
      OperandCode (.arguments (count + more)) (.parameters first second) (before ++ later)

inductive Duty where
  | command
  | declaration

def Tree.declares : Tree → Bool
  | .varDecl _ _ | .constDecl _ _ | .declarations _ _ | .funcDecl _ _ _ _ => true
  | _ => false

/-- The code of a command or a declaration, with the next unused labels before and after it. -/
inductive DutyCode : Duty → Tree → Label → List Instr → Label → Prop where
  | assign {target value : Tree} (slot : Tree) {label : Label} {code : List Instr} (valued : OperandCode .value value code) :
      DutyCode .command (.assign target value) label (code ++ [.op .storeFast slot]) label
  | call {name list : Tree} {label : Label} {code : List Instr} (called : OperandCode .value (.call name list) code) :
      DutyCode .command (.call name list) label code label
  | sequence {first second : Tree} {label middle last : Label} {before later : List Instr}
      (one : DutyCode .command first label before middle) (other : DutyCode .command second middle later last) :
      DutyCode .command (.sequence first second) label (before ++ later) last
  | conditional {test yes no : Tree} {label middle last : Label} {tested taken otherwise : List Instr}
      (tests : OperandCode .value test tested) (takes : DutyCode .command yes (label + 2) taken middle)
      (others : DutyCode .command no middle otherwise last) :
      DutyCode .command (.ifElse test yes no) label
        (tested ++ .jump .ifFalse label :: (taken ++ .jump .forward (label + 1) :: .place label ::
          (otherwise ++ [.place (label + 1)]))) last
  | loop {test body : Tree} {label last : Label} {tested repeated : List Instr} (tests : OperandCode .value test tested)
      (repeats : DutyCode .command body (label + 2) repeated last) :
      DutyCode .command (.whileDo test body) label
        (.place label :: (tested ++ .jump .ifFalse (label + 1) :: (repeated ++ [.jump .back label, .place (label + 1)]))) last
  | scope {declared body : Tree} {label middle last : Label} {before inside : List Instr}
      (declares : DutyCode .declaration declared label before middle) (does : DutyCode .command body middle inside last) :
      DutyCode .command (.letIn declared body) label (before ++ inside) last
  | returns {value : Tree} {label : Label} {code : List Instr} (valued : OperandCode .value value code) :
      DutyCode .command (.returns value) label (code ++ [.op .returnValue .absent]) label
  | var {name type : Tree} (slot : Tree) {label : Label} :
      DutyCode .declaration (.varDecl name type) label [.op .loadConst .absent, .op .storeFast slot] label
  | const {name value : Tree} (slot : Tree) {label : Label} {code : List Instr} (valued : OperandCode .value value code) :
      DutyCode .declaration (.constDecl name value) label (code ++ [.op .storeFast slot]) label
  | declarations {first second : Tree} {label middle last : Label} {before later : List Instr}
      (one : DutyCode .declaration first label before middle) (other : DutyCode .declaration second middle later last) :
      DutyCode .declaration (.declarations first second) label (before ++ later) last
  | function {name list type body : Tree} (names : List Tree) {label last : Label} {code : List Instr}
      (does : DutyCode .command body label code last) :
      DutyCode .declaration (.funcDecl name list type body) label
        [.routine names code, .op .makeFunction (.number 0), .op .storeFast name] last
  | nothing {tree : Tree} {label : Label} (other : tree.declares = false) : DutyCode .declaration tree label [] label

theorem labels_append (before later : List Instr) : labels (before ++ later) = labels before ++ labels later := by
  induction before with
  | nil => rfl
  | cons instr rest ih =>
    cases instr with
    | jump kind target => exact congrArg (target :: ·) ih
    | place label => exact congrArg (label :: ·) ih
    | _ => exact ih

theorem OperandCode.labels_nil {operand : Operand} {tree : Tree} {code : List Instr} (form : OperandCode operand tree code) :
    labels code = [] := by
  induction form with
  | @binary left operator right _ _ _ _ leftIH rightIH =>
    have last : labels (Generate.operatorInstr? operator).toList = [] := by
      unfold Generate.operatorInstr?
      split <;> rfl
    rw [labels_append, labels_append, leftIH, rightIH, last]
    rfl
  | _ => simp_all [labels, labels_append]

/-- The labels of a construct are those handed out while it was generated. -/
theorem DutyCode.labels_within {duty : Duty} {tree : Tree} {first last : Label} {code : List Instr}
    (form : DutyCode duty tree first code last) : first ≤ last ∧ ∀ label ∈ labels code, first ≤ label ∧ label < last := by
  induction form with
  | assign _ valued => simp [labels_append, valued.labels_nil, labels]
  | call called => simp [called.labels_nil]
  | returns valued => simp [labels_append, valued.labels_nil, labels]
  | const _ valued => simp [labels_append, valued.labels_nil, labels]
  | conditional tests _ _ takenIH otherIH =>
    simp only [labels_append, labels, tests.labels_nil]
    grind
  | loop tests _ repeatedIH =>
    simp only [labels_append, labels, tests.labels_nil]
    grind
  | _ =>
    simp_all only [labels_append, labels]
    grind

namespace Generate

/-- A state while code is generated: the code of the innermost frame, that of the others, and the next label. -/
structure Framed (state : State) (code : List Instr) (outer : List (List Instr)) (label : Label) : Prop where
  frames : state.frames = code :: outer
  next : state.nextLabel = label

section

variable {state final : State} {code : List Instr} {outer : List (List Instr)} {label : Label}

theorem Framed.same (at_ : Framed state code outer label) (same : state.SameCode final) :
    Framed final code outer label :=
  ⟨same.1.trans at_.frames, same.2.trans at_.next⟩

theorem emit_framed {instr : Instr} (at_ : Framed state code outer label) (ran : emit instr state = .ok () final) :
    Framed final (code ++ [instr]) outer label := by
  unfold emit at ran
  rw [get_bind] at ran
  simp only [at_.frames] at ran
  cases ran
  exact ⟨rfl, at_.next⟩

theorem emitOp_framed {kind : Opcode} {operand : Tree} (at_ : Framed state code outer label)
    (ran : emitOp kind operand state = .ok () final) : Framed final (code ++ [.op kind operand]) outer label :=
  emit_framed at_ ran

theorem freshLabel_framed {fresh : Label} (at_ : Framed state code outer label) (ran : freshLabel state = .ok fresh final) :
    fresh = label ∧ Framed final code outer (label + 1) := by
  cases ran
  exact ⟨at_.next, at_.frames, congrArg (· + 1) at_.next⟩

theorem argumentTarget_same {list target : Tree} (ran : argumentTarget list state = .ok target final) : final = state := by
  obtain ⟨argument, first, taken, ran⟩ := bind_eq_ok.mp ran
  obtain ⟨reference, second, found, ran⟩ := bind_eq_ok.mp ran
  rw [part_same ran, part_same found, part_same taken]

mutual
/-- The code of an expression. No label is used for it. -/
theorem expression_code (tree : Tree) {state final : State} {code : List Instr} (at_ : Framed state code outer label)
    (ran : expression tree state = .ok () final) :
    ∃ more, OperandCode .value tree more ∧ Framed final (code ++ more) outer label := by
  cases tree with
  | integer value => exact ⟨_, .integer value, emitOp_framed at_ ran⟩
  | reference target =>
    obtain ⟨name, first, taken, ran⟩ := bind_eq_ok.mp ran
    obtain ⟨slot, second, found, ran⟩ := bind_eq_ok.mp ran
    rw [lookup_same found, part_same taken] at ran
    exact ⟨_, .reference target slot, emitOp_framed at_ ran⟩
  | unary operator operand =>
    unfold expression at ran
    split at ran
    · obtain ⟨_, _, _, failed⟩ := bind_eq_ok.mp ran
      exact absurd failed throw_ne_ok
    · split at ran
      · next positive =>
        obtain ⟨more, inner, after⟩ := expression_code operand at_ ran
        rw [positive]
        exact ⟨more, .plus inner, after⟩
      · exact absurd ran throw_ne_ok
  | binary left operator right =>
    unfold expression at ran
    obtain ⟨_, middle, opened, ran⟩ := bind_eq_ok.mp ran
    obtain ⟨_, last, closed, ran⟩ := bind_eq_ok.mp ran
    obtain ⟨first, before, half⟩ := expression_code left at_ opened
    obtain ⟨second, later, both⟩ := expression_code right half closed
    refine ⟨_, .binary before later, ?_⟩
    rw [← List.append_assoc, ← List.append_assoc]
    cases known : operatorInstr? operator with
    | none =>
      rw [known] at ran
      rw [← (pure_eq_ok.mp ran).2]
      simpa using both
    | some instr =>
      rw [known] at ran
      exact emit_framed both ran
  | call name list =>
    unfold expression callCode at ran
    split at ran
    · next isPrint =>
      obtain ⟨_, middle, opened, ran⟩ := bind_eq_ok.mp ran
      obtain ⟨_, last, shown, ended⟩ := bind_eq_ok.mp ran
      cases list with
      | parameter value type =>
        obtain ⟨more, inner, after⟩ := expression_code value at_ opened
        rw [isPrint]
        refine ⟨_, .print inner, ?_⟩
        have done := emitOp_framed (emitOp_framed after shown) ended
        simpa only [List.append_assoc, List.cons_append, List.nil_append] using done
      | _ => exact absurd opened throw_ne_ok
    · next notPrint =>
      split at ran
      · next isRead =>
        obtain ⟨_, middle, opened, ran⟩ := bind_eq_ok.mp ran
        obtain ⟨target, found, sought, ran⟩ := bind_eq_ok.mp ran
        obtain ⟨slot, held, taken, ran⟩ := bind_eq_ok.mp ran
        rw [lookup_same taken, argumentTarget_same sought] at ran
        obtain ⟨_, loaded, load, ran⟩ := bind_eq_ok.mp ran
        obtain ⟨_, called, call, ended⟩ := bind_eq_ok.mp ran
        cases list with
        | parameter value type =>
          obtain ⟨more, inner, after⟩ := expression_code value at_ opened
          rw [isRead]
          refine ⟨_, .read slot inner, ?_⟩
          have done := emitOp_framed (emitOp_framed (emitOp_framed after load) call) ended
          simpa only [List.append_assoc, List.cons_append, List.nil_append] using done
        | _ => exact absurd opened throw_ne_ok
      · next notRead =>
        obtain ⟨_, loaded, load, ran⟩ := bind_eq_ok.mp ran
        obtain ⟨count, given, gave, ran⟩ := bind_eq_ok.mp ran
        obtain ⟨more, inner, after⟩ := arguments_code list (emitOp_framed at_ load) gave
        refine ⟨_, .call notPrint notRead inner, ?_⟩
        have done := emitOp_framed after ran
        simpa only [List.append_assoc, List.cons_append, List.nil_append] using done
  | parameters first second =>
    obtain ⟨count, middle, opened, ran⟩ := bind_eq_ok.mp ran
    obtain ⟨number, last, closed, ran⟩ := bind_eq_ok.mp ran
    obtain ⟨before, one, half⟩ := arguments_code first at_ opened
    obtain ⟨later, other, both⟩ := arguments_code second half closed
    rw [← (pure_eq_ok.mp ran).2]
    exact ⟨_, .pair one other, List.append_assoc .. ▸ both⟩
  | _ => exact absurd ran throw_ne_ok

theorem arguments_code (tree : Tree) {state final : State} {code : List Instr} {count : Nat}
    (at_ : Framed state code outer label) (ran : arguments tree state = .ok count final) :
    ∃ more, OperandCode (.arguments count) tree more ∧ Framed final (code ++ more) outer label := by
  cases tree with
  | parameter value type =>
    obtain ⟨_, middle, opened, ran⟩ := bind_eq_ok.mp ran
    obtain ⟨one, same⟩ := pure_eq_ok.mp ran
    obtain ⟨more, inner, after⟩ := expression_code value at_ opened
    rw [← one, ← same]
    exact ⟨more, .argument inner, after⟩
  | parameters first second =>
    obtain ⟨few, middle, opened, ran⟩ := bind_eq_ok.mp ran
    obtain ⟨others, last, closed, ran⟩ := bind_eq_ok.mp ran
    obtain ⟨all, same⟩ := pure_eq_ok.mp ran
    obtain ⟨before, one, half⟩ := arguments_code first at_ opened
    obtain ⟨later, other, both⟩ := arguments_code second half closed
    rw [← all, ← same]
    exact ⟨_, .arguments one other, List.append_assoc .. ▸ both⟩
  | _ => exact absurd ran throw_ne_ok
end

theorem openFrame_framed (at_ : Framed state code outer label) (ran : openFrame state = .ok () final) :
    Framed final [] (code :: outer) label := by
  cases ran
  exact ⟨congrArg ([] :: ·) at_.frames, at_.next⟩

theorem closeFrame_framed {inside made : List Instr} (at_ : Framed state inside (code :: outer) label)
    (ran : closeFrame state = .ok made final) : made = inside ∧ Framed final code outer label := by
  unfold closeFrame at ran
  rw [get_bind] at ran
  simp only [at_.frames] at ran
  cases ran
  exact ⟨rfl, rfl, at_.next⟩

theorem openScope_same (ran : openScope state = .ok () final) : state.SameCode final := by
  cases ran
  exact ⟨rfl, rfl⟩

theorem closeScope_same {scope : Scope} (ran : closeScope state = .ok scope final) : state.SameCode final := by
  unfold closeScope at ran
  rw [get_bind] at ran
  cases inside : state.scopes with
  | nil =>
    simp only [inside] at ran
    exact absurd ran throw_ne_ok
  | cons own others =>
    simp only [inside] at ran
    cases ran
    exact ⟨rfl, rfl⟩

theorem declareAll_framed (names : List Tree) {state : State} (at_ : Framed state code outer label)
    (ran : (names.forM fun name => discard (declare name)) state = .ok () final) : Framed final code outer label := by
  induction names generalizing state with
  | nil =>
    cases ran
    exact at_
  | cons name rest ih =>
    obtain ⟨_, middle, first, ran⟩ := bind_eq_ok.mp ran
    obtain ⟨slot, declared, made, same⟩ := bind_eq_ok.mp first
    cases same
    exact ih (at_.same (declare_renames made).2) ran

theorem functionCode_code {name list : Tree} {body : Generate Unit} {shape : Label → List Instr → Label → Prop}
    (does : ∀ ⦃state final : State⦄ ⦃code : List Instr⦄ ⦃outer : List (List Instr)⦄ ⦃label : Label⦄,
      Framed state code outer label → body state = .ok () final →
        ∃ more last, shape label more last ∧ Framed final (code ++ more) outer last)
    (at_ : Framed state code outer label) (ran : functionCode name list body state = .ok () final) :
    ∃ names more last, shape label more last ∧ Framed final
      (code ++ [.routine names more, .op .makeFunction (.number 0), .op .storeFast name]) outer last := by
  obtain ⟨_, framed, opened, ran⟩ := bind_eq_ok.mp ran
  obtain ⟨_, inner, entered, ran⟩ := bind_eq_ok.mp ran
  obtain ⟨names, still, listed, ran⟩ := bind_eq_ok.mp ran
  obtain ⟨_, declared, declares, ran⟩ := bind_eq_ok.mp ran
  obtain ⟨_, ended, bodyRan, ran⟩ := bind_eq_ok.mp ran
  obtain ⟨made, closed, closing, ran⟩ := bind_eq_ok.mp ran
  obtain ⟨scope, left, leaving, ran⟩ := bind_eq_ok.mp ran
  obtain ⟨_, loaded, loads, ran⟩ := bind_eq_ok.mp ran
  obtain ⟨_, formed, forms, ran⟩ := bind_eq_ok.mp ran
  rw [(parameterNames_ok listed).2] at declares
  have inside := declareAll_framed _ ((openFrame_framed at_ opened).same (openScope_same entered)) declares
  obtain ⟨more, last, shaped, after⟩ := does inside bodyRan
  obtain ⟨whole, back⟩ := closeFrame_framed after closing
  rw [whole] at loads
  have done := emitOp_framed (emitOp_framed (emit_framed (back.same (closeScope_same leaving)) loads) forms) ran
  refine ⟨names, more, last, shaped, ?_⟩
  simpa only [List.append_assoc, List.cons_append, List.nil_append] using done

mutual
/-- The code of a command, whatever its tree. -/
theorem command_code (tree : Tree) {state final : State} {code : List Instr} {outer : List (List Instr)} {label : Label}
    (at_ : Framed state code outer label) (ran : command tree state = .ok () final) :
    ∃ more last, DutyCode .command tree label more last ∧ Framed final (code ++ more) outer last := by
  cases tree with
  | assign target value =>
    obtain ⟨name, first, taken, ran⟩ := bind_eq_ok.mp ran
    obtain ⟨slot, second, found, ran⟩ := bind_eq_ok.mp ran
    obtain ⟨_, third, valued, ran⟩ := bind_eq_ok.mp ran
    rw [lookup_same found, part_same taken] at valued
    obtain ⟨more, inner, after⟩ := expression_code value at_ valued
    exact ⟨_, _, .assign slot inner, List.append_assoc .. ▸ emitOp_framed after ran⟩
  | call name list =>
    have called : expression (.call name list) state = .ok () final := ran
    obtain ⟨more, inner, after⟩ := expression_code (.call name list) at_ called
    exact ⟨_, _, .call inner, after⟩
  | sequence first second =>
    obtain ⟨_, middle, opened, ran⟩ := bind_eq_ok.mp ran
    obtain ⟨before, next, one, half⟩ := command_code first at_ opened
    obtain ⟨later, last, other, both⟩ := command_code second half ran
    exact ⟨_, _, .sequence one other, List.append_assoc .. ▸ both⟩
  | ifElse test yes no =>
    obtain ⟨otherwise, first, fresh, ran⟩ := bind_eq_ok.mp ran
    obtain ⟨done, second, freshAgain, ran⟩ := bind_eq_ok.mp ran
    obtain ⟨_, tested, tests, ran⟩ := bind_eq_ok.mp ran
    obtain ⟨_, forked, forks, ran⟩ := bind_eq_ok.mp ran
    obtain ⟨_, taken, takes, ran⟩ := bind_eq_ok.mp ran
    obtain ⟨_, jumped, jumps, ran⟩ := bind_eq_ok.mp ran
    obtain ⟨_, placed, places, ran⟩ := bind_eq_ok.mp ran
    obtain ⟨_, passed, passes, ran⟩ := bind_eq_ok.mp ran
    obtain ⟨rfl, atFirst⟩ := freshLabel_framed at_ fresh
    obtain ⟨rfl, atSecond⟩ := freshLabel_framed atFirst freshAgain
    obtain ⟨testCode, testForm, atTest⟩ := expression_code test atSecond tests
    obtain ⟨yesCode, middle, yesForm, atYes⟩ := command_code yes (emit_framed atTest forks) takes
    obtain ⟨noCode, last, noForm, atNo⟩ := command_code no (emit_framed (emit_framed atYes jumps) places) passes
    refine ⟨_, _, .conditional testForm yesForm noForm, ?_⟩
    simpa only [List.append_assoc, List.cons_append, List.nil_append] using emit_framed atNo ran
  | whileDo test body =>
    obtain ⟨start, first, fresh, ran⟩ := bind_eq_ok.mp ran
    obtain ⟨done, second, freshAgain, ran⟩ := bind_eq_ok.mp ran
    obtain ⟨_, placed, places, ran⟩ := bind_eq_ok.mp ran
    obtain ⟨_, tested, tests, ran⟩ := bind_eq_ok.mp ran
    obtain ⟨_, forked, forks, ran⟩ := bind_eq_ok.mp ran
    obtain ⟨_, repeated, repeats, ran⟩ := bind_eq_ok.mp ran
    obtain ⟨_, jumped, jumps, ran⟩ := bind_eq_ok.mp ran
    obtain ⟨rfl, atFirst⟩ := freshLabel_framed at_ fresh
    obtain ⟨rfl, atSecond⟩ := freshLabel_framed atFirst freshAgain
    obtain ⟨testCode, testForm, atTest⟩ := expression_code test (emit_framed atSecond places) tests
    obtain ⟨bodyCode, last, bodyForm, atBody⟩ := command_code body (emit_framed atTest forks) repeats
    refine ⟨_, _, .loop testForm bodyForm, ?_⟩
    simpa only [List.append_assoc, List.cons_append, List.nil_append] using emit_framed (emit_framed atBody jumps) ran
  | letIn declared body =>
    obtain ⟨_, middle, opened, ran⟩ := bind_eq_ok.mp ran
    obtain ⟨_, ended, bodyRan, ran⟩ := bind_eq_ok.mp ran
    obtain ⟨before, next, declares, half⟩ := declaration_code declared at_ opened
    obtain ⟨inside, last, does, both⟩ := command_code body half bodyRan
    exact ⟨_, _, .scope declares does, List.append_assoc .. ▸ both.same (leaveLet_renames ran).2⟩
  | returns value =>
    obtain ⟨_, middle, valued, ran⟩ := bind_eq_ok.mp ran
    obtain ⟨more, inner, after⟩ := expression_code value at_ valued
    exact ⟨_, _, .returns inner, List.append_assoc .. ▸ emitOp_framed after ran⟩
  | _ => exact absurd ran throw_ne_ok

theorem declaration_code (tree : Tree) {state final : State} {code : List Instr} {outer : List (List Instr)} {label : Label}
    (at_ : Framed state code outer label) (ran : declaration tree state = .ok () final) :
    ∃ more last, DutyCode .declaration tree label more last ∧ Framed final (code ++ more) outer last := by
  cases tree with
  | varDecl name type =>
    obtain ⟨slot, declared, made, ran⟩ := bind_eq_ok.mp ran
    obtain ⟨_, loaded, loads, ran⟩ := bind_eq_ok.mp ran
    have done := emitOp_framed (emitOp_framed (at_.same (declare_renames made).2) loads) ran
    exact ⟨_, _, .var slot, by simpa only [List.append_assoc, List.cons_append, List.nil_append] using done⟩
  | constDecl name value =>
    obtain ⟨slot, declared, made, ran⟩ := bind_eq_ok.mp ran
    obtain ⟨_, middle, valued, ran⟩ := bind_eq_ok.mp ran
    obtain ⟨more, inner, after⟩ := expression_code value (at_.same (declare_renames made).2) valued
    exact ⟨_, _, .const slot inner, List.append_assoc .. ▸ emitOp_framed after ran⟩
  | declarations first second =>
    obtain ⟨_, middle, opened, ran⟩ := bind_eq_ok.mp ran
    obtain ⟨before, next, one, half⟩ := declaration_code first at_ opened
    obtain ⟨later, last, other, both⟩ := declaration_code second half ran
    exact ⟨_, _, .declarations one other, List.append_assoc .. ▸ both⟩
  | funcDecl name list type body =>
    have does := fun ⦃state final : State⦄ ⦃code : List Instr⦄ ⦃outer : List (List Instr)⦄ ⦃label : Label⦄
      (at_ : Framed state code outer label) (ran : command body state = .ok () final) => command_code body at_ ran
    obtain ⟨names, more, last, bodyForm, done⟩ := functionCode_code does at_ ran
    exact ⟨_, _, .function names bodyForm, done⟩
  | _ =>
    cases ran
    exact ⟨[], label, .nothing rfl, (List.append_nil code).symm ▸ at_⟩
end

/-- A program is the code of its command and a return of no value. -/
theorem program_code {tree : Tree} {made : List Instr} (ran : program (.program tree) State.empty = .ok made final) :
    ∃ code last, DutyCode .command tree 0 code last ∧
      made = code ++ [.op .loadConst .absent, .op .returnValue .absent] := by
  cases tree with
  | letIn declared body =>
    obtain ⟨_, framed, opened, ran⟩ := bind_eq_ok.mp ran
    obtain ⟨_, inner, entered, ran⟩ := bind_eq_ok.mp ran
    obtain ⟨_, generated, generates, ran⟩ := bind_eq_ok.mp ran
    obtain ⟨_, loaded, loads, ran⟩ := bind_eq_ok.mp ran
    obtain ⟨_, returned, returning, ran⟩ := bind_eq_ok.mp ran
    obtain ⟨frame, closed, closing, ran⟩ := bind_eq_ok.mp ran
    obtain ⟨scope, left, leaving, ran⟩ := bind_eq_ok.mp ran
    obtain ⟨answer, _⟩ := pure_eq_ok.mp ran
    cases opened
    cases entered
    have start : Framed ⟨[[]], 0, [[]], 0⟩ [] [] 0 := ⟨rfl, rfl⟩
    obtain ⟨code, last, form, after⟩ := command_code _ start generates
    have done := emitOp_framed (emitOp_framed after loads) returning
    refine ⟨code, last, form, ?_⟩
    unfold closeFrame at closing
    rw [get_bind] at closing
    simp only [done.frames] at closing
    cases closing
    rw [← answer, List.nil_append, List.append_assoc]
    rfl
  | _ => exact absurd ran throw_ne_ok

end

end Generate

end MiniTriangle
