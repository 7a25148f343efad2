import MiniTriangle.Proofs.CodeForms

/-! Where names are declared in the course of generation. A command or a declaration goes through a row of events: names
are declared, `let` commands are opened and left, functions are entered and ended. Each declaration among them is made in
a state that generation comes to after the events before it. -/

namespace MiniTriangle

open Sequencing

inductive Event where
  | declare (name : Tree)
  | openLet
  | leaveLet
  | enter
  | exit

/-- What an event does to names; opening a `let` does nothing. -/
def Event.step? : Event → Option Naming.Step
  | .declare name => some (.declare name)
  | .openLet => none
  | .leaveLet => some .leave
  | .enter => some .enter
  | .exit => some .exit

mutual
def Tree.commandEvents : Tree → List Event
  | .sequence first second => first.commandEvents ++ second.commandEvents
  | .ifElse _ yes no => yes.commandEvents ++ no.commandEvents
  | .whileDo _ body => body.commandEvents
  | .letIn declared body => .openLet :: (declared.declarationEvents ++ (body.commandEvents ++ [.leaveLet]))
  | _ => []

def Tree.declarationEvents : Tree → List Event
  | .varDecl identifier _ => [.declare identifier]
  | .constDecl identifier _ => [.declare identifier]
  | .declarations first second => first.declarationEvents ++ second.declarationEvents
  | .funcDecl _ list _ body => .enter :: (list.parameterList.map .declare ++ (body.commandEvents ++ [.exit]))
  | _ => []
end

def steps (events : List Event) : List Naming.Step := events.filterMap Event.step?

theorem steps_append (before later : List Event) : steps (before ++ later) = steps before ++ steps later :=
  List.filterMap_append

theorem steps_declareAll (names : List Tree) : steps (names.map .declare) = names.map .declare := by
  induction names with
  | nil => rfl
  | cons name rest ih => exact congrArg (.declare name :: ·) ih

mutual
theorem steps_command (tree : Tree) : steps tree.commandEvents = tree.commandSteps := by
  cases tree with
  | sequence first second => rw [Tree.commandEvents, steps_append, steps_command first, steps_command second]; rfl
  | ifElse test yes no => rw [Tree.commandEvents, steps_append, steps_command yes, steps_command no]; rfl
  | whileDo test body => exact steps_command body
  | letIn declared body =>
    show steps (declared.declarationEvents ++ (body.commandEvents ++ [.leaveLet])) = _
    rw [steps_append, steps_append, steps_declaration declared, steps_command body, ← List.append_assoc]
    rfl
  | _ => rfl

theorem steps_declaration (tree : Tree) : steps tree.declarationEvents = tree.declarationSteps := by
  cases tree with
  | declarations first second =>
    rw [Tree.declarationEvents, steps_append, steps_declaration first, steps_declaration second]
    rfl
  | funcDecl name list type body =>
    show .enter :: steps (list.parameterList.map .declare ++ (body.commandEvents ++ [.exit])) = _
    rw [steps_append, steps_append, steps_declareAll, steps_command body, ← List.append_assoc]
    rfl
  | _ => rfl
end

namespace Generate

/-- Generating a tree from a state comes, after the given events, to declaring a name in another state. -/
inductive Calls : Duty → Tree → State → List Event → Tree → State → Prop where
  | var (name type : Tree) (state : State) : Calls .declaration (.varDecl name type) state [] name state
  | const (name value : Tree) (state : State) : Calls .declaration (.constDecl name value) state [] name state
  | first {one other name : Tree} {state at_ : State} {before : List Event}
      (calls : Calls .declaration one state before name at_) :
      Calls .declaration (.declarations one other) state before name at_
  | second {one other name : Tree} {state middle at_ : State} {before : List Event}
      (done : declaration one state = .ok () middle) (calls : Calls .declaration other middle before name at_) :
      Calls .declaration (.declarations one other) state (one.declarationEvents ++ before) name at_
  | parameter {function list type body name : Tree} {earlier later : List Tree} {state at_ : State}
      (listed : list.parameterList = earlier ++ name :: later)
      (opened : (do
        openFrame
        openScope
        let _ ← parameterNames list
        earlier.forM fun name => discard (declare name)) state = .ok () at_) :
      Calls .declaration (.funcDecl function list type body) state (.enter :: earlier.map .declare) name at_
  | function {function list type body name : Tree} {state inner at_ : State} {before : List Event}
      (opened : (do
        openFrame
        openScope
        let names ← parameterNames list
        names.forM fun name => discard (declare name)) state = .ok () inner)
      (calls : Calls .command body inner before name at_) :
      Calls .declaration (.funcDecl function list type body) state
        (.enter :: (list.parameterList.map .declare ++ before)) name at_
  | former {one other name : Tree} {state at_ : State} {before : List Event}
      (calls : Calls .command one state before name at_) : Calls .command (.sequence one other) state before name at_
  | latter {one other name : Tree} {state middle at_ : State} {before : List Event}
      (done : command one state = .ok () middle) (calls : Calls .command other middle before name at_) :
      Calls .command (.sequence one other) state (one.commandEvents ++ before) name at_
  | taken {test yes no name : Tree} {state middle at_ : State} {before : List Event}
      (tested : (do
        let otherwise ← freshLabel
        let _ ← freshLabel
        expression test
        emit (.jump .ifFalse otherwise)) state = .ok () middle)
      (calls : Calls .command yes middle before name at_) :
      Calls .command (.ifElse test yes no) state before name at_
  | otherwise {test yes no name : Tree} {state middle at_ : State} {before : List Event}
      (passed : (do
        let otherwise ← freshLabel
        let done ← freshLabel
        expression test
        emit (.jump .ifFalse otherwise)
        command yes
        emit (.jump .forward done)
        emit (.place otherwise)) state = .ok () middle)
      (calls : Calls .command no middle before name at_) :
      Calls .command (.ifElse test yes no) state (yes.commandEvents ++ before) name at_
  | repeated {test body name : Tree} {state middle at_ : State} {before : List Event}
      (tested : (do
        let start ← freshLabel
        let done ← freshLabel
        emit (.place start)
        expression test
        emit (.jump .ifFalse done)) state = .ok () middle)
      (calls : Calls .command body middle before name at_) :
      Calls .command (.whileDo test body) state before name at_
  | declared {declared body name : Tree} {state at_ : State} {before : List Event}
      (calls : Calls .declaration declared state before name at_) :
      Calls .command (.letIn declared body) state (.openLet :: before) name at_
  | inner {declared body name : Tree} {state middle at_ : State} {before : List Event}
      (done : declaration declared state = .ok () middle) (calls : Calls .command body middle before name at_) :
      Calls .command (.letIn declared body) state (.openLet :: (declared.declarationEvents ++ before)) name at_

theorem parameterNames_acts (list : Tree) : Acts (parameterNames list) [] := by
  intro state final names ran
  rw [(parameterNames_ok ran).2]
  rfl

/-- The run comes first here, so that the actions need not be written again. -/
private theorem names_of_run {α : Type} {action : Generate α} {steps : List Naming.Step} {state final : State} {value : α}
    (ran : action state = .ok value final) (acts : Acts action steps) : state.naming.run? steps = some final.naming :=
  acts ran

/-- Starting a function declares its parameters in a scope of their own. -/
theorem opened_run {list : Tree} {state inner : State}
    (opened : (do
      openFrame
      openScope
      let names ← parameterNames list
      names.forM fun name => discard (declare name)) state = .ok () inner) :
    state.naming.run? (.enter :: list.parameterList.map .declare) = some inner.naming := by
  obtain ⟨_, framed, framing, ran⟩ := bind_eq_ok.mp opened
  obtain ⟨_, open_, scoping, ran⟩ := bind_eq_ok.mp ran
  obtain ⟨names, still, listed, ran⟩ := bind_eq_ok.mp ran
  obtain ⟨same, unmoved⟩ := parameterNames_ok listed
  rw [same, unmoved] at ran
  exact Naming.run?_trans (openFrame_acts framing) (Naming.run?_trans (openScope_acts scoping) (declareAll_acts _ ran))

/-- The state of a call is reached by the steps before it. -/
theorem Calls.run {duty : Duty} {tree name : Tree} {state at_ : State} {before : List Event}
    (calls : Calls duty tree state before name at_) : state.naming.run? (steps before) = some at_.naming := by
  induction calls with
  | var => rfl
  | const => rfl
  | first _ ih => exact ih
  | @second one other name state middle at_ before done _ ih =>
    rw [steps_append, steps_declaration]
    exact Naming.run?_trans (declaration_acts one done) ih
  | @parameter function list type body name earlier later state at_ listed opened =>
    show state.naming.run? ([.enter] ++ steps (earlier.map .declare)) = _
    rw [steps_declareAll]
    refine names_of_run opened (openFrame_acts.quiet_bind fun _ => openScope_acts.bind fun _ => ?_)
    exact (parameterNames_acts list).quiet_bind fun _ => declareAll_acts earlier
  | @function name list type body _ state inner at_ before opened _ ih =>
    show state.naming.run? (.enter :: steps (list.parameterList.map .declare ++ before)) = _
    rw [steps_append, steps_declareAll]
    exact Naming.run?_trans (opened_run opened) ih
  | former _ ih => exact ih
  | @latter one other name state middle at_ before done _ ih =>
    rw [steps_append, steps_command]
    exact Naming.run?_trans (command_acts one done) ih
  | @taken test yes no name state middle at_ before tested _ ih =>
    have quiet : state.naming.run? [] = some middle.naming := by
      refine names_of_run tested (freshLabel_acts.quiet_bind fun _ => freshLabel_acts.quiet_bind fun _ => ?_)
      exact (expression_acts test).quiet_bind fun _ => emit_acts _
    exact Naming.run?_trans quiet ih
  | @otherwise test yes no name state middle at_ before passed _ ih =>
    have first : state.naming.run? yes.commandSteps = some middle.naming := by
      refine names_of_run passed (freshLabel_acts.quiet_bind fun _ => freshLabel_acts.quiet_bind fun _ => ?_)
      refine (expression_acts test).quiet_bind fun _ => (emit_acts _).quiet_bind fun _ => ?_
      exact (command_acts yes).bind_quiet fun _ => (emit_acts _).quiet_bind fun _ => emit_acts _
    rw [steps_append, steps_command]
    exact Naming.run?_trans first ih
  | @repeated test body name state middle at_ before tested _ ih =>
    have quiet : state.naming.run? [] = some middle.naming := by
      refine names_of_run tested (freshLabel_acts.quiet_bind fun _ => freshLabel_acts.quiet_bind fun _ => ?_)
      exact (emit_acts _).quiet_bind fun _ => (expression_acts test).quiet_bind fun _ => emit_acts _
    exact Naming.run?_trans quiet ih
  | declared _ ih => exact ih
  | @inner declared body name state middle at_ before done _ ih =>
    show state.naming.run? (steps (declared.declarationEvents ++ before)) = _
    rw [steps_append, steps_declaration]
    exact Naming.run?_trans (declaration_acts declared done) ih

/-- An element of two lists in a row lies in one of them. -/
private theorem append_split {α : Type} {one other before after : List α} {element : α}
    (split : one ++ other = before ++ element :: after) :
    (∃ rest, one = before ++ element :: rest) ∨ ∃ more, before = one ++ more ∧ other = more ++ element :: after := by
  rcases List.append_eq_append_iff.mp split with ⟨more, first, second⟩ | ⟨more, first, second⟩
  · exact .inr ⟨more, first, second⟩
  · cases more with
    | nil => exact .inr ⟨[], by simpa using first.symm, by simpa using second.symm⟩
    | cons head rest =>
      obtain ⟨same, _⟩ := List.cons.inj second
      rw [← same] at first
      exact .inl ⟨rest, first⟩

/-- The declaration of a name among others is made. -/
private theorem declareAll_split {earlier later : List Tree} {name : Tree} {state final : State}
    (ran : ((earlier ++ name :: later).forM fun name => discard (declare name)) state = .ok () final) :
    ∃ at_ slot next, (earlier.forM fun name => discard (declare name)) state = .ok () at_ ∧
      declare name at_ = .ok slot next := by
  induction earlier generalizing state with
  | nil =>
    obtain ⟨_, middle, first, ran⟩ := bind_eq_ok.mp ran
    obtain ⟨slot, next, made, _⟩ := bind_eq_ok.mp first
    exact ⟨state, slot, next, rfl, made⟩
  | cons other rest ih =>
    obtain ⟨_, middle, first, ran⟩ := bind_eq_ok.mp ran
    obtain ⟨at_, slot, next, declared, made⟩ := ih ran
    exact ⟨at_, slot, next, (bind_ok first).trans declared, made⟩

/-- A single declaration is the only event of its kind. -/
private theorem single_split {identifier name : Tree} {before after : List Event}
    (split : [Event.declare identifier] = before ++ .declare name :: after) : before = [] ∧ name = identifier := by
  cases before with
  | nil =>
    cases split
    exact ⟨rfl, rfl⟩
  | cons event rest => simp at split

private theorem declares_split {names : List Tree} {name : Tree} {before after : List Event}
    (split : names.map Event.declare = before ++ .declare name :: after) :
    ∃ earlier later, names = earlier ++ name :: later ∧ before = earlier.map .declare := by
  obtain ⟨earlier, rest, namesAre, first, second⟩ := List.map_eq_append_iff.mp split
  obtain ⟨head, later, restIs, same, _⟩ := List.map_eq_cons_iff.mp second
  cases same
  exact ⟨earlier, later, by rw [namesAre, restIs], first.symm⟩

mutual
/-- Every declaration of a command that generates is made. -/
theorem command_calls (tree : Tree) {state final : State} (ran : command tree state = .ok () final)
    {before after : List Event} {name : Tree} (split : tree.commandEvents = before ++ .declare name :: after) :
    ∃ at_ slot next, Calls .command tree state before name at_ ∧ declare name at_ = .ok slot next := by
  cases tree with
  | sequence first second =>
    obtain ⟨_, middle, opened, closed⟩ := bind_eq_ok.mp ran
    rcases append_split split with ⟨rest, inFirst⟩ | ⟨more, beforeIs, inSecond⟩
    · obtain ⟨at_, slot, next, calls, made⟩ := command_calls first opened inFirst
      exact ⟨at_, slot, next, .former calls, made⟩
    · obtain ⟨at_, slot, next, calls, made⟩ := command_calls second closed inSecond
      subst beforeIs
      exact ⟨at_, slot, next, .latter opened calls, made⟩
  | ifElse test yes no =>
    obtain ⟨otherwise, first, fresh, ran⟩ := bind_eq_ok.mp ran
    obtain ⟨done, second, freshAgain, ran⟩ := bind_eq_ok.mp ran
    obtain ⟨_, tested, tests, ran⟩ := bind_eq_ok.mp ran
    obtain ⟨_, forked, forks, ran⟩ := bind_eq_ok.mp ran
    obtain ⟨_, taken, takes, ran⟩ := bind_eq_ok.mp ran
    obtain ⟨_, jumped, jumps, ran⟩ := bind_eq_ok.mp ran
    obtain ⟨_, placed, places, ran⟩ := bind_eq_ok.mp ran
    obtain ⟨_, passed, passes, _⟩ := bind_eq_ok.mp ran
    rcases append_split split with ⟨rest, inYes⟩ | ⟨more, beforeIs, inNo⟩
    · obtain ⟨at_, slot, next, calls, made⟩ := command_calls yes takes inYes
      refine ⟨at_, slot, next, .taken ?_ calls, made⟩
      rw [bind_ok fresh, bind_ok freshAgain, bind_ok tests, forks]
    · obtain ⟨at_, slot, next, calls, made⟩ := command_calls no passes inNo
      subst beforeIs
      refine ⟨at_, slot, next, .otherwise ?_ calls, made⟩
      rw [bind_ok fresh, bind_ok freshAgain, bind_ok tests, bind_ok forks, bind_ok takes, bind_ok jumps, places]
  | whileDo test body =>
    obtain ⟨start, first, fresh, ran⟩ := bind_eq_ok.mp ran
    obtain ⟨done, second, freshAgain, ran⟩ := bind_eq_ok.mp ran
    obtain ⟨_, placed, places, ran⟩ := bind_eq_ok.mp ran
    obtain ⟨_, tested, tests, ran⟩ := bind_eq_ok.mp ran
    obtain ⟨_, forked, forks, ran⟩ := bind_eq_ok.mp ran
    obtain ⟨_, repeated, repeats, _⟩ := bind_eq_ok.mp ran
    obtain ⟨at_, slot, next, calls, made⟩ := command_calls body repeats split
    refine ⟨at_, slot, next, .repeated ?_ calls, made⟩
    rw [bind_ok fresh, bind_ok freshAgain, bind_ok places, bind_ok tests, forks]
  | letIn declared body =>
    obtain ⟨_, middle, opened, ran⟩ := bind_eq_ok.mp ran
    obtain ⟨_, ended, does, _⟩ := bind_eq_ok.mp ran
    cases before with
    | nil => cases split
    | cons event before =>
      obtain ⟨same, inside⟩ := List.cons.inj split
      subst same
      rcases append_split inside with ⟨rest, inDeclared⟩ | ⟨more, beforeIs, inBody⟩
      · obtain ⟨at_, slot, next, calls, made⟩ := declaration_calls declared opened inDeclared
        exact ⟨at_, slot, next, .declared calls, made⟩
      · subst beforeIs
        rcases append_split inBody with ⟨rest, inside⟩ | ⟨last, _, leaves⟩
        · obtain ⟨at_, slot, next, calls, made⟩ := command_calls body does inside
          exact ⟨at_, slot, next, .inner opened calls, made⟩
        · cases last <;> simp at leaves
  | _ => simp [Tree.commandEvents] at split

theorem declaration_calls (tree : Tree) {state final : State} (ran : declaration tree state = .ok () final)
    {before after : List Event} {name : Tree} (split : tree.declarationEvents = before ++ .declare name :: after) :
    ∃ at_ slot next, Calls .declaration tree state before name at_ ∧ declare name at_ = .ok slot next := by
  cases tree with
  | varDecl identifier type =>
    obtain ⟨slot, next, made, _⟩ := bind_eq_ok.mp ran
    obtain ⟨rfl, rfl⟩ := single_split split
    exact ⟨state, slot, next, .var _ type state, made⟩
  | constDecl identifier value =>
    obtain ⟨slot, next, made, _⟩ := bind_eq_ok.mp ran
    obtain ⟨rfl, rfl⟩ := single_split split
    exact ⟨state, slot, next, .const _ value state, made⟩
  | declarations first second =>
    obtain ⟨_, middle, opened, closed⟩ := bind_eq_ok.mp ran
    rcases append_split split with ⟨rest, inFirst⟩ | ⟨more, beforeIs, inSecond⟩
    · obtain ⟨at_, slot, next, calls, made⟩ := declaration_calls first opened inFirst
      exact ⟨at_, slot, next, .first calls, made⟩
    · obtain ⟨at_, slot, next, calls, made⟩ := declaration_calls second closed inSecond
      subst beforeIs
      exact ⟨at_, slot, next, .second opened calls, made⟩
  | funcDecl function list type body =>
    obtain ⟨_, framed, framing, ran⟩ := bind_eq_ok.mp ran
    obtain ⟨_, open_, scoping, ran⟩ := bind_eq_ok.mp ran
    obtain ⟨names, still, listed, ran⟩ := bind_eq_ok.mp ran
    obtain ⟨_, declared, declares, ran⟩ := bind_eq_ok.mp ran
    obtain ⟨_, ended, does, _⟩ := bind_eq_ok.mp ran
    obtain ⟨namesAre, unmoved⟩ := parameterNames_ok listed
    cases before with
    | nil => cases split
    | cons event before =>
      obtain ⟨same, inside⟩ := List.cons.inj split
      subst same
      rcases append_split inside with ⟨rest, inList⟩ | ⟨more, beforeIs, inBody⟩
      · obtain ⟨earlier, later, among, beforeIs⟩ := declares_split inList
        subst beforeIs
        rw [namesAre, among] at declares
        obtain ⟨at_, slot, next, opened, made⟩ := declareAll_split declares
        refine ⟨at_, slot, next, .parameter among ?_, made⟩
        rw [bind_ok framing, bind_ok scoping, bind_ok listed, opened]
      · subst beforeIs
        rcases append_split inBody with ⟨rest, inside⟩ | ⟨last, _, leaves⟩
        · obtain ⟨at_, slot, next, calls, made⟩ := command_calls body does inside
          refine ⟨at_, slot, next, .function ?_ calls, made⟩
          rw [bind_ok framing, bind_ok scoping, bind_ok listed, declares]
        · cases last <;> simp at leaves
  | _ => simp [Tree.declarationEvents] at split
end

end Generate

end MiniTriangle
