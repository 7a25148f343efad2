import MiniTriangle.Code.Generate
import MiniTriangle.Proofs.Sequencing

/-! The part of code generation that gives names their slots. Only declarations, the ends of `let` commands
and the bounds of functions change what a name stands for, so a command acts on the scopes as the row of these
steps that it takes, whatever code it emits. -/

namespace MiniTriangle

open Sequencing

/-- What the slots of names depend on. -/
structure Naming where
  /-- The scopes, the innermost first. -/
  scopes : List Scope
  count : Int

namespace Naming

/-- Declares a name; nothing if there is no scope or the name cannot be numbered. -/
def declare? (name : Tree) : Naming → Option (Tree × Naming)
  | ⟨[], _⟩ => none
  | ⟨scope :: outer, count⟩ =>
    if (scope.slots? name).isSome then
      (name.numbered? (count + 1)).map fun slot => (slot, ⟨scope.push name slot :: outer, count + 1⟩)
    else some (name, ⟨scope.insert name :: outer, count⟩)

/-- Leaves a `let`; nothing if a name has no slot to compare with the count. -/
def leave? : Naming → Option Naming
  | ⟨[], _⟩ => none
  | ⟨scope :: outer, count⟩ =>
    match scope.release (Text.decimal count) with
    | (released, none) => some ⟨released :: outer, count - 1⟩
    | (_, some _) => none

inductive Step where
  | declare (name : Tree)
  | leave
  /-- The start of a function. -/
  | enter
  /-- The end of a function. -/
  | exit

def step? (naming : Naming) : Step → Option Naming
  | .declare name => (naming.declare? name).map (·.2)
  | .leave => naming.leave?
  | .enter => some ⟨[] :: naming.scopes, naming.count⟩
  | .exit =>
    match naming.scopes with
    | [] => none
    | _ :: outer => some ⟨outer, naming.count⟩

def run? (naming : Naming) : List Step → Option Naming
  | [] => some naming
  | step :: rest => (naming.step? step).bind fun after => after.run? rest

theorem run?_append (naming : Naming) (first second : List Step) :
    naming.run? (first ++ second) = (naming.run? first).bind fun after => after.run? second := by
  induction first generalizing naming with
  | nil => rfl
  | cons step rest ih =>
    cases stepped : naming.step? step with
    | none => simp [run?, stepped]
    | some after => simp [run?, stepped, ih]

theorem run?_trans {first second : List Step} {before middle after : Naming} (ran : before.run? first = some middle)
    (next : middle.run? second = some after) : before.run? (first ++ second) = some after := by
  rw [run?_append, ran]
  exact next

end Naming

def Tree.parameterList : Tree → List Tree
  | .parameter identifier _ => [identifier]
  | .parameters first second => first.parameterList ++ second.parameterList
  | _ => []

mutual
def Tree.commandSteps : Tree → List Naming.Step
  | .sequence first second => first.commandSteps ++ second.commandSteps
  | .ifElse _ yes no => yes.commandSteps ++ no.commandSteps
  | .whileDo _ body => body.commandSteps
  | .letIn declared body => declared.declarationSteps ++ body.commandSteps ++ [.leave]
  | _ => []

def Tree.declarationSteps : Tree → List Naming.Step
  | .varDecl identifier _ => [.declare identifier]
  | .constDecl identifier _ => [.declare identifier]
  | .declarations first second => first.declarationSteps ++ second.declarationSteps
  | .funcDecl _ list _ body =>
    [.enter] ++ list.parameterList.map .declare ++ body.commandSteps ++ [.exit]
  | _ => []
end

def State.naming (state : State) : Naming := ⟨state.scopes, state.scopeCount⟩

/-- Nothing was emitted and no label used between the two states. -/
def State.SameCode (state final : State) : Prop := final.frames = state.frames ∧ final.nextLabel = state.nextLabel

namespace Generate

/-- Every successful run of the action changes names by the given steps. -/
def Acts {α : Type} (action : Generate α) (steps : List Naming.Step) : Prop :=
  ∀ ⦃state final : State⦄ ⦃value : α⦄, action state = .ok value final → state.naming.run? steps = some final.naming

namespace Acts

variable {α β : Type} {steps more : List Naming.Step}

theorem bind {first : Generate α} {next : α → Generate β} (acts : Acts first steps)
    (rest : ∀ value, Acts (next value) more) : Acts (first >>= next) (steps ++ more) := by
  intro state final result ran
  obtain ⟨value, middle, opened, closed⟩ := bind_eq_ok.mp ran
  exact Naming.run?_trans (acts opened) (rest value closed)

theorem bind_quiet {first : Generate α} {next : α → Generate β} (acts : Acts first steps)
    (rest : ∀ value, Acts (next value) []) : Acts (first >>= next) steps := by
  have both := acts.bind rest
  rwa [List.append_nil] at both

theorem quiet_bind {first : Generate α} {next : α → Generate β} (acts : Acts first [])
    (rest : ∀ value, Acts (next value) more) : Acts (first >>= next) more :=
  acts.bind rest

theorem pure (value : α) : Acts (Pure.pure value) [] := by
  intro state final result ran
  obtain ⟨_, same⟩ := pure_eq_ok.mp ran
  rw [same]
  rfl

theorem throw (cause : GenerateError) : Acts (MonadExcept.throw cause : Generate α) steps := by
  intro state final result ran
  exact absurd ran throw_ne_ok

end Acts

theorem emit_acts (instr : Instr) : Acts (emit instr) [] := by
  intro state final value ran
  unfold emit at ran
  rw [get_bind] at ran
  cases open_ : state.frames with
  | nil =>
    simp only [open_] at ran
    exact absurd ran throw_ne_ok
  | cons frame outer =>
    simp only [open_] at ran
    cases ran
    rfl

theorem freshLabel_acts : Acts freshLabel [] := by
  intro state final value ran
  cases ran
  rfl

theorem part_same {tree found : Tree} {which : Part} {state final : State} (ran : part tree which state = .ok found final) :
    final = state := by
  unfold part at ran
  cases held : tree.part? which with
  | none =>
    simp only [held] at ran
    exact absurd ran throw_ne_ok
  | some child =>
    simp only [held] at ran
    exact (pure_eq_ok.mp ran).2.symm

theorem part_acts (tree : Tree) (which : Part) : Acts (part tree which) [] := by
  intro state final value ran
  rw [part_same ran]
  rfl

theorem lookup_same {name slot : Tree} {state final : State} (ran : lookup name state = .ok slot final) :
    final = state := by
  unfold lookup at ran
  rw [get_bind] at ran
  cases inside : state.scopes with
  | nil =>
    simp only [inside] at ran
    exact absurd ran throw_ne_ok
  | cons scope outer =>
    simp only [inside] at ran
    generalize scope.slots? name = found at ran
    split at ran
    · exact (pure_eq_ok.mp ran).2.symm
    · exact absurd ran throw_ne_ok
    · exact (pure_eq_ok.mp ran).2.symm

theorem lookup_acts (name : Tree) : Acts (lookup name) [] := by
  intro state final value ran
  rw [lookup_same ran]
  rfl

/-- Declaring a name gives it a slot and leaves the code alone. -/
theorem declare_renames {state final : State} {name slot : Tree} (ran : declare name state = .ok slot final) :
    state.naming.declare? name = some (slot, final.naming) ∧ state.SameCode final := by
  unfold declare at ran
  rw [get_bind] at ran
  unfold State.naming
  cases inside : state.scopes with
  | nil =>
    simp only [inside] at ran
    exact absurd ran throw_ne_ok
  | cons scope outer =>
    simp only [inside] at ran
    simp only [Naming.declare?]
    by_cases known : (scope.slots? name).isSome = true
    · rw [if_pos known, set_bind] at ran
      rw [if_pos known]
      cases numbered : name.numbered? (state.scopeCount + 1) with
      | none =>
        simp only [numbered] at ran
        exact absurd ran throw_ne_ok
      | some fresh =>
        simp only [numbered] at ran
        cases ran
        exact ⟨rfl, rfl, rfl⟩
    · rw [if_neg known] at ran ⊢
      cases ran
      exact ⟨rfl, rfl, rfl⟩

theorem declare_ok {state final : State} {name slot : Tree} (ran : declare name state = .ok slot final) :
    state.naming.declare? name = some (slot, final.naming) :=
  (declare_renames ran).1

theorem declare_acts (name : Tree) : Acts (declare name) [.declare name] := by
  intro state final slot ran
  simp [Naming.run?, Naming.step?, declare_ok ran]

/-- Leaving a `let` takes slots away and leaves the code alone. -/
theorem leaveLet_renames {state final : State} (ran : leaveLet state = .ok () final) :
    state.naming.leave? = some final.naming ∧ state.SameCode final := by
  unfold leaveLet at ran
  rw [get_bind] at ran
  unfold State.naming
  cases inside : state.scopes with
  | nil =>
    simp only [inside] at ran
    exact absurd ran throw_ne_ok
  | cons scope outer =>
    simp only [inside] at ran
    simp only [Naming.leave?]
    cases released : scope.release (Text.decimal state.scopeCount) with
    | mk kept failure =>
      simp only [released] at ran
      rw [set_bind] at ran
      cases failure with
      | none =>
        cases ran
        exact ⟨rfl, rfl, rfl⟩
      | some cause =>
        cases cause <;> exact absurd ran throw_ne_ok

theorem leaveLet_acts : Acts leaveLet [.leave] := by
  intro state final value ran
  simp [Naming.run?, Naming.step?, (leaveLet_renames ran).1]

theorem callCode_acts {name : Tree} {argument : Generate Unit} {target : Generate Tree} {arguments : Generate Nat}
    (argumentActs : Acts argument []) (targetActs : Acts target []) (argumentsAct : Acts arguments []) :
    Acts (callCode name argument target arguments) [] := by
  unfold callCode
  split
  · exact argumentActs.quiet_bind fun _ => (emit_acts _).quiet_bind fun _ => emit_acts _
  · split
    · exact argumentActs.quiet_bind fun _ => targetActs.quiet_bind fun found => (lookup_acts found).quiet_bind fun _ =>
        (emit_acts _).quiet_bind fun _ => (emit_acts _).quiet_bind fun _ => emit_acts _
    · exact (emit_acts _).quiet_bind fun _ => argumentsAct.quiet_bind fun _ => emit_acts _

theorem argumentTarget_acts (list : Tree) : Acts (argumentTarget list) [] :=
  (part_acts _ _).quiet_bind fun _ => (part_acts _ _).quiet_bind fun _ => part_acts _ _

mutual
theorem expression_acts (tree : Tree) : Acts (expression tree) [] := by
  cases tree with
  | integer value => exact emit_acts _
  | reference target => exact (part_acts _ _).quiet_bind fun _ => (lookup_acts _).quiet_bind fun _ => emit_acts _
  | unary operator operand =>
    unfold expression
    split
    · exact (expression_acts operand).quiet_bind fun _ => Acts.throw _
    · split
      · exact expression_acts operand
      · exact Acts.throw _
  | binary left operator right =>
    unfold expression
    refine (expression_acts left).quiet_bind fun _ => (expression_acts right).quiet_bind fun _ => ?_
    split
    · exact emit_acts _
    · exact Acts.pure _
  | call name list =>
    exact callCode_acts (soleArgument_acts list) (argumentTarget_acts list) (arguments_act list)
  | parameters first second =>
    exact (arguments_act first).quiet_bind fun _ => (arguments_act second).quiet_bind fun _ => Acts.pure _
  | _ => exact Acts.throw _

theorem soleArgument_acts (tree : Tree) : Acts (soleArgument tree) [] := by
  cases tree with
  | parameter value type => exact expression_acts value
  | _ => exact Acts.throw _

theorem arguments_act (tree : Tree) : Acts (arguments tree) [] := by
  cases tree with
  | parameter value type => exact (expression_acts value).quiet_bind fun _ => Acts.pure _
  | parameters first second =>
    exact (arguments_act first).quiet_bind fun _ => (arguments_act second).quiet_bind fun _ => Acts.pure _
  | _ => exact Acts.throw _
end

theorem parameterNames_ok {tree : Tree} {state final : State} {names : List Tree}
    (ran : parameterNames tree state = .ok names final) : names = tree.parameterList ∧ final = state := by
  induction tree generalizing state final names with
  | parameter name type =>
    obtain ⟨listed, same⟩ := pure_eq_ok.mp ran
    exact ⟨listed.symm, same.symm⟩
  | parameters first second firstIH secondIH =>
    obtain ⟨before, middle, opened, ran⟩ := bind_eq_ok.mp ran
    obtain ⟨after, last, closed, ran⟩ := bind_eq_ok.mp ran
    obtain ⟨listed, same⟩ := pure_eq_ok.mp ran
    obtain ⟨beforeListed, unmoved⟩ := firstIH opened
    obtain ⟨afterListed, unmovedAgain⟩ := secondIH closed
    subst listed same beforeListed afterListed unmoved
    exact ⟨rfl, unmovedAgain⟩
  | _ => exact absurd ran throw_ne_ok

theorem declareAll_acts (names : List Tree) :
    Acts (names.forM fun name => discard (declare name)) (names.map .declare) := by
  induction names with
  | nil => exact Acts.pure _
  | cons name rest ih =>
    have declared : Acts (discard (declare name)) [.declare name] := by
      intro state final value ran
      cases opened : declare name state with
      | ok slot middle =>
        have same : (discard (declare name)) state = .ok () middle := bind_ok opened
        cases same.symm.trans ran
        exact declare_acts name opened
      | error cause middle =>
        have failed : (discard (declare name)) state = .error cause middle := bind_error opened
        cases failed.symm.trans ran
    exact declared.bind fun _ => ih

theorem openFrame_acts : Acts openFrame [] := by
  intro state final value ran
  cases ran
  rfl

theorem openScope_acts : Acts openScope [.enter] := by
  intro state final value ran
  cases ran
  rfl

theorem closeFrame_acts : Acts closeFrame [] := by
  intro state final value ran
  unfold closeFrame at ran
  rw [get_bind] at ran
  cases inside : state.frames with
  | nil =>
    simp only [inside] at ran
    exact absurd ran throw_ne_ok
  | cons frame outer =>
    simp only [inside] at ran
    cases ran
    rfl

theorem closeScope_acts : Acts closeScope [.exit] := by
  intro state final value ran
  unfold closeScope at ran
  rw [get_bind] at ran
  cases inside : state.scopes with
  | nil =>
    simp only [inside] at ran
    exact absurd ran throw_ne_ok
  | cons scope outer =>
    simp only [inside] at ran
    cases ran
    simp [Naming.run?, Naming.step?, State.naming, inside]

private theorem functionCode_acts {name list : Tree} {body : Generate Unit} {steps : List Naming.Step}
    (bodyActs : Acts body steps) :
    Acts (functionCode name list body) ([.enter] ++ list.parameterList.map .declare ++ steps ++ [.exit]) := by
  intro state final value ran
  obtain ⟨_, framed, opened, ran⟩ := bind_eq_ok.mp ran
  obtain ⟨_, inner, entered, ran⟩ := bind_eq_ok.mp ran
  obtain ⟨names, still, listed, generated⟩ := bind_eq_ok.mp ran
  obtain ⟨same, unmoved⟩ := parameterNames_ok listed
  rw [same, unmoved] at generated
  have rest : Acts (do
      list.parameterList.forM fun name => discard (declare name)
      body
      let code ← closeFrame
      let _ ← closeScope
      emit (.routine list.parameterList code)
      emitOp .makeFunction (.number 0)
      emitOp .storeFast name) (list.parameterList.map .declare ++ (steps ++ [.exit])) :=
    (declareAll_acts _).bind fun _ => bodyActs.bind fun _ => closeFrame_acts.quiet_bind fun _ =>
      closeScope_acts.bind_quiet fun _ => (emit_acts _).quiet_bind fun _ => (emit_acts _).quiet_bind fun _ => emit_acts _
  have start : framed.naming = state.naming := (Option.some.inj (openFrame_acts opened)).symm
  have enter := openScope_acts entered
  rw [start] at enter
  simp only [List.append_assoc]
  exact Naming.run?_trans enter (rest generated)

mutual
/-- A command changes names by its steps alone. -/
theorem command_acts (tree : Tree) : Acts (command tree) tree.commandSteps := by
  cases tree with
  | assign target value =>
    exact (part_acts _ _).quiet_bind fun _ => (lookup_acts _).quiet_bind fun _ =>
      (expression_acts value).quiet_bind fun _ => emit_acts _
  | call name list =>
    exact callCode_acts (soleArgument_acts list) (argumentTarget_acts list) (arguments_act list)
  | sequence first second => exact (command_acts first).bind fun _ => command_acts second
  | ifElse test yes no =>
    refine freshLabel_acts.quiet_bind fun _ => freshLabel_acts.quiet_bind fun _ => ?_
    refine (expression_acts test).quiet_bind fun _ => (emit_acts _).quiet_bind fun _ => ?_
    refine (command_acts yes).bind fun _ => (emit_acts _).quiet_bind fun _ => (emit_acts _).quiet_bind fun _ => ?_
    exact (command_acts no).bind_quiet fun _ => emit_acts _
  | whileDo test body =>
    refine freshLabel_acts.quiet_bind fun _ => freshLabel_acts.quiet_bind fun _ => ?_
    refine (emit_acts _).quiet_bind fun _ => (expression_acts test).quiet_bind fun _ => (emit_acts _).quiet_bind fun _ => ?_
    exact (command_acts body).bind_quiet fun _ => (emit_acts _).quiet_bind fun _ => emit_acts _
  | letIn declared body =>
    have both := (declaration_acts declared).bind fun _ => (command_acts body).bind fun _ => leaveLet_acts
    rwa [← List.append_assoc] at both
  | returns value => exact (expression_acts value).quiet_bind fun _ => emit_acts _
  | _ => exact Acts.throw _

theorem declaration_acts (tree : Tree) : Acts (declaration tree) tree.declarationSteps := by
  cases tree with
  | varDecl name type =>
    exact (declare_acts name).bind_quiet fun _ => (emit_acts _).quiet_bind fun _ => emit_acts _
  | constDecl name value =>
    exact (declare_acts name).bind_quiet fun _ => (expression_acts value).quiet_bind fun _ => emit_acts _
  | declarations first second => exact (declaration_acts first).bind fun _ => declaration_acts second
  | funcDecl name list type body => exact functionCode_acts (command_acts body)
  | _ => exact Acts.pure _
end

end Generate

end MiniTriangle
