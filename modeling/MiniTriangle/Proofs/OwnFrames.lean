import MiniTriangle.Proofs.FunctionFrames
import MiniTriangle.Proofs.ScopeLookup
import MiniTriangle.Proofs.Sequencing

/-! Generation minds its own frames. A tree of any shape adds code to the innermost frame and names to the innermost scope
and reaches nothing below them, also where it fails; only a failure inside functions leaves their frames and scopes open. -/

namespace MiniTriangle

open Sequencing

/-- The stack below the top is as it was and the top has grown; other entries may lie on it. -/
def Stacked {α : Type} (grew : α → α → Prop) (above before after : List α) : Prop :=
  ∃ top below next, before = top :: below ∧ after = above ++ next :: below ∧ grew top next

namespace Stacked

variable {α : Type} {grew : α → α → Prop} {above before middle after : List α}

theorem refl (reflexive : ∀ top, grew top top) (nonempty : before ≠ []) : Stacked grew [] before before := by
  obtain ⟨top, below, same⟩ := List.exists_cons_of_ne_nil nonempty
  exact ⟨top, below, top, same, same, reflexive top⟩

theorem trans (transitive : ∀ {a b c}, grew a b → grew b c → grew a c) (first : Stacked grew [] before middle)
    (second : Stacked grew above middle after) : Stacked grew above before after := by
  obtain ⟨top, below, next, beforeIs, rfl, grown⟩ := first
  obtain ⟨_, _, last, same, afterIs, grownAgain⟩ := second
  cases same
  exact ⟨top, below, last, beforeIs, afterIs, transitive grown grownAgain⟩

/-- What grows on a new entry lies above the old top. -/
theorem below (reflexive : ∀ top, grew top top) (nonempty : before ≠ []) {entry : α}
    (stacked : Stacked grew above (entry :: before) after) : ∃ higher, Stacked grew higher before after := by
  obtain ⟨top, below, same⟩ := List.exists_cons_of_ne_nil nonempty
  obtain ⟨_, _, next, opened, afterIs, _⟩ := stacked
  cases opened
  exact ⟨above ++ [next], top, below, top, same, by simp [afterIs, same], reflexive top⟩

theorem nonempty (stacked : Stacked grew above before after) : after ≠ [] := by
  obtain ⟨_, _, next, _, rfl, _⟩ := stacked
  exact List.append_ne_nil_of_right_ne_nil _ (List.cons_ne_nil _ _)

end Stacked

def Scope.KeepsNames (scope made : Scope) : Prop := scope.names <+: made.names

theorem Scope.KeepsNames.of_eq {scope made : Scope} (same : made.names = scope.names) : scope.KeepsNames made :=
  ⟨[], by rw [List.append_nil, same]⟩

theorem Scope.KeepsNames.refl (scope : Scope) : scope.KeepsNames scope := of_eq rfl

/-- The second state comes from the first by adding to the innermost frame and scope. The frames and scopes of functions
that were not ended lie above. -/
structure State.Extended (frames : List (List Instr)) (scopes : List Scope) (state final : State) : Prop where
  code : Stacked (· <+: ·) frames state.frames final.frames
  names : Stacked Scope.KeepsNames scopes state.scopes final.scopes

namespace State.Extended

variable {frames : List (List Instr)} {scopes : List Scope} {state middle final : State}

theorem same (framed : state.frames ≠ []) (inScope : state.scopes ≠ []) (sameFrames : final.frames = state.frames)
    (sameScopes : final.scopes = state.scopes) : Extended [] [] state final := by
  constructor
  · rw [sameFrames]
    exact .refl List.prefix_refl framed
  · rw [sameScopes]
    exact .refl Scope.KeepsNames.refl inScope

theorem trans (first : Extended [] [] state middle) (second : Extended frames scopes middle final) :
    Extended frames scopes state final :=
  ⟨first.code.trans List.IsPrefix.trans second.code, first.names.trans List.IsPrefix.trans second.names⟩

end State.Extended

namespace Generate

/-- From every state with a frame and a scope open, the action only adds to the innermost ones. If it succeeds, as many are
open as before. -/
def Minds {α : Type} (action : Generate α) : Prop :=
  ∀ ⦃state : State⦄, state.frames ≠ [] → state.scopes ≠ [] →
    match action state with
    | .ok _ final => State.Extended [] [] state final
    | .error _ final => ∃ frames scopes, State.Extended frames scopes state final

namespace Minds

variable {α β : Type}

theorem bind {action : Generate α} {next : α → Generate β} (first : Minds action) (rest : ∀ value, Minds (next value)) :
    Minds (action >>= next) := by
  intro state framed inScope
  have opened := first framed inScope
  cases ran : action state with
  | error cause final =>
    rw [ran] at opened
    rw [bind_error ran]
    exact opened
  | ok value middle =>
    rw [ran] at opened
    rw [bind_ok ran]
    have closed := rest value opened.code.nonempty opened.names.nonempty
    cases done : next value middle with
    | error cause final =>
      rw [done] at closed
      obtain ⟨frames, scopes, extended⟩ := closed
      exact ⟨frames, scopes, opened.trans extended⟩
    | ok result final =>
      rw [done] at closed
      exact opened.trans closed

/-- An action that leaves frames and scopes alone. -/
theorem still {action : Generate α}
    (leaves : ∀ state, match action state with
      | .ok _ final | .error _ final => final.frames = state.frames ∧ final.scopes = state.scopes) : Minds action := by
  intro state framed inScope
  have left := leaves state
  cases ran : action state with
  | ok value final =>
    rw [ran] at left
    exact .same framed inScope left.1 left.2
  | error cause final =>
    rw [ran] at left
    exact ⟨[], [], .same framed inScope left.1 left.2⟩

theorem extends_ok {action : Generate α} {state final : State} {value : α} (minds : Minds action) (framed : state.frames ≠ [])
    (inScope : state.scopes ≠ []) (ran : action state = .ok value final) : State.Extended [] [] state final := by
  have extended := minds framed inScope
  rwa [ran] at extended

theorem pure (value : α) : Minds (Pure.pure value) := still fun _ => ⟨rfl, rfl⟩

theorem throw (cause : GenerateError) : Minds (MonadExcept.throw cause : Generate α) := still fun _ => ⟨rfl, rfl⟩

end Minds

theorem part_minds (tree : Tree) (which : Part) : Minds (part tree which) := by
  unfold part
  split
  · exact .pure _
  · exact .throw _

theorem freshLabel_minds : Minds freshLabel := .still fun _ => ⟨rfl, rfl⟩

theorem emit_minds (instr : Instr) : Minds (emit instr) := by
  intro state framed inScope
  obtain ⟨frame, rest, inside⟩ := List.exists_cons_of_ne_nil framed
  unfold emit
  rw [get_bind]
  simp only [inside]
  exact ⟨⟨frame, rest, frame ++ [instr], inside, rfl, List.prefix_append _ _⟩,
    .refl Scope.KeepsNames.refl inScope⟩

theorem lookup_minds (name : Tree) : Minds (lookup name) := by
  apply Minds.still
  rintro ⟨scopes, count, frames, label⟩
  unfold lookup
  rw [get_bind]
  cases scopes with
  | nil => exact ⟨rfl, rfl⟩
  | cons scope outer =>
    cases found : scope.slots? name with
    | none =>
      simp only [found]
      exact ⟨rfl, rfl⟩
    | some slots =>
      simp only [found]
      cases slots <;> exact ⟨rfl, rfl⟩

/-- A declaration adds its name to the innermost scope or a slot to the name there. -/
theorem declare_minds (name : Tree) : Minds (declare name) := by
  intro state framed inScope
  obtain ⟨scope, outer, inside⟩ := List.exists_cons_of_ne_nil inScope
  have extended {changed : Scope} (count : Int) (kept : scope.KeepsNames changed) :
      State.Extended [] [] state { state with scopeCount := count, scopes := changed :: outer } :=
    ⟨.refl List.prefix_refl framed, scope, outer, changed, inside, rfl, kept⟩
  unfold declare
  rw [get_bind]
  simp only [inside]
  by_cases known : (scope.slots? name).isSome = true
  · rw [if_pos known, set_bind]
    cases name.numbered? (state.scopeCount + 1) with
    | none => exact ⟨[], [], .same framed inScope rfl inside.symm⟩
    | some slot => exact extended _ (.of_eq (Scope.names_push scope name slot))
  · rw [if_neg known]
    exact extended _ ⟨[name], (Scope.names_insert scope name).symm⟩

/-- Leaving a `let` takes slots away but no name, also if it stops at a name without slots. -/
theorem leaveLet_minds : Minds leaveLet := by
  intro state framed inScope
  obtain ⟨scope, outer, inside⟩ := List.exists_cons_of_ne_nil inScope
  have kept := Scope.names_released (Text.decimal state.scopeCount) scope
  unfold leaveLet
  rw [get_bind]
  simp only [inside]
  cases released : scope.release (Text.decimal state.scopeCount) with
  | mk left failure =>
    rw [released] at kept
    have extended (count : Int) :
        State.Extended [] [] state { state with scopeCount := count, scopes := left :: outer } :=
      ⟨.refl List.prefix_refl framed, scope, outer, left, inside, rfl, .of_eq kept⟩
    cases failure with
    | none => exact extended _
    | some cause => cases cause <;> exact ⟨[], [], extended _⟩

theorem parameterNames_minds (list : Tree) : Minds (parameterNames list) := by
  induction list with
  | parameter name type => exact .pure _
  | parameters first second firstIH secondIH => exact firstIH.bind fun _ => secondIH.bind fun _ => .pure _
  | _ => exact .throw _

private theorem declareAll_minds (names : List Tree) : Minds (names.forM fun name => discard (declare name)) := by
  induction names with
  | nil => exact .pure _
  | cons name rest ih =>
    have declared : Minds (discard (declare name)) := (declare_minds name).bind fun _ => .pure _
    exact declared.bind fun _ => ih

/-- The end of a function closes the innermost frame and scope and adds to those below. -/
private theorem functionEnd_extends (name : Tree) (names : List Tree) {state final : State} {made : List Instr} {left : Scope}
    (framed : state.frames ≠ []) (inScope : state.scopes ≠ []) (frames : final.frames = made :: state.frames)
    (scopes : final.scopes = left :: state.scopes) :
    ∃ last, functionEnd name names final = .ok () last ∧ State.Extended [] [] state last := by
  obtain ⟨frame, rest, open_⟩ := List.exists_cons_of_ne_nil framed
  obtain ⟨all, count, code, label⟩ := final
  cases frames
  cases scopes
  rw [open_]
  exact ⟨_, rfl, ⟨frame, rest, _, open_, rfl, by simp⟩, .refl .refl inScope⟩

/-- What a function does happens in its own frame and scope, which are closed again if it succeeds. -/
theorem functionCode_minds {name list : Tree} {body : Generate Unit} (minds : Minds body) :
    Minds (functionCode name list body) := by
  have inner : Minds (do
      let names ← parameterNames list
      functionInside names body
      return names) :=
    (parameterNames_minds list).bind fun names => Minds.bind ((declareAll_minds names).bind fun _ => minds) fun _ => .pure _
  intro state framed inScope
  rw [functionCode_opens]
  generalize (do
    let names ← parameterNames list
    functionInside names body
    return names) = action at inner ⊢
  generalize entered : ({ state with frames := [] :: state.frames, scopes := [] :: state.scopes } : State) = inside
  have frames : inside.frames = [] :: state.frames := by rw [← entered]
  have scopes : inside.scopes = [] :: state.scopes := by rw [← entered]
  have opened := inner (frames ▸ List.cons_ne_nil _ _) (scopes ▸ List.cons_ne_nil _ _)
  cases ran : action inside with
  | error cause final =>
    rw [ran] at opened
    obtain ⟨_, _, code, names⟩ := opened
    rw [frames] at code
    rw [scopes] at names
    rw [bind_error ran]
    obtain ⟨higher, code⟩ := code.below List.prefix_refl framed
    obtain ⟨deeper, names⟩ := names.below .refl inScope
    exact ⟨higher, deeper, code, names⟩
  | ok names final =>
    rw [ran] at opened
    obtain ⟨⟨_, _, made, framesWere, framesAre, _⟩, ⟨_, _, left, scopesWere, scopesAre, _⟩⟩ := opened
    cases frames.symm.trans framesWere
    cases scopes.symm.trans scopesWere
    obtain ⟨last, ended, extended⟩ := functionEnd_extends name names framed inScope framesAre scopesAre
    rw [bind_ok ran, ended]
    exact extended

theorem argumentTarget_minds (list : Tree) : Minds (argumentTarget list) :=
  (part_minds _ _).bind fun _ => (part_minds _ _).bind fun _ => part_minds _ _

private theorem callCode_minds {name : Tree} {argument : Generate Unit} {target : Generate Tree} {arguments : Generate Nat}
    (sole : Minds argument) (sought : Minds target) (all : Minds arguments) :
    Minds (callCode name argument target arguments) := by
  unfold callCode
  split
  · exact sole.bind fun _ => (emit_minds _).bind fun _ => emit_minds _
  · split
    · exact sole.bind fun _ => sought.bind fun found => (lookup_minds found).bind fun _ =>
        (emit_minds _).bind fun _ => (emit_minds _).bind fun _ => emit_minds _
    · exact (emit_minds _).bind fun _ => all.bind fun _ => emit_minds _

mutual
theorem expression_minds (tree : Tree) : Minds (expression tree) := by
  cases tree with
  | integer value => exact emit_minds _
  | reference target => exact (part_minds _ _).bind fun _ => (lookup_minds _).bind fun _ => emit_minds _
  | unary operator operand =>
    unfold expression
    split
    · exact (expression_minds operand).bind fun _ => .throw _
    · split
      · exact expression_minds operand
      · exact .throw _
  | binary left operator right =>
    unfold expression
    refine (expression_minds left).bind fun _ => (expression_minds right).bind fun _ => ?_
    split
    · exact emit_minds _
    · exact .pure _
  | call name list => exact callCode_minds (soleArgument_minds list) (argumentTarget_minds list) (arguments_mind list)
  | parameters first second => exact (arguments_mind first).bind fun _ => (arguments_mind second).bind fun _ => .pure _
  | _ => exact .throw _

theorem soleArgument_minds (tree : Tree) : Minds (soleArgument tree) := by
  cases tree with
  | parameter value type => exact expression_minds value
  | _ => exact .throw _

theorem arguments_mind (tree : Tree) : Minds (arguments tree) := by
  cases tree with
  | parameter value type => exact (expression_minds value).bind fun _ => .pure _
  | parameters first second => exact (arguments_mind first).bind fun _ => (arguments_mind second).bind fun _ => .pure _
  | _ => exact .throw _
end

mutual
theorem command_minds (tree : Tree) : Minds (command tree) := by
  cases tree with
  | assign target value =>
    exact (part_minds _ _).bind fun _ => (lookup_minds _).bind fun _ => (expression_minds value).bind fun _ => emit_minds _
  | call name list => exact callCode_minds (soleArgument_minds list) (argumentTarget_minds list) (arguments_mind list)
  | sequence first second => exact (command_minds first).bind fun _ => command_minds second
  | ifElse test yes no =>
    refine freshLabel_minds.bind fun _ => freshLabel_minds.bind fun _ => ?_
    refine (expression_minds test).bind fun _ => (emit_minds _).bind fun _ => ?_
    refine (command_minds yes).bind fun _ => (emit_minds _).bind fun _ => (emit_minds _).bind fun _ => ?_
    exact (command_minds no).bind fun _ => emit_minds _
  | whileDo test body =>
    refine freshLabel_minds.bind fun _ => freshLabel_minds.bind fun _ => (emit_minds _).bind fun _ => ?_
    refine (expression_minds test).bind fun _ => (emit_minds _).bind fun _ => ?_
    exact (command_minds body).bind fun _ => (emit_minds _).bind fun _ => emit_minds _
  | letIn declared body => exact (declaration_minds declared).bind fun _ => (command_minds body).bind fun _ => leaveLet_minds
  | returns value => exact (expression_minds value).bind fun _ => emit_minds _
  | _ => exact .throw _

theorem declaration_minds (tree : Tree) : Minds (declaration tree) := by
  cases tree with
  | varDecl name type => exact (declare_minds name).bind fun _ => (emit_minds _).bind fun _ => emit_minds _
  | constDecl name value => exact (declare_minds name).bind fun _ => (expression_minds value).bind fun _ => emit_minds _
  | declarations first second => exact (declaration_minds first).bind fun _ => declaration_minds second
  | funcDecl name list type body => exact functionCode_minds (command_minds body)
  | _ => exact .pure _
end

private theorem program_let (declared body : Tree) :
    program (.program (.letIn declared body)) .empty = ((do
        command (.letIn declared body)
        emitOp .loadConst .absent
        emitOp .returnValue .absent) >>= fun _ => do
      let code ← closeFrame
      let _ ← closeScope
      return code) ⟨[[]], 0, [[]], 0⟩ := by
  simp only [bind_assoc]
  rfl

/-- A program closes the only frame and the only scope that it opens. -/
theorem program_closes {tree : Tree} {code : List Instr} {final : State} (ran : program tree .empty = .ok code final) :
    final.frames = [] ∧ final.scopes = [] := by
  cases tree with
  | program inner =>
    cases inner with
    | letIn declared body =>
      rw [program_let] at ran
      obtain ⟨_, ended, generated, closing⟩ := bind_eq_ok.mp ran
      have minds : Minds (do
          command (.letIn declared body)
          emitOp .loadConst .absent
          emitOp .returnValue .absent) :=
        (command_minds _).bind fun _ => (emit_minds _).bind fun _ => emit_minds _
      have extended := minds.extends_ok (List.cons_ne_nil _ _) (List.cons_ne_nil _ _) generated
      obtain ⟨⟨_, _, made, ⟨⟩, frames, _⟩, ⟨_, _, left, ⟨⟩, scopes, _⟩⟩ := extended
      obtain ⟨all, count, codes, label⟩ := ended
      cases frames
      cases scopes
      cases closing
      exact ⟨rfl, rfl⟩
    | _ => exact absurd ran throw_ne_ok
  | _ => exact absurd ran throw_ne_ok

end Generate

/-- Generating a command, an expression, a declaration or the arguments of a call from a tree of any shape, in any state
with a frame and a scope open, adds to the innermost frame and scope and leaves those below as they are, also if it fails.
If it succeeds, as many frames and scopes are open as before; and after a whole program none is open. -/
theorem generation_minds_own_frames :
    (∀ tree, Generate.Minds (Generate.command tree)) ∧ (∀ tree, Generate.Minds (Generate.expression tree)) ∧
      (∀ tree, Generate.Minds (Generate.declaration tree)) ∧ (∀ tree, Generate.Minds (Generate.arguments tree)) ∧
      ∀ tree code final, Generate.program tree .empty = .ok code final → final.frames = [] ∧ final.scopes = [] :=
  ⟨Generate.command_minds, Generate.expression_minds, Generate.declaration_minds, Generate.arguments_mind,
    fun _ _ _ => Generate.program_closes⟩

def negatingInside : Tree :=
  .funcDecl (.text "f") (.parameter (.text "x") .absent) .absent
    (.letIn (.funcDecl (.text "g") (.parameter (.text "y") .absent) .absent
      (.returns (.unary (.text "-") (.integer (.number 1))))) (.returns (.integer (.number 2))))

def underWay : State :=
  ⟨[[⟨.text "z", [.text "z"]⟩], [⟨.text "main", []⟩]], 0, [[.op .printNewline .absent], [.op .printItem .absent]], 0⟩

/-- The failure leaves the frames and scopes of both functions on those that were open, which are as before. -/
theorem negatingInside_leaves_open :
    ∃ final, Generate.declaration negatingInside underWay = .error .negation final ∧
      final.frames.length = 4 ∧ final.scopes.length = 4 ∧
      ∃ frames scopes, State.Extended frames scopes underWay final := by
  have framed : underWay.frames ≠ [] := List.cons_ne_nil _ _
  have inScope : underWay.scopes ≠ [] := List.cons_ne_nil _ _
  exact ⟨_, rfl, rfl, rfl, generation_minds_own_frames.2.2.1 negatingInside framed inScope⟩

end MiniTriangle
