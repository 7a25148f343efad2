import MiniTriangle.Proofs.GenerationOutcomes
import MiniTriangle.Proofs.ParsedTrees
import MiniTriangle.Proofs.SlotNaming
import MiniTriangle.Proofs.TreeNodes

/-! Which programs compile. A program read from a text whose variables, constants and parameters do not end with a digit
compiles exactly if it is a `let`, no sign in it is other than a plus, and the built-in calls are given what they take.
Otherwise its tree is refused; no name ever lacks a slot. -/

namespace MiniTriangle

open Sequencing

def Tree.isSingle : Tree → Bool
  | .parameter _ _ => true
  | _ => false

def Tree.isVariable : Tree → Bool
  | .parameter (.reference _) _ => true
  | _ => false

/-- Whether code can be generated for a node, if it can for its parts: a sign is a plus, printing takes one argument,
and reading takes one that is a variable. -/
def Tree.accepted : Tree → Bool
  | .unary operator _ => operator = .text "+"
  | .call callee list =>
    if callee = .text "putint" then list.isSingle else if callee = .text "getint" then list.isVariable else true
  | _ => true

def Tree.ownNames : Tree → List String
  | .varDecl (.text characters) _ => [characters]
  | .constDecl (.text characters) _ => [characters]
  | .funcDecl _ list _ _ =>
    list.parameterList.filterMap fun
      | .text characters => some characters
      | _ => none
  | _ => []

/-- The parameters of a function are the names that it declares itself. -/
theorem Shaped.parameterList_eq {list : Tree} (shaped : Shaped .parameters list) (name type body : Tree) :
    list.parameterList = (Tree.funcDecl name list type body).ownNames.map Tree.text := by
  have texts := shaped.parameter_texts
  rw [Tree.ownNames]
  generalize list.parameterList = names at texts ⊢
  induction names with
  | nil => rfl
  | cons parameter rest ih =>
    obtain ⟨⟨word, written⟩, others⟩ := List.forall_mem_cons.mp texts
    rw [written, List.filterMap_cons, List.map_cons, ← ih others]

def Tree.Accepted (tree : Tree) : Prop := tree.all accepted = true

def Tree.NamesUndigited (tree : Tree) : Prop := tree.all (fun part => part.ownNames.all fun name => Undigited name) = true

instance (tree : Tree) : Decidable tree.Accepted := inferInstanceAs (Decidable (_ = _))

instance (tree : Tree) : Decidable tree.NamesUndigited := inferInstanceAs (Decidable (_ = _))

theorem Tree.accepted_iff (tree : Tree) :
    tree.Accepted ↔ tree.accepted = true ∧ ∀ child ∈ tree.children, child.Accepted :=
  all_iff tree

@[simp] theorem Tree.accepted_atom (value : Atom) : (Tree.atom value).Accepted := rfl

@[simp] theorem Tree.accepted_name (value : Atom) : (Tree.name (.atom value)).Accepted := rfl

@[simp] theorem Tree.accepted_typeName (value : Atom) : (Tree.typeName (.atom value)).Accepted := rfl

theorem Tree.NamesUndigited.child {tree child : Tree} (named : tree.NamesUndigited) (part : child ∈ tree.children) :
    child.NamesUndigited :=
  all_child named part

theorem Tree.NamesUndigited.own {tree : Tree} (named : tree.NamesUndigited) {name : String} (own : name ∈ tree.ownNames) :
    Undigited name := by
  have here := ((all_iff tree).mp named).1
  exact of_decide_eq_true (List.all_eq_true.mp here name own)

namespace Generate

/-- From a state that is ready, the action succeeds exactly under the condition and leaves the state ready. -/
def Judges {α : Type} (action : Generate α) (fine : Prop) : Prop :=
  ∀ frames scopes, Decides (State.Ready (frames + 1) (scopes + 1)) action fine (State.Ready (frames + 1) (scopes + 1))

section

variable {list : Tree} {name : String}

private theorem print_judged (given : Shaped .arguments list)
    (sole : ∀ value type, list = .parameter value type → Judges (expression value) value.Accepted) :
    Judges (callCode (.text "putint") (soleArgument list) (argumentTarget list) (arguments list))
      (Tree.call (.text "putint") list).Accepted := by
  intro frames scopes
  unfold callCode
  rw [if_pos rfl, Tree.accepted_iff (.call _ _)]
  cases given with
  | argument valued =>
    refine Decides.congr ((sole _ _ rfl frames scopes).bind_always fun _ =>
      (emitOp_decides _ _).always_bind fun _ => emitOp_decides _ _) ?_
    simp [Tree.accepted, Tree.children, Tree.isSingle, Tree.accepted_iff (.parameter _ _)]
  | arguments before later =>
    refine Decides.refused_bind (Decides.throw (.missing _ _) not_false) fun fine => ?_
    cases fine.1

private theorem target_refused {value type : Tree} {before : State → Prop} (untargeted : value.part? .target = none) :
    Decides before (argumentTarget (.parameter value type)) False before := by
  have refused : Decides before (part value .target) False before := by
    unfold part
    rw [untargeted]
    exact Decides.throw (.missing _ _) not_false
  exact refused.refused_bind not_false

private theorem read_judged (given : Shaped .arguments list)
    (sole : ∀ value type, list = .parameter value type → Judges (expression value) value.Accepted) :
    Judges (callCode (.text "getint") (soleArgument list) (argumentTarget list) (arguments list))
      (Tree.call (.text "getint") list).Accepted := by
  intro frames scopes
  unfold callCode
  rw [if_neg (by decide), if_pos rfl, Tree.accepted_iff (.call _ _)]
  cases given with
  | argument valued =>
    have value := sole _ _ rfl frames scopes
    cases valued with
    | reference name =>
      refine Decides.congr (value.bind_always fun _ => (lookup_decides _).always_bind fun _ =>
        (emitOp_decides _ _).always_bind fun _ => (emitOp_decides _ _).always_bind fun _ => emitOp_decides _ _) ?_
      exact iff_of_true rfl ((Tree.accepted_iff _).mp rfl)
    | _ =>
      refine Decides.congr (value.bind fun _ => Decides.refused_bind (target_refused rfl) not_false) ?_
      simp [Tree.accepted, Tree.isVariable]
  | arguments before later =>
    refine Decides.refused_bind (Decides.throw (.missing _ _) not_false) fun fine => ?_
    cases fine.1

private theorem call_judged (given : Shaped .arguments list) (all : Judges (arguments list) list.Accepted)
    (sole : ∀ value type, list = .parameter value type → Judges (expression value) value.Accepted) :
    Judges (callCode (.text name) (soleArgument list) (argumentTarget list) (arguments list))
      (Tree.call (.text name) list).Accepted := by
  by_cases prints : name = "putint"
  · rw [prints]
    exact print_judged given sole
  · by_cases reads : name = "getint"
    · rw [reads]
      exact read_judged given sole
    · intro frames scopes
      have notPrint : Tree.text name ≠ .text "putint" := by simp [prints]
      have notRead : Tree.text name ≠ .text "getint" := by simp [reads]
      unfold callCode
      rw [if_neg notPrint, if_neg notRead, Tree.accepted_iff (.call _ _)]
      refine Decides.congr ((emitOp_decides _ _).always_bind fun _ => (all frames scopes).bind_always fun _ =>
        emitOp_decides _ _) ?_
      simp [Tree.accepted, Tree.children, notPrint, notRead]

end

private theorem declareAll_decides {names : List Tree}
    (texts : ∀ name ∈ names, ∃ characters, name = .text characters ∧ Undigited characters) (frames scopes : Nat) :
    Decides (State.Ready frames (scopes + 1)) (names.forM fun name => discard (declare name)) True
      (State.Ready frames (scopes + 1)) := by
  induction names with
  | nil => exact Decides.pure _
  | cons name rest ih =>
    obtain ⟨⟨characters, written, undigited⟩, others⟩ := List.forall_mem_cons.mp texts
    subst written
    have declared : Decides (State.Ready frames (scopes + 1)) (discard (declare (.text characters))) True
        (State.Ready frames (scopes + 1)) :=
      (declare_decides undigited).always_bind fun _ => Decides.pure _
    exact declared.always_bind fun _ => ih others

private theorem function_decides {name list : Tree} {body : Generate Unit} {fine : Prop}
    (names : parameterNames list = pure list.parameterList)
    (texts : ∀ name ∈ list.parameterList, ∃ characters, name = .text characters ∧ Undigited characters)
    (judged : Judges body fine) : Judges (functionCode name list body) fine := by
  intro frames scopes
  unfold functionCode
  rw [names]
  exact openFrame_decides.always_bind fun _ => openScope_decides.always_bind fun _ =>
    (declareAll_decides texts _ _).always_bind fun _ => (judged _ _).bind_always fun _ =>
    closeFrame_decides.always_bind fun _ => closeScope_decides.always_bind fun _ => (emit_decides _).always_bind fun _ =>
    (emitOp_decides _ _).always_bind fun _ => emitOp_decides _ _

def Judged : Role → Tree → Prop
  | .command, tree => Judges (command tree) tree.Accepted
  | .declaration, tree => Judges (declaration tree) tree.Accepted
  | .expression, tree => Judges (expression tree) tree.Accepted
  | .arguments, tree => Judges (arguments tree) tree.Accepted ∧
      ∀ value type, tree = .parameter value type → Judges (expression value) value.Accepted
  | .parameters, tree => tree.Accepted ∧ parameterNames tree = pure tree.parameterList

theorem judged_of_shaped {role : Role} {tree : Tree} (shaped : Shaped role tree) (named : tree.NamesUndigited) :
    Judged role tree := by
  induction shaped with
  | assign target valued ih =>
    have value := ih (named.child (by simp [Tree.children]))
    intro frames scopes
    rw [Tree.accepted_iff (.assign _ _)]
    refine Decides.congr ((lookup_decides _).always_bind fun _ => (value frames scopes).bind_always fun _ =>
      emitOp_decides _ _) ?_
    simp [Tree.accepted, Tree.children]
  | callCommand name given ih =>
    obtain ⟨all, sole⟩ := ih (named.child (by simp [Tree.children]))
    exact call_judged given all sole
  | sequence before later firstIH secondIH =>
    have first := firstIH (named.child (by simp [Tree.children]))
    have second := secondIH (named.child (by simp [Tree.children]))
    intro frames scopes
    rw [Tree.accepted_iff (.sequence _ _)]
    refine Decides.congr ((first frames scopes).bind fun _ => second frames scopes) ?_
    simp [Tree.accepted, Tree.children]
  | conditional tested taken otherwise testIH yesIH noIH =>
    have test := testIH (named.child (by simp [Tree.children]))
    have yes := yesIH (named.child (by simp [Tree.children]))
    have no := noIH (named.child (by simp [Tree.children]))
    intro frames scopes
    rw [Tree.accepted_iff (.ifElse _ _ _)]
    refine Decides.congr (freshLabel_decides.always_bind fun _ => freshLabel_decides.always_bind fun _ =>
      (test frames scopes).bind fun _ => (emit_decides _).always_bind fun _ => (yes frames scopes).bind fun _ =>
      (emit_decides _).always_bind fun _ => (emit_decides _).always_bind fun _ =>
      (no frames scopes).bind_always fun _ => emit_decides _) ?_
    simp [Tree.accepted, Tree.children]
  | loop tested repeated testIH bodyIH =>
    have test := testIH (named.child (by simp [Tree.children]))
    have body := bodyIH (named.child (by simp [Tree.children]))
    intro frames scopes
    rw [Tree.accepted_iff (.whileDo _ _)]
    refine Decides.congr (freshLabel_decides.always_bind fun _ => freshLabel_decides.always_bind fun _ =>
      (emit_decides _).always_bind fun _ => (test frames scopes).bind fun _ => (emit_decides _).always_bind fun _ =>
      (body frames scopes).bind_always fun _ => (emit_decides _).always_bind fun _ => emit_decides _) ?_
    simp [Tree.accepted, Tree.children]
  | scope declares inner declaredIH bodyIH =>
    have declared := declaredIH (named.child (by simp [Tree.children]))
    have body := bodyIH (named.child (by simp [Tree.children]))
    intro frames scopes
    rw [Tree.accepted_iff (.letIn _ _)]
    refine Decides.congr ((declared frames scopes).bind fun _ => (body frames scopes).bind_always fun _ =>
      leaveLet_decides) ?_
    simp [Tree.accepted, Tree.children]
  | returns valued ih =>
    have value := ih (named.child (by simp [Tree.children]))
    intro frames scopes
    rw [Tree.accepted_iff (.returns _)]
    refine Decides.congr ((value frames scopes).bind_always fun _ => emitOp_decides _ _) ?_
    simp [Tree.accepted, Tree.children]
  | nothing =>
    intro frames scopes
    exact (Decides.pure ()).congr (iff_of_true trivial rfl)
  | var name type =>
    intro frames scopes
    refine Decides.congr ((declare_decides (named.own List.mem_cons_self)).always_bind fun _ =>
      (emitOp_decides _ _).always_bind fun _ => emitOp_decides _ _) ?_
    exact iff_of_true trivial rfl
  | const name valued ih =>
    have value := ih (named.child (by simp [Tree.children]))
    intro frames scopes
    rw [Tree.accepted_iff (.constDecl _ _)]
    refine Decides.congr ((declare_decides (named.own List.mem_cons_self)).always_bind fun _ =>
      (value frames scopes).bind_always fun _ => emitOp_decides _ _) ?_
    simp [Tree.accepted, Tree.children]
  | function name type listed inner listIH bodyIH =>
    obtain ⟨listAccepted, names⟩ := listIH (named.child (by simp [Tree.children]))
    have body := bodyIH (named.child (by simp [Tree.children]))
    intro frames scopes
    rw [Tree.accepted_iff (.funcDecl _ _ _ _)]
    refine (function_decides names ?_ body frames scopes).congr ?_
    · intro parameter member
      obtain ⟨characters, written⟩ := listed.parameter_texts parameter member
      refine ⟨characters, written, named.own (List.mem_filterMap.mpr ⟨parameter, member, ?_⟩)⟩
      rw [written]
    · simp [Tree.accepted, Tree.children, listAccepted]
  | declarations before later firstIH secondIH =>
    have first := firstIH (named.child (by simp [Tree.children]))
    have second := secondIH (named.child (by simp [Tree.children]))
    intro frames scopes
    rw [Tree.accepted_iff (.declarations _ _)]
    refine Decides.congr ((first frames scopes).bind fun _ => second frames scopes) ?_
    simp [Tree.accepted, Tree.children]
  | parameter name type => exact ⟨rfl, rfl⟩
  | parameters before later firstIH secondIH =>
    obtain ⟨firstAccepted, firstNames⟩ := firstIH (named.child (by simp [Tree.children]))
    obtain ⟨secondAccepted, secondNames⟩ := secondIH (named.child (by simp [Tree.children]))
    constructor
    · rw [Tree.accepted_iff]
      simp [Tree.accepted, Tree.children, firstAccepted, secondAccepted]
    · rw [parameterNames, firstNames, secondNames]
      rfl
  | argument valued ih =>
    have value := ih (named.child (by simp [Tree.children]))
    refine ⟨fun frames scopes => ?_, ?_⟩
    · rw [Tree.accepted_iff (.parameter _ _)]
      refine Decides.congr ((value frames scopes).bind_always fun _ => Decides.pure _) ?_
      simp [Tree.accepted, Tree.children]
    · rintro _ _ ⟨⟩
      exact value
  | arguments before later firstIH secondIH =>
    have first := (firstIH (named.child (by simp [Tree.children]))).1
    have second := (secondIH (named.child (by simp [Tree.children]))).1
    refine ⟨fun frames scopes => ?_, ?_⟩
    · rw [Tree.accepted_iff (.parameters _ _)]
      refine Decides.congr ((first frames scopes).bind fun _ => (second frames scopes).bind_always fun _ =>
        Decides.pure _) ?_
      simp [Tree.accepted, Tree.children]
    · rintro _ _ ⟨⟩
  | integer value =>
    intro frames scopes
    exact (emitOp_decides _ _).congr (iff_of_true trivial rfl)
  | reference name =>
    intro frames scopes
    refine Decides.congr ((lookup_decides _).always_bind fun _ => emitOp_decides _ _) ?_
    exact iff_of_true trivial rfl
  | unary operator inner ih =>
    have operand := ih (named.child (by simp [Tree.children]))
    intro frames scopes
    rw [Tree.accepted_iff (.unary _ _)]
    unfold expression
    split
    · next minus =>
      refine Decides.congr ((operand frames scopes).bind fun _ => Decides.throw .negation not_false) ?_
      simp [Tree.accepted, minus]
    · split
      · next plus =>
        refine (operand frames scopes).congr ?_
        simp [Tree.accepted, Tree.children, plus]
      · next other => exact Decides.throw (.unexpected _ _) fun fine => other (of_decide_eq_true fine.1)
  | binary operator first second firstIH secondIH =>
    have left := firstIH (named.child (by simp [Tree.children]))
    have right := secondIH (named.child (by simp [Tree.children]))
    intro frames scopes
    rw [Tree.accepted_iff (.binary _ _ _)]
    refine Decides.congr ((left frames scopes).bind fun _ => (right frames scopes).bind_always fun _ => ?_) ?_
    · split
      · exact emit_decides _
      · exact Decides.pure _
    · simp [Tree.accepted, Tree.children]
  | call name given ih =>
    obtain ⟨all, sole⟩ := ih (named.child (by simp [Tree.children]))
    exact call_judged given all sole

/-- A program has to be a `let` in which every part is accepted. -/
theorem program_decides {command : Tree} (shaped : Shaped .command command) (named : command.NamesUndigited) :
    Decides (State.Ready 0 0) (program (.program command))
      ((∃ declared body, command = .letIn declared body) ∧ command.Accepted) (State.Ready 0 0) := by
  have judged := judged_of_shaped shaped named
  cases shaped with
  | scope declares inner =>
    refine Decides.congr (openFrame_decides.always_bind fun _ => openScope_decides.always_bind fun _ =>
      (judged 0 0).bind_always fun _ => (emitOp_decides _ _).always_bind fun _ => (emitOp_decides _ _).always_bind fun _ =>
      closeFrame_decides.always_bind fun _ => closeScope_decides.always_bind fun _ => Decides.pure _) ?_
    exact ⟨fun fine => ⟨⟨_, _, rfl⟩, fine⟩, And.right⟩
  | _ =>
    refine Decides.throw (.unexpected _ _) ?_
    rintro ⟨⟨_, _, same⟩, _⟩
    cases same

end Generate

/-- A program read from a text, in which no variable, constant or parameter ends with a digit, compiles exactly if it is
a `let` and each of its parts is accepted. Otherwise its tree is refused. -/
theorem compiles_iff_accepted {text : String} {command : Tree} (read : readProgram? text = some (.program command))
    (named : command.NamesUndigited) :
    ((∃ routine state, compileTree (.program command) = .ok (routine, state)) ↔
        (∃ declared body, command = .letIn declared body) ∧ command.Accepted) ∧
      ∀ cause, compileTree (.program command) = .error cause → cause.Refuses := by
  have fresh : State.empty.Ready 0 0 := ⟨rfl, rfl, nofun⟩
  have decided := Generate.program_decides (shaped_of_read read) named fresh
  unfold compileTree
  cases ran : Generate.program (.program command) State.empty with
  | ok code final =>
    rw [ran] at decided
    exact ⟨⟨fun _ => decided.1, fun _ => ⟨_, _, rfl⟩⟩, nofun⟩
  | error cause final =>
    rw [ran] at decided
    refine ⟨⟨nofun, fun fine => absurd fine decided.2⟩, ?_⟩
    intro other same
    cases same
    exact decided.1

/-- Declares a name in four places, reads it and prints what a function makes of it. -/
def shadowing : String :=
  "let var x: Integer; func f(x: Integer): Integer let const x ~ 3; in return +x; " ++
    "in begin let var x: Integer; in getint(x); putint(f(x)); end"

def shadowingCommand : Tree :=
  .letIn (.declarations (.varDecl (.text "x") (.typeName (.text "Integer")))
      (.declarations (.funcDecl (.text "f") (.parameter (.text "x") (.typeName (.text "Integer"))) (.typeName (.text "Integer"))
        (.letIn (.declarations (.constDecl (.text "x") (.integer (.number 3))) .absent)
          (.returns (.unary (.text "+") (.reference (.name (.text "x"))))))) .absent))
    (.sequence (.letIn (.declarations (.varDecl (.text "x") (.typeName (.text "Integer"))) .absent)
        (.call (.text "getint") (.parameter (.reference (.name (.text "x"))) .absent)))
      (.call (.text "putint") (.parameter (.call (.text "f") (.parameter (.reference (.name (.text "x"))) .absent)) .absent)))

def negating : String := "let in putint(-1);"

def negatingCommand : Tree :=
  .letIn .absent (.call (.text "putint") (.parameter (.unary (.text "-") (.integer (.number 1))) .absent))

theorem shadowing_compiles : (∃ routine state, compileTree (.program shadowingCommand) = .ok (routine, state)) ∧
    ∃ cause, compileTree (.program negatingCommand) = .error cause ∧ cause.Refuses := by
  have shadowingRead : readProgram? shadowing = some (.program shadowingCommand) := by decide +kernel
  have negatingRead : readProgram? negating = some (.program negatingCommand) := by decide +kernel
  have shadowingNamed : shadowingCommand.NamesUndigited := by decide +kernel
  have negatingNamed : negatingCommand.NamesUndigited := by decide +kernel
  refine ⟨(compiles_iff_accepted shadowingRead shadowingNamed).1.mpr ⟨⟨_, _, rfl⟩, rfl⟩, ?_⟩
  obtain ⟨compiles, refused⟩ := compiles_iff_accepted negatingRead negatingNamed
  cases answer : compileTree (.program negatingCommand) with
  | ok result => exact absurd (compiles.mp ⟨result.1, result.2, answer⟩).2 (by decide)
  | error cause => exact ⟨cause, rfl, refused cause answer⟩

end MiniTriangle
