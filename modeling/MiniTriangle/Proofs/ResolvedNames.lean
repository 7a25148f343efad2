import MiniTriangle.Proofs.CompilablePrograms
import MiniTriangle.Proofs.FunctionFrames
import MiniTriangle.Proofs.KnownNames
import MiniTriangle.Proofs.LexicalProgram
import Mathlib.Data.List.Forall2

/-! Which references find a slot. A program loads and stores by slots where it refers to variables, declares them, and
calls or declares functions, one access after the other in the order of generation. A reference finds a slot exactly if
its name was declared before it in the same function, be it in a `let` that is left by then. -/

namespace MiniTriangle

open Sequencing

/-- What a load or a store by slot is made for. -/
inductive Access where
  /-- A reference to a variable, after the given names were declared in the same function. -/
  | reference (name : Tree) (known : List String)
  /-- The declaration of a variable or a constant. -/
  | declared (name : Tree)
  /-- The declaration or a call of a function. -/
  | function (name : Tree)

def Tree.readInto (known : List String) : Tree → List (Opcode × Access)
  | .parameter (.reference (.name target)) _ => [(.storeFast, .reference target known)]
  | _ => []

/-- The accesses of a tree in the order of generation, if the given names were declared before. A constant is declared
before its value, and a function starts with its parameters. -/
def Tree.accesses (known : List String) : Tree → List (Opcode × Access)
  | .reference (.name target) => [(.loadFast, .reference target known)]
  | .unary _ operand => operand.accesses known
  | .binary left _ right => left.accesses known ++ right.accesses known
  | .parameter value _ => value.accesses known
  | .parameters first second => first.accesses known ++ second.accesses known
  | .call callee list =>
    if callee = .text "putint" then list.accesses known
    else if callee = .text "getint" then list.accesses known ++ list.readInto known
    else (.loadFast, .function callee) :: list.accesses known
  | .assign (.name target) value => value.accesses known ++ [(.storeFast, .reference target known)]
  | .sequence first second => first.accesses known ++ second.accesses (known ++ first.declaredNames)
  | .ifElse test yes no => test.accesses known ++ yes.accesses known ++ no.accesses (known ++ yes.declaredNames)
  | .whileDo test body => test.accesses known ++ body.accesses known
  | .letIn declared body => declared.accesses known ++ body.accesses (known ++ declared.declaredNames)
  | .returns value => value.accesses known
  | .varDecl identifier _ => [(.storeFast, .declared identifier)]
  | .constDecl identifier value =>
    value.accesses (known ++ (Tree.constDecl identifier value).ownNames) ++ [(.storeFast, .declared identifier)]
  | .declarations first second => first.accesses known ++ second.accesses (known ++ first.declaredNames)
  | .funcDecl callee list type body =>
    body.accesses (Tree.funcDecl callee list type body).ownNames ++ [(.storeFast, .function callee)]
  | _ => []

mutual
/-- The loads and stores by slot of an instruction. Those of a routine stand where it is made. -/
def Instr.accessed : Instr → List (Opcode × Tree)
  | .op .loadFast slot => [(.loadFast, slot)]
  | .op .storeFast slot => [(.storeFast, slot)]
  | .routine _ body => accessed body
  | _ => []

def accessed : List Instr → List (Opcode × Tree)
  | [] => []
  | instr :: rest => instr.accessed ++ accessed rest
end

/-- The loads and stores of all routines under way, the outermost first. -/
def accessedIn (frames : List (List Instr)) : List (Opcode × Tree) := frames.reverse.flatMap accessed

def Access.Resolved : Access → Tree → Prop
  | .reference name known, slot => (slot = .absent ↔ ∀ word ∈ known, name ≠ .text word) ∧ (slot ≠ .absent → name.SlotOf slot)
  | .declared name, slot => name.SlotOf slot
  | .function name, slot => slot = name

def Resolved (wanted : Opcode × Access) (made : Opcode × Tree) : Prop := wanted.1 = made.1 ∧ wanted.2.Resolved made.2

theorem accessed_append (before later : List Instr) : accessed (before ++ later) = accessed before ++ accessed later := by
  induction before with
  | nil => rfl
  | cons instr rest ih => rw [List.cons_append, accessed, accessed, ih, List.append_assoc]

theorem accessedIn_cons (frame : List Instr) (rest : List (List Instr)) :
    accessedIn (frame :: rest) = accessedIn rest ++ accessed frame := by
  simp [accessedIn]

namespace Generate

/-- From a state in which the given names are known, the action makes the given accesses, and then the later names are
known. If it fails, it has made the first of them. -/
def Resolves {α : Type} (known : List String) (action : Generate α) (wanted : List (Opcode × Access)) (later : List String)
    (answers : α → Prop) : Prop :=
  ∀ ⦃scope : Scope⦄ (outer : List Scope) (count : Int) (frame : List Instr) (rest : List (List Instr)) (label : Label),
    scope.Knows known →
    match action ⟨scope :: outer, count, frame :: rest, label⟩ with
    | .ok value final => answers value ∧ ∃ made count emitted label,
        final = ⟨made :: outer, count, (frame ++ emitted) :: rest, label⟩ ∧ made.Knows later ∧
        List.Forall₂ Resolved wanted (accessed emitted)
    | .error _ final => ∃ done added, done <+: wanted ∧ accessedIn final.frames = accessedIn (frame :: rest) ++ added ∧
        List.Forall₂ Resolved done added

namespace Resolves

variable {α β : Type} {known middle later : List String} {wanted more : List (Opcode × Access)}

theorem bind {first : Generate α} {next : α → Generate β} {told : α → Prop} {answers : β → Prop}
    (begins : Resolves known first wanted middle told)
    (goesOn : ∀ value, told value → Resolves middle (next value) more later answers) :
    Resolves known (first >>= next) (wanted ++ more) later answers := by
  intro scope outer count frame rest label knows
  have opened := begins outer count frame rest label knows
  cases ran : first ⟨scope :: outer, count, frame :: rest, label⟩ with
  | error cause final =>
    rw [ran] at opened
    obtain ⟨done, added, started, frames, resolved⟩ := opened
    rw [bind_error ran]
    exact ⟨done, added, started.trans (List.prefix_append _ _), frames, resolved⟩
  | ok value final =>
    rw [ran] at opened
    obtain ⟨answered, made, total, emitted, label, rfl, knowsMiddle, resolved⟩ := opened
    rw [bind_ok ran]
    have closed := goesOn value answered outer total (frame ++ emitted) rest label knowsMiddle
    cases done : next value ⟨made :: outer, total, (frame ++ emitted) :: rest, label⟩ with
    | error cause last =>
      rw [done] at closed
      obtain ⟨begun, added, started, frames, resolvedMore⟩ := closed
      refine ⟨wanted ++ begun, accessed emitted ++ added, (List.prefix_append_right_inj wanted).mpr started, ?_,
        List.rel_append resolved resolvedMore⟩
      simp only [frames, accessedIn_cons, accessed_append, List.append_assoc]
    | ok result last =>
      rw [done] at closed
      obtain ⟨answeredToo, made, count, added, label, rfl, knowsLater, resolvedMore⟩ := closed
      refine ⟨answeredToo, made, count, emitted ++ added, label, ?_, knowsLater, ?_⟩
      · rw [List.append_assoc]
      · rw [accessed_append]
        exact List.rel_append resolved resolvedMore

theorem congr {action : Generate α} {answers : α → Prop} (resolves : Resolves known action wanted middle answers)
    (sameAccesses : wanted = more) (sameNames : middle = later) : Resolves known action more later answers := by
  rw [← sameAccesses, ← sameNames]
  exact resolves

/-- What succeeds without emitting code makes no access. -/
theorem silent {action : Generate α} {answers : α → Prop}
    (runs : ∀ (scope : Scope) (outer : List Scope) (count : Int) (frames : List (List Instr)) (label : Label),
      scope.Knows known → ∃ value made total next, action ⟨scope :: outer, count, frames, label⟩ =
        .ok value ⟨made :: outer, total, frames, next⟩ ∧ made.Knows later ∧ answers value) :
    Resolves known action [] later answers := by
  intro scope outer count frame rest label knows
  obtain ⟨value, made, total, next, ran, knowsLater, answered⟩ := runs scope outer count (frame :: rest) label knows
  rw [ran]
  exact ⟨answered, made, total, [], next, by rw [List.append_nil], knowsLater, .nil⟩

theorem pure (value : α) {answers : α → Prop} (answered : answers value) :
    Resolves known (Pure.pure value) [] known answers :=
  silent fun scope _ count _ label knows => ⟨value, scope, count, label, rfl, knows, answered⟩

/-- What fails at once makes no access. -/
theorem refused {action : Generate α} {answers : α → Prop} (fails : ∀ state, ∃ cause, action state = .error cause state) :
    Resolves known action wanted later answers := by
  intro scope outer count frame rest label knows
  obtain ⟨cause, failed⟩ := fails ⟨scope :: outer, count, frame :: rest, label⟩
  rw [failed]
  exact ⟨[], [], List.nil_prefix, (List.append_nil _).symm, .nil⟩

end Resolves

section

variable {known : List String}

private theorem emit_resolves {instr : Instr} {wanted : List (Opcode × Access)}
    (resolved : List.Forall₂ Resolved wanted instr.accessed) : Resolves known (emit instr) wanted known fun _ => True := by
  intro scope outer count frame rest label knows
  refine ⟨trivial, scope, count, [instr], label, rfl, knows, ?_⟩
  rw [accessed, accessed, List.append_nil]
  exact resolved

theorem emit_quiet {instr : Instr} (quiet : instr.accessed = []) : Resolves known (emit instr) [] known fun _ => True :=
  emit_resolves (quiet ▸ .nil)

theorem load_resolves {access : Access} {slot : Tree} (resolved : access.Resolved slot) :
    Resolves known (emitOp .loadFast slot) [(.loadFast, access)] known fun _ => True :=
  emit_resolves (.cons ⟨rfl, resolved⟩ .nil)

theorem store_resolves {access : Access} {slot : Tree} (resolved : access.Resolved slot) :
    Resolves known (emitOp .storeFast slot) [(.storeFast, access)] known fun _ => True :=
  emit_resolves (.cons ⟨rfl, resolved⟩ .nil)

theorem freshLabel_resolves : Resolves known freshLabel [] known fun _ => True :=
  Resolves.silent fun scope _ count _ label knows => ⟨label, scope, count, label + 1, rfl, knows, trivial⟩

theorem lookup_resolves (name : Tree) :
    Resolves known (lookup name) [] known fun slot => (Access.reference name known).Resolved slot := by
  apply Resolves.silent
  intro scope outer count frames label knows
  unfold lookup
  rw [get_bind]
  cases found : scope.slots? name with
  | none =>
    simp only [found]
    exact ⟨.absent, scope, count, label, rfl, knows, iff_of_true rfl ((knows.unknown name).mp found), absurd rfl⟩
  | some held =>
    cases held with
    | nil => exact absurd found (knows.rooted.slots?_ne_nil name)
    | cons slot older =>
      simp only [found]
      have named := knows.slots name _ found slot List.mem_cons_self
      have declared : ¬ ∀ word ∈ known, name ≠ .text word := by
        rw [← knows.unknown name, found]
        exact nofun
      exact ⟨slot, scope, count, label, rfl, knows, iff_of_false named.ne_absent declared, fun _ => named⟩

theorem declare_resolves {word : String} (undigited : Undigited word) :
    Resolves known (declare (.text word)) [] (known ++ [word]) fun slot => (Tree.text word).SlotOf slot := by
  apply Resolves.silent
  intro scope outer count frames label knows
  unfold declare
  rw [get_bind]
  by_cases again : (scope.slots? (.text word)).isSome = true
  · simp only [again, if_true, Tree.numbered?]
    exact ⟨_, _, count + 1, label, rfl, knows.push again (count + 1), word, rfl, .inr ⟨count + 1, rfl⟩⟩
  · simp only [again]
    exact ⟨_, _, count, label, rfl, knows.insert undigited (by simpa using again), word, rfl, .inl rfl⟩

theorem leaveLet_resolves : Resolves known leaveLet [] known fun _ => True := by
  apply Resolves.silent
  intro scope outer count frames label knows
  obtain ⟨released, done, knowsStill⟩ := knows.release count
  unfold leaveLet
  rw [get_bind]
  simp only [done]
  exact ⟨(), released, count - 1, label, rfl, knowsStill, trivial⟩

end

private theorem declareAll_resolves {words : List String} (undigited : ∀ word ∈ words, Undigited word) (known : List String) :
    Resolves known ((words.map Tree.text).forM fun name => discard (declare name)) [] (known ++ words) fun _ => True := by
  induction words generalizing known with
  | nil => exact (Resolves.pure _ trivial).congr rfl (List.append_nil _).symm
  | cons word rest ih =>
    obtain ⟨first, others⟩ := List.forall_mem_cons.mp undigited
    have declared : Resolves known (discard (declare (.text word))) [] (known ++ [word]) fun _ => True :=
      (declare_resolves first).bind fun _ _ => Resolves.pure _ trivial
    exact (declared.bind fun _ _ => ih others _).congr rfl (List.append_cons _ _ _).symm

/-- The body of a function starts with nothing but the parameters, and what it makes known is forgotten after it. -/
private theorem function_resolves {name list : Tree} {words known later : List String} {body : Generate Unit}
    {wanted : List (Opcode × Access)} (names : parameterNames list = pure (words.map Tree.text))
    (undigited : ∀ word ∈ words, Undigited word) (resolves : Resolves words body wanted later fun _ => True) :
    Resolves known (functionCode name list body) (wanted ++ [(.storeFast, .function name)]) known fun _ => True := by
  have inside : Resolves [] (functionInside (words.map Tree.text) body) wanted later fun _ => True :=
    (declareAll_resolves undigited []).bind fun _ _ => resolves
  intro scope outer count frame rest label knows
  have opened := inside (scope :: outer) count [] (frame :: rest) label Scope.Knows.nothing
  rw [functionCode_eq names]
  cases ran : functionInside (words.map Tree.text) body ⟨[] :: scope :: outer, count, [] :: frame :: rest, label⟩ with
  | error cause final =>
    rw [ran] at opened
    obtain ⟨done, added, started, frames, resolved⟩ := opened
    rw [bind_error ran]
    refine ⟨done, added, started.trans (List.prefix_append _ _), ?_, resolved⟩
    rw [frames, accessedIn_cons, accessed, List.append_nil]
  | ok value final =>
    rw [ran] at opened
    obtain ⟨_, made, total, emitted, next, rfl, _, resolved⟩ := opened
    rw [bind_ok ran]
    refine ⟨trivial, scope, total, [.routine (words.map Tree.text) emitted, .op .makeFunction (.number 0),
      .op .storeFast name], next, by simp, knows, ?_⟩
    have stored : Resolved (.storeFast, .function name) (.storeFast, name) := ⟨rfl, rfl⟩
    simpa [accessed, Instr.accessed] using List.rel_append resolved (.cons stored .nil)

section

variable {list : Tree} {name : String} {known : List String}

private theorem print_resolves (sole : Resolves known (soleArgument list) (list.accesses known) known fun _ => True) :
    Resolves known (callCode (.text "putint") (soleArgument list) (argumentTarget list) (arguments list))
      ((Tree.call (.text "putint") list).accesses known) known fun _ => True := by
  unfold callCode
  rw [if_pos rfl]
  refine (sole.bind fun _ _ => (emit_quiet rfl).bind fun _ _ => emit_quiet rfl).congr ?_ rfl
  simp [Tree.accesses]

private theorem read_resolves (given : Shaped .arguments list)
    (sole : Resolves known (soleArgument list) (list.accesses known) known fun _ => True) :
    Resolves known (callCode (.text "getint") (soleArgument list) (argumentTarget list) (arguments list))
      ((Tree.call (.text "getint") list).accesses known) known fun _ => True := by
  unfold callCode
  rw [if_neg (by decide), if_pos rfl]
  cases given with
  | argument valued =>
    cases valued with
    | reference target =>
      exact sole.bind fun _ _ => (lookup_resolves (.text target)).bind fun _ found => (emit_quiet rfl).bind fun _ _ =>
        (emit_quiet rfl).bind fun _ _ => store_resolves found
    | _ =>
      refine Resolves.congr (sole.bind fun _ _ => @Resolves.refused _ known known [] _ _ ?_) rfl rfl
      exact fun state => ⟨_, rfl⟩
  | arguments before later => exact Resolves.refused fun state => ⟨_, rfl⟩

private theorem call_resolves (given : Shaped .arguments list)
    (all : Resolves known (arguments list) (list.accesses known) known fun _ => True)
    (sole : Resolves known (soleArgument list) (list.accesses known) known fun _ => True) :
    Resolves known (callCode (.text name) (soleArgument list) (argumentTarget list) (arguments list))
      ((Tree.call (.text name) list).accesses known) known fun _ => True := by
  by_cases prints : name = "putint"
  · rw [prints]
    exact print_resolves sole
  · by_cases reads : name = "getint"
    · rw [reads]
      exact read_resolves given sole
    · have notPrint : Tree.text name ≠ .text "putint" := by simp [prints]
      have notRead : Tree.text name ≠ .text "getint" := by simp [reads]
      unfold callCode
      rw [if_neg notPrint, if_neg notRead, Tree.accesses, if_neg notPrint, if_neg notRead]
      have loaded : (Access.function (.text name)).Resolved (.text name) := rfl
      refine ((load_resolves loaded).bind fun _ _ => all.bind fun _ _ => emit_quiet rfl).congr ?_ rfl
      simp

end

def Accounted : Role → Tree → Prop
  | .command, tree => ∀ known, Resolves known (command tree) (tree.accesses known) (known ++ tree.declaredNames) fun _ => True
  | .declaration, tree =>
    ∀ known, Resolves known (declaration tree) (tree.accesses known) (known ++ tree.declaredNames) fun _ => True
  | .expression, tree => ∀ known, Resolves known (expression tree) (tree.accesses known) known fun _ => True
  | .arguments, tree => ∀ known, Resolves known (arguments tree) (tree.accesses known) known (fun _ => True) ∧
      Resolves known (soleArgument tree) (tree.accesses known) known fun _ => True
  | .parameters, _ => True

private theorem operator_quiet {operator : Tree} {instr : Instr} (found : operatorInstr? operator = some instr) :
    instr.accessed = [] := by
  unfold operatorInstr? at found
  split at found <;> cases found <;> rfl

theorem accounted_of_shaped {role : Role} {tree : Tree} (shaped : Shaped role tree) (named : tree.NamesUndigited) :
    Accounted role tree := by
  induction shaped with
  | assign target valued ih =>
    have value := ih (named.child (by simp [Tree.children]))
    intro known
    exact ((lookup_resolves (.atom target)).bind fun _ found => (value known).bind fun _ _ => store_resolves found).congr rfl
      (List.append_nil _).symm
  | callCommand name given ih =>
    intro known
    obtain ⟨all, sole⟩ := ih (named.child (by simp [Tree.children])) known
    exact (call_resolves given all sole).congr rfl (List.append_nil _).symm
  | sequence before later firstIH secondIH =>
    have first := firstIH (named.child (by simp [Tree.children]))
    have second := secondIH (named.child (by simp [Tree.children]))
    intro known
    exact ((first known).bind fun _ _ => second _).congr rfl (List.append_assoc _ _ _)
  | conditional tested taken otherwise testIH yesIH noIH =>
    have test := testIH (named.child (by simp [Tree.children]))
    have yes := yesIH (named.child (by simp [Tree.children]))
    have no := noIH (named.child (by simp [Tree.children]))
    intro known
    refine Resolves.congr (freshLabel_resolves.bind fun _ _ => freshLabel_resolves.bind fun _ _ => (test known).bind fun _ _ =>
      (emit_quiet rfl).bind fun _ _ => (yes known).bind fun _ _ => (emit_quiet rfl).bind fun _ _ =>
      (emit_quiet rfl).bind fun _ _ => (no _).bind fun _ _ => emit_quiet rfl) ?_ (List.append_assoc _ _ _)
    simp [Tree.accesses]
  | loop tested repeated testIH bodyIH =>
    have test := testIH (named.child (by simp [Tree.children]))
    have body := bodyIH (named.child (by simp [Tree.children]))
    intro known
    refine Resolves.congr (freshLabel_resolves.bind fun _ _ => freshLabel_resolves.bind fun _ _ =>
      (emit_quiet rfl).bind fun _ _ => (test known).bind fun _ _ => (emit_quiet rfl).bind fun _ _ =>
      (body known).bind fun _ _ => (emit_quiet rfl).bind fun _ _ => emit_quiet rfl) ?_ rfl
    simp [Tree.accesses]
  | scope declares inner declaredIH bodyIH =>
    have declared := declaredIH (named.child (by simp [Tree.children]))
    have body := bodyIH (named.child (by simp [Tree.children]))
    intro known
    refine Resolves.congr ((declared known).bind fun _ _ => (body _).bind fun _ _ => leaveLet_resolves) ?_
      (List.append_assoc _ _ _)
    simp [Tree.accesses]
  | returns valued ih =>
    have value := ih (named.child (by simp [Tree.children]))
    intro known
    exact Resolves.congr ((value known).bind fun _ _ => emit_quiet rfl) (List.append_nil _) (List.append_nil _).symm
  | nothing =>
    intro known
    exact (Resolves.pure () trivial).congr rfl (List.append_nil _).symm
  | var name type =>
    intro known
    exact (declare_resolves (named.own List.mem_cons_self)).bind fun _ slot => (emit_quiet rfl).bind fun _ _ =>
      store_resolves slot
  | const name valued ih =>
    have value := ih (named.child (by simp [Tree.children]))
    intro known
    exact (declare_resolves (named.own List.mem_cons_self)).bind fun _ slot => (value _).bind fun _ _ => store_resolves slot
  | function name type listed inner _ bodyIH =>
    have body := bodyIH (named.child (by simp [Tree.children]))
    have names := listed.parameterNames_eq
    rw [listed.parameterList_eq (.text name) (.typeName (.atom type)) _] at names
    intro known
    exact (function_resolves names (fun _ own => named.own own) (body _)).congr rfl (List.append_nil _).symm
  | declarations before later firstIH secondIH =>
    have first := firstIH (named.child (by simp [Tree.children]))
    have second := secondIH (named.child (by simp [Tree.children]))
    intro known
    exact ((first known).bind fun _ _ => second _).congr rfl (List.append_assoc _ _ _)
  | parameter name type => trivial
  | parameters before later => trivial
  | argument valued ih =>
    have value := ih (named.child (by simp [Tree.children]))
    intro known
    exact ⟨Resolves.congr ((value known).bind fun _ _ => Resolves.pure _ trivial) (List.append_nil _) rfl, value known⟩
  | arguments before later firstIH secondIH =>
    have first := firstIH (named.child (by simp [Tree.children]))
    have second := secondIH (named.child (by simp [Tree.children]))
    intro known
    refine ⟨Resolves.congr ((first known).1.bind fun _ _ => (second known).1.bind fun _ _ => Resolves.pure _ trivial) ?_ rfl,
      Resolves.refused fun state => ⟨_, rfl⟩⟩
    simp [Tree.accesses]
  | integer value => exact fun known => emit_quiet rfl
  | reference name => exact fun known => (lookup_resolves _).bind fun _ found => load_resolves found
  | unary operator inner ih =>
    have operand := ih (named.child (by simp [Tree.children]))
    intro known
    unfold expression
    split
    · refine Resolves.congr ((operand known).bind fun _ _ => @Resolves.refused _ known known [] _ _ ?_) (List.append_nil _) rfl
      exact fun state => ⟨_, rfl⟩
    · split
      · exact operand known
      · exact Resolves.refused fun state => ⟨_, rfl⟩
  | binary operator first second firstIH secondIH =>
    have left := firstIH (named.child (by simp [Tree.children]))
    have right := secondIH (named.child (by simp [Tree.children]))
    intro known
    refine Resolves.congr ((left known).bind fun _ _ => (right known).bind fun _ _ =>
      (?_ : Resolves known _ [] known fun _ => True)) (by simp [Tree.accesses]) rfl
    split
    · next instr found => exact emit_quiet (operator_quiet found)
    · exact Resolves.pure _ trivial
  | call name given ih =>
    intro known
    obtain ⟨all, sole⟩ := ih (named.child (by simp [Tree.children])) known
    exact call_resolves given all sole

end Generate

/-- In a program read from a text, in which no variable, constant or parameter ends with a digit, every reference is
resolved: it has no slot exactly if its name was not declared before it in the same function, and otherwise it has the
name itself or the name with a number after it. This holds of the accesses that are made before a failure, too. -/
theorem references_resolved {text : String} {command : Tree} (read : readProgram? text = some (.program command))
    (named : command.NamesUndigited) :
    (∀ code final, Generate.program (.program command) .empty = .ok code final →
      List.Forall₂ Resolved (command.accesses []) (accessed code)) ∧
    ∀ cause final, Generate.program (.program command) .empty = .error cause final →
      ∃ done, done <+: command.accesses [] ∧ List.Forall₂ Resolved done (accessedIn final.frames) := by
  have shaped := shaped_of_read read
  have accounted := Generate.accounted_of_shaped shaped named [] [] 0 [] [] 0 Scope.Knows.nothing
  cases shaped with
  | @scope declared body declares inner =>
    obtain ⟨ending, entered⟩ : ∃ ending, Generate.program (.program (.letIn declared body)) .empty =
        (Generate.command (.letIn declared body) >>= ending) ⟨[[]], 0, [[]], 0⟩ := ⟨_, rfl⟩
    cases ran : Generate.command (.letIn declared body) ⟨[[]], 0, [[]], 0⟩ with
    | error cause last =>
      rw [ran] at accounted
      rw [entered, bind_error ran]
      refine ⟨nofun, ?_⟩
      rintro _ _ ⟨⟩
      obtain ⟨done, added, started, frames, resolved⟩ := accounted
      exact ⟨done, started, frames ▸ resolved⟩
    | ok value last =>
      rw [ran] at accounted
      obtain ⟨_, made, count, emitted, label, rfl, _, resolved⟩ := accounted
      have ended : Generate.program (.program (.letIn declared body)) .empty =
          .ok (emitted ++ [.op .loadConst .absent] ++ [.op .returnValue .absent]) ⟨[], count, [], label⟩ := bind_ok ran
      rw [ended]
      refine ⟨?_, nofun⟩
      rintro _ _ ⟨⟩
      simpa [accessed_append, accessed, Instr.accessed] using resolved
  | _ =>
    -- Only a `let` is a program; for any other command nothing is emitted.
    refine ⟨nofun, ?_⟩
    rintro _ _ ⟨⟩
    exact ⟨[], List.nil_prefix, .nil⟩

/-- Refers to a constant in its own value and in a function, and to a variable after its `let` is left. -/
def referring : String :=
  "let const c ~ c; func f(x: Integer): Integer return c; in begin let var y: Integer; in x := y; getint(y); " ++
    "let var y: Integer; in y := f(y); end"

def referringCommand : Tree :=
  .letIn (.declarations (.constDecl (.text "c") (.reference (.name (.text "c"))))
      (.declarations (.funcDecl (.text "f") (.parameter (.text "x") (.typeName (.text "Integer"))) (.typeName (.text "Integer"))
        (.returns (.reference (.name (.text "c"))))) .absent))
    (.sequence (.letIn (.declarations (.varDecl (.text "y") (.typeName (.text "Integer"))) .absent)
        (.assign (.name (.text "x")) (.reference (.name (.text "y")))))
      (.sequence (.call (.text "getint") (.parameter (.reference (.name (.text "y"))) .absent))
        (.letIn (.declarations (.varDecl (.text "y") (.typeName (.text "Integer"))) .absent)
          (.assign (.name (.text "y")) (.call (.text "f") (.parameter (.reference (.name (.text "y"))) .absent))))))

def referringAccesses : List (Opcode × Tree) :=
  [(.loadFast, .text "c"), (.storeFast, .text "c"), (.loadFast, .absent), (.storeFast, .text "f"), (.storeFast, .text "y"),
    (.loadFast, .text "y"), (.storeFast, .absent), (.loadFast, .text "y"), (.storeFast, .text "y"), (.storeFast, .text "y0"),
    (.loadFast, .text "f"), (.loadFast, .text "y0"), (.storeFast, .text "y0")]

/-- The constant has no slot in the function, nor has the parameter outside, while the variable keeps its own. -/
theorem referring_resolved :
    (compileTree (.program referringCommand)).toOption.map (fun result => accessed result.1.body) = some referringAccesses ∧
      List.Forall₂ Resolved (referringCommand.accesses []) referringAccesses := by
  have read : readProgram? referring = some (.program referringCommand) := by decide +kernel
  have named : referringCommand.NamesUndigited := by decide +kernel
  have made : (compileTree (.program referringCommand)).toOption.map (fun result => accessed result.1.body) =
      some referringAccesses := by decide +kernel
  refine ⟨made, ?_⟩
  cases answer : compileTree (.program referringCommand) with
  | error cause =>
    rw [answer] at made
    nomatch made
  | ok result =>
    rw [answer] at made
    rw [← Option.some.inj made]
    exact (references_resolved read named).1 _ _ (compileTree_eq_ok.mp answer).2

end MiniTriangle
