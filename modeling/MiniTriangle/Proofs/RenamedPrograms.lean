import MiniTriangle.Proofs.ParsedWords
import MiniTriangle.Proofs.Renaming

/-! Programs with their identifiers renamed. A renaming that keeps identifiers apart, leaves the built-in functions alone
and ends no identifier with a digit changes nothing but names: the renamed program compiles if the program does, to the
same code with the slots and the parameters renamed, and otherwise it fails in the same way. -/

namespace MiniTriangle

open Alphabet Sequencing

def Tree.words : Tree → List String
  | .text word => [word]
  | _ => []

def Tree.ownIdentifiers : Tree → List String
  | .name identifier | .call identifier _ | .varDecl identifier _ | .constDecl identifier _ | .funcDecl identifier _ _ _
  | .parameter identifier _ => identifier.words
  | _ => []

def Tree.identifiers (tree : Tree) : List String := tree.nodes.flatMap ownIdentifiers

theorem Tree.identifiers_eq (tree : Tree) : tree.identifiers = tree.ownIdentifiers ++ tree.children.flatMap identifiers := by
  unfold identifiers
  rw [nodes_eq, List.flatMap_cons, List.flatMap_assoc]

/-- A way to rename the given identifiers. An operator that is assigned to is no identifier of the language, and may be
renamed to anything apart from the others. -/
structure Renaming (rename : String → String) (identifiers : List String) : Prop where
  injective : Set.InjOn rename {word | word = "putint" ∨ word = "getint" ∨ word ∈ identifiers}
  print : rename "putint" = "putint"
  read : rename "getint" = "getint"
  spelled : ∀ word ∈ identifiers, Alphanumeric word → Alphanumeric (rename word) ∧ Undigited (rename word)

theorem Alphanumeric.unnumbered {word : String} (spelled : Alphanumeric word) (undigited : Undigited word) :
    Unnumbered word := by
  intro c last
  refine ⟨undigited c last, ?_⟩
  rintro rfl
  exact absurd (spelled _ (List.mem_of_getLast? last)) (by decide +kernel)

/-- The identifiers of the tree are among the given ones, and what it declares is alphanumeric. -/
structure Tree.Within (identifiers : List String) (tree : Tree) : Prop where
  used : ∀ word ∈ tree.identifiers, word ∈ identifiers
  named : tree.NamesAlphanumeric

theorem Tree.Within.child {identifiers : List String} {tree child : Tree} (within : tree.Within identifiers)
    (part : child ∈ tree.children) : child.Within identifiers := by
  refine ⟨fun word member => within.used word ?_, within.named.child part⟩
  rw [identifiers_eq]
  exact List.mem_append_right _ (List.mem_flatMap.mpr ⟨child, part, member⟩)

theorem Tree.Within.own {identifiers : List String} {tree : Tree} {word : String} (within : tree.Within identifiers)
    (own : word ∈ tree.ownIdentifiers) : word ∈ identifiers := by
  apply within.used
  rw [identifiers_eq]
  exact List.mem_append_left _ own

/-- The calls of a built-in function stay calls of it, and no others become such calls. -/
theorem Renaming.builtIn_iff {rename : String → String} {identifiers : List String} (valid : Renaming rename identifiers)
    {word : String} (used : word ∈ identifiers) :
    (rename word = "putint" ↔ word = "putint") ∧ (rename word = "getint" ↔ word = "getint") := by
  have printing := valid.injective.eq_iff (.inr (.inr used)) (.inl rfl)
  have reading := valid.injective.eq_iff (.inr (.inr used)) (.inr (.inl rfl))
  rw [valid.print] at printing
  rw [valid.read] at reading
  exact ⟨printing, reading⟩

namespace Generate

variable {rename : String → String} {identifiers : List String}

def TargetRenamed (rename : String → String) (identifiers : List String) (left right : Tree) : Prop :=
  ∃ value, left = .atom value ∧ right = (Tree.atom value).renamed rename ∧ ∀ word, value = .text word → word ∈ identifiers

theorem callCode_mirrors (valid : Renaming rename identifiers) {name : String} (used : name ∈ identifiers)
    {argument otherArgument : Generate Unit} {target otherTarget : Generate Tree} {arguments otherArguments : Generate Nat}
    (sole : Mirrors rename identifiers argument otherArgument Both)
    (stored : Mirrors rename identifiers target otherTarget (TargetRenamed rename identifiers))
    (all : Mirrors rename identifiers arguments otherArguments Eq) :
    Mirrors rename identifiers (callCode (.text name) argument target arguments)
      (callCode (.text (rename name)) otherArgument otherTarget otherArguments) Both := by
  obtain ⟨printing, reading⟩ := valid.builtIn_iff used
  have injective : Set.InjOn rename {name | name ∈ identifiers} := valid.injective.mono fun _ member => .inr (.inr member)
  unfold callCode
  simp only [Tree.atom.injEq, Atom.text.injEq, printing, reading]
  split
  · exact sole.bind fun _ _ _ => (emitOp_mirrors _ (by decide)).bind fun _ _ _ => emitOp_mirrors _ (by decide)
  · split
    · refine sole.bind fun _ _ _ => stored.bind ?_
      rintro _ _ ⟨value, rfl, rfl, known⟩
      exact (lookup_mirrors injective known).bind fun _ _ slot => (emitOp_mirrors _ (by decide)).bind fun _ _ _ =>
        (emitOp_mirrors _ (by decide)).bind fun _ _ _ => emit_mirrors (.store slot)
    · refine (emit_mirrors (.load (.slot used .plain))).bind fun _ _ _ => all.bind ?_
      rintro count _ rfl
      exact emitOp_mirrors _ (by decide)

theorem declareAll_mirrors (injective : Set.InjOn rename {name | name ∈ identifiers}) {words : List String}
    (sound : ∀ word ∈ words, word ∈ identifiers ∧ Unnumbered word ∧ Unnumbered (rename word)) :
    Mirrors rename identifiers ((words.map Tree.text).forM fun name => discard (declare name))
      (((words.map Tree.text).map (Tree.renamed rename)).forM fun name => discard (declare name)) Both := by
  induction words with
  | nil => exact Mirrors.pure trivial
  | cons word rest ih =>
    obtain ⟨⟨used, first, second⟩, others⟩ := List.forall_mem_cons.mp sound
    have declared : Mirrors rename identifiers (discard (declare (.text word))) (discard (declare (.text (rename word)))) Both :=
      (declare_mirrors injective used first second).bind fun _ _ _ => Mirrors.pure trivial
    exact declared.bind fun _ _ _ => ih others

theorem functionCode_mirrors (injective : Set.InjOn rename {name | name ∈ identifiers}) {name : String}
    (used : name ∈ identifiers) {list otherList : Tree} {words : List String} {body otherBody : Generate Unit}
    (names : parameterNames list = pure (words.map Tree.text))
    (otherNames : parameterNames otherList = pure ((words.map Tree.text).map (Tree.renamed rename)))
    (sound : ∀ word ∈ words, word ∈ identifiers ∧ Unnumbered word ∧ Unnumbered (rename word))
    (mirrors : Mirrors rename identifiers body otherBody Both) :
    Mirrors rename identifiers (functionCode (.text name) list body) (functionCode (.text (rename name)) otherList otherBody)
      Both := by
  unfold functionCode
  rw [names, otherNames]
  exact openFrame_mirrors.bind fun _ _ _ => openScope_mirrors.bind fun _ _ _ =>
    (declareAll_mirrors injective sound).bind fun _ _ _ => mirrors.bind fun _ _ _ =>
    closeFrame_mirrors.bind fun _ _ code => closeScope_mirrors.bind fun _ _ _ =>
    (emit_mirrors (.routine _ code)).bind fun _ _ _ => (emitOp_mirrors _ (by decide)).bind fun _ _ _ =>
    emit_mirrors (.store (.slot used .plain))

section

variable {value list : Tree}

/-- Only declared parameters are identifiers themselves. -/
private theorem expression_unnamed (valued : Shaped .expression value) :
    (value.respell rename).renamed rename = value.respell rename := by
  cases valued <;> rfl

private theorem parameters_respell (listed : Shaped .parameters list) :
    Shaped .parameters (list.respell rename) ∧
      (list.respell rename).parameterList = list.parameterList.map (Tree.renamed rename) := by
  generalize role : Role.parameters = listing at listed
  induction listed with
  | parameter name type => exact ⟨.parameter (rename name) type, rfl⟩
  | parameters _ _ firstIH secondIH =>
    obtain ⟨first, firstNames⟩ := firstIH role
    obtain ⟨second, secondNames⟩ := secondIH role
    refine ⟨.parameters first second, ?_⟩
    rw [Tree.respell, Tree.parameterList, Tree.parameterList, List.map_append, firstNames, secondNames]
  | _ => cases role

private theorem parameters_within (listed : Shaped .parameters list) (within : list.Within identifiers) :
    ∀ word, Tree.text word ∈ list.parameterList → word ∈ identifiers := by
  generalize role : Role.parameters = listing at listed
  induction listed with
  | parameter name type =>
    intro word member
    cases List.mem_singleton.mp member
    exact within.own List.mem_cons_self
  | parameters _ _ firstIH secondIH =>
    intro word member
    rcases List.mem_append.mp member with before | later
    · exact firstIH (within.child (by simp [Tree.children])) role word before
    · exact secondIH (within.child (by simp [Tree.children])) role word later
  | _ => cases role

private theorem operator_renamed {operator : Tree} {instr : Instr} (found : operatorInstr? operator = some instr) :
    instr.Renamed rename identifiers instr := by
  unfold operatorInstr? at found
  split at found <;> cases found <;> exact .op _ (by decide)

private theorem argumentTarget_mirrors (given : Shaped .arguments list) (within : list.Within identifiers) :
    Mirrors rename identifiers (argumentTarget list) (argumentTarget (list.respell rename))
      (TargetRenamed rename identifiers) := by
  cases given with
  | argument valued =>
    rw [Tree.respell, expression_unnamed valued]
    cases valued with
    | reference name =>
      refine Mirrors.pure ⟨.text name, rfl, rfl, ?_⟩
      rintro _ ⟨⟩
      exact within.used name (by simp [Tree.identifiers, Tree.nodes, Tree.ownIdentifiers, Tree.words])
    | integer value => exact Mirrors.throw (.missing (.integer (.atom value)) .target)
    | unary operator inner => exact Mirrors.throw (.missing (.unary (.text operator) _) .target)
    | binary operator first second => exact Mirrors.throw (.missing (.binary _ (.text operator) _) .target)
    | call name given => exact Mirrors.throw (.missing (.call (.text name) _) .target)
  | arguments before later => exact Mirrors.throw (.missing (.parameters _ _) .argument)

end

def Mirrored (rename : String → String) (identifiers : List String) : Role → Tree → Prop
  | .command, tree => Mirrors rename identifiers (command tree) (command (tree.respell rename)) Both
  | .declaration, tree => Mirrors rename identifiers (declaration tree) (declaration (tree.respell rename)) Both
  | .expression, tree => Mirrors rename identifiers (expression tree) (expression (tree.respell rename)) Both
  | .arguments, tree => Mirrors rename identifiers (arguments tree) (arguments (tree.respell rename)) Eq ∧
      Mirrors rename identifiers (soleArgument tree) (soleArgument (tree.respell rename)) Both
  | .parameters, _ => True

theorem mirrored_of_shaped (valid : Renaming rename identifiers) (undigited : ∀ word ∈ identifiers, Undigited word)
    {role : Role} {tree : Tree} (shaped : Shaped role tree) (within : tree.Within identifiers) :
    Mirrored rename identifiers role tree := by
  have injective : Set.InjOn rename {name | name ∈ identifiers} := valid.injective.mono fun _ member => .inr (.inr member)
  -- A declared word is not taken for the start of a number, in either spelling.
  have sound {word : String} (member : word ∈ identifiers) (alphanumeric : Alphanumeric word) :
      Unnumbered word ∧ Unnumbered (rename word) := by
    obtain ⟨spelled, ended⟩ := valid.spelled word member alphanumeric
    exact ⟨alphanumeric.unnumbered (undigited word member), spelled.unnumbered ended⟩
  induction shaped with
  | assign target valued ih =>
    have value := ih (within.child (by simp [Tree.children]))
    have known (word : String) (isText : target = .text word) : word ∈ identifiers :=
      within.used word (by simp [Tree.identifiers, Tree.nodes, Tree.ownIdentifiers, Tree.words, isText])
    exact (lookup_mirrors injective known).bind fun _ _ slot => value.bind fun _ _ _ => emit_mirrors (.store slot)
  | callCommand name given ih =>
    have inList := within.child (List.mem_cons_of_mem _ List.mem_cons_self)
    obtain ⟨all, sole⟩ := ih inList
    exact callCode_mirrors valid (within.own List.mem_cons_self) sole (argumentTarget_mirrors given inList) all
  | sequence before later firstIH secondIH =>
    have first := firstIH (within.child (by simp [Tree.children]))
    have second := secondIH (within.child (by simp [Tree.children]))
    exact first.bind fun _ _ _ => second
  | conditional tested taken otherwise testIH yesIH noIH =>
    have test := testIH (within.child (by simp [Tree.children]))
    have yes := yesIH (within.child (by simp [Tree.children]))
    have no := noIH (within.child (by simp [Tree.children]))
    refine freshLabel_mirrors.bind ?_
    rintro _ _ rfl
    refine freshLabel_mirrors.bind ?_
    rintro _ _ rfl
    exact test.bind fun _ _ _ => (emit_mirrors (.jump _ _)).bind fun _ _ _ => yes.bind fun _ _ _ =>
      (emit_mirrors (.jump _ _)).bind fun _ _ _ => (emit_mirrors (.place _)).bind fun _ _ _ => no.bind fun _ _ _ =>
      emit_mirrors (.place _)
  | loop tested repeated testIH bodyIH =>
    have test := testIH (within.child (by simp [Tree.children]))
    have body := bodyIH (within.child (by simp [Tree.children]))
    refine freshLabel_mirrors.bind ?_
    rintro _ _ rfl
    refine freshLabel_mirrors.bind ?_
    rintro _ _ rfl
    exact (emit_mirrors (.place _)).bind fun _ _ _ => test.bind fun _ _ _ => (emit_mirrors (.jump _ _)).bind fun _ _ _ =>
      body.bind fun _ _ _ => (emit_mirrors (.jump _ _)).bind fun _ _ _ => emit_mirrors (.place _)
  | scope declares inner declaredIH bodyIH =>
    have declared := declaredIH (within.child (by simp [Tree.children]))
    have body := bodyIH (within.child (by simp [Tree.children]))
    exact declared.bind fun _ _ _ => body.bind fun _ _ _ => leaveLet_mirrors
  | returns valued ih =>
    have value := ih (within.child (by simp [Tree.children]))
    exact value.bind fun _ _ _ => emitOp_mirrors _ (by decide)
  | nothing => exact Mirrors.pure trivial
  | var name type =>
    have member : name ∈ identifiers := within.own List.mem_cons_self
    obtain ⟨first, second⟩ := sound member (within.named.own List.mem_cons_self)
    exact (declare_mirrors injective member first second).bind fun _ _ slot => (emitOp_mirrors _ (by decide)).bind fun _ _ _ =>
      emit_mirrors (.store (.slot member slot))
  | const name valued ih =>
    have value := ih (within.child (by simp [Tree.children]))
    have member : name ∈ identifiers := within.own List.mem_cons_self
    obtain ⟨first, second⟩ := sound member (within.named.own List.mem_cons_self)
    exact (declare_mirrors injective member first second).bind fun _ _ slot => value.bind fun _ _ _ =>
      emit_mirrors (.store (.slot member slot))
  | @function name list type body listed inner _ bodyIH =>
    have bodies := bodyIH (within.child (by simp [Tree.children]))
    obtain ⟨shaped, renamed⟩ := parameters_respell listed
    have listIs := listed.parameterList_eq (.text name) (.typeName (.atom type)) body
    have names := listed.parameterNames_eq
    have otherNames := shaped.parameterNames_eq
    rw [renamed, listIs] at otherNames
    rw [listIs] at names
    refine functionCode_mirrors injective (within.own List.mem_cons_self) names otherNames ?_ bodies
    intro word own
    have member : word ∈ identifiers := by
      refine parameters_within listed (within.child (by simp [Tree.children])) word ?_
      rw [listIs]
      exact List.mem_map_of_mem own
    exact ⟨member, sound member (within.named.own own)⟩
  | declarations before later firstIH secondIH =>
    have first := firstIH (within.child (by simp [Tree.children]))
    have second := secondIH (within.child (by simp [Tree.children]))
    exact first.bind fun _ _ _ => second
  | parameter name type => trivial
  | parameters before later => trivial
  | argument valued ih =>
    have value := ih (within.child (by simp [Tree.children]))
    rw [Mirrored, Tree.respell, expression_unnamed valued]
    exact ⟨value.bind fun _ _ _ => Mirrors.pure rfl, value⟩
  | arguments before later firstIH secondIH =>
    have first := (firstIH (within.child (by simp [Tree.children]))).1
    have second := (secondIH (within.child (by simp [Tree.children]))).1
    refine ⟨first.bind ?_, Mirrors.throw (.missing (.parameters _ _) .argument)⟩
    rintro count _ rfl
    refine second.bind ?_
    rintro more _ rfl
    exact Mirrors.pure rfl
  | integer value => exact emitOp_mirrors _ (by decide)
  | reference name =>
    have known (word : String) (isText : Atom.text name = .text word) : word ∈ identifiers := by
      cases isText
      exact within.used name (by simp [Tree.identifiers, Tree.nodes, Tree.ownIdentifiers, Tree.words])
    exact (lookup_mirrors injective known).bind fun _ _ slot => emit_mirrors (.load slot)
  | unary operator inner ih =>
    have inside := ih (within.child (by simp [Tree.children]))
    rw [Mirrored, Tree.respell, expression, expression]
    split
    · exact inside.bind fun _ _ _ => Mirrors.throw .negation
    · split
      · exact inside
      · exact Mirrors.throw (.unexpected (.unary _ _) .sign)
  | binary operator first second firstIH secondIH =>
    have left := firstIH (within.child (by simp [Tree.children]))
    have right := secondIH (within.child (by simp [Tree.children]))
    refine left.bind fun _ _ _ => right.bind fun _ _ _ => ?_
    split
    · next instr found => exact emit_mirrors (operator_renamed found)
    · exact Mirrors.pure trivial
  | call name given ih =>
    have inList := within.child (List.mem_cons_of_mem _ List.mem_cons_self)
    obtain ⟨all, sole⟩ := ih inList
    exact callCode_mirrors valid (within.own List.mem_cons_self) sole (argumentTarget_mirrors given inList) all

theorem program_mirrors (valid : Renaming rename identifiers) (undigited : ∀ word ∈ identifiers, Undigited word)
    {tree : Tree} (shaped : Shaped .command tree) (within : tree.Within identifiers) :
    Mirrors rename identifiers (program (.program tree)) (program (.program (tree.respell rename)))
      (List.Forall₂ (Instr.Renamed rename identifiers)) := by
  have mirrored := mirrored_of_shaped valid undigited shaped within
  cases shaped with
  | scope declares inner =>
    exact openFrame_mirrors.bind fun _ _ _ => openScope_mirrors.bind fun _ _ _ => Mirrors.bind mirrored fun _ _ _ =>
      (emitOp_mirrors _ (by decide)).bind fun _ _ _ => (emitOp_mirrors _ (by decide)).bind fun _ _ _ =>
      closeFrame_mirrors.bind fun _ _ code => closeScope_mirrors.bind fun _ _ _ => Mirrors.pure code
  | assign target valued => exact Mirrors.throw (.unexpected (.assign _ _) .letCommand)
  | callCommand name given => exact Mirrors.throw (.unexpected (.call (.text name) _) .letCommand)
  | sequence before later => exact Mirrors.throw (.unexpected (.sequence _ _) .letCommand)
  | conditional tested taken otherwise => exact Mirrors.throw (.unexpected (.ifElse _ _ _) .letCommand)
  | loop tested repeated => exact Mirrors.throw (.unexpected (.whileDo _ _) .letCommand)
  | returns valued => exact Mirrors.throw (.unexpected (.returns _) .letCommand)

end Generate

/-- Renaming the identifiers of a program read from a text, none of which ends with a digit, changes nothing but names. The
renamed program compiles if the program does, with the same count at the end, to the same code but for slots and
parameters, where a slot keeps the number after its name. If the program fails, the renamed one fails in the same way. -/
theorem renamed_generates_alike {text : String} {command : Tree} {rename : String → String}
    (read : readProgram? text = some (.program command)) (undigited : ∀ word ∈ command.identifiers, Undigited word)
    (valid : Renaming rename command.identifiers) :
    (∀ code final, Generate.program (.program command) .empty = .ok code final →
      ∃ other last, Generate.program (.program (command.respell rename)) .empty = .ok other last ∧
        List.Forall₂ (Instr.Renamed rename command.identifiers) code other ∧ last.scopeCount = final.scopeCount) ∧
    ∀ cause final, Generate.program (.program command) .empty = .error cause final →
      ∃ last, Generate.program (.program (command.respell rename)) .empty = .error (cause.respell rename) last ∧
        last.scopeCount = final.scopeCount := by
  have within : command.Within command.identifiers := ⟨fun _ member => member, namesAlphanumeric_of_read read⟩
  have fresh : State.empty.Renamed rename command.identifiers .empty := ⟨.nil, rfl, .nil, rfl⟩
  have alike := Generate.program_mirrors valid undigited (shaped_of_read read) within fresh
  generalize Generate.program (.program command) .empty = result at alike
  generalize Generate.program (.program (command.respell rename)) .empty = otherResult at alike
  cases alike with
  | ok codes states =>
    refine ⟨?_, nofun⟩
    rintro _ _ ⟨⟩
    exact ⟨_, _, rfl, codes, states.count.symm⟩
  | error cause states =>
    refine ⟨nofun, ?_⟩
    rintro _ _ ⟨⟩
    exact ⟨_, rfl, states.count.symm⟩

def nested : String :=
  "let var x: Integer; func f(x: Integer): Integer return x; in let var x: Integer; in begin getint(x); putint(f(x)); end"

def nestedCommand : Tree :=
  .letIn (.declarations (.varDecl (.text "x") (.typeName (.text "Integer")))
      (.declarations (.funcDecl (.text "f") (.parameter (.text "x") (.typeName (.text "Integer"))) (.typeName (.text "Integer"))
        (.returns (.reference (.name (.text "x"))))) .absent))
    (.letIn (.declarations (.varDecl (.text "x") (.typeName (.text "Integer"))) .absent)
      (.sequence (.call (.text "getint") (.parameter (.reference (.name (.text "x"))) .absent))
        (.call (.text "putint") (.parameter (.call (.text "f") (.parameter (.reference (.name (.text "x"))) .absent)) .absent))))

def exchanged : String → String
  | "x" => "f"
  | "f" => "total"
  | word => word

theorem nested_exchanged : ∃ code final other last,
    Generate.program (.program nestedCommand) .empty = .ok code final ∧
      Generate.program (.program (nestedCommand.respell exchanged)) .empty = .ok other last ∧
      List.Forall₂ (Instr.Renamed exchanged nestedCommand.identifiers) code other ∧ last.scopeCount = final.scopeCount := by
  have read : readProgram? nested = some (.program nestedCommand) := by decide +kernel
  have undigited : ∀ word ∈ nestedCommand.identifiers, Undigited word := by decide +kernel
  have apart : ∀ first ∈ "putint" :: "getint" :: nestedCommand.identifiers,
      ∀ second ∈ "putint" :: "getint" :: nestedCommand.identifiers, exchanged first = exchanged second → first = second := by
    decide +kernel
  have valid : Renaming exchanged nestedCommand.identifiers := by
    refine ⟨fun first among second amongToo => apart first ?_ second ?_, by decide, by decide, by decide +kernel⟩
    · simpa using among
    · simpa using amongToo
  have fine : (compileTree (.program nestedCommand)).isOk = true := by decide +kernel
  cases answer : compileTree (.program nestedCommand) with
  | error cause =>
    rw [answer] at fine
    cases fine
  | ok result =>
    have ran := (compileTree_eq_ok.mp answer).2
    obtain ⟨other, last, otherRan, codes, counts⟩ := (renamed_generates_alike read undigited valid).1 _ _ ran
    exact ⟨_, _, other, last, ran, otherRan, codes, counts⟩

end MiniTriangle
