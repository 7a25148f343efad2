import MiniTriangle.Proofs.ScopeLookup
import MiniTriangle.Proofs.SlotNaming
import MiniTriangle.Proofs.Translation

/-! Code generation succeeds and emits the code described for a program, provided that the scopes give every name
the slot of its innermost declaration. Whether they do is a matter of the names alone. -/

namespace MiniTriangle

open Sequencing

def Naming.slot? (naming : Naming) (name : Tree) : Option Tree :=
  naming.scopes.head?.bind fun scope => (scope.slots? name).bind List.head?

def Agrees (live : Live) (naming : Naming) : Prop :=
  ∀ name ∈ live.names, naming.slot? (.text name) = some (.text (live.slotOf name))

/-- A declaration gives its names slots apart from those in use. -/
inductive DeclaresSlots : Live → Naming → Tree → Live → Naming → Prop where
  | nothing (live : Live) (naming : Naming) : DeclaresSlots live naming .absent live naming
  | var {live : Live} {naming after : Naming} {name slot : String} {type : Tree}
      (declared : naming.declare? (.text name) = some (.text slot, after)) (fresh : slot ∉ live.slots) :
      DeclaresSlots live naming (.varDecl (.text name) type) ((name, slot) :: live) after
  | const {live : Live} {naming after : Naming} {name slot : String} {value : Tree} (agrees : Agrees live naming)
      (declared : naming.declare? (.text name) = some (.text slot, after)) (fresh : slot ∉ live.slots)
      (valued : Lexical.Expression (live.names.filter (· ≠ name)) value) :
      DeclaresSlots live naming (.constDecl (.text name) value) ((name, slot) :: live) after
  | sequence {live middle last : Live} {naming between after : Naming} {first second : Tree}
      (before : DeclaresSlots live naming first middle between) (later : DeclaresSlots middle between second last after) :
      DeclaresSlots live naming (.declarations first second) last after

/-- Wherever a command uses a name, the scopes agree with the names in scope. -/
inductive KeepsSlots : Live → Naming → Tree → Naming → Prop where
  | assign {live : Live} {naming : Naming} {name : String} {value : Tree} (agrees : Agrees live naming)
      (declared : name ∈ live.names) (valued : Lexical.Expression live.names value) :
      KeepsSlots live naming (.assign (.name (.text name)) value) naming
  | print {live : Live} {naming : Naming} {argument type : Tree} (agrees : Agrees live naming)
      (valued : Lexical.Expression live.names argument) :
      KeepsSlots live naming (.call (.text "putint") (.parameter argument type)) naming
  | sequence {live : Live} {naming between after : Naming} {first second : Tree}
      (before : KeepsSlots live naming first between) (later : KeepsSlots live between second after) :
      KeepsSlots live naming (.sequence first second) after
  | conditional {live : Live} {naming between after : Naming} {test yes no : Tree} (agrees : Agrees live naming)
      (tested : Lexical.Expression live.names test) (taken : KeepsSlots live naming yes between)
      (otherwise : KeepsSlots live between no after) : KeepsSlots live naming (.ifElse test yes no) after
  | loop {live : Live} {naming after : Naming} {test body : Tree} (agrees : Agrees live naming)
      (tested : Lexical.Expression live.names test) (repeated : KeepsSlots live naming body after) :
      KeepsSlots live naming (.whileDo test body) after
  | scope {live inner : Live} {naming between last after : Naming} {declared body : Tree}
      (declares : DeclaresSlots live naming declared inner between) (inside : KeepsSlots inner between body last)
      (left : last.leave? = some after) : KeepsSlots live naming (.letIn declared body) after
  | returns {live : Live} {naming : Naming} {value : Tree} (agrees : Agrees live naming)
      (valued : Lexical.Expression live.names value) : KeepsSlots live naming (.returns value) naming

theorem Naming.scopes_of_leave {naming after : Naming} (left : naming.leave? = some after) :
    ∃ scope outer, after.scopes = scope :: outer := by
  obtain ⟨scopes, count⟩ := naming
  cases scopes with
  | nil => cases left
  | cons scope outer =>
    simp only [Naming.leave?] at left
    cases released : scope.release (Text.decimal count) with
    | mk kept failure =>
      rw [released] at left
      cases failure with
      | some cause => cases left
      | none =>
        cases left
        exact ⟨kept, outer, rfl⟩

theorem Naming.slot?_declare {naming after : Naming} {name other slot : Tree}
    (declared : naming.declare? name = some (slot, after)) (apart : name.sameName other = false) :
    after.slot? other = naming.slot? other := by
  obtain ⟨scopes, count⟩ := naming
  cases scopes with
  | nil => cases declared
  | cons scope outer =>
    simp only [Naming.declare?] at declared
    by_cases known : (scope.slots? name).isSome = true
    · rw [if_pos known] at declared
      obtain ⟨numbered, _, made⟩ := Option.map_eq_some_iff.mp declared
      cases made
      simp [Naming.slot?, Scope.slots?_push, apart]
    · rw [if_neg known] at declared
      cases declared
      have unknown : scope.slots? name = none := Option.not_isSome_iff_eq_none.mp known
      simp [Naming.slot?, Scope.slots?_insert _ _ _ unknown, apart]

namespace Generate

/-- A state while code is generated: the names, the code so far and outside, and the next label. -/
def at_ (naming : Naming) (code : List Instr) (outer : List (List Instr)) (label : Nat) : State :=
  ⟨naming.scopes, naming.count, code :: outer, label⟩

variable {naming after : Naming} {code : List Instr} {outer : List (List Instr)} {label : Nat}

theorem emit_at (instr : Instr) :
    emit instr (at_ naming code outer label) = .ok () (at_ naming (code ++ [instr]) outer label) := rfl

theorem freshLabel_at : freshLabel (at_ naming code outer label) = .ok label (at_ naming code outer (label + 1)) := rfl

private theorem part_at (name : String) :
    part (.name (.text name)) .identifier (at_ naming code outer label) = .ok (.text name) (at_ naming code outer label) := rfl

theorem lookup_at {name slot : Tree} (found : naming.slot? name = some slot) :
    lookup name (at_ naming code outer label) = .ok slot (at_ naming code outer label) := by
  obtain ⟨scopes, count⟩ := naming
  cases scopes with
  | nil => cases found
  | cons scope rest =>
    have inScope : (scope.slots? name).bind List.head? = some slot := found
    obtain ⟨slots, known, first⟩ := Option.bind_eq_some_iff.mp inScope
    cases slots with
    | nil => cases first
    | cons newest older =>
      cases first
      unfold lookup
      rw [get_bind]
      simp only [at_, known]
      rfl

theorem declare_at {name slot : Tree} (declared : naming.declare? name = some (slot, after)) :
    declare name (at_ naming code outer label) = .ok slot (at_ after code outer label) := by
  obtain ⟨scopes, count⟩ := naming
  cases scopes with
  | nil => cases declared
  | cons scope rest =>
    unfold declare
    rw [get_bind]
    simp only [at_]
    simp only [Naming.declare?] at declared
    by_cases known : (scope.slots? name).isSome = true
    · rw [if_pos known] at declared ⊢
      obtain ⟨numbered, given, made⟩ := Option.map_eq_some_iff.mp declared
      cases made
      rw [set_bind]
      simp only [given]
      rfl
    · rw [if_neg known] at declared ⊢
      cases declared
      rfl

theorem leaveLet_at (left : naming.leave? = some after) :
    leaveLet (at_ naming code outer label) = .ok () (at_ after code outer label) := by
  obtain ⟨scopes, count⟩ := naming
  cases scopes with
  | nil => cases left
  | cons scope rest =>
    unfold leaveLet
    rw [get_bind]
    simp only [at_]
    simp only [Naming.leave?] at left
    cases released : scope.release (Text.decimal count) with
    | mk kept failure =>
      rw [released] at left
      cases failure with
      | some cause => cases left
      | none =>
        cases left
        rfl

theorem expression_at {live : Live} {names : List String} {tree : Tree}
    (agrees : ∀ name ∈ names, naming.slot? (.text name) = some (.text (live.slotOf name)))
    (valued : Lexical.Expression names tree) (code : List Instr) :
    expression tree (at_ naming code outer label) = .ok () (at_ naming (code ++ valueCode live tree) outer label) := by
  induction valued generalizing code with
  | integer amount => rfl
  | @reference name declared =>
    unfold expression
    rw [bind_ok (part_at name), bind_ok (lookup_at (agrees name declared))]
    rfl
  | plus _ ih => exact ih code
  | @binary left right operator listed _ _ leftIH rightIH =>
    unfold expression
    rw [bind_ok (leftIH code), bind_ok (rightIH _)]
    simp only [Lexical.operators, List.mem_cons, List.not_mem_nil, or_false] at listed
    simp only [valueCode, ← List.append_assoc]
    rcases listed with same | same | same | same | same | same | same | same <;> subst same <;> exact emit_at _

theorem declaration_at {live inner : Live} {tree : Tree} (declares : DeclaresSlots live naming tree inner after)
    (code : List Instr) :
    ∃ more, declaration tree (at_ naming code outer label) = .ok () (at_ after (code ++ more) outer label) ∧
      Declares live tree more inner := by
  induction declares generalizing code with
  | nothing live naming => exact ⟨[], by rw [List.append_nil]; rfl, .nothing live⟩
  | @var live naming after name slot type declared fresh =>
    refine ⟨_, ?_, .var fresh⟩
    unfold declaration
    rw [bind_ok (declare_at declared)]
    simp only [emitOp]
    rw [bind_ok (emit_at _), emit_at, List.append_assoc]
    rfl
  | @const live naming after name slot value agrees declared fresh valued =>
    -- The name is declared before its value is computed, which does not use it.
    have others : ∀ other ∈ live.names.filter (· ≠ name), after.slot? (.text other) = some (.text (live.slotOf other)) := by
      intro other member
      obtain ⟨known, different⟩ := List.mem_filter.mp member
      have apart : (Tree.text name).sameName (.text other) = false := by
        apply Bool.eq_false_iff.mpr
        intro same
        obtain ⟨value, nameIs, otherIs⟩ := Tree.sameName_iff.mp same
        have equal := nameIs.trans otherIs.symm
        simp only [Tree.atom.injEq, Atom.text.injEq] at equal
        simp [equal] at different
      rw [Naming.slot?_declare declared apart]
      exact agrees other known
    have inScope : Lexical.Expression live.names value := valued.mono fun other member => (List.mem_filter.mp member).1
    refine ⟨_, ?_, .const fresh inScope⟩
    unfold declaration
    rw [bind_ok (declare_at declared), bind_ok (expression_at others valued code)]
    simp only [emitOp]
    rw [emit_at, List.append_assoc]
  | sequence _ _ firstIH secondIH =>
    obtain ⟨before, ran, firstDeclares⟩ := firstIH code
    obtain ⟨later, ranLater, secondDeclares⟩ := secondIH (code ++ before)
    refine ⟨before ++ later, ?_, .sequence firstDeclares secondDeclares⟩
    unfold declaration
    rw [bind_ok ran, ranLater, List.append_assoc]

/-- Code generation succeeds for a command whose slots are kept, and emits the code described for it. -/
theorem command_at {live : Live} {tree : Tree} (keeps : KeepsSlots live naming tree after) (code : List Instr)
    (label : Nat) :
    ∃ more last, command tree (at_ naming code outer label) = .ok () (at_ after (code ++ more) outer last) ∧
      Translates live tree label more last := by
  induction keeps generalizing code label with
  | assign agrees declared valued =>
    refine ⟨_, label, ?_, .assign declared valued⟩
    unfold command assignCode
    rw [bind_ok (part_at _), bind_ok (lookup_at (agrees _ declared)), bind_ok (expression_at agrees valued code)]
    simp only [emitOp]
    rw [emit_at, List.append_assoc]
  | print agrees valued =>
    refine ⟨_, label, ?_, .print valued⟩
    unfold command callCode
    rw [if_pos rfl]
    unfold soleArgument
    rw [bind_ok (expression_at agrees valued code)]
    simp only [emitOp]
    rw [bind_ok (emit_at _), emit_at, List.append_assoc, List.append_assoc]
    rfl
  | returns agrees valued =>
    refine ⟨_, label, ?_, .returns valued⟩
    unfold command returnCode
    rw [bind_ok (expression_at agrees valued code)]
    simp only [emitOp]
    rw [emit_at, List.append_assoc]
  | sequence _ _ firstIH secondIH =>
    obtain ⟨before, middle, ran, firstDoes⟩ := firstIH code label
    obtain ⟨later, last, ranLater, secondDoes⟩ := secondIH (code ++ before) middle
    refine ⟨before ++ later, last, ?_, .sequence firstDoes secondDoes⟩
    unfold command
    rw [bind_ok ran, ranLater, List.append_assoc]
  | @conditional live naming between after test yes no agrees tested _ _ yesIH noIH =>
    obtain ⟨taken, middle, ranYes, yesDoes⟩ := yesIH (code ++ valueCode live test ++ [.jump .ifFalse label]) (label + 2)
    obtain ⟨otherwise, last, ranNo, noDoes⟩ := noIH
      (code ++ valueCode live test ++ [.jump .ifFalse label] ++ taken ++ [.jump .forward (label + 1)] ++ [.place label]) middle
    refine ⟨_, last, ?_, .conditional tested yesDoes noDoes⟩
    unfold command conditionalCode
    rw [bind_ok freshLabel_at, bind_ok freshLabel_at, bind_ok (expression_at agrees tested code), bind_ok (emit_at _),
      bind_ok ranYes, bind_ok (emit_at _), bind_ok (emit_at _), bind_ok ranNo, emit_at]
    simp only [List.append_assoc, List.cons_append, List.nil_append]
  | @loop live naming after test body agrees tested _ bodyIH =>
    obtain ⟨inside, last, ran, bodyDoes⟩ := bodyIH
      (code ++ [.place label] ++ valueCode live test ++ [.jump .ifFalse (label + 1)]) (label + 2)
    refine ⟨_, last, ?_, .loop tested bodyDoes⟩
    unfold command loopCode
    rw [bind_ok freshLabel_at, bind_ok freshLabel_at, bind_ok (emit_at _), bind_ok (expression_at agrees tested _),
      bind_ok (emit_at _), bind_ok ran, bind_ok (emit_at _), emit_at]
    simp only [List.append_assoc, List.cons_append, List.nil_append]
  | scope declares _ left bodyIH =>
    obtain ⟨before, ranDeclared, declared⟩ := declaration_at declares code
    obtain ⟨inside, last, ranBody, bodyDoes⟩ := bodyIH (code ++ before) label
    refine ⟨before ++ inside, last, ?_, .scope declared bodyDoes⟩
    unfold command letCode
    rw [bind_ok ranDeclared, bind_ok ranBody, leaveLet_at left, List.append_assoc]

/-- A program whose slots are kept compiles to the code described, followed by returning nothing. -/
theorem program_at {declared body : Tree} (keeps : KeepsSlots [] ⟨[[]], 0⟩ (.letIn declared body) after) :
    ∃ code last final, program (.program (.letIn declared body)) State.empty =
        .ok (code ++ [Instr.op .loadConst .absent, .op .returnValue .absent]) final ∧
      Translates [] (.letIn declared body) 0 code last := by
  obtain ⟨code, last, ran, does⟩ : ∃ code last, command (.letIn declared body) (at_ ⟨[[]], 0⟩ [] [] 0) =
      .ok () (at_ after ([] ++ code) [] last) ∧ Translates [] (.letIn declared body) 0 code last := command_at keeps [] 0
  have scoped_ : ∃ scope outer, after.scopes = scope :: outer := by
    cases keeps with
    | scope _ _ left => exact Naming.scopes_of_leave left
  obtain ⟨scope, outer, scopes⟩ := scoped_
  refine ⟨code, last, ⟨outer, after.count, [], last⟩, ?_, does⟩
  have opened : openFrame State.empty = .ok () ⟨[], 0, [[]], 0⟩ := rfl
  have entered : openScope ⟨[], 0, [[]], 0⟩ = .ok () (at_ ⟨[[]], 0⟩ [] [] 0) := rfl
  have closed (whole : List Instr) : closeFrame (at_ after whole [] last) = .ok whole ⟨after.scopes, after.count, [], last⟩ := rfl
  have left : closeScope ⟨after.scopes, after.count, [], last⟩ = .ok scope ⟨outer, after.count, [], last⟩ := by
    rw [scopes]
    rfl
  simp only [program, emitOp]
  rw [bind_ok opened, bind_ok entered, bind_ok ran]
  rw [bind_ok (emit_at _), bind_ok (emit_at _), bind_ok (closed _), bind_ok left, List.nil_append, List.append_assoc]
  rfl

end Generate

end MiniTriangle
