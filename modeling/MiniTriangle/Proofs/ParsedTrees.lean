import MiniTriangle.Proofs.SlotNaming
import MiniTriangle.Proofs.SourceTexts

/-! The trees of programs read from texts. Every part is of the sort that its place asks for: names are texts, and
only the target of an assignment may be anything that the text has there. -/

namespace MiniTriangle

inductive Role where
  | command
  | declaration
  | parameters
  | arguments
  | expression

inductive Shaped : Role → Tree → Prop where
  | assign (target : Atom) {value : Tree} (valued : Shaped .expression value) :
      Shaped .command (.assign (.name (.atom target)) value)
  | callCommand (name : String) {list : Tree} (given : Shaped .arguments list) :
      Shaped .command (.call (.text name) list)
  | sequence {first second : Tree} (before : Shaped .command first) (later : Shaped .command second) :
      Shaped .command (.sequence first second)
  | conditional {test yes no : Tree} (tested : Shaped .expression test) (taken : Shaped .command yes)
      (otherwise : Shaped .command no) : Shaped .command (.ifElse test yes no)
  | loop {test body : Tree} (tested : Shaped .expression test) (repeated : Shaped .command body) :
      Shaped .command (.whileDo test body)
  | scope {declared body : Tree} (declares : Shaped .declaration declared) (inner : Shaped .command body) :
      Shaped .command (.letIn declared body)
  | returns {value : Tree} (valued : Shaped .expression value) : Shaped .command (.returns value)
  | nothing : Shaped .declaration .absent
  | var (name : String) (type : Atom) : Shaped .declaration (.varDecl (.text name) (.typeName (.atom type)))
  | const (name : String) {value : Tree} (valued : Shaped .expression value) :
      Shaped .declaration (.constDecl (.text name) value)
  | function (name : String) {list : Tree} (type : Atom) {body : Tree} (listed : Shaped .parameters list)
      (inner : Shaped .command body) :
      Shaped .declaration (.funcDecl (.text name) list (.typeName (.atom type)) body)
  | declarations {first second : Tree} (before : Shaped .declaration first) (later : Shaped .declaration second) :
      Shaped .declaration (.declarations first second)
  | parameter (name : String) (type : Atom) : Shaped .parameters (.parameter (.text name) (.typeName (.atom type)))
  | parameters {first second : Tree} (before : Shaped .parameters first) (later : Shaped .parameters second) :
      Shaped .parameters (.parameters first second)
  | argument {value : Tree} (valued : Shaped .expression value) : Shaped .arguments (.parameter value .absent)
  | arguments {first second : Tree} (before : Shaped .arguments first) (later : Shaped .arguments second) :
      Shaped .arguments (.parameters first second)
  | integer (value : Atom) : Shaped .expression (.integer (.atom value))
  | reference (name : String) : Shaped .expression (.reference (.name (.text name)))
  | unary (operator : String) {operand : Tree} (inner : Shaped .expression operand) :
      Shaped .expression (.unary (.text operator) operand)
  | binary (operator : String) {left right : Tree} (first : Shaped .expression left)
      (second : Shaped .expression right) : Shaped .expression (.binary left (.text operator) right)
  | call (name : String) {list : Tree} (given : Shaped .arguments list) : Shaped .expression (.call (.text name) list)

theorem Shaped.parameter_texts {list : Tree} (shaped : Shaped .parameters list) :
    ∀ name ∈ list.parameterList, ∃ characters, name = .text characters := by
  generalize role : Role.parameters = listed at shaped
  induction shaped with
  | parameter name type => exact fun other member => ⟨name, List.mem_singleton.mp member⟩
  | parameters _ _ firstIH secondIH => exact List.forall_mem_append.mpr ⟨firstIH role, secondIH role⟩
  | _ => cases role

theorem Shaped.parameterNames_eq {list : Tree} (shaped : Shaped .parameters list) :
    Generate.parameterNames list = pure list.parameterList := by
  generalize role : Role.parameters = listed at shaped
  induction shaped with
  | parameter name type => rfl
  | parameters _ _ firstIH secondIH =>
    rw [Generate.parameterNames, firstIH role, secondIH role]
    rfl
  | _ => cases role

def Phrase.role : Phrase → Role
  | .block | .command | .single | .simple => .command
  | .declarations => .declaration
  | .parameters => .parameters
  | .arguments => .arguments
  | .expression | .sum | .product | .factor => .expression

/-- The value of the token is a text if the token is a name or an operator. -/
def Token.Written (token : Token) : Prop :=
  token.kind = .identifier ∨ token.kind = .operator → ∃ characters, token.value = .text characters

theorem Derives.shaped {phrase : Phrase} {row : List Token} {tree : Tree} (derived : Derives phrase row tree)
    (written : ∀ token ∈ row, token.Written) : Shaped phrase.role tree := by
  induction derived with
  | conditional _ _ _ _ _ _ testIH yesIH noIH =>
    simp only [List.forall_mem_cons, List.forall_mem_append] at written
    obtain ⟨_, tested, _, accepted, _, rejected⟩ := written
    exact .conditional (testIH tested) (yesIH accepted) (noIH rejected)
  | loop _ _ _ _ testIH bodyIH =>
    simp only [List.forall_mem_cons, List.forall_mem_append] at written
    obtain ⟨_, tested, _, repeated⟩ := written
    exact .loop (testIH tested) (bodyIH repeated)
  | scope _ _ _ _ declaredIH bodyIH =>
    simp only [List.forall_mem_cons, List.forall_mem_append] at written
    obtain ⟨_, declares, _, inner⟩ := written
    exact .scope (declaredIH declares) (bodyIH inner)
  | compound _ _ _ ih =>
    simp only [List.forall_mem_cons, List.forall_mem_append] at written
    exact ih written.2.1
  | lastSingle _ ih => exact ih written
  | sequence _ _ _ firstIH secondIH =>
    obtain ⟨begins, more⟩ := List.forall_mem_append.mp written
    exact .sequence (firstIH begins) (secondIH more)
  | singleBlock _ ih => exact ih written
  | singleSimple _ _ _ ih => exact ih (List.forall_mem_append.mp written).1
  | assignment _ _ ih =>
    simp only [List.forall_mem_cons] at written
    exact .assign _ (ih written.2.2)
  | callCommand named _ _ _ ih =>
    simp only [List.forall_mem_cons, List.forall_mem_append] at written
    obtain ⟨name, spelled⟩ := written.1 (.inl named)
    rw [spelled]
    exact .callCommand name (ih written.2.2.1)
  | returning _ _ _ ih =>
    simp only [List.forall_mem_cons] at written
    exact .returns (ih written.2)
  | noDeclaration => exact .nothing
  | varDeclaration _ named _ _ _ ih =>
    simp only [List.forall_mem_cons] at written
    obtain ⟨_, declared, _, _, _, more⟩ := written
    obtain ⟨name, spelled⟩ := declared (.inl named)
    rw [spelled]
    exact .declarations (.var name _) (ih more)
  | constDeclaration _ named _ _ _ _ valueIH restIH =>
    simp only [List.forall_mem_cons, List.forall_mem_append] at written
    obtain ⟨_, declared, _, valued, _, more⟩ := written
    obtain ⟨name, spelled⟩ := declared (.inl named)
    rw [spelled]
    exact .declarations (.const name (valueIH valued)) (restIH more)
  | funcDeclaration _ named _ _ _ _ _ _ listIH bodyIH restIH =>
    simp only [List.forall_mem_cons, List.forall_mem_append] at written
    obtain ⟨_, declared, _, listed, _, _, _, inner, more⟩ := written
    obtain ⟨name, spelled⟩ := declared (.inl named)
    rw [spelled]
    exact .declarations (.function name _ (listIH listed) (bodyIH inner)) (restIH more)
  | oneParameter named _ =>
    obtain ⟨name, spelled⟩ := (List.forall_mem_cons.mp written).1 (.inl named)
    rw [spelled]
    exact .parameter name _
  | moreParameters _ _ named _ ih =>
    simp only [List.forall_mem_cons, List.forall_mem_append] at written
    obtain ⟨before, _, declared, _⟩ := written
    obtain ⟨name, spelled⟩ := declared (.inl named)
    rw [spelled]
    exact .parameters (ih before) (.parameter name _)
  | oneArgument _ ih => exact .argument (ih written)
  | moreArguments _ _ _ listIH lastIH =>
    simp only [List.forall_mem_cons, List.forall_mem_append] at written
    exact .arguments (listIH written.1) (.argument (lastIH written.2.2))
  | call named _ _ _ ih =>
    simp only [List.forall_mem_cons, List.forall_mem_append] at written
    obtain ⟨name, spelled⟩ := written.1 (.inl named)
    rw [spelled]
    exact .call name (ih written.2.2.1)
  | value _ _ ih => exact ih written
  | oneTerm _ ih => exact ih written
  | add _ sign _ leftIH rightIH =>
    simp only [List.forall_mem_cons, List.forall_mem_append] at written
    obtain ⟨_, operator, _, spelled⟩ := sign
    rw [spelled]
    exact .binary operator (leftIH written.1) (rightIH written.2.2)
  | oneFactor _ ih => exact ih written
  | multiply _ sign _ leftIH rightIH =>
    simp only [List.forall_mem_cons, List.forall_mem_append] at written
    obtain ⟨_, operator, _, spelled⟩ := sign
    rw [spelled]
    exact .binary operator (leftIH written.1) (rightIH written.2.2)
  | integer _ => exact .integer _
  | reference named =>
    obtain ⟨name, spelled⟩ := (List.forall_mem_cons.mp written).1 (.inl named)
    rw [spelled]
    exact .reference name
  | unary sign _ ih =>
    obtain ⟨first, others⟩ := List.forall_mem_cons.mp written
    obtain ⟨operator, spelled⟩ := first (.inr sign)
    rw [spelled]
    exact .unary operator (ih others)
  | parenthesis _ _ _ ih =>
    simp only [List.forall_mem_cons, List.forall_mem_append] at written
    exact ih written.2.1

/-- The command of a program read from a text has the shape of a command. -/
theorem shaped_of_read {text : String} {command : Tree} (read : readProgram? text = some (.program command)) :
    Shaped .command command := by
  obtain ⟨same, row, treeIs, derived, scanned⟩ := derives_of_read read
  cases treeIs
  refine derived.shaped fun token member kinds => ?_
  rcases scanned token member with ends | ⟨lexeme, spelled⟩
  · rw [ends] at kinds
    rcases kinds with kind | kind <;> cases kind
  · rcases kinds with named | sign
    · exact ⟨_, (spelled.identifier_word named).2⟩
    · exact ⟨_, spelled.operator_text sign⟩

end MiniTriangle
