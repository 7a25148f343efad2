import MiniTriangle.Proofs.CharacterClasses
import MiniTriangle.Proofs.NumberedNames
import MiniTriangle.Proofs.ParsedTrees
import MiniTriangle.Proofs.TreeNodes

/-! The texts of trees. Nothing in a printed tree is quoted, so a name may be spelled like a label, like a missing part or
like the start of a number. Still the text of a program that was read tells the program: words hold no delimiters, digits
start numbers only, and where a part may be missing there never stands a leaf. -/

namespace MiniTriangle

open Alphabet

def delimits (c : Char) : Bool := c == '(' || c == ',' || c == ')'

def Unbroken (word : List Char) : Prop := word.all (! delimits ·) = true

instance : DecidablePred Unbroken := fun word => inferInstanceAs (Decidable (word.all (! delimits ·) = true))

/-- The text after a word: nothing, or a delimiter first. -/
def CutOff (rest : List Char) : Prop := ∀ c ∈ rest.head?, delimits c = true

/-- The text after a tree: nothing, or the delimiter that ends a part. -/
def PartEnd (rest : List Char) : Prop := ∀ c ∈ rest.head?, c = ',' ∨ c = ')'

theorem PartEnd.cutOff {rest : List Char} (ends : PartEnd rest) : CutOff rest := by
  intro c first
  rcases ends c first with rfl | rfl <;> rfl

theorem Unbroken.takeWhile_append {word rest : List Char} (unbroken : Unbroken word) (cut : CutOff rest) :
    (word ++ rest).takeWhile (! delimits ·) = word := by
  have none : rest.takeWhile (! delimits ·) = [] := by
    cases rest with
    | nil => rfl
    | cons c others => rw [List.takeWhile_cons, cut c rfl, Bool.not_true, if_neg Bool.false_ne_true]
  rw [List.takeWhile_append_of_pos (List.all_eq_true.mp unbroken), none, List.append_nil]

/-- The first word of a text and what comes after it are told by the text. -/
theorem Unbroken.append_inj {word other rest more : List Char} (unbroken : Unbroken word) (unbroken' : Unbroken other)
    (cut : CutOff rest) (cut' : CutOff more) (same : word ++ rest = other ++ more) : word = other ∧ rest = more := by
  have words : word = other := by
    rw [← unbroken.takeWhile_append cut, same, unbroken'.takeWhile_append cut']
  subst words
  exact ⟨rfl, List.append_cancel_left same⟩

section Atoms

/-- The values of tokens: natural numbers, and texts without delimiters that do not start with a digit. -/
def Atom.Legible : Atom → Prop
  | .absent => False
  | .text characters => Unbroken characters.toList ∧ ∀ c ∈ characters.toList.head?, c.isDigit = false
  | .number value => 0 ≤ value

theorem not_delimits_of_isDigit {c : Char} (digit : c.isDigit = true) : delimits c = false := by
  apply Bool.eq_false_iff.mpr
  intro delimiter
  simp only [delimits, Bool.or_eq_true, beq_iff_eq] at delimiter
  rcases delimiter with (rfl | rfl) | rfl <;> cases digit

theorem not_delimits_of_isAlphanumeric {c : Char} (continues : isAlphanumeric c = true) : delimits c = false := by
  have others : (['(', ',', ')'].all (! isAlphanumeric ·)) = true := by decide +kernel
  apply Bool.eq_false_iff.mpr
  intro delimiter
  have listed : c ∈ ['(', ',', ')'] := by
    simpa [delimits, or_assoc] using delimiter
  simpa [continues] using List.all_eq_true.mp others c listed

theorem isDigit_eq_false_of_isLetter {c : Char} (letter : isLetter c = true) : c.isDigit = false := by
  have apart : Ranges.has [(48, 57)] c.toNat = false := Ranges.not_has_of_apart 700 letter (by decide +kernel)
  apply Bool.eq_false_iff.mpr
  intro digit
  have bounds : 48 ≤ c.toNat ∧ c.toNat ≤ 57 := by
    simp only [Char.isDigit, Bool.and_eq_true, decide_eq_true_eq, ge_iff_le, UInt32.le_iff_toNat_le] at digit
    exact digit
  simp [Ranges.has, bounds.2, Nat.not_lt.mpr bounds.1] at apart

theorem decimal_digits (number : Nat) : ∀ c ∈ (Text.decimal number).toList, c.isDigit = true := by
  rw [toList_decimal]
  exact fun c member => Nat.isDigit_of_mem_toDigits (by decide) (by decide) member

theorem Atom.Legible.unbroken {value : Atom} (legible : value.Legible) : Unbroken value.render.toList := by
  cases value with
  | absent => cases legible
  | text characters => exact legible.1
  | number value =>
    obtain ⟨number, rfl⟩ := Int.eq_ofNat_of_zero_le legible
    exact List.all_eq_true.mpr fun c member => by rw [not_delimits_of_isDigit (decimal_digits number c member)]; rfl

theorem Atom.Legible.text_ne_number {characters : String} {value : Int} (legible : (Atom.text characters).Legible)
    (natural : 0 ≤ value) : characters ≠ Text.decimal value := by
  rintro rfl
  obtain ⟨number, rfl⟩ := Int.eq_ofNat_of_zero_le natural
  obtain ⟨first, others, figures⟩ := List.exists_cons_of_ne_nil (Nat.toDigits_ne_nil (b := 10) (n := number))
  have starts : first ∈ (Text.decimal number).toList.head? := by
    rw [toList_decimal, figures]
    rfl
  have digit := decimal_digits number first (List.mem_of_mem_head? starts)
  rw [legible.2 first starts] at digit
  cases digit

theorem Atom.Legible.render_inj {value other : Atom} (legible : value.Legible) (legible' : other.Legible)
    (same : value.render = other.render) : value = other := by
  cases value with
  | absent => cases legible
  | text characters =>
    cases other with
    | absent => cases legible'
    | text others => exact congrArg Atom.text same
    | number value => exact absurd same (legible.text_ne_number legible')
  | number value =>
    cases other with
    | absent => cases legible'
    | text others => exact absurd same.symm (legible'.text_ne_number legible)
    | number other => exact congrArg Atom.number (decimal_injective same)

theorem Lexeme.legible {lexeme : List Char} {kind : Kind} {value : Atom} (spelled : Lexeme lexeme kind value) : value.Legible := by
  cases spelled with
  | keyword _ _ => exact le_refl (0 : Int)
  | becomes => exact le_refl (0 : Int)
  | mark _ => exact le_refl (0 : Int)
  | integer _ _ _ => exact Int.natCast_nonneg _
  | identifier word _ =>
    obtain ⟨first, others, rfl, letter, continues⟩ := word
    rw [Atom.Legible, String.toList_ofList]
    refine ⟨List.all_eq_true.mpr fun c member => ?_, fun c head => ?_⟩
    · have alphanumeric : isAlphanumeric c = true := by
        rcases List.mem_cons.mp member with rfl | later
        · simp [isAlphanumeric, letter]
        · exact continues c later
      rw [not_delimits_of_isAlphanumeric alphanumeric]
      rfl
    · cases head
      exact isDigit_eq_false_of_isLetter letter
  | operator listed =>
    have signs : (['+', '-', '*', '/', '<', '>', '=', '\\'].all fun c => ! delimits c && ! c.isDigit) = true := by decide
    have sign := List.all_eq_true.mp signs _ listed
    simp only [Bool.and_eq_true, Bool.not_eq_true'] at sign
    rw [Atom.Legible, String.toList_ofList]
    exact ⟨by simp [Unbroken, sign.1], by simpa using sign.2⟩

end Atoms

section Trees

def Tree.caption : Tree → String
  | .atom value => value.render
  | .typeName _ => "TypeDonoter"
  | tree => tree.label

def Tree.assemble : String → List Tree → Option Tree
  | "Program", [command] => some (.program command)
  | "AssignCommand", [target, value] => some (.assign target value)
  | "CallCommand", [callee, arguments] => some (.call callee arguments)
  | "SequentialCommand", [first, second] => some (.sequence first second)
  | "IfCommand", [test, yes, no] => some (.ifElse test yes no)
  | "WhileCommand", [test, body] => some (.whileDo test body)
  | "LetCommand", [declaration, body] => some (.letIn declaration body)
  | "ReturnCommand", [value] => some (.returns value)
  | "IntegerExpression", [value] => some (.integer value)
  | "VnameExpression", [target] => some (.reference target)
  | "UnaryExpression", [operator, operand] => some (.unary operator operand)
  | "BinaryExpression", [left, operator, right] => some (.binary left operator right)
  | "Vname", [identifier] => some (.name identifier)
  | "ConstDeclaration", [identifier, value] => some (.constDecl identifier value)
  | "VarDeclaration", [identifier, type] => some (.varDecl identifier type)
  | "FunctionDeclaration", [callee, names, type, body] => some (.funcDecl callee names type body)
  | "Parameter", [identifier, type] => some (.parameter identifier type)
  | "SequentialParameter", [first, second] => some (.parameters first second)
  | "SequentialDeclaration", [first, second] => some (.declarations first second)
  | "TypeDonoter", [identifier] => some (.typeName identifier)
  | _, _ => none

theorem Tree.assemble_parts {tree : Tree} (made : tree.children ≠ []) : assemble tree.caption tree.children = some tree := by
  cases tree <;> first | rfl | exact absurd rfl made

theorem Tree.eq_of_caption_of_children {tree other : Tree} (made : tree.children ≠ []) (captions : tree.caption = other.caption)
    (children : tree.children = other.children) : tree = other := by
  have assembled := assemble_parts made
  rw [captions, children, assemble_parts (children ▸ made)] at assembled
  exact (Option.some.inj assembled).symm

theorem Tree.caption_unbroken {tree : Tree} (made : tree.children ≠ []) : Unbroken tree.caption.toList := by
  cases tree <;> first | exact absurd rfl made | (simp only [caption, label]; decide)

def laterParts (parts : List Tree) : List Char := parts.flatMap fun part => ',' :: part.render.toList

theorem intercalate_parts (first : Tree) (others : List Tree) :
    (",".intercalate ((first :: others).map Tree.render)).toList = first.render.toList ++ laterParts others := by
  induction others generalizing first with
  | nil => simp [laterParts]
  | cons second others ih =>
    rw [List.map_cons, List.map_cons, String.intercalate_cons_cons, String.toList_append, String.toList_append,
      ← List.map_cons, ih second]
    simp [laterParts]

theorem Tree.render_of_children {tree first : Tree} {others : List Tree} (parts : tree.children = first :: others) :
    tree.render.toList = tree.caption.toList ++ '(' :: (first.render.toList ++ (laterParts others ++ [')'])) := by
  have formed : tree.render = form tree.caption (tree.children.map render) := by
    cases tree <;> first | rfl | cases parts
  rw [formed, parts, form]
  simp only [String.toList_append, intercalate_parts]
  simp

def mayLack (caption : String) (place : Nat) : Bool :=
  caption == "LetCommand" && place == 0 || (caption == "SequentialDeclaration" || caption == "Parameter") && place == 1

/-- Trees as they are read. No leaf is in a place where a part may be missing, since a name spelled like a missing part
would be taken for one. -/
inductive Tree.Legible : Bool → Tree → Prop where
  | missing : Legible true .absent
  | leaf {value : Atom} (spelled : value.Legible) : Legible false (.atom value)
  | node {mayMiss : Bool} {tree : Tree} (made : tree.children ≠ [])
      (parts : ∀ entry ∈ tree.children.zipIdx, Legible (mayLack tree.caption entry.2) entry.1) : Legible mayMiss tree

/-- In a text that starts with the tree, the tree and the rest can be told from any other legible tree and rest. -/
def Tree.ToldApart (mayMiss : Bool) (tree : Tree) : Prop :=
  ∀ ⦃other : Tree⦄ ⦃rest more : List Char⦄, other.Legible mayMiss → PartEnd rest → PartEnd more →
    tree.render.toList ++ rest = other.render.toList ++ more → tree = other ∧ rest = more

theorem partEnd_laterParts (parts : List Tree) (rest : List Char) : PartEnd (laterParts parts ++ ')' :: rest) := by
  intro c first
  cases parts with
  | nil =>
    cases first
    exact .inr rfl
  | cons part parts =>
    cases first
    exact .inl rfl

/-- Parts that can be told apart one by one can be told apart as a list. -/
theorem laterParts_inj {mayMiss : Nat → Bool} {parts others : List Tree} {place : Nat} {rest more : List Char}
    (told : ∀ entry ∈ parts.zipIdx place, Tree.ToldApart (mayMiss entry.2) entry.1)
    (legible : ∀ entry ∈ others.zipIdx place, Tree.Legible (mayMiss entry.2) entry.1)
    (same : laterParts parts ++ ')' :: rest = laterParts others ++ ')' :: more) : parts = others ∧ rest = more := by
  induction parts generalizing others place with
  | nil =>
    cases others with
    | nil => exact ⟨rfl, (List.cons.inj same).2⟩
    | cons other others => exact absurd (List.cons.inj same).1 (by decide)
  | cons part parts ih =>
    cases others with
    | nil => exact absurd (List.cons.inj same).1 (by decide)
    | cons other others =>
      rw [List.zipIdx_cons, List.forall_mem_cons] at told legible
      have texts : part.render.toList ++ (laterParts parts ++ ')' :: rest) =
          other.render.toList ++ (laterParts others ++ ')' :: more) := by
        simpa [laterParts] using same
      obtain ⟨rfl, later⟩ := told.1 legible.1 (partEnd_laterParts parts rest) (partEnd_laterParts others more) texts
      obtain ⟨rfl, rest⟩ := ih told.2 legible.2 later
      exact ⟨rfl, rest⟩

/-- The text of a node goes on with an opening parenthesis after its first word, which never ends a part. -/
theorem Tree.word_ne_render {tree : Tree} (made : tree.children ≠ []) {word rest more : List Char} (unbroken : Unbroken word)
    (ends : PartEnd rest) : word ++ rest ≠ tree.render.toList ++ more := by
  obtain ⟨first, others, parts⟩ := List.exists_cons_of_ne_nil made
  intro same
  rw [render_of_children parts, List.append_assoc] at same
  obtain ⟨_, opens⟩ := unbroken.append_inj (caption_unbroken made) ends.cutOff (by rintro _ ⟨⟩; rfl) same
  rcases ends '(' (by rw [opens]; rfl) with comma | closing
  · exact absurd comma (by decide)
  · exact absurd closing (by decide)

theorem Tree.Legible.toldApart {mayMiss : Bool} {tree : Tree} (legible : tree.Legible mayMiss) : tree.ToldApart mayMiss := by
  induction legible with
  | missing =>
    intro other rest more legible' ends ends' same
    cases legible' with
    | missing => exact ⟨rfl, List.append_cancel_left same⟩
    | node made _ => exact absurd same (word_ne_render made (by decide) ends)
  | leaf spelled =>
    intro other rest more legible' ends ends' same
    cases legible' with
    | leaf spelled' =>
      obtain ⟨words, rests⟩ := spelled.unbroken.append_inj spelled'.unbroken ends.cutOff ends'.cutOff same
      exact ⟨congrArg Tree.atom (spelled.render_inj spelled' (String.toList_inj.mp words)), rests⟩
    | node made _ => exact absurd same (word_ne_render made spelled.unbroken ends)
  | @node mayMiss tree made _ told =>
    intro other rest more legible' ends ends' same
    cases legible' with
    | missing => exact absurd same.symm (word_ne_render made (by decide) ends')
    | leaf spelled' => exact absurd same.symm (word_ne_render made spelled'.unbroken ends')
    | node made' legible' =>
      obtain ⟨first, others, parts⟩ := List.exists_cons_of_ne_nil made
      obtain ⟨first', others', parts'⟩ := List.exists_cons_of_ne_nil made'
      rw [render_of_children parts, render_of_children parts', List.append_assoc, List.append_assoc] at same
      obtain ⟨captions, inside⟩ :=
        (caption_unbroken made).append_inj (caption_unbroken made') (by rintro _ ⟨⟩; rfl) (by rintro _ ⟨⟩; rfl) same
      have caption := String.toList_inj.mp captions
      -- With a comma for the parenthesis, the parts are later parts of a list.
      have lists : laterParts tree.children ++ ')' :: rest = laterParts other.children ++ ')' :: more := by
        rw [parts, parts']
        simpa [laterParts] using inside
      rw [← caption] at legible'
      obtain ⟨children, rests⟩ := laterParts_inj told legible' lists
      exact ⟨eq_of_caption_of_children made caption children, rests⟩

end Trees

section Reading

def Phrase.mayMiss : Phrase → Bool
  | .declarations => true
  | _ => false

def PartsLegible (caption : String) : Nat → List Tree → Prop
  | _, [] => False
  | place, [part] => part.Legible (mayLack caption place)
  | place, part :: next :: parts =>
    part.Legible (mayLack caption place) ∧ PartsLegible caption (place + 1) (next :: parts)

theorem PartsLegible.forall_mem {caption : String} {place : Nat} {parts : List Tree}
    (legible : PartsLegible caption place parts) :
    ∀ entry ∈ parts.zipIdx place, entry.1.Legible (mayLack caption entry.2) := by
  induction parts generalizing place with
  | nil => cases legible
  | cons part parts ih =>
    cases parts with
    | nil => exact List.forall_mem_singleton.mpr legible
    | cons next parts =>
      rw [List.zipIdx_cons, List.forall_mem_cons]
      exact ⟨legible.1, ih legible.2⟩

theorem Tree.Legible.of_parts {mayMiss : Bool} {tree : Tree} (parts : PartsLegible tree.caption 0 tree.children) :
    tree.Legible mayMiss := by
  refine .node ?_ parts.forall_mem
  intro none
  rw [none] at parts
  cases parts

theorem Tree.Legible.name {value : Atom} (spelled : value.Legible) : (Tree.name (.atom value)).Legible false :=
  .of_parts (.leaf spelled)

theorem Tree.Legible.typeName {value : Atom} (spelled : value.Legible) (mayMiss : Bool) :
    (Tree.typeName (.atom value)).Legible mayMiss :=
  .of_parts (.leaf spelled)

/-- A tree derived from tokens with legible values is legible. -/
theorem Derives.legible {phrase : Phrase} {row : List Token} {tree : Tree} (derived : Derives phrase row tree)
    (valued : ∀ token ∈ row, token.value.Legible) : tree.Legible phrase.mayMiss := by
  induction derived with
  | conditional _ _ _ _ _ _ testIH yesIH noIH =>
    simp only [List.forall_mem_cons, List.forall_mem_append] at valued
    obtain ⟨_, tested, _, accepted, _, rejected⟩ := valued
    exact .of_parts ⟨testIH tested, yesIH accepted, noIH rejected⟩
  | loop _ _ _ _ testIH bodyIH =>
    simp only [List.forall_mem_cons, List.forall_mem_append] at valued
    obtain ⟨_, tested, _, repeated⟩ := valued
    exact .of_parts ⟨testIH tested, bodyIH repeated⟩
  | scope _ _ _ _ declaredIH bodyIH =>
    simp only [List.forall_mem_cons, List.forall_mem_append] at valued
    obtain ⟨_, declares, _, inner⟩ := valued
    exact .of_parts ⟨declaredIH declares, bodyIH inner⟩
  | compound _ _ _ ih =>
    simp only [List.forall_mem_cons, List.forall_mem_append] at valued
    exact ih valued.2.1
  | lastSingle _ ih => exact ih valued
  | sequence _ _ _ firstIH secondIH =>
    obtain ⟨begins, more⟩ := List.forall_mem_append.mp valued
    exact .of_parts ⟨firstIH begins, secondIH more⟩
  | singleBlock _ ih => exact ih valued
  | singleSimple _ _ _ ih => exact ih (List.forall_mem_append.mp valued).1
  | assignment _ _ ih =>
    simp only [List.forall_mem_cons] at valued
    exact .of_parts ⟨.name valued.1, ih valued.2.2⟩
  | callCommand _ _ _ _ ih =>
    simp only [List.forall_mem_cons, List.forall_mem_append] at valued
    exact .of_parts ⟨.leaf valued.1, ih valued.2.2.1⟩
  | returning _ _ _ ih =>
    simp only [List.forall_mem_cons] at valued
    exact .of_parts (ih valued.2)
  | noDeclaration => exact .missing
  | varDeclaration _ _ _ _ _ ih =>
    simp only [List.forall_mem_cons] at valued
    obtain ⟨_, declared, _, type, _, more⟩ := valued
    have declaration : (Tree.varDecl _ _).Legible false := .of_parts ⟨.leaf declared, .typeName type _⟩
    exact .of_parts ⟨declaration, ih more⟩
  | constDeclaration _ _ _ _ _ _ valueIH restIH =>
    simp only [List.forall_mem_cons, List.forall_mem_append] at valued
    obtain ⟨_, declared, _, value, _, more⟩ := valued
    have declaration : (Tree.constDecl _ _).Legible false := .of_parts ⟨.leaf declared, valueIH value⟩
    exact .of_parts ⟨declaration, restIH more⟩
  | funcDeclaration _ _ _ _ _ _ _ _ listIH bodyIH restIH =>
    simp only [List.forall_mem_cons, List.forall_mem_append] at valued
    obtain ⟨_, declared, _, listed, _, _, type, inner, more⟩ := valued
    have declaration : (Tree.funcDecl _ _ _ _).Legible false :=
      .of_parts ⟨.leaf declared, listIH listed, .typeName type _, bodyIH inner⟩
    exact .of_parts ⟨declaration, restIH more⟩
  | oneParameter _ _ =>
    simp only [List.forall_mem_cons] at valued
    exact .of_parts ⟨.leaf valued.1, .typeName valued.2.2.1 _⟩
  | moreParameters _ _ _ _ ih =>
    simp only [List.forall_mem_cons, List.forall_mem_append] at valued
    obtain ⟨before, _, declared, _, type, _⟩ := valued
    have last : (Tree.parameter _ _).Legible false := .of_parts ⟨.leaf declared, .typeName type _⟩
    exact .of_parts ⟨ih before, last⟩
  | oneArgument _ ih => exact .of_parts ⟨ih valued, .missing⟩
  | moreArguments _ _ _ listIH lastIH =>
    simp only [List.forall_mem_cons, List.forall_mem_append] at valued
    have last : (Tree.parameter _ _).Legible false := .of_parts ⟨lastIH valued.2.2, .missing⟩
    exact .of_parts ⟨listIH valued.1, last⟩
  | call _ _ _ _ ih =>
    simp only [List.forall_mem_cons, List.forall_mem_append] at valued
    exact .of_parts ⟨.leaf valued.1, ih valued.2.2.1⟩
  | value _ _ ih => exact ih valued
  | oneTerm _ ih => exact ih valued
  | add _ _ _ leftIH rightIH =>
    simp only [List.forall_mem_cons, List.forall_mem_append] at valued
    exact .of_parts ⟨leftIH valued.1, .leaf valued.2.1, rightIH valued.2.2⟩
  | oneFactor _ ih => exact ih valued
  | multiply _ _ _ leftIH rightIH =>
    simp only [List.forall_mem_cons, List.forall_mem_append] at valued
    exact .of_parts ⟨leftIH valued.1, .leaf valued.2.1, rightIH valued.2.2⟩
  | integer _ => exact .of_parts (.leaf (List.forall_mem_cons.mp valued).1)
  | reference _ => exact .of_parts (.name (List.forall_mem_cons.mp valued).1)
  | unary _ _ ih =>
    obtain ⟨sign, operand⟩ := List.forall_mem_cons.mp valued
    exact .of_parts ⟨.leaf sign, ih operand⟩
  | parenthesis _ _ _ ih =>
    simp only [List.forall_mem_cons, List.forall_mem_append] at valued
    exact ih valued.2.1

theorem legible_of_read {text : String} {tree : Tree} (read : readProgram? text = some tree) : tree.Legible false := by
  obtain ⟨command, row, rfl, derived, scanned⟩ := row_of_read read
  refine .of_parts (derived.legible fun token member => ?_)
  rcases scanned token member with rfl | ⟨lexeme, spelled⟩
  · exact le_refl (0 : Int)
  · exact spelled.legible

/-- Programs with the same text of their trees are the same tree, however their own texts differ. -/
theorem tree_eq_of_render_eq {text other : String} {tree otherTree : Tree} (read : readProgram? text = some tree)
    (readOther : readProgram? other = some otherTree) (printed : tree.render = otherTree.render) : tree = otherTree := by
  have told := (legible_of_read read).toldApart
  have ended : PartEnd [] := by rintro c ⟨⟩
  exact (told (legible_of_read readOther) ended ended (congrArg (·.toList ++ []) printed)).1

/-- Names spelled like a missing part and like a label. -/
def misleading : String := "let var None: Parameter; in None := f(None, 0);"

/-- The same program with a comment, a needless digit and needless parentheses, and a word after its end. -/
def misleadingAgain : String := "let var None: Parameter; ! nothing\nin None := f((None), 00); rest"

def misleadingPrinted : String :=
  "Program(LetCommand(SequentialDeclaration(VarDeclaration(None,TypeDonoter(Parameter)),None)," ++
  "AssignCommand(Vname(None),CallCommand(f,SequentialParameter(Parameter(VnameExpression(Vname(None)),None)," ++
  "Parameter(IntegerExpression(0),None))))))"

/-- Names, missing parts and labels look alike in the text, and it still tells the tree. -/
theorem misleading_told : ∃ tree otherTree, readProgram? misleading = some tree ∧
    readProgram? misleadingAgain = some otherTree ∧ tree.render = misleadingPrinted ∧
    otherTree.render = misleadingPrinted ∧ tree = otherTree := by
  have computed : (readProgram? misleading).any (fun tree => tree.render = misleadingPrinted) = true ∧
      (readProgram? misleadingAgain).any (fun tree => tree.render = misleadingPrinted) = true := by decide +kernel
  obtain ⟨tree, read, printed⟩ := (Option.any_eq_true _ _).mp computed.1
  obtain ⟨otherTree, readOther, printedOther⟩ := (Option.any_eq_true _ _).mp computed.2
  rw [decide_eq_true_eq] at printed printedOther
  exact ⟨tree, otherTree, read, readOther, printed, printedOther,
    tree_eq_of_render_eq read readOther (printed.trans printedOther.symm)⟩

end Reading

end MiniTriangle
