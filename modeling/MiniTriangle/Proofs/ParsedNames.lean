import MiniTriangle.Proofs.LexicalProgram
import MiniTriangle.Proofs.SourceTexts

/-! The names that a program read from a text declares are words of the text, so they hold letters, digits and
numerals only. -/

namespace MiniTriangle

open Alphabet

private theorem declared_own {name : String} (value : Atom) :
    (∀ type, name ∈ (Tree.varDecl (.atom value) type).declaredNames → value = .text name) ∧
      ∀ tree, name ∈ (Tree.constDecl (.atom value) tree).declaredNames → value = .text name := by
  cases value with
  | text characters =>
    constructor
    · intro type own
      rw [List.mem_singleton.mp own]
    · intro tree own
      rw [List.mem_singleton.mp own]
  | absent =>
    constructor
    · intro type own
      cases own
    · intro tree own
      cases own
  | number amount =>
    constructor
    · intro type own
      cases own
    · intro tree own
      cases own

/-- Every declared name is an identifier among the tokens. -/
theorem Derives.declared_mem {phrase : Phrase} {row : List Token} {tree : Tree} (derived : Derives phrase row tree)
    {name : String} (declared : name ∈ tree.declaredNames) :
    ∃ token ∈ row, token.kind = .identifier ∧ token.value = .text name := by
  induction derived with
  | conditional _ _ _ _ _ _ _ yesIH noIH =>
    rcases List.mem_append.mp declared with inYes | inNo
    · obtain ⟨token, member, is⟩ := yesIH inYes
      exact ⟨token, by simp [member], is⟩
    · obtain ⟨token, member, is⟩ := noIH inNo
      exact ⟨token, by simp [member], is⟩
  | loop _ _ _ _ _ bodyIH =>
    obtain ⟨token, member, is⟩ := bodyIH declared
    exact ⟨token, by simp [member], is⟩
  | scope _ _ _ _ declaredIH bodyIH =>
    rcases List.mem_append.mp declared with inDeclared | inBody
    · obtain ⟨token, member, is⟩ := declaredIH inDeclared
      exact ⟨token, by simp [member], is⟩
    · obtain ⟨token, member, is⟩ := bodyIH inBody
      exact ⟨token, by simp [member], is⟩
  | compound _ _ _ ih =>
    obtain ⟨token, member, is⟩ := ih declared
    exact ⟨token, by simp [member], is⟩
  | lastSingle _ ih => exact ih declared
  | sequence _ _ _ firstIH secondIH =>
    rcases List.mem_append.mp declared with inFirst | inSecond
    · obtain ⟨token, member, is⟩ := firstIH inFirst
      exact ⟨token, List.mem_append_left _ member, is⟩
    · obtain ⟨token, member, is⟩ := secondIH inSecond
      exact ⟨token, List.mem_append_right _ member, is⟩
  | singleBlock _ ih => exact ih declared
  | singleSimple _ _ _ ih =>
    obtain ⟨token, member, is⟩ := ih declared
    exact ⟨token, List.mem_append_left _ member, is⟩
  | @varDeclaration v i c t s row rest _ named _ _ _ ih =>
    rcases List.mem_append.mp declared with own | later
    · exact ⟨i, by simp, named, (declared_own i.value).1 _ own⟩
    · obtain ⟨token, member, is⟩ := ih later
      exact ⟨token, by simp [member], is⟩
  | @constDeclaration k i e s value row tree rest _ named _ _ _ _ _ ih =>
    rcases List.mem_append.mp declared with own | later
    · exact ⟨i, by simp, named, (declared_own i.value).2 _ own⟩
    · obtain ⟨token, member, is⟩ := ih later
      exact ⟨token, by simp [member], is⟩
  | funcDeclaration _ _ _ _ _ _ _ _ _ _ ih =>
    obtain ⟨token, member, is⟩ := ih declared
    exact ⟨token, by simp [member], is⟩
  | value _ _ ih => exact ih declared
  | oneTerm _ ih => exact ih declared
  | oneFactor _ ih => exact ih declared
  | parenthesis _ _ _ ih =>
    obtain ⟨token, member, is⟩ := ih declared
    exact ⟨token, by simp [member], is⟩
  | _ => cases declared

/-- No declared name of a program read from a text holds a minus sign. -/
theorem declared_without_minus {text : String} {tokens : List Token} {command : Tree}
    (scanned : Token.ofText text = .ok tokens) (parsed : parseProgram tokens = .ok (.program command)) {name : String}
    (declared : name ∈ command.declaredNames) : '-' ∉ name.toList := by
  obtain ⟨same, row, treeIs, derived, scannedAs⟩ := derives_of_read (readProgram?_eq_some.mpr ⟨tokens, scanned, parsed⟩)
  cases treeIs
  obtain ⟨token, member, named, value⟩ := derived.declared_mem declared
  obtain ⟨lexeme, spelled⟩ : ∃ lexeme, Lexeme lexeme token.kind token.value := by
    rcases scannedAs token member with ends | spelled
    · cases named.symm.trans ends
    · exact spelled
  obtain ⟨⟨first, others, wordIs, letter, alphanumeric⟩, wordValue⟩ := spelled.identifier_word named
  rw [value] at wordValue
  cases wordValue
  rw [String.toList_ofList, wordIs]
  intro minus
  rcases List.mem_cons.mp minus with isFirst | inOthers
  · rw [← isFirst] at letter
    exact absurd letter (by decide +kernel)
  · exact absurd (alphanumeric _ inOthers) (by decide +kernel)

end MiniTriangle
