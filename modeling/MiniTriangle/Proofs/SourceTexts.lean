import MiniTriangle.Compile
import MiniTriangle.Proofs.ParserExactness
import MiniTriangle.Proofs.Tokenisation

/-! Programs read from texts. A text compiles exactly if it is read as a program whose tree compiles, and the tree
comes from a block of the grammar made of scanned tokens, in which every identifier is a word of the text. -/

namespace MiniTriangle

def readProgram? (text : String) : Option Tree :=
  (Token.ofText text).toOption.bind fun tokens => (parseProgram tokens).toOption

section

variable {ε κ α β : Type}

private theorem toOption_eq_some {answer : Except ε α} {value : α} : answer.toOption = some value ↔ answer = .ok value := by
  cases answer with
  | error cause => exact ⟨nofun, nofun⟩
  | ok found => simp [Except.toOption]

private theorem mapError_eq_ok {answer : Except ε α} {name : ε → κ} {value : α} :
    answer.mapError name = .ok value ↔ answer = .ok value := by
  cases answer with
  | error cause => exact ⟨nofun, nofun⟩
  | ok found => simp [Except.mapError]

private theorem andThen_eq_ok {answer : Except ε α} {next : α → Except ε β} {value : β} :
    (answer >>= next) = .ok value ↔ ∃ found, answer = .ok found ∧ next found = .ok value := by
  cases answer with
  | error cause => exact ⟨nofun, nofun⟩
  | ok found => simp [bind, Except.bind]

end

theorem readProgram?_eq_some {text : String} {tree : Tree} :
    readProgram? text = some tree ↔ ∃ tokens, Token.ofText text = .ok tokens ∧ parseProgram tokens = .ok tree := by
  simp only [readProgram?, Option.bind_eq_some_iff, toOption_eq_some]

/-- A text compiles exactly if the program it is read as compiles. -/
theorem compile_eq_ok {text : String} {routine : Routine} {state : State} :
    compile text = .ok (routine, state) ↔
      ∃ tree, readProgram? text = some tree ∧ compileTree tree = .ok (routine, state) := by
  simp only [compile, compileTokens, andThen_eq_ok, mapError_eq_ok, readProgram?_eq_some]
  constructor
  · rintro ⟨tokens, scanned, tree, parsed, generated⟩
    exact ⟨tree, ⟨tokens, scanned, parsed⟩, generated⟩
  · rintro ⟨tree, ⟨tokens, scanned, parsed⟩, generated⟩
    exact ⟨tokens, scanned, tree, parsed, generated⟩

theorem compiles_of_read {text : String} {tree : Tree} (read : readProgram? text = some tree)
    (fine : (compileTree tree).isOk = true) : ∃ routine state, compile text = .ok (routine, state) := by
  cases answer : compileTree tree with
  | error cause =>
    rw [answer] at fine
    cases fine
  | ok result => exact ⟨result.1, result.2, compile_eq_ok.mpr ⟨tree, read, answer⟩⟩

theorem compileTree_eq_ok {tree : Tree} {routine : Routine} {state : State} :
    compileTree tree = .ok (routine, state) ↔
      routine.parameters = [] ∧ Generate.program tree State.empty = .ok routine.body state := by
  unfold compileTree
  cases generated : Generate.program tree State.empty with
  | error cause final => exact ⟨nofun, nofun⟩
  | ok code final =>
    constructor
    · intro same
      cases same
      exact ⟨rfl, rfl⟩
    · rintro ⟨none, same⟩
      cases same
      cases routine
      cases none
      rfl

theorem Cut.spelled {start : Nat} {text : List Char} {tokens : List Token} (cut : Cut start text tokens) {token : Token}
    (member : token ∈ tokens) : ∃ lexeme, Lexeme lexeme token.kind token.value := by
  induction cut with
  | done blank => cases member
  | token blank spelled longest more ih =>
    rcases List.mem_cons.mp member with here | later
    · subst here
      exact ⟨_, spelled⟩
    · exact ih later

private theorem listed_kinds : (∀ entry ∈ keywords, entry.2 ≠ .identifier ∧ entry.2 ≠ .operator) ∧
    ∀ entry ∈ marks, entry.2 ≠ .identifier ∧ entry.2 ≠ .operator := by
  decide

theorem Lexeme.identifier_word {lexeme : List Char} {kind : Kind} {value : Atom} (spelled : Lexeme lexeme kind value)
    (named : kind = .identifier) : IsWord lexeme ∧ value = .text (String.ofList lexeme) := by
  cases spelled with
  | identifier word free => exact ⟨word, rfl⟩
  | keyword word listed => exact absurd named (listed_kinds.1 _ listed).1
  | mark listed => exact absurd named (listed_kinds.2 _ listed).1
  | integer _ _ _ => cases named
  | becomes => cases named
  | operator _ => cases named

theorem Lexeme.operator_text {lexeme : List Char} {kind : Kind} {value : Atom} (spelled : Lexeme lexeme kind value)
    (sign : kind = .operator) : value = .text (String.ofList lexeme) := by
  cases spelled with
  | operator _ => rfl
  | keyword word listed => exact absurd sign (listed_kinds.1 _ listed).2
  | mark listed => exact absurd sign (listed_kinds.2 _ listed).2
  | identifier _ _ => cases sign
  | integer _ _ _ => cases sign
  | becomes => cases sign

/-- A program that was read is a block of the grammar, made of tokens of the text. -/
theorem row_of_read {text : String} {tree : Tree} (read : readProgram? text = some tree) :
    ∃ command row, tree = .program command ∧ Derives .block row command ∧
      ∀ token ∈ row, token = .plain .endOfText text.length ∨ ∃ lexeme, Lexeme lexeme token.kind token.value := by
  obtain ⟨tokens, scanned, parsed⟩ := readProgram?_eq_some.mp read
  obtain ⟨body, tokensAre, _, cut⟩ := Scan.ofText_sound scanned
  unfold parseProgram at parsed
  split at parsed
  · next answer final answered =>
    cases parsed
    obtain ⟨command, row, rest, treeIs, split, _, derived⟩ := Parse.parseTokens_reads answered
    refine ⟨command, row, treeIs, derived, ?_⟩
    intro token member
    have among : token ∈ body ++ [.plain .endOfText text.length] := by
      rw [← tokensAre, split]
      exact List.mem_append_left rest member
    rcases List.mem_append.mp among with inside | last
    · exact .inr (cut.spelled inside)
    · exact .inl (List.mem_singleton.mp last)
  · cases parsed

theorem derives_of_read {text : String} {tree : Tree} (read : readProgram? text = some tree) :
    ∃ command row, tree = .program command ∧ Derives .block row command ∧
      ∀ token ∈ row, token.kind = .endOfText ∨ ∃ lexeme, Lexeme lexeme token.kind token.value := by
  obtain ⟨command, row, treeIs, derived, scanned⟩ := row_of_read read
  refine ⟨command, row, treeIs, derived, fun token member => ?_⟩
  exact (scanned token member).imp_left (congrArg Token.kind)

end MiniTriangle
