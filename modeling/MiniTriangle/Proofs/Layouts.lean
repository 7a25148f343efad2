import MiniTriangle.Compile
import MiniTriangle.Proofs.PositionBlindness
import MiniTriangle.Proofs.Tokenisation
import Mathlib.Data.List.Forall2

/-! Texts that differ in their layout alone. A text is cut into lexemes with separators around them. With other separators
in their places, none of them left out where the text has one, the text is cut into the same lexemes; so it has the same
tokens at other positions, and whatever comes of it comes of the other text too. -/

namespace MiniTriangle

open Alphabet

/-- The lexemes of a text, each as long as it can be, and the separators before, between and after them. -/
inductive Layout : List Char → List (List Char) → List (List Char) → Prop where
  | blank {text : List Char} (separates : Separator text) : Layout text [] [text]
  | lexeme {separator lexeme rest : List Char} {kind : Kind} {value : Atom} {lexemes separators : List (List Char)}
      (separates : Separator separator) (spelled : Lexeme lexeme kind value)
      (longest : ∀ c ∈ rest.head?, kind.continues c = false) (more : Layout rest lexemes separators) :
      Layout (separator ++ lexeme ++ rest) (lexeme :: lexemes) (separator :: separators)

def laidOut : List (List Char) → List (List Char) → List Char
  | [], separators => separators.flatten
  | lexeme :: lexemes, separators => separators.headD [] ++ lexeme ++ laidOut lexemes separators.tail

/-- A separator that may take the place of another. It is not left out where there was one. -/
structure Respaces (old new : List Char) : Prop where
  separates : Separator new
  kept : old ≠ [] → new ≠ []

theorem Layout.of_cut {start : Nat} {text : List Char} {tokens : List Token} (cut : Cut start text tokens) :
    ∃ lexemes separators, Layout text lexemes separators := by
  induction cut with
  | done blank => exact ⟨[], _, .blank blank⟩
  | token blank spelled longest _ ih =>
    obtain ⟨lexemes, separators, more⟩ := ih
    exact ⟨_, _, .lexeme blank spelled longest more⟩

/-- No token goes on with a character that starts a separator. -/
theorem Separator.not_continues {separator : List Char} (separates : Separator separator) (kind : Kind) :
    ∀ c ∈ separator.head?, kind.continues c = false := by
  intro c first
  have opens : isSpace c = true ∨ c = '!' := by
    cases separates with
    | empty => cases first
    | space blank _ =>
      cases first
      exact .inl blank
    | comment _ _ =>
      cases first
      exact .inr rfl
  have classes : isDigit c = false ∧ c ≠ '=' ∧ isAlphanumeric c = false := by
    rcases opens with blank | rfl
    · have visible (class_ : Char → Bool) (apart : class_ c = true → isSpace c = false) : class_ c = false := by
        apply Bool.eq_false_iff.mpr
        intro inside
        rw [apart inside] at blank
        cases blank
      refine ⟨visible _ not_space_of_isDigit, ?_, visible _ not_space_of_isAlphanumeric⟩
      rintro rfl
      exact absurd blank (by decide)
    · exact ⟨by decide, by decide, by decide +kernel⟩
  obtain ⟨digit, equals, alphanumeric⟩ := classes
  cases kind <;> simp [Kind.continues, digit, equals, alphanumeric]

section

variable {text : List Char} {lexemes separators others : List (List Char)}

/-- A token that stops before a text stops before it in another layout too. -/
theorem Layout.longest_respaced (layout : Layout text lexemes separators) (respaced : List.Forall₂ Respaces separators others)
    {kind : Kind} (longest : ∀ c ∈ text.head?, kind.continues c = false) :
    ∀ c ∈ (laidOut lexemes others).head?, kind.continues c = false := by
  cases layout with
  | blank separates =>
    obtain ⟨new, rest, replaced, nothing, rfl⟩ := List.forall₂_cons_left_iff.mp respaced
    cases nothing
    rw [laidOut, List.flatten_singleton]
    exact replaced.separates.not_continues kind
  | @lexeme separator lexeme rest _ _ _ _ _ spelled _ _ =>
    obtain ⟨new, others, replaced, _, rfl⟩ := List.forall₂_cons_left_iff.mp respaced
    obtain ⟨first, inner, rfl, _⟩ := Scan.lexeme_starts spelled
    rw [laidOut, List.headD_cons, List.tail_cons]
    cases new with
    | nil =>
      -- Nothing stands before the lexeme in the text either.
      have empty : separator = [] := Classical.byContradiction fun some => replaced.kept some rfl
      rw [empty] at longest
      exact longest
    | cons c new => exact replaced.separates.not_continues kind

/-- In another layout a text is cut into the same tokens at other positions. -/
theorem Layout.cut_respaced (layout : Layout text lexemes separators) (respaced : List.Forall₂ Respaces separators others)
    (start otherStart : Nat) : ∃ tokens moved, Cut start text tokens ∧ Cut otherStart (laidOut lexemes others) moved ∧
      moved.map Token.unplaced = tokens.map Token.unplaced := by
  induction layout generalizing others start otherStart with
  | blank separates =>
    obtain ⟨new, rest, replaced, nothing, rfl⟩ := List.forall₂_cons_left_iff.mp respaced
    cases nothing
    rw [laidOut, List.flatten_singleton]
    exact ⟨[], [], .done separates, .done replaced.separates, rfl⟩
  | @lexeme separator lexeme rest kind value lexemes separators separates spelled longest more ih =>
    obtain ⟨new, others, replaced, later, rfl⟩ := List.forall₂_cons_left_iff.mp respaced
    obtain ⟨tokens, moved, cut, otherCut, same⟩ :=
      ih later (start + separator.length + lexeme.length) (otherStart + new.length + lexeme.length)
    refine ⟨_, _, .token separates spelled longest cut,
      .token replaced.separates spelled (more.longest_respaced later longest) otherCut, ?_⟩
    rw [List.map_cons, List.map_cons, same]
    rfl

end

def Failure.unplaced : Failure → Failure
  | .parsing cause => .parsing cause.unplaced
  | other => other

/-- The streams of tokens that differ in their positions, and what the parser makes of them. -/
theorem Parse.program_respaced {tokens moved : List Token} (same : moved.map Token.unplaced = tokens.map Token.unplaced)
    (some : tokens ≠ []) : ∃ start otherStart, Stream.ofTokens? tokens = .some start ∧
      Stream.ofTokens? moved = .some otherStart ∧
      Parse.unplaced (Rule.program.parse otherStart) = Parse.unplaced (Rule.program.parse start) := by
  cases tokens with
  | nil => exact absurd rfl some
  | cons token tokens =>
    cases moved with
    | nil => cases same
    | cons other moved =>
      obtain ⟨first, rest⟩ := List.cons.inj same
      refine ⟨⟨token, tokens, 0⟩, ⟨other, moved, 0⟩, rfl, rfl, ?_⟩
      have streams : (⟨other, moved, 0⟩ : Stream).unplaced = (⟨token, tokens, 0⟩ : Stream).unplaced := by
        simp only [Stream.unplaced, first, rest]
      calc Parse.unplaced (Parse.program ⟨other, moved, 0⟩)
          _ = Parse.program (⟨other, moved, 0⟩ : Stream).unplaced := (Rule.program.blind _).symm
          _ = Parse.program (⟨token, tokens, 0⟩ : Stream).unplaced := by rw [streams]
          _ = Parse.unplaced (Parse.program ⟨token, tokens, 0⟩) := Rule.program.blind _

/-- The trees and the failures of programs whose tokens differ in their positions. -/
theorem parseProgram_respaced {tokens moved : List Token} (same : moved.map Token.unplaced = tokens.map Token.unplaced)
    (some : tokens ≠ []) :
    (parseProgram moved).mapError ParseError.unplaced = (parseProgram tokens).mapError ParseError.unplaced := by
  obtain ⟨start, otherStart, starts, otherStarts, parsed⟩ := Parse.program_respaced same some
  simp only [parseProgram, Rule.parseTokens, starts, otherStarts]
  cases ran : Rule.program.parse start with
  | ok tree final =>
    cases otherRan : Rule.program.parse otherStart with
    | ok otherTree otherFinal =>
      rw [ran, otherRan] at parsed
      obtain ⟨sameTree, _⟩ := EStateM.Result.ok.inj parsed
      rw [sameTree]
    | error otherCause otherFinal =>
      rw [ran, otherRan] at parsed
      nomatch parsed
  | error cause final =>
    cases otherRan : Rule.program.parse otherStart with
    | ok otherTree otherFinal =>
      rw [ran, otherRan] at parsed
      nomatch parsed
    | error otherCause otherFinal =>
      rw [ran, otherRan] at parsed
      obtain ⟨sameCause, _⟩ := EStateM.Result.error.inj parsed
      exact congrArg Except.error sameCause

/-- What is said about two tokens that differ in their positions differs in these. -/
theorem ParseError.message?_respaced {token other : Token} (same : other.unplaced = token.unplaced) :
    ∃ words : Option String,
      (ParseError.unexpected token).message? = words.map (· ++ Text.decimal token.position ++ ")") ∧
      (ParseError.unexpected other).message? = words.map (· ++ Text.decimal other.position ++ ")") := by
  obtain ⟨sameKind, sameValue, _⟩ := Token.mk.inj same
  refine ⟨token.kind.name?.map fun name => "(Found bad token " ++ name ++ "(" ++ token.value.render ++ ") at ", ?_, ?_⟩
  · rw [Option.map_map]
    rfl
  · rw [Option.map_map, ← sameKind, ← sameValue]
    rfl

theorem compileTokens_respaced {tokens moved : List Token} (same : moved.map Token.unplaced = tokens.map Token.unplaced)
    (some : tokens ≠ []) :
    (compileTokens moved).mapError Failure.unplaced = (compileTokens tokens).mapError Failure.unplaced := by
  have parsed := parseProgram_respaced same some
  simp only [compileTokens]
  cases ran : parseProgram tokens with
  | ok tree =>
    cases otherRan : parseProgram moved with
    | ok otherTree =>
      rw [ran, otherRan] at parsed
      rw [Except.ok.inj parsed]
    | error otherCause =>
      rw [ran, otherRan] at parsed
      nomatch parsed
  | error cause =>
    cases otherRan : parseProgram moved with
    | ok otherTree =>
      rw [ran, otherRan] at parsed
      nomatch parsed
    | error otherCause =>
      rw [ran, otherRan] at parsed
      exact congrArg (fun cause => Except.error (Failure.parsing cause)) (Except.error.inj parsed)

/-- The same comes of two texts, but for the positions of their tokens. -/
structure SameOutcome (text other : String) (tokens moved : List Token) : Prop where
  /-- The other text is scanned as well, -/
  scanned : Token.ofText other = .ok moved
  /-- into tokens of the same kinds and values. -/
  sameTokens : moved.map Token.unplaced = tokens.map Token.unplaced
  /-- The parser answers the same tree or fails in the same way, and stops at the same index. -/
  parsed : ∃ start otherStart, Stream.ofTokens? tokens = some start ∧ Stream.ofTokens? moved = some otherStart ∧
    Parse.unplaced (Rule.program.parse otherStart) = Parse.unplaced (Rule.program.parse start)
  /-- It reports the same up to a position. -/
  reported : ∀ token otherToken, parseProgram tokens = .error (.unexpected token) →
    parseProgram moved = .error (.unexpected otherToken) → ∃ words : Option String,
      (ParseError.unexpected token).message? = words.map (· ++ Text.decimal token.position ++ ")") ∧
      (ParseError.unexpected otherToken).message? = words.map (· ++ Text.decimal otherToken.position ++ ")")
  /-- The code and the state at the end are the same, or the failure is. -/
  compiled : (compile other).mapError Failure.unplaced = (compile text).mapError Failure.unplaced

/-- A text that is scanned has lexemes and separators around them, and in every other layout the same comes of it. -/
theorem outcome_of_layout {text : String} {tokens : List Token} (scanned : Token.ofText text = .ok tokens) :
    (∃ lexemes separators, Layout text.toList lexemes separators) ∧
      ∀ lexemes separators others, Layout text.toList lexemes separators → List.Forall₂ Respaces separators others →
        ∃ moved, SameOutcome text (String.ofList (laidOut lexemes others)) tokens moved := by
  constructor
  · obtain ⟨body, _, _, cut⟩ := Scan.ofText_sound scanned
    exact Layout.of_cut cut
  · intro lexemes separators others layout respaced
    obtain ⟨body, moved, cut, otherCut, sameBody⟩ := layout.cut_respaced respaced 0 0
    have tokensAre := Except.ok.inj (scanned.symm.trans (Scan.ofText_complete cut))
    have some : tokens ≠ [] := by simp [tokensAre]
    rw [← String.toList_ofList (l := laidOut lexemes others)] at otherCut
    obtain ⟨shifted, otherScanned, same⟩ : ∃ shifted, Token.ofText (String.ofList (laidOut lexemes others)) = .ok shifted ∧
        shifted.map Token.unplaced = tokens.map Token.unplaced := by
      refine ⟨_, Scan.ofText_complete otherCut, ?_⟩
      rw [tokensAre, List.map_append, List.map_append, sameBody]
      rfl
    refine ⟨shifted, otherScanned, same, Parse.program_respaced same some, ?_, ?_⟩
    · intro token otherToken failed otherFailed
      have causes := parseProgram_respaced same some
      rw [failed, otherFailed] at causes
      exact ParseError.message?_respaced (ParseError.unexpected.inj (Except.error.inj causes))
    · simp only [compile, scanned, otherScanned]
      exact compileTokens_respaced same some

def returnedAtOnce : String := "let in return 1;"

def returnedAtOnceLexemes : List (List Char) := ["let".toList, "in".toList, "return".toList, ['1'], [';']]

/-- On several lines and with a comment it is the same program, and compiles to the same code. -/
theorem returnedAtOnce_respaced : (compile returnedAtOnce).isOk = true ∧
    ∃ moved, SameOutcome returnedAtOnce "let\n in return ! at once\n 1;\n"
      [.plain .kwLet 0, .plain .kwIn 4, .plain .kwReturn 7, ⟨.integer, .number 1, 14⟩, .plain .semicolon 15,
        .plain .endOfText 16] moved := by
  have keyword (first : Char) (rest : List Char) (kind : Kind) (letter : isLetter first = true)
      (others : rest.all isAlphanumeric = true) (listed : (String.ofList (first :: rest), kind) ∈ keywords) :
      Lexeme (first :: rest) kind (.number 0) :=
    .keyword ⟨first, rest, rfl, letter, List.all_eq_true.mp others⟩ listed
  have one : Lexeme ['1'] .integer (.number 1) :=
    @Lexeme.integer ['1'] [1] (by decide) (List.forall_mem_singleton.mpr (by decide)) (by decide)
  have semicolon : Lexeme [';'] .semicolon (.number 0) := .mark (by decide)
  have space {rest : List Char} (more : Separator rest) : Separator (' ' :: rest) := .space (by decide) more
  have newline {rest : List Char} (more : Separator rest) : Separator ('\n' :: rest) := .space (by decide) more
  have comment : Separator "! at once\n ".toList :=
    @Separator.comment " at once".toList [' '] (by decide) (space .empty)
  have layout : Layout (laidOut returnedAtOnceLexemes [[], [' '], [' '], [' '], [], []]) returnedAtOnceLexemes
      [[], [' '], [' '], [' '], [], []] := by
    refine .lexeme .empty (keyword 'l' _ .kwLet (by decide +kernel) (by decide +kernel) (by decide)) ?_ ?_
    · exact (space .empty).not_continues _
    refine .lexeme (space .empty) (keyword 'i' _ .kwIn (by decide +kernel) (by decide +kernel) (by decide)) ?_ ?_
    · exact (space .empty).not_continues _
    refine .lexeme (space .empty) (keyword 'r' _ .kwReturn (by decide +kernel) (by decide +kernel) (by decide)) ?_ ?_
    · exact (space .empty).not_continues _
    refine .lexeme (space .empty) one ?_ (.lexeme .empty semicolon (fun _ _ => rfl) (.blank .empty))
    rintro c ⟨⟩
    decide
  have respaced : List.Forall₂ Respaces [[], [' '], [' '], [' '], [], []]
      [[], "\n ".toList, [' '], " ! at once\n ".toList, [], ['\n']] :=
    .cons ⟨.empty, id⟩ (.cons ⟨newline (space .empty), by decide⟩ (.cons ⟨space .empty, id⟩ (.cons ⟨space comment, by decide⟩
      (.cons ⟨.empty, id⟩ (.cons ⟨newline .empty, by decide⟩ .nil)))))
  have scanned : Token.ofText returnedAtOnce = .ok [.plain .kwLet 0, .plain .kwIn 4, .plain .kwReturn 7,
      ⟨.integer, .number 1, 14⟩, .plain .semicolon 15, .plain .endOfText 16] := by decide +kernel
  exact ⟨by decide +kernel, (outcome_of_layout scanned).2 _ _ _ layout respaced⟩

end MiniTriangle
