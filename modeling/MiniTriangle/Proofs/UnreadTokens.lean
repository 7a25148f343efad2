import MiniTriangle.Proofs.ParserExactness
import MiniTriangle.Proofs.Tokenisation

/-! What the parser leaves unread. It stops at the end of the first block, which no other block goes on from, and asks
nothing of the tokens after it. So a text is read to its end exactly if it is one block and nothing else. -/

namespace MiniTriangle

open Parse

/-- A block does not go on where another one ends. -/
theorem Derives.block_unextended {row rest : List Token} {short long : Tree} (first : Derives .block row short)
    (second : Derives .block (row ++ rest) long) (inside : ∀ token ∈ row ++ rest, token.kind ≠ .endOfText) : rest = [] := by
  cases rest with
  | nil => rfl
  | cons next more =>
    -- On the longer block and one more token, the parser would have to stop at two places.
    have within : ∀ token ∈ row, token.kind ≠ .endOfText := fun token member => inside token (List.mem_append_left _ member)
    have early := parseTokens_block first within next (more ++ [.plain .endOfText 0])
    have late := parseTokens_block second inside (.plain .endOfText 0) []
    rw [List.append_assoc, List.cons_append, early] at late
    injection late with same
    injection same with _ stopped
    injection stopped with _ _ indices
    rw [List.length_append, List.length_cons] at indices
    omega

/-- A program that is parsed is a block at the start of the tokens, and the stream after it is at the next token. -/
theorem block_of_parsed {tokens : List Token} (once : EndsOnce tokens) {tree : Tree} {final : Stream}
    (parsed : Rule.program.parseTokens tokens = .ok (tree, final)) :
    ∃ command row, tree = .program command ∧ Derives .block row command ∧ (∀ token ∈ row, token.kind ≠ .endOfText) ∧
      tokens = row ++ final.current :: final.ahead ∧ final.index = row.length := by
  obtain ⟨command, row, rest, treeIs, split, index, derived⟩ := parseTokens_reads parsed
  have whole : tokens.take row.length = row := by rw [split, List.take_left]
  obtain ⟨shorter, inside⟩ := @block_inside tokens once row.length command (by rwa [whole])
  rw [whole] at inside
  cases rest with
  | nil =>
    rw [split, List.append_nil] at shorter
    omega
  | cons next more =>
    have stops := parseTokens_block derived inside next more
    rw [← split, parsed] at stops
    injection stops with same
    injection same with _ stopped
    rw [stopped]
    exact ⟨command, row, treeIs, derived, inside, split, rfl⟩

/-- What comes before the last of some tokens, if a part of it is known. -/
private theorem split_before_last {body row more : List Token} {last next : Token}
    (same : body ++ [last] = row ++ next :: more) : ∃ rest, body = row ++ rest ∧ next :: more = rest ++ [last] := by
  rcases List.append_eq_append_iff.mp same with ⟨part, rowIs, lastIs⟩ | ⟨rest, bodyIs, moreIs⟩
  · cases part with
    | nil => exact ⟨[], by simpa using rowIs.symm, lastIs.symm⟩
    | cons token others => simp at lastIs
  · exact ⟨rest, bodyIs, moreIs⟩

/-- The parser of a text stops at the end of the text exactly if the tokens before it are one block. Whatever stands in
place of the tokens that it leaves unread, it answers the same tree and stops at the same place. -/
theorem read_to_end_iff {text : String} {tokens : List Token} {tree : Tree} {final : Stream}
    (scanned : Token.ofText text = .ok tokens) (parsed : Rule.program.parseTokens tokens = .ok (tree, final)) :
    (final.current.kind = .endOfText ↔ final.index = tokens.length - 1) ∧
      (final.index = tokens.length - 1 ↔ ∃ command, Derives .block tokens.dropLast command) ∧
      ∀ next more, Rule.program.parseTokens (tokens.take final.index ++ next :: more) =
        .ok (tree, ⟨next, more, final.index⟩) := by
  obtain ⟨body, tokensAre, unended, _⟩ := Scan.ofText_sound scanned
  have once : EndsOnce tokens := ⟨body, _, tokensAre, rfl, unended⟩
  obtain ⟨command, row, treeIs, derived, inside, split, index⟩ := block_of_parsed once parsed
  obtain ⟨rest, bodyIs, unread⟩ := split_before_last (tokensAre.symm.trans split)
  have toEnd : final.index = tokens.length - 1 ↔ rest = [] := by
    rw [index, tokensAre, bodyIs, ← List.length_eq_zero_iff]
    simp only [List.length_append, List.length_singleton]
    omega
  refine ⟨?_, ?_, ?_⟩
  · rw [toEnd]
    cases rest with
    | nil =>
      obtain ⟨current, _⟩ := List.cons.inj unread
      simp [current, Token.plain]
    | cons token others =>
      obtain ⟨current, _⟩ := List.cons.inj unread
      have member : final.current ∈ body := by simp [bodyIs, current]
      simp [unended _ member]
  · rw [toEnd, tokensAre, List.dropLast_concat]
    rw [bodyIs] at unended ⊢
    constructor
    · intro empty
      rw [empty, List.append_nil]
      exact ⟨command, derived⟩
    · rintro ⟨other, whole⟩
      exact derived.block_unextended whole unended
  · intro next more
    rw [index, split, List.take_left, treeIs]
    exact parseTokens_block derived inside next more

/-- Assigns a variable and, as if in a second command, prints it. -/
def printedAfter : String := "let var x: Integer; in x := 1; putint(x);"

def printedAfterTokens : List Token :=
  [.plain .kwLet 0, .plain .kwVar 4, ⟨.identifier, .text "x", 8⟩, .plain .colon 9, ⟨.identifier, .text "Integer", 11⟩,
   .plain .semicolon 18, .plain .kwIn 20, ⟨.identifier, .text "x", 23⟩, .plain .becomes 25, ⟨.integer, .number 1, 28⟩,
   .plain .semicolon 29, ⟨.identifier, .text "putint", 31⟩, .plain .leftParen 37, ⟨.identifier, .text "x", 38⟩,
   .plain .rightParen 39, .plain .semicolon 40, .plain .endOfText 41]

def assignedOnly : Tree :=
  .program (.letIn (.declarations (.varDecl (.text "x") (.typeName (.text "Integer"))) .absent)
    (.assign (.name (.text "x")) (.integer (.number 1))))

/-- The second command is dropped without a word, as would be anything in its place. -/
theorem printedAfter_unread : Token.ofText printedAfter = .ok printedAfterTokens ∧
    (∀ next more, Rule.program.parseTokens (printedAfterTokens.take 11 ++ next :: more) = .ok (assignedOnly, ⟨next, more, 11⟩)) ∧
    ¬ ∃ command, Derives .block printedAfterTokens.dropLast command := by
  have scanned : Token.ofText printedAfter = .ok printedAfterTokens := by decide +kernel
  have parsed : Rule.program.parseTokens printedAfterTokens =
      .ok (assignedOnly, ⟨⟨.identifier, .text "putint", 31⟩, printedAfterTokens.drop 12, 11⟩) := by decide +kernel
  obtain ⟨_, toEnd, ignored⟩ := read_to_end_iff scanned parsed
  refine ⟨scanned, ignored, ?_⟩
  rw [← toEnd]
  decide

end MiniTriangle
