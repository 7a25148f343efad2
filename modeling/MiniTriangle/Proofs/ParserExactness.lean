import MiniTriangle.Grammar.Rule
import MiniTriangle.Proofs.ParserCompleteness

/-! The parser recognises exactly its grammar: on a row of tokens that the end of the text closes, it stops
after a number of tokens with a tree if and only if these tokens are a program of the grammar with that tree. -/

namespace MiniTriangle

open Sequencing

/-- The last token ends the text, and no other does. -/
def EndsOnce (tokens : List Token) : Prop :=
  ∃ body last, tokens = body ++ [last] ∧ last.kind = .endOfText ∧ ∀ token ∈ body, token.kind ≠ .endOfText

namespace Parse

/-- A block ends with a semicolon or with the word that closes it. -/
theorem derives_last {phrase : Phrase} {row : List Token} {tree : Tree} (derived : Derives phrase row tree)
    (whole : phrase = .block ∨ phrase = .single) :
    ∃ front last, row = front ++ [last] ∧ (last.kind = .semicolon ∨ last.kind = .kwEnd) := by
  induction derived with
  | @conditional i t e test yes no _ _ _ _ _ _ _ _ _ _ _ ih =>
    obtain ⟨front, last, rfl, closes⟩ := ih (by simp)
    exact ⟨i :: (test ++ t :: (yes ++ e :: front)), last, by simp, closes⟩
  | @loop w d test body _ _ _ _ _ _ _ ih =>
    obtain ⟨front, last, rfl, closes⟩ := ih (by simp)
    exact ⟨w :: (test ++ d :: front), last, by simp, closes⟩
  | @scope l i declared body _ _ _ _ _ _ _ ih =>
    obtain ⟨front, last, rfl, closes⟩ := ih (by simp)
    exact ⟨l :: (declared ++ i :: front), last, by simp, closes⟩
  | @compound b e body _ _ _ closes => exact ⟨b :: body, e, rfl, .inr closes⟩
  | singleBlock _ ih => exact ih (by simp)
  | singleSimple _ _ closes => exact ⟨_, _, rfl, .inl closes⟩
  | _ => simp at whole

theorem program_reads {stream final : Stream} {tree : Tree} (ran : program stream = .ok tree final) :
    ∃ command row, tree = .program command ∧ Passes stream row final ∧ Derives .block row command := by
  obtain ⟨command, middle, blockRan, ran⟩ := bind_eq_ok.mp ran
  cases ran
  obtain ⟨row, moved, derived⟩ := reads_block blockRan
  exact ⟨command, row, rfl, moved, derived⟩

theorem parseTokens_reads {tokens : List Token} {tree : Tree} {final : Stream}
    (parsed : Rule.program.parseTokens tokens = .ok (tree, final)) :
    ∃ command row rest, tree = .program command ∧ tokens = row ++ rest ∧ final.index = row.length ∧
      Derives .block row command := by
  cases tokens with
  | nil => cases parsed
  | cons first rest =>
    cases ran : program ⟨first, rest, 0⟩ with
    | error cause stream =>
      simp only [Rule.parseTokens, Stream.ofTokens?, Rule.parse, ran] at parsed
      cases parsed
    | ok answer stream =>
      simp only [Rule.parseTokens, Stream.ofTokens?, Rule.parse, ran] at parsed
      cases parsed
      obtain ⟨command, row, same, moved, derived⟩ := program_reads ran
      obtain ⟨split, index⟩ := moved.row
      exact ⟨command, row, final.current :: final.ahead, same, split, by simpa using index, derived⟩

theorem program_found {stream final : Stream} {row : List Token} {command : Tree} (derived : Derives .block row command)
    (moved : Passes stream row final) : program stream = .ok (.program command) final := by
  have shorter := moved.length_le
  have found : block stream = .ok command final := found_of_derives derived moved (by omega)
  exact bind_ok found

/-- A block is parsed up to the token after it, whatever that token is and whatever follows. -/
theorem parseTokens_block {row : List Token} {command : Tree} (derived : Derives .block row command)
    (inside : ∀ token ∈ row, token.kind ≠ .endOfText) (next : Token) (more : List Token) :
    Rule.program.parseTokens (row ++ next :: more) = .ok (.program command, ⟨next, more, row.length⟩) := by
  obtain ⟨first, others, rfl, _⟩ := derives_block_head derived
  have moved := Passes.of_row inside next more 0 (rfl : first :: (others ++ next :: more) = first :: others ++ next :: more)
  rw [Nat.zero_add] at moved
  rw [List.cons_append, Rule.parseTokens, Stream.ofTokens?]
  simp only [Rule.parse, program_found derived moved]

end Parse

theorem block_inside {tokens : List Token} (once : EndsOnce tokens) {n : Nat} {command : Tree}
    (derived : Derives .block (tokens.take n) command) :
    n < tokens.length ∧ ∀ token ∈ tokens.take n, token.kind ≠ .endOfText := by
  obtain ⟨body, last, rfl, ends, inside⟩ := once
  have shorter : n ≤ body.length := by
    apply Classical.byContradiction
    intro beyond
    obtain ⟨front, final, same, closes⟩ := Parse.derives_last derived (.inl rfl)
    rw [List.take_of_length_le (by simp; omega)] at same
    have equal := List.append_inj_right' same rfl
    cases equal
    rw [ends] at closes
    rcases closes with kind | kind <;> cases kind
  refine ⟨by simp; omega, ?_⟩
  intro token member
  rw [List.take_append_of_le_length shorter] at member
  exact inside token (List.mem_of_mem_take member)

/-- On a row of tokens whose only end of text is the last one, parsing a program answers a tree and stops at a
token exactly if the tokens before that one are a block of the grammar with that tree. -/
theorem parses_iff_derives {tokens : List Token} (once : EndsOnce tokens) (n : Nat) (tree : Tree) :
    (∃ stream, Rule.program.parseTokens tokens = .ok (tree, stream) ∧ stream.index = n) ↔
      ∃ command, tree = .program command ∧ Derives .block (tokens.take n) command := by
  constructor
  · intro ⟨final, parsed, stops⟩
    obtain ⟨command, row, rest, same, split, index, derived⟩ := Parse.parseTokens_reads parsed
    refine ⟨command, same, ?_⟩
    rw [split, ← stops, index, List.take_left]
    exact derived
  · intro ⟨command, same, derived⟩
    obtain ⟨shorter, inside⟩ := block_inside once derived
    cases tokens with
    | nil => simp at shorter
    | cons first rest =>
      have more : (first :: rest).drop n ≠ [] := by
        intro empty
        have beyond := List.drop_eq_nil_iff.mp empty
        omega
      obtain ⟨last, ahead, dropped⟩ := List.exists_cons_of_ne_nil more
      have split : first :: rest = (first :: rest).take n ++ last :: ahead := by
        rw [← dropped, List.take_append_drop]
      have moved := Passes.of_row inside last ahead 0 split
      refine ⟨⟨last, ahead, 0 + ((first :: rest).take n).length⟩, ?_, ?_⟩
      · rw [Rule.parseTokens, Stream.ofTokens?]
        simp only [Rule.parse, Parse.program_found derived moved, same]
      · simp only [List.length_take]
        omega

/-- The tokens of `begin return x; end`, and two more that no program needs. -/
def returningBlock : List Token :=
  [⟨.kwBegin, .number 0, 0⟩, ⟨.kwReturn, .number 0, 6⟩, ⟨.identifier, .text "x", 13⟩, ⟨.semicolon, .number 0, 14⟩,
   ⟨.kwEnd, .number 0, 16⟩, ⟨.comma, .number 0, 19⟩, ⟨.comma, .number 0, 20⟩, ⟨.endOfText, .number 0, 21⟩]

theorem returningBlock_derived :
    EndsOnce returningBlock ∧
      ∃ command, Tree.program (.returns (.reference (.name (.text "x")))) = .program command ∧
        Derives .block (returningBlock.take 5) command := by
  have once : EndsOnce returningBlock := ⟨returningBlock.take 7, ⟨.endOfText, .number 0, 21⟩, rfl, rfl, by decide⟩
  exact ⟨once, (parses_iff_derives once 5 _).mp ⟨_, rfl, rfl⟩⟩

end MiniTriangle
