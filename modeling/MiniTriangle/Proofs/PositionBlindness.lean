import MiniTriangle.Proofs.RuleComposition
import MiniTriangle.Proofs.StreamSteps

/-! The positions of tokens do not matter to the parser. Without them it takes the same steps, answers the same tree and
stops at the same place; only the token that a failure names has lost its position. -/

namespace MiniTriangle

open Sequencing

def Stream.unplaced (stream : Stream) : Stream := ⟨stream.current.unplaced, stream.ahead.map Token.unplaced, stream.index⟩

def ParseError.unplaced : ParseError → ParseError
  | .unexpected token => .unexpected token.unplaced
  | .noToken => .noToken
  | .endless => .endless

namespace Parse

def unplaced {α : Type} : EStateM.Result ParseError Stream α → EStateM.Result ParseError Stream α
  | .ok value stream => .ok value stream.unplaced
  | .error cause stream => .error cause.unplaced stream.unplaced

def Blind {α : Type} (parser : Parse α) : Prop := ∀ stream, parser stream.unplaced = unplaced (parser stream)

namespace Blind

variable {α β : Type}

theorem bind {first : Parse α} {next : α → Parse β} (blind : Blind first) (rest : ∀ value, Blind (next value)) :
    Blind (first >>= next) := by
  intro stream
  have begun := blind stream
  cases ran : first stream with
  | ok value middle =>
    rw [ran] at begun
    rw [bind_ok ran, bind_ok begun]
    exact rest value middle
  | error cause middle =>
    rw [ran] at begun
    rw [bind_error ran, bind_error begun]
    rfl

/-- What follows may look at the kind and the value of the current token, but not at its position. -/
theorem current_then {next : Token → Parse α} (rest : ∀ token, Blind (next token))
    (unseen : ∀ token, next token.unplaced = next token) : Blind (current >>= next) := by
  intro stream
  rw [current_bind, current_bind]
  show next stream.current.unplaced stream.unplaced = _
  rw [unseen]
  exact rest stream.current stream

theorem lookahead_then {next : Token → Parse α} (rest : ∀ token, Blind (next token))
    (unseen : ∀ token, next token.unplaced = next token) : Blind (lookahead >>= next) := by
  intro stream
  obtain ⟨current, ahead, index⟩ := stream
  cases ahead with
  | nil => rfl
  | cons token others =>
    show next token.unplaced (Stream.unplaced ⟨current, token :: others, index⟩) = _
    rw [unseen]
    exact rest token ⟨current, token :: others, index⟩

theorem advance : Blind Parse.advance := by
  intro stream
  have sameKind : stream.unplaced.current.kind = stream.current.kind := rfl
  unfold Parse.advance
  rw [get_bind, get_bind]
  by_cases ended : stream.current.kind = .endOfText
  · rw [if_pos ended, if_pos (sameKind.trans ended)]
    rfl
  · rw [if_neg ended, if_neg (sameKind ▸ ended)]
    obtain ⟨current, ahead, index⟩ := stream
    cases ahead with
    | nil => rfl
    | cons token others => rfl

/-- The bound on the steps is taken from the number of tokens. -/
theorem bounded {parser : Nat → Parse α} (blind : ∀ bound, Blind (parser bound)) : Blind (Parse.bounded parser) := by
  intro stream
  show parser (4 * ((stream.ahead.map Token.unplaced).length + 1)) stream.unplaced = unplaced (Parse.bounded parser stream)
  rw [List.length_map]
  exact blind _ stream

end Blind

theorem blind_composes : Composes fun _ _ _ _ parser _ => Blind parser where
  ample blind _ _ := blind
  endless _ _ := rfl
  deeper blind := blind
  bounded := .bounded
  pure _ _ := rfl
  reject _ := rfl
  bind := .bind
  current := .current_then
  lookahead := .lookahead_then
  advance := .advance
  pass _ := .advance

end Parse

theorem Rule.blind (rule : Rule) : Parse.Blind rule.parse := rule.parse_holds Parse.blind_composes 0

end MiniTriangle
