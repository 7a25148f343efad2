import MiniTriangle.Grammar.Stream
import MiniTriangle.Proofs.Sequencing

/-! Movement along a row of tokens. A stream passes tokens one at a time and never passes the end of the
text; the steps of the parser are described by what they pass. -/

namespace MiniTriangle

open Sequencing

/-- The tokens between two places of a stream, none of which ends the text. -/
inductive Passes : Stream → List Token → Stream → Prop where
  | none {stream : Stream} : Passes stream [] stream
  | step {current next : Token} {ahead passed : List Token} {index : Nat} {final : Stream}
      (inside : current.kind ≠ .endOfText) (rest : Passes ⟨next, ahead, index + 1⟩ passed final) :
      Passes ⟨current, next :: ahead, index⟩ (current :: passed) final

namespace Passes

theorem trans {start middle final : Stream} {first second : List Token}
    (before : Passes start first middle) (after : Passes middle second final) :
    Passes start (first ++ second) final := by
  induction before with
  | none => exact after
  | step inside _ ih => exact .step inside (ih after)

theorem split {start final : Stream} {first second : List Token} (passed : Passes start (first ++ second) final) :
    ∃ middle, Passes start first middle ∧ Passes middle second final := by
  induction first generalizing start with
  | nil => exact ⟨start, .none, passed⟩
  | cons token first ih =>
    cases passed with
    | step inside rest =>
      obtain ⟨middle, before, after⟩ := ih rest
      exact ⟨middle, .step inside before, after⟩

theorem inside {start final : Stream} {passed : List Token} (moved : Passes start passed final)
    (stops : final.current.kind ≠ .endOfText) : start.current.kind ≠ .endOfText := by
  cases moved with
  | none => exact stops
  | step open_ _ => exact open_

/-- The tokens passed and those left make up the row, and the index counts the tokens passed. -/
theorem row {start final : Stream} {passed : List Token} (moved : Passes start passed final) :
    start.current :: start.ahead = passed ++ final.current :: final.ahead ∧
      final.index = start.index + passed.length := by
  induction moved with
  | none => exact ⟨rfl, rfl⟩
  | step inside rest ih =>
    refine ⟨congrArg (_ :: ·) ih.1, ?_⟩
    rw [ih.2, List.length_cons]
    dsimp only
    omega

theorem tokens_inside {start final : Stream} {passed : List Token} (moved : Passes start passed final) :
    ∀ token ∈ passed, token.kind ≠ .endOfText := by
  induction moved with
  | none => simp
  | step inside _ ih => exact List.forall_mem_cons.mpr ⟨inside, ih⟩

/-- Two places of a stream have one row of tokens between them. -/
theorem same_row {start final : Stream} {passed other : List Token} (moved : Passes start passed final)
    (again : Passes start other final) : passed = other :=
  List.append_cancel_right (moved.row.1.symm.trans again.row.1)

theorem length_le {start final : Stream} {passed : List Token} (moved : Passes start passed final) :
    passed.length ≤ start.ahead.length := by
  have lengths := congrArg List.length moved.row.1
  simp only [List.length_cons, List.length_append] at lengths
  omega

theorem of_row {passed : List Token} (inside : ∀ token ∈ passed, token.kind ≠ .endOfText) (last : Token)
    (ahead : List Token) (index : Nat) {current : Token} {others : List Token}
    (same : current :: others = passed ++ last :: ahead) :
    Passes ⟨current, others, index⟩ passed ⟨last, ahead, index + passed.length⟩ := by
  induction passed generalizing current others index with
  | nil =>
    cases same
    exact .none
  | cons token passed ih =>
    obtain ⟨first, later⟩ := List.forall_mem_cons.mp inside
    simp only [List.cons_append, List.cons.injEq] at same
    obtain ⟨rfl, same⟩ := same
    cases others with
    | nil => simp at same
    | cons next rest =>
      have moved := ih later (index + 1) same
      rw [show index + (current :: passed).length = index + 1 + passed.length by simp; omega]
      exact .step first moved

end Passes

namespace Parse

theorem current_bind {α : Type} (next : Token → Parse α) (stream : Stream) :
    (current >>= next) stream = next stream.current stream := rfl

theorem reject_ne_ok {α : Type} {stream final : Stream} {result : α} : (reject : Parse α) stream ≠ .ok result final := by
  intro ran
  cases ran

theorem lookahead_eq_ok {stream final : Stream} {token : Token} :
    lookahead stream = .ok token final ↔ stream.ahead.head? = some token ∧ final = stream := by
  obtain ⟨current, ahead, index⟩ := stream
  cases ahead with
  | nil =>
    constructor
    · intro ran
      cases ran
    · intro ⟨empty, _⟩
      cases empty
  | cons next rest =>
    constructor
    · intro ran
      cases ran
      exact ⟨rfl, rfl⟩
    · intro ⟨same, kept⟩
      cases same
      subst final
      rfl

theorem advance_passes {stream final : Stream} (ran : advance stream = .ok () final)
    (inside : stream.current.kind ≠ .endOfText) : Passes stream [stream.current] final := by
  obtain ⟨current, ahead, index⟩ := stream
  rw [advance, get_bind, if_neg inside] at ran
  cases ahead with
  | nil => cases ran
  | cons next rest =>
    cases ran
    exact .step inside .none

theorem advance_stays {stream final : Stream} (ran : advance stream = .ok () final)
    (atEnd : stream.current.kind = .endOfText) : final = stream := by
  rw [advance, get_bind, if_pos atEnd] at ran
  cases ran
  rfl

theorem accept_passes {stream final : Stream} {kind : Kind} (ran : accept kind stream = .ok () final)
    (inside : kind ≠ .endOfText) : stream.current.kind = kind ∧ Passes stream [stream.current] final := by
  rw [accept, current_bind] at ran
  split at ran
  next same =>
    refine ⟨same, advance_passes ran ?_⟩
    rw [same]
    exact inside
  next => cases reject_ne_ok ran

theorem identifier_passes {stream final : Stream} {name : Atom} (ran : identifier stream = .ok name final) :
    stream.current.kind = .identifier ∧ name = stream.current.value ∧ Passes stream [stream.current] final := by
  rw [identifier, current_bind] at ran
  obtain ⟨_, middle, accepted, ran⟩ := bind_eq_ok.mp ran
  cases ran
  obtain ⟨kind, moved⟩ := accept_passes accepted (by decide)
  exact ⟨kind, rfl, moved⟩

/-- A value is taken from any token, but the end of the text is not passed. -/
theorem anyValue_passes {stream final : Stream} {value : Atom} (ran : anyValue stream = .ok value final) :
    value = stream.current.value ∧
      (stream.current.kind = .endOfText ∧ final = stream ∨ Passes stream [stream.current] final) := by
  rw [anyValue, current_bind] at ran
  obtain ⟨_, middle, advanced, ran⟩ := bind_eq_ok.mp ran
  cases ran
  refine ⟨rfl, ?_⟩
  by_cases atEnd : stream.current.kind = .endOfText
  · exact .inl ⟨atEnd, advance_stays advanced atEnd⟩
  · exact .inr (advance_passes advanced atEnd)

section
variable {stream final : Stream} {token : Token} {passed : List Token}

theorem current_of_passes (moved : Passes stream (token :: passed) final) :
    stream.current = token ∧ token.kind ≠ .endOfText := by
  cases moved with
  | step inside _ => exact ⟨rfl, inside⟩

theorem advance_of_passes (moved : Passes stream (token :: passed) final) :
    ∃ middle, advance stream = .ok () middle ∧ Passes middle passed final := by
  cases moved with
  | @step _ next ahead _ index _ inside rest =>
    refine ⟨⟨next, ahead, index + 1⟩, ?_, rest⟩
    rw [advance, get_bind, if_neg inside]
    rfl

theorem lookahead_of_passes (moved : Passes stream (token :: passed) final) :
    ∃ next, lookahead stream = .ok next stream ∧ (passed ++ [final.current]).head? = some next := by
  cases moved with
  | @step _ next ahead _ index _ inside rest =>
    refine ⟨next, rfl, ?_⟩
    cases rest with
    | none => rfl
    | step => rfl

theorem accept_of_passes (moved : Passes stream (token :: passed) final) {kind : Kind} (same : token.kind = kind) :
    ∃ middle, accept kind stream = .ok () middle ∧ Passes middle passed final := by
  obtain ⟨middle, advanced, rest⟩ := advance_of_passes moved
  refine ⟨middle, ?_, rest⟩
  rw [accept, current_bind, (current_of_passes moved).1, if_pos same]
  exact advanced

theorem identifier_of_passes (moved : Passes stream (token :: passed) final) (named : token.kind = .identifier) :
    ∃ middle, identifier stream = .ok token.value middle ∧ Passes middle passed final := by
  obtain ⟨middle, accepted, rest⟩ := accept_of_passes moved named
  refine ⟨middle, ?_, rest⟩
  rw [identifier, current_bind, bind_ok accepted, (current_of_passes moved).1]
  rfl

theorem anyValue_of_passes (moved : Passes stream (token :: passed) final) :
    ∃ middle, anyValue stream = .ok token.value middle ∧ Passes middle passed final := by
  obtain ⟨middle, advanced, rest⟩ := advance_of_passes moved
  refine ⟨middle, ?_, rest⟩
  rw [anyValue, current_bind, bind_ok advanced, (current_of_passes moved).1]
  rfl

end

end Parse

end MiniTriangle
