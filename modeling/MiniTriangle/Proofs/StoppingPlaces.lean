import MiniTriangle.Proofs.ParserExactness

/-! Where a parser stops when it fails. On tokens that the end of the text closes, the cause of every failure is the
current token, or a token is missing after the end of the text; and the steps of a rule say which rows of tokens it
can have passed by then. -/

namespace MiniTriangle.Parse

open Sequencing

/-- The tokens of a stream from the current one on end with the only end of the text. -/
def Closed (stream : Stream) : Prop := EndsOnce (stream.current :: stream.ahead)

namespace Closed

theorem later {stream final : Stream} {row : List Token} (closed : Closed stream) (moved : Passes stream row final) :
    Closed final := by
  induction moved with
  | none => exact closed
  | @step current next ahead _ _ _ _ _ ih =>
    apply ih
    obtain ⟨body, last, same, ends, inside⟩ := closed
    cases body with
    | nil => simp at same
    | cons first body =>
      simp only [List.cons_append, List.cons.injEq] at same
      exact ⟨body, last, same.2, ends, fun token member => inside token (List.mem_cons_of_mem _ member)⟩

theorem atEnd {stream : Stream} (closed : Closed stream) (alone : stream.ahead = []) :
    stream.current.kind = .endOfText := by
  obtain ⟨body, last, same, ends, _⟩ := closed
  rw [alone] at same
  cases body with
  | nil =>
    cases same
    exact ends
  | cons first body => simp at same

theorem inside {stream : Stream} {next : Token} (closed : Closed stream) (ahead : stream.ahead.head? = some next) :
    stream.current.kind ≠ .endOfText := by
  obtain ⟨body, last, same, _, inside⟩ := closed
  cases body with
  | nil =>
    simp only [List.nil_append, List.cons.injEq] at same
    rw [same.2] at ahead
    cases ahead
  | cons first body =>
    simp only [List.cons_append, List.cons.injEq] at same
    rw [same.1]
    exact inside first List.mem_cons_self

theorem advances {stream : Stream} (closed : Closed stream) : ∃ final, advance stream = .ok () final := by
  by_cases ended : stream.current.kind = .endOfText
  · exact ⟨stream, by rw [advance, get_bind, if_pos ended]; rfl⟩
  · cases ahead : stream.ahead with
    | nil => exact absurd (closed.atEnd ahead) ended
    | cons next rest =>
      refine ⟨⟨next, rest, stream.index + 1⟩, ?_⟩
      rw [advance, get_bind, if_neg ended]
      simp only [ahead]
      rfl

end Closed

/-- The cause of a failure is the current token, or a token is missing after the end of the text. -/
def Blames (cause : ParseError) (final : Stream) : Prop :=
  cause = .unexpected final.current ∨ cause = .noToken ∧ final.current.kind = .endOfText

/-- Where the parser fails on this stream, it has passed a row of the given kind. -/
def Stops {α : Type} (parser : Parse α) (stream : Stream) (viable : List Token → Prop) : Prop :=
  Closed stream → ∀ ⦃cause final⦄, parser stream = .error cause final → cause ≠ .endless →
    ∃ row, Passes stream row final ∧ viable row ∧ Blames cause final

namespace Stops

variable {α β : Type} {stream : Stream} {viable : List Token → Prop}

theorem mono {parser : Parse α} {other : List Token → Prop} (stops : Stops parser stream other)
    (weaker : ∀ row final, Passes stream row final → other row → viable row) : Stops parser stream viable := by
  intro closed cause final failed bounded
  obtain ⟨row, moved, holds, blames⟩ := stops closed failed bounded
  exact ⟨row, moved, weaker row final moved holds, blames⟩

theorem bind {first : Parse α} {next : α → Parse β} (stops : Stops first stream viable)
    (rest : ∀ value middle, first stream = .ok value middle →
      ∃ row, Passes stream row middle ∧ Stops (next value) middle fun later => viable (row ++ later)) :
    Stops (first >>= next) stream viable := by
  intro closed cause final failed bounded
  cases ran : first stream with
  | error reason middle =>
    rw [bind_error ran] at failed
    cases failed
    exact stops closed ran bounded
  | ok value middle =>
    rw [bind_ok ran] at failed
    obtain ⟨row, moved, restStops⟩ := rest value middle ran
    obtain ⟨later, onward, holds, blames⟩ := restStops (closed.later moved) failed bounded
    exact ⟨row ++ later, moved.trans onward, holds, blames⟩

theorem endless : Stops (throw .endless : Parse α) stream viable := by
  intro _ cause final failed bounded
  cases failed
  exact absurd rfl bounded

theorem pure (value : α) : Stops (Pure.pure value) stream viable := by
  intro _ cause final failed
  cases failed

theorem bounded {parser : Nat → Parse α} (stops : ∀ bound, Stops (parser bound) stream viable) :
    Stops (Parse.bounded parser) stream viable := stops _

theorem current {next : Token → Parse α} (stops : Stops (next stream.current) stream viable) :
    Stops (Parse.current >>= next) stream viable := stops

theorem reject (holds : viable []) : Stops (Parse.reject : Parse α) stream viable := by
  intro _ cause final failed _
  cases failed
  exact ⟨[], .none, holds, .inl rfl⟩

theorem advance : Stops Parse.advance stream viable := by
  intro closed cause final failed
  obtain ⟨final, ran⟩ := closed.advances
  cases ran.symm.trans failed

theorem accept {kind : Kind} (holds : viable []) : Stops (Parse.accept kind) stream viable := by
  apply Stops.current
  split
  next => exact Stops.advance
  next => exact Stops.reject holds

theorem anyValue : Stops Parse.anyValue stream viable := by
  intro closed cause final failed
  obtain ⟨middle, ran⟩ := closed.advances
  rw [Parse.anyValue, current_bind, bind_ok ran] at failed
  cases failed

section
variable {kind : Kind} {next : Unit → Parse β}

theorem advance_then (inside : stream.current.kind ≠ .endOfText)
    (rest : ∀ middle, Passes stream [stream.current] middle → Stops (next ()) middle fun later => viable (stream.current :: later)) :
    Stops (Parse.advance >>= next) stream viable := by
  refine Stops.advance.bind fun _ middle ran => ?_
  have moved := advance_passes ran inside
  exact ⟨_, moved, rest middle moved⟩

theorem accept_then (inside : kind ≠ .endOfText) (holds : viable [])
    (rest : ∀ token middle, token.kind = kind → Passes stream [token] middle →
      Stops (next ()) middle fun later => viable (token :: later)) :
    Stops (Parse.accept kind >>= next) stream viable := by
  refine (Stops.accept holds).bind fun _ middle ran => ?_
  obtain ⟨same, moved⟩ := accept_passes ran inside
  exact ⟨_, moved, rest _ middle same moved⟩

end

theorem identifier_then {next : Atom → Parse β} (holds : viable [])
    (rest : ∀ token middle, token.kind = .identifier → Passes stream [token] middle →
      Stops (next token.value) middle fun later => viable (token :: later)) :
    Stops (Parse.identifier >>= next) stream viable := by
  have stops : Stops Parse.identifier stream viable := by
    apply Stops.current
    exact accept_then (by decide) holds fun _ _ _ _ => Stops.pure _
  refine stops.bind fun value middle ran => ?_
  obtain ⟨named, same, moved⟩ := identifier_passes ran
  subst same
  exact ⟨_, moved, rest _ middle named moved⟩

theorem lookahead_then {next : Token → Parse β} (holds : viable [])
    (rest : ∀ token, stream.ahead.head? = some token → stream.current.kind ≠ .endOfText → Stops (next token) stream viable) :
    Stops (lookahead >>= next) stream viable := by
  intro closed
  have stops : Stops lookahead stream viable := by
    intro _ cause final failed _
    obtain ⟨current, ahead, index⟩ := stream
    cases ahead with
    | nil =>
      cases failed
      exact ⟨[], .none, holds, .inr ⟨rfl, closed.atEnd rfl⟩⟩
    | cons next rest => cases failed
  refine stops.bind (fun token middle ran => ?_) closed
  obtain ⟨found, same⟩ := lookahead_eq_ok.mp ran
  subst same
  exact ⟨[], .none, rest token found (closed.inside found)⟩

/-- Names of targets and types take any token, and none at the end of the text. -/
theorem token_then {make : Atom → Tree} {next : Tree → Parse β}
    (atEnd : stream.current.kind = .endOfText → Stops (next (make stream.current.value)) stream viable)
    (rest : ∀ middle, stream.current.kind ≠ .endOfText → Passes stream [stream.current] middle →
      Stops (next (make stream.current.value)) middle fun later => viable (stream.current :: later)) :
    Stops ((do return make (← Parse.anyValue)) >>= next) stream viable := by
  have stops : Stops (do return make (← Parse.anyValue)) stream viable := Stops.anyValue.bind fun value middle ran => by
    obtain ⟨_, ⟨_, same⟩ | moved⟩ := anyValue_passes ran
    · exact ⟨[], same ▸ .none, .pure _⟩
    · exact ⟨_, moved, .pure _⟩
  refine stops.bind fun tree middle ran => ?_
  obtain ⟨value, after, taken, made⟩ := bind_eq_ok.mp ran
  cases made
  obtain ⟨rfl, ⟨ended, same⟩ | moved⟩ := anyValue_passes taken
  · subst same
    exact ⟨[], .none, atEnd ended⟩
  · exact ⟨_, moved, rest middle (current_of_passes moved).2 moved⟩

end Stops

end MiniTriangle.Parse
