import MiniTriangle.Grammar.Session
import MiniTriangle.Proofs.OperationScripts
import MiniTriangle.Proofs.RuleComposition
import MiniTriangle.Proofs.StoppingPlaces

/-! The cursor of a parser stays in step with its row of tokens. Every request is made of a few operations on the stream,
only one of which moves it, by one token at a time and never past the end of the text. So whatever has been asked, and
wherever a request has failed, the current token is the one at the index, unless steps were tried beyond a last token that
does not end the text. -/

namespace MiniTriangle

open Sequencing

namespace Stream

/-- The current token is the one at the index; or the index has left the row, and the current token is still the last one,
which does not end the text. -/
def InStep (tokens : List Token) (stream : Stream) : Prop :=
  stream.index < tokens.length ∧ tokens[stream.index]? = some stream.current ∨
    tokens.length ≤ stream.index ∧ tokens.getLast? = some stream.current ∧ stream.current.kind ≠ .endOfText

/-- The tokens of a row that a stream has passed, none of which ends the text, are counted by its index, unless it is at the
last token and steps beyond it have failed. -/
def Within (tokens : List Token) (stream : Stream) : Prop :=
  ∃ passed, tokens = passed ++ stream.current :: stream.ahead ∧ (∀ token ∈ passed, token.kind ≠ .endOfText) ∧
    (stream.index = passed.length ∨
      stream.ahead = [] ∧ stream.current.kind ≠ .endOfText ∧ tokens.length ≤ stream.index)

namespace Within

variable {tokens : List Token} {stream : Stream}

theorem inStep (within : Within tokens stream) : InStep tokens stream := by
  obtain ⟨passed, rfl, _, counted | ⟨last, inside, beyond⟩⟩ := within
  · refine .inl ⟨?_, ?_⟩
    · rw [counted, List.length_append, List.length_cons]
      omega
    · rw [counted, List.getElem?_append_right (Nat.le_refl _), Nat.sub_self, List.getElem?_cons_zero]
  · refine .inr ⟨beyond, ?_, inside⟩
    rw [last, List.getLast?_append, List.getLast?_singleton, Option.some_or]

/-- A token that ends the text is not passed. -/
theorem index_le (within : Within tokens stream) {place : Nat} {token : Token} (found : tokens[place]? = some token)
    (ends : token.kind = .endOfText) : stream.index ≤ place := by
  obtain ⟨passed, rfl, before, counted | ⟨last, inside, _⟩⟩ := within
  · apply Nat.le_of_not_lt
    intro earlier
    rw [counted] at earlier
    rw [List.getElem?_append_left earlier] at found
    exact before token (List.mem_of_getElem? found) ends
  · rw [last] at found
    rcases List.mem_append.mp (List.mem_of_getElem? found) with member | member
    · exact absurd ends (before token member)
    · rw [List.mem_singleton.mp member] at ends
      exact absurd ends inside

theorem closed (within : Within tokens stream) (once : EndsOnce tokens) : Parse.Closed stream := by
  obtain ⟨passed, split, _, _⟩ := within
  obtain ⟨body, last, rfl, ends, inside⟩ := once
  rcases List.append_eq_append_iff.mp split with ⟨more, _, same⟩ | ⟨inner, rfl, same⟩
  · -- All tokens of the body are passed, so only the last one is left.
    cases more with
    | nil => exact ⟨[], last, same.symm, ends, List.forall_mem_nil _⟩
    | cons first more => simp at same
  · exact ⟨inner, last, same, ends, fun token member => inside token (List.mem_append_right passed member)⟩

end Within

end Stream

namespace Parse

/-- What a parser asks of its stream. The bounds on its recursion are taken from the number of tokens that remain. -/
inductive Operation where
  | current
  | lookahead
  | advance
  | remaining

def Operation.Reply : Operation → Type
  | .current | .lookahead => Token
  | .advance => Unit
  | .remaining => Nat

def Operation.perform : (operation : Operation) → Parse operation.Reply
  | .current => Parse.current
  | .lookahead => Parse.lookahead
  | .advance => Parse.advance
  | .remaining => do return (← get).ahead.length

abbrev operations : Interface ParseError Stream := ⟨Operation, Operation.Reply, Operation.perform⟩

/-- A step of a stream stays at the end of the text, moves to the next token, or finds none and moves only the index. -/
theorem advance_cases (stream : Stream) :
    stream.current.kind = .endOfText ∧ advance stream = .ok () stream ∨
    stream.current.kind ≠ .endOfText ∧
      ((∃ next rest, stream.ahead = next :: rest ∧ advance stream = .ok () ⟨next, rest, stream.index + 1⟩) ∨
        stream.ahead = [] ∧ advance stream = .error .noToken { stream with index := stream.index + 1 }) := by
  rw [advance, get_bind]
  by_cases ended : stream.current.kind = .endOfText
  · rw [if_pos ended]
    exact .inl ⟨ended, rfl⟩
  · rw [if_neg ended]
    refine .inr ⟨ended, ?_⟩
    cases ahead : stream.ahead with
    | nil => exact .inr ⟨rfl, rfl⟩
    | cons next rest => exact .inl ⟨next, rest, rfl, rfl⟩

theorem lookahead_endState (stream : Stream) : endState (lookahead stream) = stream := by
  obtain ⟨current, ahead, index⟩ := stream
  cases ahead with
  | nil => rfl
  | cons next rest => rfl

theorem advance_within {tokens : List Token} {stream : Stream} (within : stream.Within tokens) :
    (endState (advance stream)).Within tokens := by
  obtain ⟨passed, split, before, counted⟩ := within
  rcases advance_cases stream with ⟨_, stays⟩ | ⟨inside, ⟨next, rest, ahead, moves⟩ | ⟨last, fails⟩⟩
  · rw [stays]
    exact ⟨passed, split, before, counted⟩
  · rw [moves]
    refine ⟨passed ++ [stream.current], ?_, ?_, .inl ?_⟩
    · rw [split, ahead, List.append_assoc, List.singleton_append]
      rfl
    · intro token member
      rcases List.mem_append.mp member with member | member
      · exact before token member
      · rw [List.mem_singleton.mp member]
        exact inside
    · rcases counted with counted | ⟨last, _⟩
      · show stream.index + 1 = _
        rw [counted, List.length_append, List.length_singleton]
      · rw [last] at ahead
        cases ahead
  · rw [fails]
    refine ⟨passed, split, before, .inr ⟨last, inside, ?_⟩⟩
    show tokens.length ≤ stream.index + 1
    rw [split, last, List.length_append, List.length_singleton]
    rcases counted with counted | ⟨_, _, beyond⟩
    · omega
    · rw [split, last, List.length_append, List.length_singleton] at beyond
      omega

theorem operation_within {tokens : List Token} (operation : Operation) (stream : Stream) (within : stream.Within tokens) :
    (endState (operation.perform stream)).Within tokens := by
  cases operation with
  | current | remaining => exact within
  | lookahead =>
    show (endState (lookahead stream)).Within tokens
    rw [lookahead_endState]
    exact within
  | advance => exact advance_within within

theorem operation_index_le (operation : Operation) (stream : Stream) :
    stream.index ≤ (endState (operation.perform stream)).index := by
  cases operation with
  | current | remaining => exact Nat.le_refl _
  | lookahead =>
    apply Nat.le_of_eq
    exact congrArg Stream.index (lookahead_endState stream).symm
  | advance =>
    show stream.index ≤ (endState (advance stream)).index
    rcases advance_cases stream with ⟨_, stays⟩ | ⟨_, ⟨next, rest, _, moves⟩ | ⟨_, fails⟩⟩
    · rw [stays]
      exact Nat.le_refl _
    · rw [moves]
      exact Nat.le_succ _
    · rw [fails]
      exact Nat.le_succ _

theorem after_index_le (stream : Stream) (done : List operations.Operation) :
    stream.index ≤ (operations.after stream done).index := by
  have kept : ∀ operation reached, stream.index ≤ reached.index →
      stream.index ≤ (endState (operations.perform operation reached)).index := by
    intro operation reached above
    exact Nat.le_trans above (operation_index_le operation reached)
  exact Interface.after_keeps kept done (Nat.le_refl _)

abbrev Made {α : Type} (parser : Parse α) : Prop := Scripted operations (fun _ => false) parser

namespace Made

variable {α : Type}

theorem current : Made Parse.current := Scripted.operation operations Operation.current

theorem lookahead : Made Parse.lookahead := Scripted.operation operations Operation.lookahead

theorem advance : Made Parse.advance := Scripted.operation operations Operation.advance

theorem reject : Made (Parse.reject : Parse α) := current.bind fun _ => .throw _

theorem bounded {parser : Nat → Parse α} (made : ∀ bound, Made (parser bound)) : Made (Parse.bounded parser) := by
  show Made (Operation.perform .remaining >>= fun remaining : Nat => parser (4 * (remaining + 1)))
  apply Scripted.bind (Scripted.operation operations Operation.remaining)
  intro remaining
  exact made _

theorem accept (kind : Kind) : Made (Parse.accept kind) := current.bind fun _ => .choice advance reject

end Made

theorem made_composes : Composes fun _ _ _ _ parser _ => Made parser where
  ample made _ _ := made
  endless _ := .throw _
  deeper made := made
  bounded := .bounded
  pure := .pure
  reject := .reject
  bind := .bind
  current rest _ := Made.current.bind rest
  lookahead rest _ := Made.lookahead.bind rest
  advance := .advance
  pass _ := .advance

theorem request_made (request : Request) : Made request.answer := by
  cases request with
  | rule phrase => exact Scripted.bind (phrase.parse_holds made_composes 0) fun _ => .pure _
  | current => exact Made.current.bind fun _ => .pure _
  | lookahead => exact Made.lookahead.bind fun _ => .pure _
  | advance => exact Made.advance.bind fun _ => .pure _
  | accept kind => exact (Made.accept kind).bind fun _ => .pure _

end Parse

open Parse

structure Stream.Steady (tokens : List Token) (stream : Stream) : Prop where
  inStep : stream.InStep tokens
  /-- No token that ends the text is passed. -/
  unpassed : ∀ place token, tokens[place]? = some token → token.kind = .endOfText → stream.index ≤ place
  /-- In a row that ends with its only end of the text, a step never fails, and moves on by one token before the end. -/
  steps : EndsOnce tokens → ∃ next, advance stream = .ok () next ∧
    next.index = if stream.current.kind = .endOfText then stream.index else stream.index + 1
  /-- There a token is lacking after the current one exactly at the end of the text. -/
  lacks : EndsOnce tokens → (lookahead stream = .error .noToken stream ↔ stream.current.kind = .endOfText)

private theorem Stream.Within.steady {tokens : List Token} {stream : Stream} (within : stream.Within tokens) :
    stream.Steady tokens := by
  refine ⟨within.inStep, fun place token => within.index_le, ?steps, ?lacks⟩
  case steps =>
    intro once
    rcases advance_cases stream with ⟨ended, stays⟩ | ⟨inside, ⟨next, rest, _, moves⟩ | ⟨last, _⟩⟩
    · exact ⟨stream, stays, (if_pos ended).symm⟩
    · exact ⟨_, moves, (if_neg inside).symm⟩
    · exact absurd ((within.closed once).atEnd last) inside
  case lacks =>
    intro once
    constructor
    · intro failed
      apply (within.closed once).atEnd
      cases ahead : stream.ahead with
      | nil => rfl
      | cons next rest =>
        have found : lookahead stream = .ok next stream := lookahead_eq_ok.mpr ⟨by rw [ahead, List.head?_cons], rfl⟩
        cases found.symm.trans failed
    · intro ended
      cases ahead : stream.ahead with
      | nil =>
        rw [lookahead, get_bind, ahead]
        rfl
      | cons next rest => exact absurd ended ((within.closed once).inside (by rw [ahead, List.head?_cons]))

/-- Every request is made of operations on the stream, and the operations of any requests, of which some may fail, lead from
the first token to the stream that the answers leave. At every moment on the way the stream is steady, and its index is
never less than at an earlier moment. -/
theorem cursor_in_step {tokens : List Token} (nonempty : tokens ≠ []) :
    ∃ start, Stream.ofTokens? tokens = some start ∧
      (∃ script : Request → Script operations Reply, ∀ request, (script request).run = request.answer) ∧
      ∀ script : Request → Script operations Reply, (∀ request, (script request).run = request.answer) →
        ∀ requests : List Request,
          lastState start (answers start requests) =
              operations.after start (sessionOperations script (fun _ => false) requests start) ∧
            ∀ done, done <+: sessionOperations script (fun _ => false) requests start →
              (operations.after start done).Steady tokens ∧
                ∀ earlier, earlier <+: done → (operations.after start earlier).index ≤ (operations.after start done).index := by
  obtain ⟨first, rest, rfl⟩ := List.exists_cons_of_ne_nil nonempty
  refine ⟨⟨first, rest, 0⟩, rfl, ?_, ?_⟩
  · obtain ⟨script, tells⟩ := Classical.axiomOfChoice request_made
    exact ⟨script, fun request => Script.tells_iff.mp (tells request)⟩
  · intro script runs requests
    refine ⟨lastState_session (fun request => Script.tells_iff.mpr (runs request)) requests _ fun _ _ _ _ => rfl, ?_⟩
    intro done _
    have begins : Stream.Within (first :: rest) ⟨first, rest, 0⟩ := ⟨[], rfl, List.forall_mem_nil _, .inl rfl⟩
    refine ⟨(Interface.after_keeps operation_within done begins).steady, ?_⟩
    rintro earlier ⟨more, rfl⟩
    rw [Interface.after_append]
    exact after_index_le _ more

-- Without an end of the text, steps beyond the last token fail and move only the index.
example : lastState ⟨.plain .kwIn 0, [], 0⟩ (answers ⟨.plain .kwIn 0, [], 0⟩ [.advance, .rule .name]) =
    ⟨.plain .kwIn 0, [], 2⟩ := rfl

def openLet : List Token := [.plain .kwLet 0, .plain .endOfText 3]

/-- The program fails at the end of the text, which the steps before and after do not pass, so no token follows it. -/
theorem openLet_in_step : EndsOnce openLet ∧ ∃ (start : Stream) (script : Request → Script operations Reply),
    Stream.ofTokens? openLet = some start ∧ (∀ request, (script request).run = request.answer) ∧
    operations.after start (sessionOperations script (fun _ => false) [.rule .program, .advance, .lookahead] start) =
      ⟨.plain .endOfText 3, [], 1⟩ ∧
    lookahead ⟨.plain .endOfText 3, [], 1⟩ = .error .noToken ⟨.plain .endOfText 3, [], 1⟩ := by
  obtain ⟨start, opened, ⟨script, runs⟩, keeps⟩ := cursor_in_step (List.cons_ne_nil _ _ : openLet ≠ [])
  cases opened
  obtain ⟨reached, moments⟩ := keeps script runs [.rule .program, .advance, .lookahead]
  have once : EndsOnce openLet := ⟨[.plain .kwLet 0], .plain .endOfText 3, rfl, rfl, by simp [Token.plain]⟩
  have last := (moments _ List.prefix_rfl).1.lacks once
  rw [← reached] at last
  exact ⟨once, _, script, rfl, runs, reached.symm, last.mpr rfl⟩

end MiniTriangle
