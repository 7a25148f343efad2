import MiniTriangle.Proofs.OperationScripts
import MiniTriangle.Proofs.Tokenisation
import MiniTriangle.Token.Session

/-! What a scan does to its text. Every request is made of a few operations, only one of which moves the cursor: it takes
one character, also at the end of the text, where there is none. The loops of a scan take their characters one at a time,
and in a comment without an end they never come back. -/

namespace MiniTriangle

open Alphabet Sequencing

namespace Scan

def peek : Scan (Option Char) := do return (← get).current?

/-- What a scan asks of its text. The bounds on its loops are taken from the number of characters that remain. -/
inductive Operation where
  | current
  | take
  | position
  | atEnd
  | remaining
  deriving DecidableEq

def Operation.Reply : Operation → Type
  | .current | .take => Option Char
  | .position | .remaining => Nat
  | .atEnd => Bool

def Operation.perform : (operation : Operation) → Scan operation.Reply
  | .current => peek
  | .take => Scan.take
  | .position => Scan.position
  | .atEnd => do return (← get).atEnd
  | .remaining => do return (← get).ahead.length

abbrev operations : Interface ScanError Cursor := ⟨Operation, Operation.Reply, Operation.perform⟩

abbrev Made {α : Type} (call : Scan α) : Prop := Scripted operations (· == .endless) call

theorem peek_made : Made peek := Scripted.operation operations Operation.current

theorem take_made : Made take := Scripted.operation operations Operation.take

theorem position_made : Made position := Scripted.operation operations Operation.position

theorem bounded_made {α : Type} {call : Nat → Scan α} (made : ∀ bound, Made (call bound)) :
    Made (do call (← get).ahead.length) := by
  show Made (Operation.perform .remaining >>= fun remaining : Nat => call remaining)
  apply Scripted.bind (Scripted.operation operations Operation.remaining)
  intro remaining
  exact made _

theorem peek_bind {α : Type} (next : Option Char → Scan α) (cursor : Cursor) :
    (peek >>= next) cursor = next cursor.current? cursor := rfl

theorem take_bind {α : Type} (next : Option Char → Scan α) (cursor : Cursor) :
    (take >>= next) cursor = next cursor.current? cursor.next := rfl

def takeEach (test : Char → Bool) : Nat → Scan (List Char)
  | 0 => return []
  | bound + 1 => do
    match ← peek with
    | none => return []
    | some c =>
      if test c then
        let _ ← take
        return c :: (← takeEach test bound)
      else return []

theorem takeEach_eq (test : Char → Bool) {bound : Nat} {text : List Char} (enough : text.length ≤ bound) (offset : Nat) :
    takeEach test bound ⟨text, offset⟩ = .ok (text.takeWhile test) (Cursor.skipWhile ⟨text, offset⟩ test) := by
  induction text generalizing bound offset with
  | nil => cases bound <;> rfl
  | cons c rest ih =>
    cases bound with
    | zero => cases enough
    | succ bound =>
      rw [takeEach, peek_bind]
      show (if test c then _ else _ : Scan (List Char)) _ = _
      by_cases passes : test c = true
      · rw [if_pos passes, take_bind]
        refine (bind_ok (ih (Nat.le_of_succ_le_succ enough) (offset + 1))).trans ?_
        simp only [Cursor.skipWhile, List.takeWhile_cons_of_pos passes, List.dropWhile_cons_of_pos passes, List.length_cons]
        rw [Nat.add_assoc, Nat.add_comm 1]
        rfl
      · rw [if_neg passes]
        simp only [Cursor.skipWhile, List.takeWhile_cons_of_neg passes, List.dropWhile_cons_of_neg passes]
        rfl

theorem takeEach_made (test : Char → Bool) (bound : Nat) : Made (takeEach test bound) := by
  induction bound with
  | zero => exact .pure _
  | succ bound ih =>
    rw [takeEach]
    apply peek_made.bind
    intro found
    cases found with
    | none => exact .pure _
    | some c => exact .choice (take_made.bind fun _ => ih.bind fun _ => .pure _) (.pure _)

theorem takeWhile_made (test : Char → Bool) : Made (takeWhile test) := by
  have same : takeWhile test = (do takeEach test (← get).ahead.length) := by
    funext cursor
    exact (takeEach_eq test (Nat.le_refl _) cursor.offset).symm
  rw [same]
  exact bounded_made (takeEach_made test)

theorem integer_made : Made integer := by
  apply position_made.bind
  intro start
  apply take_made.bind
  intro first
  apply (takeWhile_made isDigit).bind
  intro digits
  dsimp only
  split
  · exact .pure _
  · exact .throw _

theorem word_made : Made word :=
  position_made.bind fun _ => take_made.bind fun _ => (takeWhile_made isAlphanumeric).bind fun _ => .pure _

theorem colon_made : Made colon := by
  apply position_made.bind
  intro start
  apply take_made.bind
  intro first
  show Made (peek >>= fun next => if next = some '=' then _ else _)
  apply peek_made.bind
  intro next
  exact .choice (take_made.bind fun _ => .pure _) (.pure _)

theorem tokenAt_made (c : Char) : Made (tokenAt c) := by
  apply Scripted.choice integer_made
  apply Scripted.choice word_made
  apply Scripted.choice colon_made
  apply position_made.bind
  intro start
  split
  · exact take_made.bind fun _ => .pure _
  · exact .throw _

def skipEach : Nat → Bool → Scan Unit
  | 0, inComment => if inComment then throw .endless else return
  | bound + 1, inComment => do
    match ← peek with
    | none => if inComment then throw .endless else return
    | some c =>
      if inComment then
        let _ ← take
        skipEach bound (c != '\n')
      else if isSpace c then
        let _ ← take
        skipEach bound false
      else if c = '!' then
        let _ ← take
        skipEach bound true
      else return

theorem skipEach_eq {bound : Nat} {inComment : Bool} {text : List Char} {offset : Nat} {cursor : Cursor}
    (enough : text.length ≤ bound) (skipped : skipSeparators inComment offset text = some cursor) :
    skipEach bound inComment ⟨text, offset⟩ = .ok () cursor := by
  induction text generalizing bound inComment offset with
  | nil =>
    cases inComment with
    | true => cases skipped
    | false =>
      cases skipped
      cases bound <;> rfl
  | cons c rest ih =>
    cases bound with
    | zero => cases enough
    | succ bound =>
      have onward {inside : Bool} : skipSeparators inside (offset + 1) rest = some cursor →
          (take >>= fun _ => skipEach bound inside) ⟨c :: rest, offset⟩ = .ok () cursor :=
        ih (Nat.le_of_succ_le_succ enough)
      rw [skipEach, peek_bind]
      show (if inComment then _ else _ : Scan Unit) _ = _
      rw [skipSeparators] at skipped
      split at skipped
      next inside =>
        rw [if_pos inside]
        exact onward skipped
      next outside =>
        rw [if_neg outside]
        split at skipped
        next blank =>
          rw [if_pos blank]
          exact onward skipped
        next visible =>
          rw [if_neg visible]
          split at skipped
          next opens =>
            rw [if_pos opens]
            exact onward skipped
          next other =>
            rw [if_neg other]
            cases skipped
            rfl

theorem skipEach_made (bound : Nat) (inComment : Bool) : Made (skipEach bound inComment) := by
  have ended (inside : Bool) : Made (if inside then throw .endless else return () : Scan Unit) := .choice (.throw _) (.pure _)
  induction bound generalizing inComment with
  | zero => exact ended inComment
  | succ bound ih =>
    rw [skipEach]
    apply peek_made.bind
    intro found
    cases found with
    | none => exact ended inComment
    | some c =>
      apply Scripted.choice (take_made.bind fun _ => ih _)
      apply Scripted.choice (take_made.bind fun _ => ih false)
      exact .choice (take_made.bind fun _ => ih true) (.pure _)

/-- The next token, with the separators before it taken one character at a time. -/
def tokenEach : Scan Token := do
  skipEach (← get).ahead.length false
  match ← peek with
  | none => return .plain .endOfText (← position)
  | some c => tokenAt c

theorem tokenEach_eq {cursor : Cursor}
    (lasting : ∀ cause later, token cursor = .error cause later → (cause == .endless) = false) :
    tokenEach cursor = token cursor := by
  rw [token, get_bind] at lasting ⊢
  cases skipped : skipSeparators false cursor.offset cursor.ahead with
  | none =>
    rw [skipped] at lasting
    cases lasting .endless cursor rfl
  | some reached =>
    rw [tokenEach, get_bind, bind_ok (skipEach_eq (Nat.le_refl _) skipped), peek_bind]
    obtain ⟨ahead, offset⟩ := reached
    cases ahead with
    | nil => rfl
    | cons c rest => rfl

theorem token_made : Made token := by
  have made : Made tokenEach := by
    apply Scripted.bind (bounded_made fun bound => skipEach_made bound false)
    intro _
    apply peek_made.bind
    intro found
    cases found with
    | none => exact position_made.bind fun _ => .pure _
    | some c => exact tokenAt_made c
  exact made.congr fun _ => tokenEach_eq

theorem tokensWithin_made (bound : Nat) : Made (tokensWithin bound) := by
  induction bound with
  | zero => exact .throw _
  | succ bound ih =>
    rw [tokensWithin]
    apply token_made.bind
    intro next
    exact .choice (.pure _) (ih.bind fun _ => .pure _)

theorem request_made (request : Request) : Made request.answer := by
  cases request with
  | tokens => exact (bounded_made fun remaining => tokensWithin_made (remaining + 1)).bind fun _ => .pure _
  | token => exact token_made.bind fun _ => .pure _
  | integer => exact integer_made.bind fun _ => .pure _
  | word => exact word_made.bind fun _ => .pure _
  | colon => exact colon_made.bind fun _ => .pure _
  | current => exact peek_made.bind fun _ => .pure _
  | take => exact take_made.bind fun _ => .pure _
  | position => exact position_made.bind fun _ => .pure _
  | atEnd =>
    show Made (Operation.perform .atEnd >>= fun ended : Bool => pure (Reply.flag ended))
    exact Scripted.bind (Scripted.operation operations Operation.atEnd) fun _ => .pure _

end Scan

end MiniTriangle
