import MiniTriangle.Proofs.ScanOperations

/-! The cursor of a scan counts the characters taken. Whatever has been asked, and wherever a request has failed, their
number tells the current character, whether the text has ended, and where the next token can lie. The same is true of a
reader that does not look at the text ahead but stores the last character it has read and whether there was one. -/

namespace MiniTriangle

open Sequencing

namespace Scan

def takes (done : List Operation) : Nat := done.count .take

theorem after_eq (cursor : Cursor) (done : List Operation) :
    operations.after cursor done = ⟨cursor.ahead.drop (takes done), cursor.offset + takes done⟩ := by
  induction done generalizing cursor with
  | nil => rfl
  | cons operation rest ih =>
    cases operation with
    | take =>
      have counted : takes (.take :: rest) = takes rest + 1 := List.count_cons_self
      have moved := ih cursor.next
      rw [Cursor.next, List.drop_tail, Nat.add_assoc, Nat.add_comm 1] at moved
      rw [counted]
      exact moved
    | current | position | atEnd | remaining => exact ih cursor

end Scan

open Scan

/-- What holds of the cursor when so many characters of a text have been taken. -/
structure Cursor.Counts (text : String) (taken : Nat) (cursor : Cursor) : Prop where
  offset : cursor.offset = taken
  /-- The current character is the next one of the text; past its end there is none. -/
  current : cursor.current? = text.toList[cursor.offset]?
  atEnd : cursor.atEnd = true ↔ text.length ≤ cursor.offset
  /-- A token that is taken here, unless it is the end of the text, starts in the text, here or later, and lies before the
  cursor afterwards. -/
  placed : ∀ token later, Scan.token cursor = .ok token later → token.kind ≠ .endOfText →
    (cursor.offset : Int) ≤ token.position ∧ token.position < later.offset ∧ token.position < text.length

theorem Cursor.counts (text : String) (taken : Nat) : Cursor.Counts text taken ⟨text.toList.drop taken, taken⟩ := by
  refine ⟨rfl, List.head?_drop, ?_, ?_⟩
  · rw [Cursor.atEnd, List.isEmpty_iff, List.drop_eq_nil_iff, String.length_toList]
  · intro token later ran inside
    rcases token_sound ran with ⟨_, rfl⟩ | ⟨separator, lexeme, kind, value, _, spelled, split, moved, rfl, _⟩
    · exact absurd rfl inside
    · obtain ⟨c, rest, rfl, _⟩ := lexeme_starts spelled
      have lengths := congrArg List.length split
      simp only [List.length_drop, List.length_append, List.length_cons, String.length_toList] at lengths moved
      dsimp only
      omega

/-- A reader stores the last character it has read, how often it has read, and whether it has met the end. -/
structure Reader where
  unread : List Char
  current? : Option Char
  reads : Nat
  ended : Bool

namespace Reader

/-- Reads one more character. The end of the text, once met, stays. -/
def next (reader : Reader) : Reader where
  unread := reader.unread.tail
  current? := reader.unread.head?
  reads := reader.reads + 1
  ended := if reader.unread.head?.isNone then true else reader.ended

/-- A reader has read a character before any is taken. -/
def start (text : String) : Reader := next ⟨text.toList, none, 0, false⟩

def perform : (operation : Operation) → EStateM ScanError Reader operation.Reply
  | .current => do return (← get).current?
  | .take => do
    let reader ← get
    set reader.next
    return reader.current?
  | .position => do return (← get).reads - 1
  | .atEnd => do return (← get).ended
  | .remaining => do
    let reader ← get
    return reader.current?.toList.length + reader.unread.length

abbrev operations : Interface ScanError Reader := ⟨Operation, Operation.Reply, perform⟩

def answers (script : Request → Script Scan.operations Reply) (text : String) (requests : List Request) :
    List (Answer ScanError Reader Reply) :=
  session (fun request => (script request).runOn perform) (· == .endless) requests (start text)

/-- The reader stands at the character at which the cursor stands. -/
structure Beside (cursor : Cursor) (reader : Reader) : Prop where
  unread : reader.unread = cursor.ahead.tail
  current : reader.current? = cursor.current?
  reads : reader.reads = cursor.offset + 1
  ended : reader.ended = cursor.atEnd

variable {cursor : Cursor} {reader : Reader}

theorem start_beside (text : String) : (start text).Beside (Cursor.start text) := by
  refine ⟨rfl, rfl, rfl, ?_⟩
  show (if text.toList.head?.isNone then true else false) = text.toList.isEmpty
  cases text.toList with
  | nil => rfl
  | cons c rest => rfl

theorem Beside.next (beside : reader.Beside cursor) : reader.next.Beside cursor.next := by
  obtain ⟨ahead, offset⟩ := cursor
  obtain ⟨unread, current, reads, ended⟩ := beside
  refine ⟨congrArg List.tail unread, congrArg List.head? unread, congrArg (· + 1) reads, ?_⟩
  show (if reader.unread.head?.isNone then true else reader.ended) = ahead.tail.isEmpty
  rw [unread, ended]
  rcases ahead with _ | ⟨c, _ | ⟨d, rest⟩⟩
  · rfl
  · rfl
  · rfl

/-- Every operation has the same reply on the reader as on the cursor. -/
theorem perform_sameEnd (operation : Operation) (cursor : Cursor) (reader : Reader) (beside : reader.Beside cursor) :
    SameEnd (fun cursor reader => reader.Beside cursor) (operation.perform cursor) (perform operation reader) := by
  cases operation with
  | current =>
    show SameEnd _ (.ok cursor.current? cursor) (.ok reader.current? reader)
    rw [beside.current]
    exact .ok _ beside
  | take =>
    show SameEnd _ (.ok cursor.current? cursor.next) (.ok reader.current? reader.next)
    rw [beside.current]
    exact .ok _ beside.next
  | position =>
    show SameEnd _ (.ok cursor.offset cursor) (.ok (reader.reads - 1) reader)
    rw [beside.reads, Nat.add_sub_cancel]
    exact .ok _ beside
  | atEnd =>
    show SameEnd _ (.ok cursor.atEnd cursor) (.ok reader.ended reader)
    rw [beside.ended]
    exact .ok _ beside
  | remaining =>
    have left : reader.current?.toList.length + reader.unread.length = cursor.ahead.length := by
      rw [beside.current, beside.unread, Cursor.current?]
      cases cursor.ahead with
      | nil => rfl
      | cons c rest => exact Nat.add_comm 1 rest.length
    show SameEnd _ (.ok cursor.ahead.length cursor) (.ok (reader.current?.toList.length + reader.unread.length) reader)
    rw [left]
    exact .ok _ beside

theorem Beside.after (beside : reader.Beside cursor) (done : List Operation) :
    (operations.after reader done).Beside (Scan.operations.after cursor done) := by
  induction done generalizing cursor reader with
  | nil => exact beside
  | cons operation rest ih => exact ih (perform_sameEnd operation cursor reader beside).endState

structure Counts (text : String) (taken : Nat) (reader : Reader) : Prop where
  reads : reader.reads = taken + 1
  current : reader.current? = text.toList[reader.reads - 1]?
  ended : reader.ended = true ↔ text.length < reader.reads

theorem Beside.counts {text : String} {taken : Nat} (beside : reader.Beside cursor) (counts : cursor.Counts text taken) :
    reader.Counts text taken := by
  refine ⟨?_, ?_, ?_⟩
  · rw [beside.reads, counts.offset]
  · rw [beside.reads, Nat.add_sub_cancel, beside.current, counts.current]
  · rw [beside.reads, beside.ended, counts.atEnd]
    exact Nat.lt_succ_iff.symm

end Reader

/-- Every request is made of operations on the text, unless a comment has no end, and the operations of any requests, of
which some may fail, lead from the start of the text to the cursor that the answers leave. A reader gives the same answers.
At every moment on the way the cursor and the fields of the reader count the characters taken, and the end of the text once
reached is not left again. -/
theorem cursor_counts_takes (text : String) (requests : List Request)
    (terminating : ∀ given ∈ answers text requests, given.outcome ≠ .error .endless) :
    (∃ script : Request → Script operations Reply, ∀ request, (script request).Tells (· == .endless) request.answer) ∧
    ∀ script : Request → Script operations Reply, (∀ request, (script request).Tells (· == .endless) request.answer) →
      lastState (Cursor.start text) (answers text requests) = operations.after (Cursor.start text)
          (sessionOperations script (· == .endless) requests (Cursor.start text)) ∧
        List.Forall₂ (fun given shown => given.outcome = shown.outcome ∧ shown.state.Beside given.state)
          (answers text requests) (Reader.answers script text requests) ∧
        ∀ done, done <+: sessionOperations script (· == .endless) requests (Cursor.start text) →
          (operations.after (Cursor.start text) done).Counts text (takes done) ∧
            (Reader.operations.after (Reader.start text) done).Counts text (takes done) ∧
            ∀ earlier, earlier <+: done → (operations.after (Cursor.start text) earlier).atEnd = true →
              (operations.after (Cursor.start text) done).atEnd = true := by
  have counts (done : List Operation) : (operations.after (Cursor.start text) done).Counts text (takes done) := by
    rw [after_eq, Cursor.start, Nat.zero_add]
    exact Cursor.counts text (takes done)
  have lasting : ∀ given ∈ answers text requests, ∀ cause, given.outcome = .error cause → (cause == .endless) = false := by
    intro given member cause failed
    apply beq_eq_false_iff_ne.mpr
    rintro rfl
    exact terminating given member failed
  refine ⟨Classical.axiomOfChoice request_made, ?_⟩
  intro script tells
  refine ⟨lastState_session tells requests _ lasting, ?_, ?_⟩
  · exact session_matches tells Reader.perform_sameEnd requests (Reader.start_beside text) lasting
  · intro done _
    refine ⟨counts done, ((Reader.start_beside text).after done).counts (counts done), ?_⟩
    rintro earlier ⟨more, rfl⟩ ended
    have before := (counts earlier).atEnd.mp ended
    apply (counts (earlier ++ more)).atEnd.mpr
    rw [(counts earlier).offset] at before
    rw [(counts (earlier ++ more)).offset]
    exact Nat.le_trans before (List.Sublist.count_le _ (List.sublist_append_left earlier more))

/-- A number, a comment and a character that starts no token. -/
def strayed : String := "7!\n$"

/-- The stray character is refused as a token and taken as a number, which it is not; then a character is taken where there
is none. The reader has read once more. -/
theorem strayed_counts : (∀ given ∈ answers strayed [.token, .token, .integer, .take], given.outcome ≠ .error .endless) ∧
    ∃ (script : Request → Script operations Reply) (done : List Operation),
      (∀ request, (script request).Tells (· == .endless) request.answer) ∧
      done = sessionOperations script (· == .endless) [.token, .token, .integer, .take] (Cursor.start strayed) ∧
      takes done = 5 ∧ (Reader.operations.after (Reader.start strayed) done).reads = 6 := by
  have given : answers strayed [.token, .token, .integer, .take] =
      [⟨.ok (.token ⟨.integer, .number 7, 0⟩), ⟨['!', '\n', '$'], 1⟩⟩, ⟨.error (.unexpected 3 '$'), ⟨['$'], 3⟩⟩,
        ⟨.error (.notInteger ['$']), ⟨[], 4⟩⟩, ⟨.ok (.character none), ⟨[], 5⟩⟩] := rfl
  have terminating : ∀ given ∈ answers strayed [.token, .token, .integer, .take], given.outcome ≠ .error .endless := by
    rw [given]
    simp
  obtain ⟨⟨script, tells⟩, counted⟩ := cursor_counts_takes strayed _ terminating
  obtain ⟨reached, _, moments⟩ := counted script tells
  obtain ⟨cursorCounts, readerCounts, _⟩ := moments _ List.prefix_rfl
  have last := cursorCounts.offset
  rw [← reached, given] at last
  exact ⟨terminating, script, _, tells, rfl, last.symm, readerCounts.reads.trans (congrArg (· + 1) last.symm)⟩

end MiniTriangle
