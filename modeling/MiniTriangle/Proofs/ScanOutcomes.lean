import MiniTriangle.Proofs.Tokenisation
import MiniTriangle.Token.Session
import Mathlib.Data.List.Basic
import Mathlib.Logic.Function.Iterate
import Mathlib.Logic.Relation

/-! Where a scan stops and why. A text is taken piece by piece, and there is never a choice between two pieces, so the
pieces reach exactly one place where none follows: the end of the text, or the first obstacle. What lies at this place
decides the outcome of the scan. -/

namespace MiniTriangle

open Alphabet Sequencing

namespace Scan

/-- What a text may start with, and the rest: a blank, a whole comment, or a token that goes on no further. -/
inductive Piece : List Char → List Char → Prop where
  | space {c : Char} {rest : List Char} (blank : isSpace c = true) : Piece (c :: rest) rest
  | comment {body rest : List Char} (oneLine : '\n' ∉ body) : Piece ('!' :: (body ++ '\n' :: rest)) rest
  | token {lexeme rest : List Char} {kind : Kind} {value : Atom} (spelled : Lexeme lexeme kind value)
      (longest : ∀ c ∈ rest.head?, kind.continues c = false) : Piece (lexeme ++ rest) rest

abbrev SplitsTo : List Char → List Char → Prop := Relation.ReflTransGen Piece

structure Furthest (text rest : List Char) : Prop where
  splits : SplitsTo text rest
  longest : ∀ other, SplitsTo text other → rest.length ≤ other.length

/-- Why a scan stops at a place: the text ends there, or something lies there that no piece starts with. -/
inductive Stop (position : Nat) : List Char → Option ScanError → Prop where
  | finished : Stop position [] none
  | unexpected {c : Char} {rest : List Char} (visible : isSpace c = false) (noComment : c ≠ '!')
      (noDigit : isDigit c = false) (noLetter : isLetter c = false) (noMark : ∀ kind, (c, kind) ∉ marks) (noOperator : c ∉ operators) :
      Stop position (c :: rest) (some (.unexpected position c))
  | notInteger {digits rest : List Char} (nonempty : digits ≠ []) (spelled : ∀ c ∈ digits, isDigit c = true)
      (longest : ∀ c ∈ rest.head?, isDigit c = false) (unread : Text.readInteger? digits = none) :
      Stop position (digits ++ rest) (some (.notInteger digits))
  | endless {rest : List Char} (unended : '\n' ∉ rest) : Stop position ('!' :: rest) (some .endless)

theorem Piece.shorter {text rest : List Char} (piece : Piece text rest) : rest.length ≤ text.length := by
  cases piece with
  | space blank => simp
  | comment oneLine =>
    simp only [List.length_cons, List.length_append]
    omega
  | token spelled longest => simp

theorem SplitsTo.shorter {text rest : List Char} (splits : SplitsTo text rest) : rest.length ≤ text.length := by
  induction splits with
  | refl => exact Nat.le_refl _
  | tail _ piece ih => exact piece.shorter.trans ih

/-- The first character tells which piece it is. -/
theorem Piece.cases_head {text after : List Char} (piece : Piece text after) (offset : Nat) :
    ∃ c rest, text = c :: rest ∧ ((isSpace c = true ∧ after = rest) ∨
      (c = '!' ∧ '\n' ∈ rest ∧ after = (rest.dropWhile (· != '\n')).tail) ∨
      (isSpace c = false ∧ c ≠ '!' ∧ ∃ token reached, tokenAt c ⟨c :: rest, offset⟩ = .ok token ⟨after, reached⟩)) := by
  cases piece with
  | space blank => exact ⟨_, _, rfl, .inl ⟨blank, rfl⟩⟩
  | @comment body rest oneLine =>
    refine ⟨_, _, rfl, .inr (.inl ⟨rfl, by simp, ?_⟩)⟩
    have passed : ∀ c ∈ body, (c != '\n') = true := by
      intro c member
      apply bne_iff_ne.mpr
      rintro rfl
      exact oneLine member
    rw [List.dropWhile_append_of_pos passed]
    rfl
  | @token lexeme rest kind value spelled longest =>
    obtain ⟨first, inner, same, visible, noComment⟩ := lexeme_starts spelled
    obtain ⟨c, others, opened, taken⟩ := tokenAt_complete spelled longest offset
    rw [same, List.cons_append] at opened
    cases opened
    rw [same, List.cons_append] at taken ⊢
    exact ⟨first, inner ++ after, rfl, .inr (.inr ⟨visible, noComment, _, _, taken⟩)⟩

/-- There is never a choice between two pieces. -/
theorem piece_unique : Relator.RightUnique Piece := by
  intro text first second one other
  obtain ⟨c, rest, rfl, cases⟩ := one.cases_head 0
  obtain ⟨_, _, same, others⟩ := other.cases_head 0
  cases same
  have visible : isSpace '!' = false := by decide
  rcases cases with ⟨blank, rfl⟩ | ⟨rfl, _, rfl⟩ | ⟨shown, noComment, token, position, taken⟩
  · rcases others with ⟨_, rfl⟩ | ⟨rfl, _⟩ | ⟨shown, _⟩
    · rfl
    · rw [visible] at blank
      cases blank
    · rw [shown] at blank
      cases blank
  · rcases others with ⟨blank, _⟩ | ⟨_, _, rfl⟩ | ⟨_, noComment, _⟩
    · rw [visible] at blank
      cases blank
    · rfl
    · exact absurd rfl noComment
  · rcases others with ⟨blank, _⟩ | ⟨opens, _⟩ | ⟨_, _, again, place, takenAgain⟩
    · rw [shown] at blank
      cases blank
    · exact absurd opens noComment
    · rw [taken] at takenAgain
      cases takenAgain
      rfl

end Scan

open Scan

theorem Separator.splits {separator : List Char} (blank : Separator separator) (rest : List Char) :
    SplitsTo (separator ++ rest) rest := by
  induction blank with
  | empty => exact .refl
  | space blank _ ih => exact .head (.space blank) ih
  | comment oneLine _ ih =>
    rw [List.cons_append, List.append_assoc]
    exact .head (.comment oneLine) ih

theorem Cut.splits {start : Nat} {text : List Char} {tokens : List Token} (cut : Cut start text tokens) :
    SplitsTo text [] := by
  induction cut with
  | done blank => simpa using blank.splits []
  | token blank spelled longest _ ih =>
    rw [List.append_assoc]
    exact (blank.splits _).trans (.head (.token spelled longest) ih)

namespace Scan

/-- A token is taken at once where no separator stands. -/
theorem token_at {c : Char} (visible : isSpace c = false) (noComment : c ≠ '!') (rest : List Char) (offset : Nat) :
    Scan.token ⟨c :: rest, offset⟩ = tokenAt c ⟨c :: rest, offset⟩ := by
  have starts : StartsToken (c :: rest) := by
    intro first head
    cases head
    exact ⟨visible, noComment⟩
  have skipped := skip_complete .empty starts offset
  rw [List.nil_append] at skipped
  rw [Scan.token, get_bind, skipped]
  rfl

theorem skip_unended {text : List Char} (unended : '\n' ∉ text) (offset : Nat) :
    skipSeparators true offset text = none := by
  induction text generalizing offset with
  | nil => rfl
  | cons c rest ih =>
    simp only [List.mem_cons, not_or] at unended
    have stays : (c != '\n') = true := by simp [Ne.symm unended.1]
    simp only [skipSeparators, ↓reduceIte, stays]
    exact ih unended.2 (offset + 1)

/-- What is wrong where the separators have no end, in a comment and outside of one. -/
theorem skip_none (text : List Char) (offset : Nat) :
    (skipSeparators false offset text = none →
      ∃ separator rest, Separator separator ∧ text = separator ++ '!' :: rest ∧ '\n' ∉ rest) ∧
    (skipSeparators true offset text = none →
      '\n' ∉ text ∨ ∃ body separator rest, '\n' ∉ body ∧ Separator separator ∧
        text = body ++ '\n' :: (separator ++ '!' :: rest) ∧ '\n' ∉ rest) := by
  induction text generalizing offset with
  | nil => exact ⟨nofun, fun _ => .inl List.not_mem_nil⟩
  | cons c rest ih =>
    obtain ⟨outside, inside⟩ := ih (offset + 1)
    constructor
    · intro skipped
      simp only [skipSeparators, Bool.false_eq_true, ↓reduceIte] at skipped
      split at skipped
      next blank =>
        obtain ⟨separator, more, valid, rfl, unended⟩ := outside skipped
        exact ⟨c :: separator, more, .space blank valid, rfl, unended⟩
      next visible =>
        split at skipped
        next opens =>
          subst c
          rcases inside skipped with unended | ⟨body, separator, more, oneLine, valid, rfl, unended⟩
          · exact ⟨[], rest, .empty, rfl, unended⟩
          · exact ⟨'!' :: (body ++ '\n' :: separator), more, .comment oneLine valid, by simp, unended⟩
        next other => cases skipped
    · intro skipped
      simp only [skipSeparators, ↓reduceIte] at skipped
      by_cases ends : c = '\n'
      · subst c
        obtain ⟨separator, more, valid, rfl, unended⟩ := outside skipped
        exact .inr ⟨[], separator, more, List.not_mem_nil, valid, rfl, unended⟩
      · have stays : (c != '\n') = true := by simp [ends]
        rw [stays] at skipped
        rcases inside skipped with unended | ⟨body, separator, more, oneLine, valid, rfl, unended⟩
        · exact .inl (by simp [unended, Ne.symm ends])
        · exact .inr ⟨c :: body, separator, more, by simp [oneLine, Ne.symm ends], valid, rfl, unended⟩

theorem symbol_eq_none_iff {c : Char} {position : Nat} (notColon : c ≠ ':') :
    symbol? c position = none ↔ (∀ kind, (c, kind) ∉ marks) ∧ c ∉ operators := by
  constructor
  · intro missing
    have different : ∀ token, symbol? c position ≠ some token := Option.eq_none_iff_forall_ne_some.mp missing
    constructor
    · intro kind listed
      exact different _ (symbol_eq_some_iff.mpr (.inl ⟨kind, listed, notColon, rfl⟩))
    · intro listed
      exact different _ (symbol_eq_some_iff.mpr (.inr ⟨listed, rfl⟩))
  · rintro ⟨noMark, noOperator⟩
    apply Option.eq_none_iff_forall_ne_some.mpr
    intro token found
    rcases symbol_eq_some_iff.mp found with ⟨kind, listed, _⟩ | ⟨listed, _⟩
    · exact noMark kind listed
    · exact noOperator listed

def cause? {α : Type} : EStateM.Result ScanError Cursor α → Option ScanError
  | .ok _ _ => none
  | .error cause _ => some cause

/-- Nothing is taken at an unexpected character. -/
theorem Stop.unmoved {position place : Nat} {rest : List Char} {c : Char}
    (stop : Stop position rest (some (.unexpected place c))) :
    Scan.token ⟨rest, position⟩ = .error (.unexpected place c) ⟨rest, position⟩ := by
  cases stop with
  | unexpected visible noComment noDigit noLetter noMark noOperator =>
    have notColon : c ≠ ':' := by
      rintro rfl
      exact noMark .colon (by simp [marks])
    rw [token_at visible noComment, symbol_run noDigit noLetter notColon,
      (symbol_eq_none_iff notColon).mpr ⟨noMark, noOperator⟩]

/-- The place where a scan stops decides how it ends. -/
theorem Stop.cause_eq {position : Nat} {rest : List Char} {ending : Option ScanError}
    (stop : Stop position rest ending) : cause? (Scan.token ⟨rest, position⟩) = ending := by
  cases stop with
  | finished => rw [token_end .empty position]; rfl
  | unexpected visible noComment noDigit noLetter noMark noOperator =>
    rw [(Stop.unexpected visible noComment noDigit noLetter noMark noOperator).unmoved]
    rfl
  | @notInteger digits rest nonempty spelled longest unread =>
    obtain ⟨c, more, rfl⟩ := List.exists_cons_of_ne_nil nonempty
    obtain ⟨digit, inside⟩ := List.forall_mem_cons.mp spelled
    rw [List.cons_append, token_at (not_space_of_isDigit digit) (not_comment_of_isDigit digit)]
    simp only [tokenAt, digit, ↓reduceIte, integer_run, (skip_run inside longest 0).1, unread]
    rfl
  | @endless rest unended =>
    have visible : isSpace '!' = false := by decide
    have skipped : skipSeparators false position ('!' :: rest) = none := by
      simp only [skipSeparators, Bool.false_eq_true, ↓reduceIte, visible]
      exact skip_unended unended (position + 1)
    rw [Scan.token, get_bind]
    simp only [skipped]
    rfl

theorem Stop.unique {position : Nat} {rest : List Char} {ending other : Option ScanError}
    (stop : Stop position rest ending) (again : Stop position rest other) : ending = other :=
  stop.cause_eq.symm.trans again.cause_eq

theorem Stop.at_end {position : Nat} {rest : List Char} (stop : Stop position rest none) : rest = [] := by
  cases stop
  rfl

theorem Stop.unended {position : Nat} {rest : List Char} (stop : Stop position rest (some .endless)) :
    rest ≠ [] ∧ '\n' ∉ rest := by
  cases stop with
  | endless unended => simp [unended]

/-- Neither a blank nor a whole comment stands where a scan stops. -/
theorem Stop.head_visible {position : Nat} {c : Char} {rest : List Char} {ending : Option ScanError}
    (stop : Stop position (c :: rest) ending) : isSpace c = false ∧ (c = '!' → '\n' ∉ rest) := by
  generalize opened : c :: rest = text at stop
  cases stop with
  | finished => cases opened
  | unexpected visible noComment =>
    cases opened
    exact ⟨visible, fun same => absurd same noComment⟩
  | notInteger nonempty spelled =>
    obtain ⟨first, more, rfl⟩ := List.exists_cons_of_ne_nil nonempty
    cases opened
    have digit := spelled c List.mem_cons_self
    exact ⟨not_space_of_isDigit digit, fun same => absurd same (not_comment_of_isDigit digit)⟩
  | endless unended =>
    cases opened
    exact ⟨by decide, fun _ => unended⟩

/-- No piece starts where a scan stops. -/
theorem Stop.no_piece {position : Nat} {rest : List Char} {ending : Option ScanError}
    (stop : Stop position rest ending) (after : List Char) : ¬ Piece rest after := by
  intro piece
  obtain ⟨c, others, rfl, shape⟩ := piece.cases_head position
  obtain ⟨front, unended⟩ := stop.head_visible
  rcases shape with ⟨blank, _⟩ | ⟨opens, ended, _⟩ | ⟨visible, noComment, token, reached, taken⟩
  · rw [front] at blank
    cases blank
  · exact unended opens ended
  · have succeeds := stop.cause_eq
    rw [token_at visible noComment, taken] at succeeds
    cases succeeds
    cases stop.at_end

theorem Stop.furthest {position : Nat} {text rest : List Char} {ending : Option ScanError}
    (splits : SplitsTo text rest) (stop : Stop position rest ending) : Furthest text rest := by
  refine ⟨splits, fun other further => ?_⟩
  rcases Relation.ReflTransGen.total_of_right_unique piece_unique splits further with onward | back
  · -- Nothing goes on from here, so the two places are one.
    cases onward.cases_head with
    | inl same => exact same ▸ Nat.le_refl _
    | inr more =>
      obtain ⟨after, piece, _⟩ := more
      exact absurd piece (stop.no_piece after)
  · exact SplitsTo.shorter back

theorem tokenAt_fails {c : Char} {rest : List Char} {offset : Nat} {cause : ScanError} {cursor : Cursor}
    (visible : isSpace c = false) (noComment : c ≠ '!')
    (ran : tokenAt c ⟨c :: rest, offset⟩ = .error cause cursor) : Stop offset (c :: rest) (some cause) := by
  by_cases digit : isDigit c = true
  · have spelled : ∀ d ∈ c :: rest.takeWhile isDigit, isDigit d = true :=
      List.forall_mem_cons.mpr ⟨digit, fun d member => List.mem_takeWhile_imp member⟩
    simp only [tokenAt, digit, ↓reduceIte, integer_run] at ran
    cases unread : Text.readInteger? (c :: rest.takeWhile isDigit) with
    | some value => simp [unread] at ran
    | none =>
      simp only [unread] at ran
      cases ran
      have stop : Stop offset (c :: rest.takeWhile isDigit ++ rest.dropWhile isDigit) _ :=
        .notInteger (List.cons_ne_nil _ _) spelled (head_dropWhile isDigit rest) unread
      rwa [List.cons_append, List.takeWhile_append_dropWhile] at stop
  · rw [Bool.not_eq_true] at digit
    by_cases letter : isLetter c = true
    · simp [tokenAt, digit, letter, word_run] at ran
    · rw [Bool.not_eq_true] at letter
      by_cases colon : c = ':'
      · subst c
        simp only [tokenAt, digit, letter, Bool.false_eq_true, ↓reduceIte, colon_run] at ran
        split at ran
        all_goals cases ran
      · rw [symbol_run digit letter colon] at ran
        cases found : symbol? c offset with
        | some token => simp [found] at ran
        | none =>
          simp only [found] at ran
          cases ran
          obtain ⟨noMark, noOperator⟩ := (symbol_eq_none_iff colon).mp found
          exact .unexpected visible noComment digit letter noMark noOperator

/-- A scan of one token that fails stops after some separators, and takes no more if a character is unexpected. -/
theorem token_fails {text : List Char} {offset : Nat} {cause : ScanError} {cursor : Cursor}
    (ran : Scan.token ⟨text, offset⟩ = .error cause cursor) :
    ∃ separator rest, Separator separator ∧ text = separator ++ rest ∧ Stop (offset + separator.length) rest (some cause) ∧
      ∀ place c, cause = .unexpected place c → cursor = ⟨rest, offset + separator.length⟩ := by
  rw [Scan.token, get_bind] at ran
  cases skipped : skipSeparators false offset text with
  | none =>
    simp only [skipped] at ran
    cases ran
    obtain ⟨separator, rest, blank, rfl, unended⟩ := (skip_none text offset).1 skipped
    refine ⟨separator, '!' :: rest, blank, rfl, .endless unended, ?_⟩
    rintro place c named
    cases named
  | some reached =>
    simp only [skipped, set_bind] at ran
    obtain ⟨separator, blank, rfl, moved, starts⟩ := (skip_sound text offset reached).1 skipped
    obtain ⟨ahead, position⟩ := reached
    dsimp only at moved ran starts ⊢
    subst position
    cases ahead with
    | nil => cases ran
    | cons c rest =>
      obtain ⟨visible, noComment⟩ := starts c rfl
      have fails : tokenAt c ⟨c :: rest, offset + separator.length⟩ = .error cause cursor := ran
      have stop := tokenAt_fails visible noComment fails
      refine ⟨separator, c :: rest, blank, rfl, stop, ?_⟩
      rintro place d rfl
      have again := stop.unmoved
      rw [token_at visible noComment, fails] at again
      cases again
      rfl

/-- A scan that fails stops at the first place where no piece follows. -/
theorem tokensWithin_fails {bound : Nat} {text : List Char} {offset : Nat} {cause : ScanError} {cursor : Cursor}
    (enough : text.length < bound) (ran : tokensWithin bound ⟨text, offset⟩ = .error cause cursor) :
    ∃ before rest, text = before ++ rest ∧ SplitsTo text rest ∧ Stop (offset + before.length) rest (some cause) ∧
      ∀ place c, cause = .unexpected place c → cursor = ⟨rest, offset + before.length⟩ := by
  induction bound generalizing text offset with
  | zero => omega
  | succ bound ih =>
    rw [tokensWithin] at ran
    cases taken : Scan.token ⟨text, offset⟩ with
    | error found reached =>
      rw [bind_error taken] at ran
      cases ran
      obtain ⟨separator, rest, blank, rfl, stop, unmoved⟩ := token_fails taken
      exact ⟨separator, rest, rfl, blank.splits rest, stop, unmoved⟩
    | ok token reached =>
      rw [bind_ok taken] at ran
      obtain ⟨ahead, position⟩ := reached
      rcases token_sound taken with ⟨_, rfl⟩ | ⟨separator, lexeme, kind, value, blank, spelled, rfl, rfl, rfl, longest⟩
      · cases ran
      · rw [if_neg (lexeme_kind spelled)] at ran
        obtain ⟨c, inner, same, _⟩ := lexeme_starts spelled
        have shorter : ahead.length < bound := by
          simp only [same, List.length_append, List.length_cons] at enough
          omega
        cases later : tokensWithin bound ⟨ahead, offset + separator.length + lexeme.length⟩ with
        | ok tokens final =>
          rw [bind_ok later] at ran
          cases ran
        | error found final =>
          rw [bind_error later] at ran
          cases ran
          obtain ⟨before, rest, rfl, splits, stop, unmoved⟩ := ih shorter later
          have length : offset + separator.length + lexeme.length + before.length =
              offset + (separator ++ lexeme ++ before).length := by
            simp only [List.length_append]
            omega
          rw [length] at stop unmoved
          refine ⟨separator ++ lexeme ++ before, rest, by simp, ?_, stop, unmoved⟩
          rw [List.append_assoc]
          exact (blank.splits _).trans (.head (.token spelled longest) splits)

/-- Every scan reaches a place where no piece follows, and ends as this place decides. -/
theorem tokens_stop (text : String) :
    ∃ before rest ending, text.toList = before ++ rest ∧ SplitsTo text.toList rest ∧ Stop before.length rest ending ∧
      cause? (Scan.tokens (Cursor.start text)) = ending ∧
      ∀ place c, ending = some (.unexpected place c) →
        Scan.tokens (Cursor.start text) = .error (.unexpected place c) ⟨rest, before.length⟩ := by
  have run : Scan.tokens (Cursor.start text) = tokensWithin (text.toList.length + 1) ⟨text.toList, 0⟩ := rfl
  rw [run]
  cases ran : tokensWithin (text.toList.length + 1) ⟨text.toList, 0⟩ with
  | ok tokens cursor =>
    obtain ⟨body, _, _, cut⟩ := tokensWithin_sound ran
    exact ⟨text.toList, [], none, by simp, cut.splits, .finished, rfl, nofun⟩
  | error cause cursor =>
    obtain ⟨before, rest, same, splits, stop, unmoved⟩ := tokensWithin_fails (Nat.lt_succ_self _) ran
    rw [Nat.zero_add] at stop unmoved
    refine ⟨before, rest, some cause, same, splits, stop, rfl, ?_⟩
    rintro place c named
    cases named
    rw [unmoved place c rfl]

theorem ofText_eq_ok_iff {text : String} :
    (∃ tokens, Token.ofText text = .ok tokens) ↔ cause? (Scan.tokens (Cursor.start text)) = none := by
  unfold Token.ofText
  cases Scan.tokens (Cursor.start text) with
  | ok tokens cursor => exact ⟨fun _ => rfl, fun _ => ⟨tokens, rfl⟩⟩
  | error cause cursor => exact ⟨nofun, nofun⟩

theorem ofText_eq_error_iff {text : String} {cause : ScanError} :
    Token.ofText text = .error cause ↔ cause? (Scan.tokens (Cursor.start text)) = some cause := by
  unfold Token.ofText
  cases Scan.tokens (Cursor.start text) with
  | ok tokens cursor => exact ⟨nofun, nofun⟩
  | error found cursor => simp [cause?]

/-- Steps find no line end where none lies ahead. -/
theorem steps_unended {text : List Char} (unended : '\n' ∉ text) (offset steps : Nat) :
    (Cursor.next^[steps] ⟨text, offset⟩).current? ≠ some '\n' := by
  induction steps generalizing text offset with
  | zero =>
    intro found
    exact unended (List.mem_of_mem_head? found)
  | succ steps ih =>
    rw [Function.iterate_succ_apply]
    exact ih (fun member => unended (List.mem_of_mem_tail member)) (offset + 1)

/-- A character that is unexpected once is unexpected again. -/
theorem answers_unexpected {cursor : Cursor} {place : Nat} {c : Char}
    (stuck : Scan.token cursor = .error (.unexpected place c) cursor) (count : Nat) :
    session Request.answer (· == .endless) (List.replicate count .token) cursor =
      List.replicate count ⟨.error (.unexpected place c), cursor⟩ := by
  have answered : Request.token.answer cursor = .error (.unexpected place c) cursor := bind_error stuck
  induction count with
  | zero => rfl
  | succ count ih =>
    rw [List.replicate_succ, List.replicate_succ, session, answered]
    simp only [ih]
    rfl

end Scan

/-- How a scan ends is decided at the end of the longest part of the text, from its start, that is made of blanks, whole
comments and tokens as long as they can be. There, and for one reason only, either the text ends and has been scanned,
or an unexpected character stands, or digits that write no number, or a comment whose line end is sought without end.
A text that ends with a line end is never scanned without end. An unexpected character is not taken, so every further
scan of a token finds it again. -/
theorem scan_ends_at_obstacle (text : String) :
    ∃ before rest, text.toList = before ++ rest ∧ Furthest text.toList rest ∧
      (∃! ending, Stop before.length rest ending) ∧
      ((∃ tokens, Token.ofText text = .ok tokens) ↔ Stop before.length rest none) ∧
      (∀ cause, Token.ofText text = .error cause ↔ Stop before.length rest (some cause)) ∧
      (Token.ofText text = .error .endless →
        ∀ steps, (Cursor.next^[steps] ⟨rest, before.length⟩).current? ≠ some '\n') ∧
      (text.toList.getLast? = some '\n' → Token.ofText text ≠ .error .endless) ∧
      (∀ place c, Token.ofText text = .error (.unexpected place c) → ∀ count,
        Scan.answers text (.tokens :: List.replicate count .token) =
          List.replicate (count + 1) ⟨.error (.unexpected place c), ⟨rest, before.length⟩⟩) := by
  obtain ⟨before, rest, ending, same, splits, stop, ended, unmoved⟩ := tokens_stop text
  have decided : ∀ other, cause? (Scan.tokens (Cursor.start text)) = other ↔ Stop before.length rest other := by
    intro other
    rw [ended]
    exact ⟨fun same => same ▸ stop, fun again => stop.unique again⟩
  have failure (cause : ScanError) : Token.ofText text = .error cause ↔ Stop before.length rest (some cause) :=
    ofText_eq_error_iff.trans (decided (some cause))
  refine ⟨before, rest, same, stop.furthest splits, ⟨ending, stop, fun other again => again.unique stop⟩,
    ofText_eq_ok_iff.trans (decided none), failure, ?_, ?_, ?_⟩
  · intro failed
    exact steps_unended ((failure .endless).mp failed).unended.2 before.length
  · intro last failed
    obtain ⟨nonempty, unended⟩ := ((failure .endless).mp failed).unended
    rw [same, List.getLast?_append_of_ne_nil before nonempty] at last
    exact unended (List.mem_of_getLast? last)
  · intro place c failed count
    have obstacle := (failure (.unexpected place c)).mp failed
    have scanned := unmoved place c (stop.unique obstacle)
    have answered : Request.tokens.answer (Cursor.start text) = .error (.unexpected place c) ⟨rest, before.length⟩ :=
      bind_error scanned
    rw [Scan.answers, session, answered, List.replicate_succ, ← answers_unexpected obstacle.unmoved count]
    rfl

-- What stands in a comment is no obstacle.
example : Token.ofText "x !$!\n $" = .error (.unexpected 7 '$') := by cbv

end MiniTriangle
