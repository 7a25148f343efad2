import MiniTriangle.Proofs.CharacterClasses
import MiniTriangle.Proofs.Lexemes
import MiniTriangle.Proofs.Sequencing
import Mathlib.Data.List.TakeWhile

/-! What one step of the scanner does, told from the characters ahead of the cursor: which separators it
skips, and which token it takes at a character where one starts. -/

namespace MiniTriangle.Scan

open Alphabet Sequencing

/-- Neither white space nor the start of a comment. -/
def StartsToken (text : List Char) : Prop := ∀ c ∈ text.head?, isSpace c = false ∧ c ≠ '!'

/-- What skipping finds, in a comment and outside of one. -/
theorem skip_sound (text : List Char) (offset : Nat) (cursor : Cursor) :
    (skipSeparators false offset text = some cursor →
      ∃ separator, Separator separator ∧ text = separator ++ cursor.ahead ∧
        cursor.offset = offset + separator.length ∧ StartsToken cursor.ahead) ∧
    (skipSeparators true offset text = some cursor →
      ∃ body separator, '\n' ∉ body ∧ Separator separator ∧ text = body ++ '\n' :: separator ++ cursor.ahead ∧
        cursor.offset = offset + (body.length + 1 + separator.length) ∧ StartsToken cursor.ahead) := by
  induction text generalizing offset with
  | nil =>
    constructor
    · intro skipped
      simp only [skipSeparators, Bool.false_eq_true, ↓reduceIte, Option.some.injEq] at skipped
      subst cursor
      exact ⟨[], .empty, rfl, rfl, by simp [StartsToken]⟩
    · intro skipped
      simp [skipSeparators] at skipped
  | cons c rest ih =>
    constructor
    · intro skipped
      simp only [skipSeparators, Bool.false_eq_true, ↓reduceIte] at skipped
      split at skipped
      next blank =>
        obtain ⟨separator, valid, rfl, moved, starts⟩ := (ih (offset + 1)).1 skipped
        exact ⟨c :: separator, .space blank valid, rfl, by simp [moved]; omega, starts⟩
      next visible =>
        split at skipped
        next opens =>
          subst c
          obtain ⟨body, separator, oneLine, valid, rfl, moved, starts⟩ := (ih (offset + 1)).2 skipped
          refine ⟨'!' :: (body ++ '\n' :: separator), .comment oneLine valid, by simp, ?_, starts⟩
          simp [moved]
          omega
        next other =>
          simp only [Option.some.injEq] at skipped
          subst cursor
          exact ⟨[], .empty, rfl, rfl, by simp [StartsToken, visible, other]⟩
    · intro skipped
      simp only [skipSeparators, ↓reduceIte] at skipped
      by_cases ends : c = '\n'
      · subst c
        obtain ⟨separator, valid, rfl, moved, starts⟩ := (ih (offset + 1)).1 skipped
        exact ⟨[], separator, by simp, valid, rfl, by simp [moved]; omega, starts⟩
      · have stays : (c != '\n') = true := by simp [ends]
        rw [stays] at skipped
        obtain ⟨body, separator, oneLine, valid, rfl, moved, starts⟩ := (ih (offset + 1)).2 skipped
        refine ⟨c :: body, separator, ?_, valid, rfl, by simp [moved]; omega, starts⟩
        simp [oneLine, Ne.symm ends]

private theorem skip_comment {body : List Char} (oneLine : '\n' ∉ body) (rest : List Char) (offset : Nat) :
    skipSeparators true offset (body ++ '\n' :: rest) = skipSeparators false (offset + body.length + 1) rest := by
  induction body generalizing offset with
  | nil => rfl
  | cons c body ih =>
    simp only [List.mem_cons, not_or] at oneLine
    have stays : (c != '\n') = true := by simp [Ne.symm oneLine.1]
    simp only [List.cons_append, skipSeparators, ↓reduceIte, stays]
    rw [ih oneLine.2]
    congr 1
    simp only [List.length_cons]
    omega

/-- Separators are skipped whole, up to the next token. -/
theorem skip_complete {separator rest : List Char} (valid : Separator separator) (starts : StartsToken rest)
    (offset : Nat) :
    skipSeparators false offset (separator ++ rest) = some ⟨rest, offset + separator.length⟩ := by
  induction valid generalizing offset with
  | empty =>
    cases rest with
    | nil => rfl
    | cons c rest =>
      obtain ⟨visible, other⟩ := starts c rfl
      simp [skipSeparators, visible, other]
  | @space c more blank valid ih =>
    simp only [List.cons_append, skipSeparators, Bool.false_eq_true, ↓reduceIte, blank]
    rw [ih]
    simp only [List.length_cons, Option.some.injEq, Cursor.mk.injEq, true_and]
    omega
  | @comment body more oneLine valid ih =>
    have visible : isSpace '!' = false := by decide
    simp only [List.cons_append, List.append_assoc, skipSeparators, Bool.false_eq_true, ↓reduceIte, visible]
    rw [skip_comment oneLine, ih]
    simp only [List.length_cons, List.length_append, Option.some.injEq, Cursor.mk.injEq, true_and]
    omega

private theorem readDigits_eq (text : List Char) (value : Nat) :
    Text.readDigits? value text =
      (text.mapM decimalValue?).map fun values => value * 10 ^ values.length + Nat.ofDigits 10 values.reverse := by
  induction text generalizing value with
  | nil => simp [Text.readDigits?]
  | cons c rest ih =>
    simp only [Text.readDigits?, List.mapM_cons]
    cases decimalValue? c with
    | none => rfl
    | some digit =>
      simp only [ih]
      cases rest.mapM decimalValue? with
      | none => rfl
      | some values =>
        simp only [Option.map_some, Option.bind_eq_bind, Option.bind_some, Option.pure_def, List.length_cons,
          List.reverse_cons, Nat.ofDigits_append, List.length_reverse, Nat.ofDigits_singleton, Option.some.injEq]
        ring

private theorem trimBlanks_digits {text : List Char} (spelled : ∀ c ∈ text, isDigit c = true) :
    Text.trimBlanks text = text := by
  have visible : ∀ c ∈ text, isBlank c = false := by
    intro c member
    simp [isBlank, not_space_of_isDigit (spelled c member)]
  have keeps (row : List Char) (none : ∀ c ∈ row, isBlank c = false) : row.dropWhile isBlank = row := by
    cases row with
    | nil => rfl
    | cons c rest => simp [none c (by simp)]
  rw [Text.trimBlanks, keeps text visible, keeps text.reverse (by simpa using visible), List.reverse_reverse]

/-- A run of digits is read as the number that their decimal values write, if they all have one. -/
theorem readInteger_digits {text : List Char} (nonempty : text ≠ []) (spelled : ∀ c ∈ text, isDigit c = true) :
    Text.readInteger? text =
      (text.mapM decimalValue?).map fun values => ((Nat.ofDigits 10 values.reverse : Nat) : Int) := by
  obtain ⟨c, rest, rfl⟩ := List.exists_cons_of_ne_nil nonempty
  have digit := spelled c (by simp)
  have plus : c ≠ '+' := by rintro rfl; revert digit; decide
  have minus : c ≠ '-' := by rintro rfl; revert digit; decide
  rw [Text.readInteger?, trimBlanks_digits spelled]
  split
  next same => cases same; exact absurd rfl plus
  next same => cases same; exact absurd rfl minus
  next =>
    rw [Text.readNatural?, readDigits_eq]
    simp only [Option.map_map]
    congr 1
    funext values
    simp

/-- The keywords are distinct, and each goes on as a word does. -/
theorem keyword_entry : ∀ entry ∈ keywords, keywords.lookup entry.1 = some entry.2 ∧ entry.2.continues = isAlphanumeric := by
  simp only [keywords, List.forall_mem_cons]
  exact ⟨⟨rfl, rfl⟩, ⟨rfl, rfl⟩, ⟨rfl, rfl⟩, ⟨rfl, rfl⟩, ⟨rfl, rfl⟩, ⟨rfl, rfl⟩, ⟨rfl, rfl⟩, ⟨rfl, rfl⟩, ⟨rfl, rfl⟩, ⟨rfl, rfl⟩,
    ⟨rfl, rfl⟩, ⟨rfl, rfl⟩, ⟨rfl, rfl⟩, by simp⟩

theorem lexeme_wordToken {word : List Char} (spelled : IsWord word) (position : Nat) :
    ∃ kind value, wordToken (String.ofList word) position = ⟨kind, value, position⟩ ∧ Lexeme word kind value ∧
      kind.continues = isAlphanumeric := by
  cases found : keywords.lookup (String.ofList word) with
  | none =>
    refine ⟨.identifier, .text (String.ofList word), by simp [wordToken, found], .identifier spelled ?_, rfl⟩
    intro kind listed
    have different := List.lookup_eq_none_iff.mp found _ listed
    simp at different
  | some kind =>
    obtain ⟨before, after, same, _⟩ := List.lookup_eq_some_iff.mp found
    have listed : (String.ofList word, kind) ∈ keywords := by simp [same]
    exact ⟨kind, .number 0, by simp [wordToken, found, Token.plain], .keyword spelled listed,
      (keyword_entry _ listed).2⟩

theorem symbol_eq_some_iff {c : Char} {position : Nat} {token : Token} :
    symbol? c position = some token ↔
      (∃ kind, (c, kind) ∈ marks ∧ c ≠ ':' ∧ token = .plain kind position) ∨
      (c ∈ operators ∧ token = ⟨.operator, .text (String.ofList [c]), position⟩) := by
  constructor
  · intro found
    unfold symbol? at found
    grind [marks]
  · rintro (⟨kind, listed, other, rfl⟩ | ⟨listed, rfl⟩)
    · simp only [marks, List.mem_cons, Prod.mk.injEq, List.not_mem_nil, or_false] at listed
      rcases listed with ⟨rfl, rfl⟩ | ⟨rfl, rfl⟩ | ⟨rfl, rfl⟩ | ⟨rfl, rfl⟩ | ⟨rfl, rfl⟩ | ⟨rfl, rfl⟩
      all_goals first | rfl | exact absurd rfl other
    · simp only [operators, List.mem_cons, List.not_mem_nil, or_false] at listed
      rcases listed with rfl | rfl | rfl | rfl | rfl | rfl | rfl | rfl
      all_goals rfl

/-- A token taken from the front of a text at the given offset, as long as it can be, and the cursor after it. -/
def Takes (text : List Char) (offset : Nat) (token : Token) (cursor : Cursor) : Prop :=
  ∃ lexeme kind value, text = lexeme ++ cursor.ahead ∧ cursor.offset = offset + lexeme.length ∧
    token = ⟨kind, value, offset⟩ ∧ Lexeme lexeme kind value ∧ ∀ c ∈ cursor.ahead.head?, kind.continues c = false

theorem head_dropWhile (test : Char → Bool) (text : List Char) :
    ∀ c ∈ (text.dropWhile test).head?, test c = false := by
  intro c first
  have fails := List.head?_dropWhile_not test text
  rw [Option.mem_def.mp first] at fails
  simpa using fails

theorem integer_run (c : Char) (rest : List Char) (offset : Nat) :
    integer ⟨c :: rest, offset⟩ =
      match Text.readInteger? (c :: rest.takeWhile isDigit) with
      | some value => .ok ⟨.integer, .number value, offset⟩ (Cursor.skipWhile ⟨rest, offset + 1⟩ isDigit)
      | none => .error (.notInteger (c :: rest.takeWhile isDigit)) (Cursor.skipWhile ⟨rest, offset + 1⟩ isDigit) := by
  show (match Text.readInteger? (c :: rest.takeWhile isDigit) with
    | some value => (pure ⟨.integer, .number value, offset⟩ : Scan Token)
    | none => throw (ScanError.notInteger (c :: rest.takeWhile isDigit))) (Cursor.skipWhile ⟨rest, offset + 1⟩ isDigit) = _
  cases Text.readInteger? (c :: rest.takeWhile isDigit) with
  | none => rfl
  | some value => rfl

theorem word_run (c : Char) (rest : List Char) (offset : Nat) :
    word ⟨c :: rest, offset⟩ =
      .ok (wordToken (String.ofList (c :: rest.takeWhile isAlphanumeric)) offset)
        (Cursor.skipWhile ⟨rest, offset + 1⟩ isAlphanumeric) := rfl

theorem colon_run (rest : List Char) (offset : Nat) :
    colon ⟨':' :: rest, offset⟩ =
      if rest.head? = some '=' then .ok (.plain .becomes offset) ⟨rest.tail, offset + 2⟩
      else .ok (.plain .colon offset) ⟨rest, offset + 1⟩ := by
  show (if rest.head? = some '=' then (do let _ ← take; pure (.plain .becomes offset) : Scan Token)
    else pure (.plain .colon offset)) ⟨rest, offset + 1⟩ = _
  split
  next => rfl
  next => rfl

theorem symbol_run {c : Char} (notDigit : isDigit c = false) (notLetter : isLetter c = false) (notColon : c ≠ ':')
    (rest : List Char) (offset : Nat) :
    tokenAt c ⟨c :: rest, offset⟩ =
      match symbol? c offset with
      | some token => .ok token ⟨rest, offset + 1⟩
      | none => .error (.unexpected offset c) ⟨c :: rest, offset⟩ := by
  simp only [tokenAt, notDigit, notLetter, notColon, Bool.false_eq_true, ↓reduceIte]
  show (match symbol? c offset with
    | some token => (do let _ ← take; pure token : Scan Token)
    | none => throw (ScanError.unexpected offset c)) ⟨c :: rest, offset⟩ = _
  cases symbol? c offset with
  | none => rfl
  | some token => rfl

/-- What one of the tests takes from a text: a run that goes on no further. -/
private theorem takes_run {test : Char → Bool} {c : Char} {rest : List Char} {offset : Nat} {kind : Kind} {value : Atom}
    (spelled : Lexeme (c :: rest.takeWhile test) kind value) (longest : kind.continues = test) :
    Takes (c :: rest) offset ⟨kind, value, offset⟩ (Cursor.skipWhile ⟨rest, offset + 1⟩ test) := by
  refine ⟨c :: rest.takeWhile test, kind, value, ?_, ?_, rfl, spelled, ?_⟩
  · simp [Cursor.skipWhile]
  · simp only [Cursor.skipWhile, List.length_cons]
    omega
  · rw [longest]
    exact head_dropWhile test rest

/-- Every token that is taken is a token of the language, and the longest one there. -/
theorem tokenAt_sound {c : Char} {rest : List Char} {offset : Nat} {token : Token} {cursor : Cursor}
    (ran : tokenAt c ⟨c :: rest, offset⟩ = .ok token cursor) : Takes (c :: rest) offset token cursor := by
  by_cases digit : isDigit c = true
  · have spelled : ∀ d ∈ c :: rest.takeWhile isDigit, isDigit d = true :=
      List.forall_mem_cons.mpr ⟨digit, fun d member => List.mem_takeWhile_imp member⟩
    simp only [tokenAt, digit, ↓reduceIte, integer_run, readInteger_digits (List.cons_ne_nil _ _) spelled] at ran
    cases valued : (c :: rest.takeWhile isDigit).mapM decimalValue? with
    | none => simp [valued] at ran
    | some values =>
      simp only [valued, Option.map_some] at ran
      cases ran
      exact takes_run (.integer (List.cons_ne_nil _ _) spelled valued) rfl
  · by_cases letter : isLetter c = true
    · have spelled : IsWord (c :: rest.takeWhile isAlphanumeric) :=
        ⟨c, _, rfl, letter, fun d member => List.mem_takeWhile_imp member⟩
      simp only [tokenAt, digit, letter, Bool.false_eq_true, ↓reduceIte, word_run] at ran
      cases ran
      obtain ⟨kind, value, same, lexeme, longest⟩ := lexeme_wordToken spelled offset
      rw [same]
      exact takes_run lexeme longest
    · by_cases colon : c = ':'
      · subst c
        simp only [tokenAt, digit, letter, Bool.false_eq_true, ↓reduceIte, colon_run] at ran
        split at ran
        next follows =>
          obtain ⟨others, rfl⟩ := List.head?_eq_some_iff.mp follows
          cases ran
          exact ⟨[':', '='], .becomes, .number 0, rfl, rfl, rfl, .becomes, by simp [Kind.continues]⟩
        next alone =>
          cases ran
          refine ⟨[':'], .colon, .number 0, rfl, rfl, rfl, .mark (by simp [marks]), ?_⟩
          intro next first
          simp only [Kind.continues, decide_eq_false_iff_not]
          rintro rfl
          exact alone first
      · rw [symbol_run (by simpa using digit) (by simpa using letter) colon] at ran
        cases found : symbol? c offset with
        | none => simp [found] at ran
        | some result =>
          simp only [found] at ran
          cases ran
          rcases symbol_eq_some_iff.mp found with ⟨kind, listed, _, rfl⟩ | ⟨listed, rfl⟩
          · refine ⟨[c], kind, .number 0, rfl, rfl, rfl, .mark listed, ?_⟩
            simp only [marks, List.mem_cons, Prod.mk.injEq, List.not_mem_nil, or_false] at listed
            rcases listed with ⟨_, rfl⟩ | ⟨_, rfl⟩ | ⟨_, rfl⟩ | ⟨_, rfl⟩ | ⟨_, rfl⟩ | ⟨same, rfl⟩
            all_goals first | exact fun _ _ => rfl | exact absurd same colon
          · exact ⟨[c], .operator, _, rfl, rfl, rfl, .operator listed, fun _ _ => rfl⟩

theorem skip_run {test : Char → Bool} {run rest : List Char} (inside : ∀ c ∈ run, test c = true)
    (longest : ∀ c ∈ rest.head?, test c = false) (offset : Nat) :
    (run ++ rest).takeWhile test = run ∧ Cursor.skipWhile ⟨run ++ rest, offset⟩ test = ⟨rest, offset + run.length⟩ := by
  have stops : rest.takeWhile test = [] ∧ rest.dropWhile test = rest := by
    cases rest with
    | nil => exact ⟨rfl, rfl⟩
    | cons c rest => simp [longest c rfl]
  rw [Cursor.skipWhile, List.takeWhile_append_of_pos inside, List.dropWhile_append_of_pos inside, stops.1, stops.2,
    List.append_nil]
  exact ⟨rfl, rfl⟩

theorem not_comment_of_isDigit {c : Char} (digit : isDigit c = true) : c ≠ '!' := by
  rintro rfl
  revert digit
  decide

theorem lexeme_starts {lexeme : List Char} {kind : Kind} {value : Atom} (spelled : Lexeme lexeme kind value) :
    ∃ c rest, lexeme = c :: rest ∧ isSpace c = false ∧ c ≠ '!' := by
  cases spelled with
  | keyword word _ | identifier word _ =>
    obtain ⟨c, rest, rfl, letter, _⟩ := word
    exact ⟨c, rest, rfl, not_space_of_isLetter letter, by rintro rfl; revert letter; decide⟩
  | integer nonempty digits _ =>
    obtain ⟨c, rest, rfl⟩ := List.exists_cons_of_ne_nil nonempty
    have digit := digits c (by simp)
    exact ⟨c, rest, rfl, not_space_of_isDigit digit, not_comment_of_isDigit digit⟩
  | becomes => exact ⟨_, _, rfl, by decide, by decide⟩
  | mark listed =>
    simp only [marks, List.mem_cons, Prod.mk.injEq, List.not_mem_nil, or_false] at listed
    rcases listed with ⟨rfl, _⟩ | ⟨rfl, _⟩ | ⟨rfl, _⟩ | ⟨rfl, _⟩ | ⟨rfl, _⟩ | ⟨rfl, _⟩
    all_goals exact ⟨_, _, rfl, by decide, by decide⟩
  | operator listed =>
    simp only [List.mem_cons, List.not_mem_nil, or_false] at listed
    rcases listed with rfl | rfl | rfl | rfl | rfl | rfl | rfl | rfl
    all_goals exact ⟨_, _, rfl, by decide, by decide⟩

private theorem word_complete {word : List Char} {kind : Kind} {value : Atom} (spelled : IsWord word)
    {rest : List Char} (longest : ∀ c ∈ rest.head?, isAlphanumeric c = false) (offset : Nat)
    (token : wordToken (String.ofList word) offset = ⟨kind, value, offset⟩) :
    ∃ c others, word ++ rest = c :: others ∧
      tokenAt c ⟨word ++ rest, offset⟩ = .ok ⟨kind, value, offset⟩ ⟨rest, offset + word.length⟩ := by
  obtain ⟨c, others, rfl, letter, inside⟩ := spelled
  refine ⟨c, others ++ rest, rfl, ?_⟩
  obtain ⟨taken, skipped⟩ := skip_run inside longest (offset + 1)
  simp only [tokenAt, not_digit_of_isLetter letter, letter, Bool.false_eq_true, ↓reduceIte, List.cons_append, word_run,
    taken, skipped, token, List.length_cons]
  congr 2
  omega

/-- Every token of the language is taken where it is the longest one. -/
theorem tokenAt_complete {lexeme rest : List Char} {kind : Kind} {value : Atom} (spelled : Lexeme lexeme kind value)
    (longest : ∀ c ∈ rest.head?, kind.continues c = false) (offset : Nat) :
    ∃ c others, lexeme ++ rest = c :: others ∧
      tokenAt c ⟨lexeme ++ rest, offset⟩ = .ok ⟨kind, value, offset⟩ ⟨rest, offset + lexeme.length⟩ := by
  cases spelled with
  | keyword word listed =>
    obtain ⟨found, longestWord⟩ := keyword_entry _ listed
    rw [longestWord] at longest
    exact word_complete word longest offset (by simp [wordToken, found, Token.plain])
  | identifier word free =>
    have missing : keywords.lookup (String.ofList lexeme) = none := by
      apply List.lookup_eq_none_iff.mpr
      rintro ⟨other, kind⟩ listed
      apply bne_iff_ne.mpr
      rintro rfl
      exact free kind listed
    exact word_complete word longest offset (by simp [wordToken, missing])
  | @integer _ values nonempty digits valued =>
    obtain ⟨c, others, rfl⟩ := List.exists_cons_of_ne_nil nonempty
    obtain ⟨digit, inside⟩ := List.forall_mem_cons.mp digits
    refine ⟨c, others ++ rest, rfl, ?_⟩
    obtain ⟨taken, skipped⟩ := skip_run inside longest (offset + 1)
    simp only [tokenAt, digit, ↓reduceIte, List.cons_append, integer_run, taken, skipped,
      readInteger_digits nonempty digits, valued, Option.map_some, List.length_cons]
    congr 2
    omega
  | becomes => exact ⟨':', '=' :: rest, rfl, rfl⟩
  | @mark c _ listed =>
    refine ⟨c, rest, rfl, ?_⟩
    by_cases colon : c = ':'
    · subst c
      obtain rfl : kind = .colon := by simpa [marks] using listed
      have alone : rest.head? ≠ some '=' := by
        intro follows
        simpa [Kind.continues] using longest '=' follows
      show colon ⟨':' :: rest, offset⟩ = _
      rw [colon_run, if_neg alone]
      rfl
    · have found : symbol? c offset = some (.plain kind offset) := symbol_eq_some_iff.mpr (.inl ⟨kind, listed, colon, rfl⟩)
      have classes : isDigit c = false ∧ isLetter c = false := by
        simp only [marks, List.mem_cons, Prod.mk.injEq, List.not_mem_nil, or_false] at listed
        rcases listed with ⟨rfl, _⟩ | ⟨rfl, _⟩ | ⟨rfl, _⟩ | ⟨rfl, _⟩ | ⟨rfl, _⟩ | ⟨rfl, _⟩
        all_goals exact ⟨by decide, by decide⟩
      simp only [List.singleton_append, symbol_run classes.1 classes.2 colon, found]
      rfl
  | @operator c listed =>
    refine ⟨c, rest, rfl, ?_⟩
    have found : symbol? c offset = some ⟨.operator, .text (String.ofList [c]), offset⟩ :=
      symbol_eq_some_iff.mpr (.inr ⟨listed, rfl⟩)
    have classes : isDigit c = false ∧ isLetter c = false ∧ c ≠ ':' := by
      simp only [List.mem_cons, List.not_mem_nil, or_false] at listed
      rcases listed with rfl | rfl | rfl | rfl | rfl | rfl | rfl | rfl
      all_goals exact ⟨by decide, by decide, by decide⟩
    simp only [List.singleton_append, symbol_run classes.1 classes.2.1 classes.2.2, found]
    rfl

end MiniTriangle.Scan
