import MiniTriangle.Proofs.TokenSteps

/-! Scanning computes the cut of a text into its longest tokens, and nothing else: every scan that succeeds
yields such a cut, and every such cut is found. -/

namespace MiniTriangle

open Alphabet Sequencing

namespace Scan

/-- A scan of one token either finds only separators up to the end of the text, or takes a token after some. -/
theorem token_sound {text : List Char} {offset : Nat} {token : Token} {cursor : Cursor}
    (ran : Scan.token ⟨text, offset⟩ = .ok token cursor) :
    (Separator text ∧ token = .plain .endOfText (offset + text.length : Nat)) ∨
    ∃ separator lexeme kind value, Separator separator ∧ Lexeme lexeme kind value ∧
      text = separator ++ lexeme ++ cursor.ahead ∧ cursor.offset = offset + separator.length + lexeme.length ∧
      token = ⟨kind, value, (offset + separator.length : Nat)⟩ ∧
      ∀ c ∈ cursor.ahead.head?, kind.continues c = false := by
  rw [Scan.token, get_bind] at ran
  cases skipped : skipSeparators false offset text with
  | none =>
    simp only [skipped] at ran
    cases ran
  | some reached =>
    simp only [skipped, set_bind] at ran
    obtain ⟨separator, blank, rfl, moved, _⟩ := (skip_sound text offset reached).1 skipped
    obtain ⟨ahead, position⟩ := reached
    dsimp only at moved ran ⊢
    subst position
    cases ahead with
    | nil =>
      cases ran
      exact .inl ⟨by simpa using blank, by simp⟩
    | cons c rest =>
      obtain ⟨lexeme, kind, value, same, later, rfl, spelled, longest⟩ := tokenAt_sound ran
      exact .inr ⟨separator, lexeme, kind, value, blank, spelled, by rw [same, List.append_assoc], later, rfl, longest⟩

theorem token_complete {separator lexeme rest : List Char} {kind : Kind} {value : Atom}
    (blank : Separator separator) (spelled : Lexeme lexeme kind value)
    (longest : ∀ c ∈ rest.head?, kind.continues c = false) (offset : Nat) :
    Scan.token ⟨separator ++ lexeme ++ rest, offset⟩ =
      .ok ⟨kind, value, (offset + separator.length : Nat)⟩ ⟨rest, offset + separator.length + lexeme.length⟩ := by
  obtain ⟨c, others, opened, taken⟩ := tokenAt_complete spelled longest (offset + separator.length)
  have starts : StartsToken (lexeme ++ rest) := by
    obtain ⟨first, inner, same, visible⟩ := lexeme_starts spelled
    intro d head
    rw [same, List.cons_append, List.head?_cons, Option.mem_some_iff] at head
    exact head ▸ visible
  rw [Scan.token, get_bind, List.append_assoc, skip_complete blank starts]
  simp only [set_bind]
  rw [opened] at taken ⊢
  exact taken

theorem token_end {text : List Char} (blank : Separator text) (offset : Nat) :
    Scan.token ⟨text, offset⟩ = .ok (.plain .endOfText (offset + text.length : Nat)) ⟨[], offset + text.length⟩ := by
  have skipped : skipSeparators false offset (text ++ []) = some ⟨[], offset + text.length⟩ :=
    skip_complete blank (by simp [StartsToken]) offset
  rw [List.append_nil] at skipped
  rw [Scan.token, get_bind, skipped]
  rfl

theorem lexeme_kind {lexeme : List Char} {kind : Kind} {value : Atom} (spelled : Lexeme lexeme kind value) :
    kind ≠ .endOfText := by
  intro same
  subst kind
  cases spelled with
  | keyword _ listed => simp [keywords] at listed
  | mark listed => simp [marks] at listed

theorem tokensWithin_sound {bound : Nat} {text : List Char} {offset : Nat} {tokens : List Token} {cursor : Cursor}
    (ran : tokensWithin bound ⟨text, offset⟩ = .ok tokens cursor) :
    ∃ body, tokens = body ++ [.plain .endOfText (offset + text.length : Nat)] ∧
      (∀ token ∈ body, token.kind ≠ .endOfText) ∧ Cut offset text body := by
  induction bound generalizing text offset tokens with
  | zero => cases ran
  | succ bound ih =>
    simp only [tokensWithin, bind_eq_ok] at ran
    obtain ⟨token, ⟨ahead, position⟩, taken, ran⟩ := ran
    rcases token_sound taken with ⟨blank, rfl⟩ | ⟨separator, lexeme, kind, value, blank, spelled, rfl, rfl, rfl, longest⟩
    · cases ran
      exact ⟨[], rfl, by simp, .done blank⟩
    · rw [if_neg (lexeme_kind spelled)] at ran
      obtain ⟨others, _, rest, ran⟩ := bind_eq_ok.mp ran
      cases ran
      obtain ⟨body, rfl, inner, cut⟩ := ih rest
      refine ⟨_ :: body, ?_, List.forall_mem_cons.mpr ⟨lexeme_kind spelled, inner⟩, .token blank spelled longest cut⟩
      have length : offset + separator.length + lexeme.length + ahead.length =
          offset + (separator ++ lexeme ++ ahead).length := by
        simp only [List.length_append]
        omega
      rw [← length]
      rfl

theorem tokensWithin_complete {text : List Char} {offset : Nat} {body : List Token} (cut : Cut offset text body)
    {bound : Nat} (enough : text.length < bound) :
    ∃ cursor, tokensWithin bound ⟨text, offset⟩ =
      .ok (body ++ [.plain .endOfText (offset + text.length : Nat)]) cursor := by
  induction cut generalizing bound with
  | @done offset text blank =>
    obtain ⟨bound, rfl⟩ := Nat.exists_eq_add_of_lt enough
    refine ⟨⟨[], offset + text.length⟩, ?_⟩
    rw [tokensWithin, bind_ok (token_end blank offset)]
    rfl
  | @token offset separator lexeme rest kind value body blank spelled longest more ih =>
    obtain ⟨bound, rfl⟩ := Nat.exists_eq_add_of_lt enough
    obtain ⟨c, inner, same, _⟩ := lexeme_starts spelled
    have shorter : rest.length < (separator ++ lexeme ++ rest).length + bound := by
      simp only [same, List.length_append, List.length_cons]
      omega
    obtain ⟨cursor, rest⟩ := ih shorter
    refine ⟨cursor, ?_⟩
    rw [tokensWithin, bind_ok (token_complete blank spelled longest offset), if_neg (lexeme_kind spelled), bind_ok rest]
    simp only [List.length_append, List.cons_append, Nat.add_assoc]
    rfl

theorem ofText_sound {text : String} {tokens : List Token} (scanned : Token.ofText text = .ok tokens) :
    ∃ body, tokens = body ++ [.plain .endOfText text.length] ∧ (∀ token ∈ body, token.kind ≠ .endOfText) ∧
      Cut 0 text.toList body := by
  have length : (0 + text.toList.length : Nat) = text.length := by simp [String.length_toList]
  have run : Scan.tokens (Cursor.start text) = tokensWithin (text.toList.length + 1) (Cursor.start text) := rfl
  rw [Token.ofText, run] at scanned
  cases ran : tokensWithin (text.toList.length + 1) (Cursor.start text) with
  | error cause cursor =>
    rw [ran] at scanned
    cases scanned
  | ok found cursor =>
    rw [ran] at scanned
    cases scanned
    rw [← length]
    exact tokensWithin_sound ran

theorem ofText_complete {text : String} {body : List Token} (cut : Cut 0 text.toList body) :
    Token.ofText text = .ok (body ++ [.plain .endOfText text.length]) := by
  have length : (0 + text.toList.length : Nat) = text.length := by simp [String.length_toList]
  obtain ⟨cursor, ran⟩ := tokensWithin_complete cut (Nat.lt_succ_self _)
  rw [length] at ran
  have run : Scan.tokens (Cursor.start text) = .ok (body ++ [.plain .endOfText text.length]) cursor := ran
  rw [Token.ofText, run]

end Scan

/-- A text has the given tokens exactly if they are those of a cut of the whole text into separators and
longest tokens, followed by the mark of the end of the text. -/
theorem scan_iff_longest_cut (text : String) (tokens : List Token) :
    Token.ofText text = .ok tokens ↔
      ∃ body, tokens = body ++ [.plain .endOfText text.length] ∧
        (∀ token ∈ body, token.kind ≠ .endOfText) ∧ Cut 0 text.toList body := by
  constructor
  · exact Scan.ofText_sound
  · rintro ⟨body, rfl, _, cut⟩
    exact Scan.ofText_complete cut

end MiniTriangle
