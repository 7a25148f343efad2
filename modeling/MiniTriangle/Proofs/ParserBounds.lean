import MiniTriangle.Proofs.RuleComposition
import MiniTriangle.Proofs.StreamSteps

/-! The bounds on the depth of the recursion are never reached. Every round of a loop, and every rule that comes
back to itself, has stepped over a token before, and between two such steps the rules call each other at most three
deep. So three steps for each token ahead are enough, whatever the tokens are. -/

namespace MiniTriangle

open Sequencing

namespace Parse

/-- The parser does not run out of its bound, and if it succeeds it has passed at least so many tokens. -/
def Settles {α : Type} (parser : Parse α) (stream : Stream) (passed : Nat) : Prop :=
  match parser stream with
  | .ok _ final => final.ahead.length + passed ≤ stream.ahead.length
  | .error cause _ => cause ≠ .endless

namespace Settles

variable {α β : Type} {stream : Stream} {passed least : Nat}

theorem unstopped {parser : Parse α} (settles : Settles parser stream passed) (final : Stream) :
    parser stream ≠ .error .endless final := by
  intro stopped
  unfold Settles at settles
  rw [stopped] at settles
  exact settles rfl

theorem fewer {parser : Parse α} (settles : Settles parser stream passed) (below : least ≤ passed) :
    Settles parser stream least := by
  unfold Settles at settles ⊢
  split at settles
  next final ran => omega
  next cause final ran => exact settles

theorem bind {first : Parse α} {next : α → Parse β} (settles : Settles first stream passed)
    (rest : ∀ value middle, middle.ahead.length + passed ≤ stream.ahead.length → Settles (next value) middle (least - passed)) :
    Settles (first >>= next) stream least := by
  unfold Settles at settles
  cases ran : first stream with
  | ok value middle =>
    rw [ran] at settles
    have settled := rest value middle settles
    unfold Settles at settled ⊢
    rw [bind_ok ran]
    split at settled
    next final _ =>
      dsimp only at settles settled ⊢
      omega
    next => exact settled
  | error cause middle =>
    rw [ran] at settles
    unfold Settles
    rw [bind_error ran]
    exact settles

theorem lookahead {next : Token → Parse α} (settles : ∀ token, Settles (next token) stream passed) :
    Settles (Parse.lookahead >>= next) stream passed := by
  obtain ⟨current, ahead, index⟩ := stream
  cases ahead with
  | nil =>
    intro same
    cases same
  | cons token rest => exact settles token

theorem pass (inside : stream.current.kind ≠ .endOfText) : Settles advance stream 1 := by
  obtain ⟨current, ahead, index⟩ := stream
  unfold Settles
  rw [advance, get_bind, if_neg inside]
  cases ahead with
  | nil =>
    intro same
    cases same
  | cons next rest => exact Nat.le_refl _

theorem advance (stream : Stream) : Settles Parse.advance stream 0 := by
  by_cases atEnd : stream.current.kind = .endOfText
  · unfold Settles
    rw [Parse.advance, get_bind, if_pos atEnd]
    exact Nat.le_refl _
  · exact (pass atEnd).fewer (Nat.zero_le _)

end Settles

/-- The parser settles wherever the bound leaves so many steps to spare. -/
def SettlesWithin {α : Type} (here : Option Token) (bound spare passed : Nat) (parser : Parse α) : Prop :=
  ∀ stream : Stream, (∀ token ∈ here, stream.current = token) → 3 * stream.ahead.length + spare ≤ bound →
    Settles parser stream passed

theorem SettlesWithin.settles {α : Type} {bound spare passed : Nat} {parser : Parse α}
    (within : SettlesWithin none bound spare passed parser) {stream : Stream} (enough : 3 * stream.ahead.length + spare ≤ bound) :
    Settles parser stream passed :=
  within stream (fun _ known => nomatch known) enough

theorem settlesWithin_composes :
    Composes fun here bound spare passed parser _ => SettlesWithin here bound spare passed parser where
  ample within more below stream _ enough := (within.settles (by omega)).fewer below
  endless _ stream _ enough := by omega
  deeper within stream known enough := within stream known (by omega)
  bounded within stream _ _ := (within (4 * (stream.ahead.length + 1))).settles (by omega)
  pure _ _ _ _ := Nat.le_refl _
  reject _ _ _ := by
    intro same
    cases same
  bind within rest stream known enough := by
    apply (within stream known enough).bind
    intro value middle below
    exact (rest value).settles (by omega)
  current within _ stream _ enough := within stream.current stream (fun _ known => Option.some.inj known) enough
  lookahead within _ stream known enough := .lookahead fun token => within token stream known enough
  advance stream _ _ := .advance stream
  pass inside stream known _ := .pass (by rwa [known _ rfl])

/-- No rule runs out of its bound, on any stream. -/
theorem never_endless (rule : Rule) (stream final : Stream) : rule.parse stream ≠ .error .endless final := by
  have settles : Settles rule.parse stream 0 := (rule.parse_holds settlesWithin_composes _).settles (Nat.le_refl _)
  exact settles.unstopped final

end Parse

end MiniTriangle
