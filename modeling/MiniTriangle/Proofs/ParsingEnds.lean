import MiniTriangle.Grammar.Session
import MiniTriangle.Proofs.ParserBounds

/-! Parsing comes to an end on every row of tokens. A bound on the depth of the recursion can do no more than stop a
parser: where it does not, any greater bound gives the same answer. Since three steps for each token ahead are enough,
the answer of a rule does not depend on its bound at all, and it is a tree or an error of the tokens, wherever earlier
requests have left the stream. -/

namespace MiniTriangle

open Sequencing

namespace Parse

/-- Wherever the first parser is not stopped by its bound, the second one comes to the same end. -/
def Approximates {α : Type} (first second : Parse α) : Prop :=
  ∀ ⦃stream : Stream⦄, (∀ final, first stream ≠ .error .endless final) → second stream = first stream

namespace Approximates

variable {α β : Type} {first second : Parse α}

theorem refl (parser : Parse α) : Approximates parser parser := fun _ _ => rfl

theorem endless (parser : Parse α) : Approximates (throw .endless) parser := by
  intro stream unstopped
  exact absurd rfl (unstopped stream)

theorem bind {next more : α → Parse β} (approximates : Approximates first second)
    (rest : ∀ value, Approximates (next value) (more value)) : Approximates (first >>= next) (second >>= more) := by
  intro stream unstopped
  cases ran : first stream with
  | ok value middle =>
    have same : second stream = .ok value middle := by
      rw [← ran]
      apply approximates
      intro final
      rw [ran]
      nofun
    rw [bind_ok ran] at unstopped ⊢
    rw [bind_ok same]
    exact rest value unstopped
  | error cause middle =>
    have same : second stream = .error cause middle := by
      rw [← ran]
      apply approximates
      intro final stopped
      exact unstopped final (bind_error stopped)
    rw [bind_error ran, bind_error same]

end Approximates

theorem approximates_composes : Composes fun _ _ _ _ first second => Approximates first second where
  ample approximates _ _ := approximates
  endless := .endless
  deeper approximates := approximates
  bounded _ := Approximates.refl _
  pure _ := Approximates.refl _
  reject _ := rfl
  bind approximates rest := approximates.bind rest
  current rest _ := (Approximates.refl current).bind rest
  lookahead rest _ := (Approximates.refl lookahead).bind rest
  advance _ := rfl
  pass _ := Approximates.refl _

/-- Bounds that are as great as one that is not reached give the same answer. -/
private theorem enough_eq (parser : Nat → Parse Tree) {stream : Stream} {least bound more passed : Nat}
    (approximates : ∀ {bound}, least ≤ bound → Approximates (parser least) (parser bound))
    (settles : Settles (parser least) stream passed) (enough : least ≤ bound) (ample : least ≤ more) :
    parser bound stream = parser more stream :=
  (approximates enough settles.unstopped).trans (approximates ample settles.unstopped).symm

def after (stream : Stream) : List Request → Stream
  | [] => stream
  | request :: rest =>
    match request.answer stream with
    | .ok _ next | .error _ next => after next rest

/-- A tree, or an error of the tokens: one that does not fit, or one that is lacking. -/
def Ends : EStateM.Result ParseError Stream Tree → Prop
  | .ok _ _ => True
  | .error cause _ => (∃ token, cause = .unexpected token) ∨ cause = .noToken

theorem ends_of_ne {outcome : EStateM.Result ParseError Stream Tree} (unstopped : ∀ final, outcome ≠ .error .endless final) :
    Ends outcome := by
  cases outcome with
  | ok tree final => trivial
  | error cause final =>
    cases cause with
    | unexpected token => exact .inl ⟨token, rfl⟩
    | noToken => exact .inr rfl
    | endless => exact absurd rfl (unstopped final)

end Parse

open Parse

namespace Rule

private theorem parameters_within_eq {stream : Stream} {bound : Nat} (enough : 3 * stream.ahead.length + 4 ≤ bound) :
    Rule.parameters.within bound stream = Parse.parameters stream := by
  have settles : Settles parameter stream 1 := (parameter_holds settlesWithin_composes).settles enough
  show (parameter >>= fun first => moreParametersWithin bound first) stream = Parse.parameters stream
  unfold Parse.parameters
  cases ran : parameter stream with
  | error cause final => rw [bind_error ran, bind_error ran]
  | ok first middle =>
    unfold Settles at settles
    rw [ran] at settles
    rw [bind_ok ran, bind_ok ran]
    -- The first parameter has left fewer tokens ahead, so the bound is great enough for the others.
    dsimp only at settles
    have others : Settles (moreParametersWithin (3 * middle.ahead.length + 1) first) middle 0 :=
      (moreParameters_hold settlesWithin_composes (Nat.le_refl _) first).settles (Nat.le_refl _)
    exact enough_eq (moreParametersWithin · first) (moreParameters_hold approximates_composes · first) others
      (by omega) (by omega)

/-- The bound of a rule does not matter, if it allows for three steps at each token ahead. -/
theorem within_eq (rule : Rule) {stream : Stream} {bound : Nat} (enough : 3 * stream.ahead.length + 4 ≤ bound) :
    rule.within bound stream = rule.parse stream := by
  have settles : Settles (rule.within (3 * stream.ahead.length + 4)) stream 0 :=
    (rule.within_holds settlesWithin_composes (Nat.le_refl _)).settles (Nat.le_refl _)
  have same : rule.within bound stream = rule.within (4 * (stream.ahead.length + 1)) stream :=
    enough_eq (rule.within ·) (rule.within_holds approximates_composes) settles enough (by omega)
  cases rule with
  | program =>
    have block : blockWithin (4 * (stream.ahead.length + 1)) stream = Parse.block stream := rfl
    exact same.trans (bind_same block _)
  | parameters => exact parameters_within_eq enough
  | _ => exact same

end Rule

/-- On every row of tokens, and wherever earlier requests have left the stream, every rule comes to an end: its answer
is a tree or an error of the tokens, and no bound on its recursion has a part in it. -/
theorem parsing_terminates {tokens : List Token} (nonempty : tokens ≠ []) :
    ∃ start, Stream.ofTokens? tokens = some start ∧ ∀ (earlier : List Request) (rule : Rule),
      Ends (rule.parse (after start earlier)) ∧
        ∀ bound, 3 * (after start earlier).ahead.length + 4 ≤ bound →
          rule.within bound (after start earlier) = rule.parse (after start earlier) := by
  obtain ⟨first, rest, rfl⟩ := List.exists_cons_of_ne_nil nonempty
  refine ⟨⟨first, rest, 0⟩, rfl, ?_⟩
  intro earlier rule
  refine ⟨ends_of_ne fun final => never_endless rule _ final, ?_⟩
  intro bound enough
  exact rule.within_eq enough

def endedEarly : List Token := [.plain .kwFunc 0, .plain .endOfText 4, .plain (.unknown 77) 4]

/-- A function is asked for again where the declarations have failed, at the end of the text that no step passes. -/
theorem endedEarly_terminates : ∃ start, Stream.ofTokens? endedEarly = some start ∧
    Ends (Rule.function.parse (after start [.rule .declarations, .advance])) ∧
    Rule.function.within 7 (after start [.rule .declarations, .advance]) =
      Rule.function.parse (after start [.rule .declarations, .advance]) := by
  obtain ⟨start, opened, ends⟩ := parsing_terminates (List.cons_ne_nil _ _ : endedEarly ≠ [])
  cases opened
  obtain ⟨ended, boundless⟩ := ends [.rule .declarations, .advance] .function
  exact ⟨_, rfl, ended, boundless 7 (by decide)⟩

end MiniTriangle
