import MiniTriangle.Proofs.StoppingPlaces

/-! Rows of tokens that can be completed to a phrase. An expression that cannot be parsed was left at a place from
which some tokens lead to its end; the proofs go by induction on the bounds, with one completion for each step at
which a rule can fail. -/

namespace MiniTriangle.Parse

def Inside (row : List Token) : Prop := ∀ token ∈ row, token.kind ≠ .endOfText

/-- Tokens inside the text that do not make a call of the token before them. -/
def Plain (row : List Token) : Prop := Inside row ∧ ∀ token ∈ row.head?, token.kind ≠ .leftParen

instance (row : List Token) : Decidable (Inside row) := inferInstanceAs (Decidable (∀ token ∈ row, _))

instance (row : List Token) : Decidable (Plain row) := inferInstanceAs (Decidable (_ ∧ _))

theorem Inside.append {first second : List Token} (before : Inside first) (later : Inside second) :
    Inside (first ++ second) := by
  intro token member
  rcases List.mem_append.mp member with early | late
  · exact before token early
  · exact later token late

theorem Plain.append {first second : List Token} (before : Plain first) (later : Plain second) : Plain (first ++ second) := by
  refine ⟨before.1.append later.1, ?_⟩
  cases first with
  | nil => exact later.2
  | cons token rest => exact before.2

/-- A row that tokens of the given kind complete to a phrase. -/
def Completes (good : List Token → Prop) (phrase : Phrase) (row : List Token) : Prop :=
  ∃ more tree, Derives phrase (row ++ more) tree ∧ good more

abbrev Viable := Completes Inside

/-- The start of an expression or of a part of one. What completes it must not open a parenthesis, since the second
token of an expression decides whether it is a call. -/
abbrev ViableValue := Completes Plain

namespace Completes

variable {good fine : List Token → Prop} {phrase inner outer : Phrase} {row : List Token}

theorem of_derives {tree : Tree} (derived : Derives phrase row tree) (nothing : good []) : Completes good phrase row :=
  ⟨[], tree, by rwa [List.append_nil], nothing⟩

theorem of_split {whole more : List Token} {tree : Tree} (derived : Derives phrase whole tree) (isGood : good more)
    (split : whole = row ++ more) : Completes good phrase row := ⟨more, tree, split ▸ derived, isGood⟩

theorem inside (viable : ViableValue phrase row) : Viable phrase row := by
  obtain ⟨more, tree, derived, plain⟩ := viable
  exact ⟨more, tree, derived, plain.1⟩

/-- A row that can be completed as a part of a phrase can be completed with the tokens of the phrase before it, if
there are tokens with which the phrase goes on after every such part. -/
theorem within {after : List Token} (viable : Completes good inner row) (context : List Token → List Token)
    (shape : ∀ part more, context part ++ more = context (part ++ more)) (closing : ∀ {more}, good more → fine (more ++ after))
    (rule : ∀ whole tree, Derives inner whole tree → ∃ result, Derives outer (context (whole ++ after)) result) :
    Completes fine outer (context row) := by
  obtain ⟨more, tree, derived, isGood⟩ := viable
  obtain ⟨result, derivedAll⟩ := rule (row ++ more) tree derived
  refine ⟨more ++ after, result, ?_, closing isGood⟩
  rw [shape, ← List.append_assoc]
  exact derivedAll

/-- The part is the last one of the phrase. -/
theorem last (viable : Completes good inner row) (context : List Token → List Token)
    (shape : ∀ part more, context part ++ more = context (part ++ more))
    (rule : ∀ whole tree, Derives inner whole tree → ∃ result, Derives outer (context whole) result) :
    Completes good outer (context row) := by
  obtain ⟨more, tree, derived, isGood⟩ := viable
  obtain ⟨result, derivedAll⟩ := rule (row ++ more) tree derived
  exact ⟨more, result, by rwa [shape], isGood⟩

end Completes

/-- A phrase is parsed first: if that fails a part of it was passed, and otherwise all of it. -/
theorem Stops.phrase_then {β : Type} {stream : Stream} {part viable : List Token → Prop} {parser : Parse Tree}
    {phrase : Phrase} {next : Tree → Parse β} (reads : Reads parser phrase) (stops : Stops parser stream part)
    (inside : ∀ row, part row → viable row)
    (rest : ∀ tree row middle, Derives phrase row tree → Passes stream row middle →
      Stops (next tree) middle fun later => viable (row ++ later)) :
    Stops (parser >>= next) stream viable := by
  refine (stops.mono fun row _ _ => inside row).bind fun tree middle ran => ?_
  obtain ⟨row, moved, derived⟩ := reads ran
  exact ⟨row, moved, rest tree row middle derived moved⟩

/-- The last phrase of a rule. -/
theorem Stops.phrase {β : Type} {stream : Stream} {part viable : List Token → Prop} {parser : Parse Tree} {phrase : Phrase}
    {make : Tree → β} (reads : Reads parser phrase) (stops : Stops parser stream part)
    (inside : ∀ row, part row → viable row) : Stops (parser >>= fun tree => Pure.pure (make tree)) stream viable :=
  Stops.phrase_then reads stops inside fun _ _ _ _ _ => .pure _

namespace Filling

def word : Token := ⟨.identifier, .text "x", 0⟩

def mark (kind : Kind) : Token := .plain kind 0

/-- The command `x := x;`. -/
def wordCommand : List Token := [word, mark .becomes, word, mark .semicolon]

/-- The parameter `x : x`. -/
def wordParameter : List Token := [word, mark .colon, word]

theorem derives_factor : Derives .factor [word] (.reference (.name (.text "x"))) := .reference rfl

theorem derives_expression : Derives .expression [word] (.reference (.name (.text "x"))) :=
  .value (.oneTerm (.oneFactor derives_factor)) (by decide)

theorem derives_simple :
    Derives .simple [word, mark .becomes, word] (.assign (.name (.text "x")) (.reference (.name (.text "x")))) :=
  .assignment rfl derives_expression

theorem derives_single : Derives .single wordCommand (.assign (.name (.text "x")) (.reference (.name (.text "x")))) :=
  .singleSimple derives_simple (by simp [Kind.StartsBlock, word]) rfl

theorem derives_parameters : Derives .parameters wordParameter (.parameter (.text "x") (.typeName (.text "x"))) :=
  .oneParameter rfl rfl

end Filling

open Filling

theorem viable_factor_nil : ViableValue .factor [] := ⟨[word], _, derives_factor, by decide⟩

theorem viable_expression_nil : ViableValue .expression [] := ⟨[word], _, derives_expression, by decide⟩

theorem viable_simple_nil : Viable .simple [] := ⟨_, _, derives_simple, by decide⟩

theorem viable_single_nil : Viable .single [] := ⟨wordCommand, _, derives_single, by decide⟩

/-- The loop after a phrase already passed stops with a part of a longer phrase. -/
def StopsAfter (parser : Tree → Parse Tree) (phrase : Phrase) : Prop :=
  ∀ ⦃left before⦄ (stream : Stream), Derives phrase before left →
    Stops (parser left) stream fun row => ViableValue phrase (before ++ row)

theorem round_stops {operand : Parse Tree} {rest : Tree → Parse Tree} {phrase inner : Phrase} {stream : Stream}
    {combine : Tree → Tree} {before : List Token} (reads : Reads operand inner)
    (stops : ∀ stream, Stops operand stream (ViableValue inner)) (after : StopsAfter rest phrase)
    (inside : stream.current.kind ≠ .endOfText)
    (rule : ∀ row next, Derives inner row next → Derives phrase (before ++ stream.current :: row) (combine next)) :
    Stops (do advance; let next ← operand; rest (combine next)) stream fun row => ViableValue phrase (before ++ row) := by
  refine Stops.advance_then inside fun afterSign moved => ?_
  refine Stops.phrase_then reads (stops afterSign) ?_ fun next row middle derived passed => ?_
  · intro row viable
    refine viable.last (fun part => before ++ stream.current :: part) (by simp) ?_
    intro whole tree derived
    exact ⟨_, rule whole tree derived⟩
  · have goesOn := after middle (rule row next derived)
    simpa using goesOn

/-- A call needs the rest of its arguments and the closing parenthesis. -/
theorem callOf_stops {list : Parse Tree} {stream : Stream} {viable : List Token → Prop} (reads : Reads list .arguments)
    (stops : ∀ stream, Stops list stream (ViableValue .arguments)) (nothing : viable [])
    (named : ∀ f, f.kind = .identifier → viable [f])
    (closing : ∀ {f o}, f.kind = .identifier → o.kind = .leftParen → ∀ row, ViableValue .arguments row →
      viable (f :: o :: row)) :
    Stops (callOf list) stream viable := by
  refine Stops.identifier_then nothing fun f afterName isName _ => ?_
  refine Stops.accept_then (by decide) (named f isName) fun o afterOpen opens _ => ?_
  refine Stops.phrase_then reads (stops afterOpen) (closing isName opens) fun tree row afterList derived _ => ?_
  refine Stops.accept_then (by decide) ?_ fun c final _ _ => .pure _
  rw [List.append_nil]
  exact closing isName opens row (.of_derives derived (by decide))

structure ExpressionsStop (bound : Nat) : Prop where
  expression : ∀ stream, Stops (expressionWithin bound) stream (ViableValue .expression)
  sum : StopsAfter (sumWithin bound) .sum
  term : ∀ stream, Stops (termWithin bound) stream (ViableValue .product)
  product : StopsAfter (productWithin bound) .product
  factor : ∀ stream, Stops (factorWithin bound) stream (ViableValue .factor)
  arguments : ∀ stream, Stops (argumentsWithin bound) stream (ViableValue .arguments)
  moreArguments : StopsAfter (moreArgumentsWithin bound) .arguments

/-- The start of a sum is the start of an expression unless its second token opens a parenthesis. -/
theorem viable_value {row : List Token} (viable : ViableValue .sum row)
    (second : ∀ token ∈ row[1]?, token.kind ≠ .leftParen) : ViableValue .expression row := by
  match row, second with
  | [], _ => exact viable_expression_nil
  | [first], _ =>
    obtain ⟨more, tree, derived, plain⟩ := viable
    refine ⟨more, tree, .value derived ?_, plain⟩
    intro token found
    apply plain.2 token
    rw [List.head?_eq_getElem?]
    simpa using found
  | first :: next :: rest, second =>
    obtain ⟨more, tree, derived, plain⟩ := viable
    exact ⟨more, tree, .value derived (by simpa using second), plain⟩

/-- The second token passed is the one that was looked at. -/
theorem second_of_passes {stream final : Stream} {row : List Token} {next : Token} (moved : Passes stream row final)
    (ahead : stream.ahead.head? = some next) : ∀ token ∈ row[1]?, token = next := by
  intro token found
  match row, found, moved.row.1 with
  | [_], found, _ => cases found
  | _ :: second :: _, found, same =>
    simp only [List.getElem?_cons_succ, List.getElem?_cons_zero, Option.mem_some_iff] at found
    simp only [List.cons_append, List.cons.injEq] at same
    rw [same.2, List.head?_cons, Option.some.injEq] at ahead
    rw [← found, ahead]

private theorem expression_stops_step {bound : Nat} (ih : ExpressionsStop bound) (stream : Stream) :
    Stops (expressionWithin (bound + 1)) stream (ViableValue .expression) := by
  have sound := expressions_sound bound
  rw [expressionWithin]
  refine Stops.lookahead_then viable_expression_nil fun next ahead _ => ?_
  split
  next =>
    refine callOf_stops sound.arguments ih.arguments viable_expression_nil ?_ ?_
    · intro f named
      exact .of_derives (.value (.oneTerm (.oneFactor (.reference named))) (by simp)) (by decide)
    · intro f o named opens row viable
      refine viable.within (fun part => f :: o :: part) (by simp)
        (·.append (by decide : Plain [mark .rightParen])) ?_
      intro whole tree derived
      exact ⟨_, .call named opens derived rfl⟩
  next other =>
    have sum : Stops (termWithin bound >>= sumWithin bound) stream (ViableValue .sum) := by
      refine Stops.phrase_then sound.term (ih.term stream) ?_ fun left row middle derived _ => ih.sum middle (.oneTerm derived)
      intro row viable
      exact viable.last id (by simp) fun whole tree derived => ⟨_, .oneTerm derived⟩
    refine sum.mono fun row final moved viable => viable_value viable ?_
    intro token found
    rw [second_of_passes moved ahead token found]
    exact other

private theorem factor_stops_step {bound : Nat} (ih : ExpressionsStop bound) (stream : Stream) :
    Stops (factorWithin (bound + 1)) stream (ViableValue .factor) := by
  rw [factorWithin]
  apply Stops.current
  split
  next kind => exact Stops.advance_then (by simp [kind]) fun middle moved => .pure _
  next => exact Stops.token_then (fun _ => .pure _) fun _ _ _ => .pure _
  next kind =>
    refine Stops.advance_then (by simp [kind]) fun middle _ => ?_
    refine Stops.phrase (expressions_sound bound).factor (ih.factor middle) ?_
    intro row viable
    refine viable.last ((stream.current :: ·)) (by simp) ?_
    intro whole tree derived
    exact ⟨_, .unary kind derived⟩
  next kind =>
    have closing (row : List Token) (viable : ViableValue .expression row) : ViableValue .factor (stream.current :: row) := by
      refine viable.within ((stream.current :: ·)) (by simp) (·.append (by decide : Plain [mark .rightParen])) ?_
      intro whole tree derived
      exact ⟨_, .parenthesis kind derived rfl⟩
    refine Stops.advance_then (by simp [kind]) fun middle _ => ?_
    refine Stops.phrase_then (expressions_sound bound).expression (ih.expression middle) closing
      fun inner row afterInner derived _ => ?_
    refine Stops.accept_then (by decide) ?_ fun c final _ _ => .pure _
    rw [List.append_nil]
    exact closing row (.of_derives derived (by decide))
  next => exact Stops.reject viable_factor_nil

theorem expressions_stop (bound : Nat) : ExpressionsStop bound := by
  induction bound with
  | zero =>
    exact ⟨fun _ => .endless, fun _ _ _ _ => .endless, fun _ => .endless, fun _ _ _ _ => .endless, fun _ => .endless,
      fun _ => .endless, fun _ _ _ _ => .endless⟩
  | succ bound ih =>
    have sound := expressions_sound bound
    refine ⟨expression_stops_step ih, ?sum, ?term, ?product, factor_stops_step ih, ?arguments, ?moreArguments⟩
    case sum =>
      intro left before stream derived
      rw [sumWithin]
      apply Stops.current
      split
      next additive =>
        have sign := isOneOf_iff.mp additive
        apply round_stops sound.term ih.term ih.sum (by simp [sign.1])
        intro row next derivedNext
        exact .add derived sign derivedNext
      next => exact .pure _
    case term =>
      intro stream
      rw [termWithin]
      refine Stops.phrase_then sound.factor (ih.factor stream) ?_ fun left row middle derived _ =>
        ih.product middle (.oneFactor derived)
      intro row viable
      exact viable.last id (by simp) fun whole tree derived => ⟨_, .oneFactor derived⟩
    case product =>
      intro left before stream derived
      rw [productWithin]
      apply Stops.current
      split
      next multiplicative =>
        have sign := isOneOf_iff.mp multiplicative
        apply round_stops sound.factor ih.factor ih.product (by simp [sign.1])
        intro row next derivedNext
        exact .multiply derived sign derivedNext
      next => exact .pure _
    case arguments =>
      intro stream
      rw [argumentsWithin]
      refine Stops.phrase_then sound.expression (ih.expression stream) ?_ fun first row middle derived _ =>
        ih.moreArguments middle (.oneArgument derived)
      intro row viable
      exact viable.last id (by simp) fun whole tree derived => ⟨_, .oneArgument derived⟩
    case moreArguments =>
      intro list before stream derived
      rw [moreArgumentsWithin]
      apply Stops.current
      split
      next comma =>
        apply round_stops sound.expression ih.expression ih.moreArguments (by simp [comma])
        intro row next derivedNext
        exact .moreArguments derived comma derivedNext
      next => exact .pure _

theorem expression_stops (stream : Stream) : Stops expression stream (ViableValue .expression) :=
  Stops.bounded fun bound => (expressions_stop bound).expression stream

theorem arguments_stop (stream : Stream) : Stops arguments stream (ViableValue .arguments) :=
  Stops.bounded fun bound => (expressions_stop bound).arguments stream

end MiniTriangle.Parse
