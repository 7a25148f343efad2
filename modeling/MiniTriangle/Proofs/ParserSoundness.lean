import MiniTriangle.Grammar.Command
import MiniTriangle.Proofs.Derivation
import MiniTriangle.Proofs.StreamSteps

/-! What the parser accepts, the grammar derives: the tokens that a rule passes are a phrase of its sort, and
the tree it answers is the tree of that phrase. The bounds on the depth of the recursion play no part here;
the proofs go by induction on them. -/

namespace MiniTriangle.Parse

open Sequencing

/-- Whatever the parser answers is the tree of the phrase that it passed. -/
def Reads (parser : Parse Tree) (phrase : Phrase) : Prop :=
  ∀ ⦃stream tree final⦄, parser stream = .ok tree final → ∃ row, Passes stream row final ∧ Derives phrase row tree

/-- The parser of what may follow a phrase already passed, whose tree it is given, extends that phrase. -/
def Extends (parser : Tree → Parse Tree) (phrase : Phrase) : Prop :=
  ∀ ⦃left stream tree final⦄, parser left stream = .ok tree final →
    ∃ row, Passes stream row final ∧ ∀ before, Derives phrase before left → Derives phrase (before ++ row) tree

theorem isOneOf_iff {token : Token} {signs : List String} : isOneOf token signs = true ↔ token.IsOperator signs := by
  simp [isOneOf, Token.IsOperator]

theorem callOf_passes {arguments : Parse Tree} (inner : Reads arguments .arguments) {stream final : Stream} {tree : Tree}
    (ran : callOf arguments stream = .ok tree final) :
    ∃ f o row c list, Passes stream (f :: o :: (row ++ [c])) final ∧ f.kind = .identifier ∧ o.kind = .leftParen ∧
      Derives .arguments row list ∧ c.kind = .rightParen ∧ tree = .call (.atom f.value) list := by
  simp only [callOf, bind_eq_ok] at ran
  obtain ⟨name, afterName, named, _, afterOpen, opened, list, afterList, listed, _, afterClose, closed, ran⟩ := ran
  cases ran
  obtain ⟨nameKind, rfl, first⟩ := identifier_passes named
  obtain ⟨openKind, second⟩ := accept_passes opened (by decide)
  obtain ⟨row, third, derived⟩ := inner listed
  obtain ⟨closeKind, fourth⟩ := accept_passes closed (by decide)
  exact ⟨_, _, row, _, list, first.trans (second.trans (third.trans fourth)), nameKind, openKind, derived, closeKind, rfl⟩

/-- One round of a loop over operators or commas: the token at which it goes on is passed, then the phrase
after it, then the remaining rounds. -/
theorem extends_round {operand : Parse Tree} {rest : Tree → Parse Tree} {phrase inner : Phrase}
    (reads : Reads operand inner) (extends_ : Extends rest phrase) {combine : Tree → Tree} {left tree : Tree}
    {stream final : Stream} (inside : stream.current.kind ≠ .endOfText)
    (ran : (do advance; let next ← operand; rest (combine next)) stream = .ok tree final)
    (rule : ∀ before row next, Derives phrase before left → Derives inner row next →
      Derives phrase (before ++ stream.current :: row) (combine next)) :
    ∃ row, Passes stream row final ∧ ∀ before, Derives phrase before left → Derives phrase (before ++ row) tree := by
  simp only [bind_eq_ok] at ran
  obtain ⟨_, afterSign, advanced, next, afterNext, operandRan, ran⟩ := ran
  obtain ⟨row, second, derived⟩ := reads operandRan
  obtain ⟨others, third, extended⟩ := extends_ ran
  refine ⟨stream.current :: (row ++ others), (advance_passes advanced inside).trans (second.trans third), ?_⟩
  intro before derivedBefore
  have joined := extended _ (rule before row next derivedBefore derived)
  simpa using joined

theorem reads_endless {phrase : Phrase} : Reads (throw .endless) phrase := by
  intro stream tree final ran
  cases ran

theorem extends_endless {phrase : Phrase} : Extends (fun _ => throw .endless) phrase := by
  intro left stream tree final ran
  cases ran

structure ExpressionsSound (bound : Nat) : Prop where
  expression : Reads (expressionWithin bound) .expression
  sum : Extends (sumWithin bound) .sum
  term : Reads (termWithin bound) .product
  product : Extends (productWithin bound) .product
  factor : Reads (factorWithin bound) .factor
  arguments : Reads (argumentsWithin bound) .arguments
  moreArguments : Extends (moreArgumentsWithin bound) .arguments

private theorem expression_step {bound : Nat} (ih : ExpressionsSound bound) :
    Reads (expressionWithin (bound + 1)) .expression := by
  intro stream tree final ran
  rw [expressionWithin] at ran
  obtain ⟨next, same, looked, chosen⟩ := bind_eq_ok.mp ran
  obtain ⟨ahead, rfl⟩ := lookahead_eq_ok.mp looked
  split at chosen
  next =>
    obtain ⟨f, o, row, c, list, moved, named, opens, inner, closes, rfl⟩ := callOf_passes ih.arguments chosen
    exact ⟨_, moved, .call named opens inner closes⟩
  next other =>
    obtain ⟨left, middle, termRan, sumRan⟩ := bind_eq_ok.mp chosen
    obtain ⟨row, first, derived⟩ := ih.term termRan
    obtain ⟨others, second, extended⟩ := ih.sum sumRan
    have moved := first.trans second
    refine ⟨row ++ others, moved, .value (extended row (.oneTerm derived)) ?_⟩
    -- The second token of the phrase, if it has one, is the token that was looked at.
    intro token found
    obtain ⟨passed, tokens⟩ : ∃ passed, passed = row ++ others := ⟨_, rfl⟩
    rw [← tokens] at found moved
    match passed, found, moved.row.1 with
    | [_], found, _ => cases found
    | _ :: second :: _, found, same =>
      simp only [List.getElem?_cons_succ, List.getElem?_cons_zero, Option.mem_some_iff] at found
      simp only [List.cons_append, List.cons.injEq] at same
      rw [same.2, List.head?_cons, Option.some.injEq] at ahead
      rw [← found, ahead]
      exact other

private theorem sum_step {bound : Nat} (ih : ExpressionsSound bound) : Extends (sumWithin (bound + 1)) .sum := by
  intro left stream tree final ran
  rw [sumWithin, current_bind] at ran
  split at ran
  next additive =>
    have sign := isOneOf_iff.mp additive
    apply extends_round ih.term ih.sum (by simp [sign.1]) ran
    intro before row next derivedBefore derived
    exact .add derivedBefore sign derived
  next =>
    cases ran
    exact ⟨[], .none, fun before derived => by simpa using derived⟩

private theorem term_step {bound : Nat} (ih : ExpressionsSound bound) : Reads (termWithin (bound + 1)) .product := by
  intro stream tree final ran
  rw [termWithin] at ran
  obtain ⟨left, middle, factorRan, ran⟩ := bind_eq_ok.mp ran
  obtain ⟨row, first, derived⟩ := ih.factor factorRan
  obtain ⟨others, second, extended⟩ := ih.product ran
  exact ⟨row ++ others, first.trans second, extended row (.oneFactor derived)⟩

private theorem product_step {bound : Nat} (ih : ExpressionsSound bound) :
    Extends (productWithin (bound + 1)) .product := by
  intro left stream tree final ran
  rw [productWithin, current_bind] at ran
  split at ran
  next multiplicative =>
    have sign := isOneOf_iff.mp multiplicative
    apply extends_round ih.factor ih.product (by simp [sign.1]) ran
    intro before row next derivedBefore derived
    exact .multiply derivedBefore sign derived
  next =>
    cases ran
    exact ⟨[], .none, fun before derived => by simpa using derived⟩

private theorem factor_step {bound : Nat} (ih : ExpressionsSound bound) : Reads (factorWithin (bound + 1)) .factor := by
  intro stream tree final ran
  rw [factorWithin, current_bind] at ran
  generalize kind : stream.current.kind = found at ran
  split at ran
  next =>
    obtain ⟨_, middle, advanced, ran⟩ := bind_eq_ok.mp ran
    cases ran
    exact ⟨_, advance_passes advanced (by simp [kind]), .integer kind⟩
  next =>
    simp only [name, bind_eq_ok, pure_eq_ok] at ran
    obtain ⟨_, _, ⟨value, _, taken, rfl, rfl⟩, rfl, rfl⟩ := ran
    obtain ⟨rfl, ⟨atEnd, _⟩ | moved⟩ := anyValue_passes taken
    · simp [kind] at atEnd
    · exact ⟨_, moved, .reference kind⟩
  next =>
    simp only [bind_eq_ok] at ran
    obtain ⟨_, middle, advanced, operand, _, operandRan, ran⟩ := ran
    cases ran
    obtain ⟨row, second, derived⟩ := ih.factor operandRan
    exact ⟨_, (advance_passes advanced (by simp [kind])).trans second, .unary kind derived⟩
  next =>
    simp only [bind_eq_ok] at ran
    obtain ⟨_, middle, advanced, inner, _, innerRan, _, _, closed, ran⟩ := ran
    cases ran
    obtain ⟨row, second, derived⟩ := ih.expression innerRan
    obtain ⟨closes, third⟩ := accept_passes closed (by decide)
    exact ⟨_, (advance_passes advanced (by simp [kind])).trans (second.trans third), .parenthesis kind derived closes⟩
  next => cases reject_ne_ok ran

private theorem arguments_step {bound : Nat} (ih : ExpressionsSound bound) :
    Reads (argumentsWithin (bound + 1)) .arguments := by
  intro stream tree final ran
  rw [argumentsWithin] at ran
  obtain ⟨first, middle, firstRan, ran⟩ := bind_eq_ok.mp ran
  obtain ⟨row, before, derived⟩ := ih.expression firstRan
  obtain ⟨others, after, extended⟩ := ih.moreArguments ran
  exact ⟨row ++ others, before.trans after, extended row (.oneArgument derived)⟩

private theorem moreArguments_step {bound : Nat} (ih : ExpressionsSound bound) :
    Extends (moreArgumentsWithin (bound + 1)) .arguments := by
  intro left stream tree final ran
  rw [moreArgumentsWithin, current_bind] at ran
  split at ran
  next comma =>
    apply extends_round ih.expression ih.moreArguments (by simp [comma]) ran
    intro before row next derivedBefore derived
    exact .moreArguments derivedBefore comma derived
  next =>
    cases ran
    exact ⟨[], .none, fun before derived => by simpa using derived⟩

theorem expressions_sound (bound : Nat) : ExpressionsSound bound := by
  induction bound with
  | zero =>
    exact ⟨reads_endless, extends_endless, reads_endless, extends_endless, reads_endless, reads_endless, extends_endless⟩
  | succ bound ih =>
    exact ⟨expression_step ih, sum_step ih, term_step ih, product_step ih, factor_step ih, arguments_step ih,
      moreArguments_step ih⟩

theorem reads_bounded {parser : Nat → Parse Tree} {phrase : Phrase} (reads : ∀ bound, Reads (parser bound) phrase) :
    Reads (bounded parser) phrase := by
  intro stream tree final ran
  exact reads _ ran

theorem reads_expression : Reads expression .expression := reads_bounded fun bound => (expressions_sound bound).expression

theorem reads_arguments : Reads arguments .arguments := reads_bounded fun bound => (expressions_sound bound).arguments

/-- A type is any token; at the end of the text nothing is passed. -/
theorem typeName_passes {stream final : Stream} {tree : Tree} (ran : typeName stream = .ok tree final) :
    tree = .typeName (.atom stream.current.value) ∧
      (stream.current.kind = .endOfText ∧ final = stream ∨ Passes stream [stream.current] final) := by
  obtain ⟨value, middle, taken, ran⟩ := bind_eq_ok.mp ran
  cases ran
  obtain ⟨rfl, moved⟩ := anyValue_passes taken
  exact ⟨rfl, moved⟩

private theorem parameter_passes {stream final : Stream} {tree : Tree} (ran : parameter stream = .ok tree final)
    (inside : final.current.kind ≠ .endOfText) :
    ∃ i c t, Passes stream [i, c, t] final ∧ i.kind = .identifier ∧ c.kind = .colon ∧
      tree = .parameter (.atom i.value) (.typeName (.atom t.value)) := by
  simp only [parameter, bind_eq_ok] at ran
  obtain ⟨name, afterName, named, _, afterColon, colon, type, _, typed, ran⟩ := ran
  cases ran
  obtain ⟨nameKind, rfl, first⟩ := identifier_passes named
  obtain ⟨colonKind, second⟩ := accept_passes colon (by decide)
  obtain ⟨rfl, ⟨atEnd, rfl⟩ | third⟩ := typeName_passes typed
  · exact absurd atEnd inside
  · exact ⟨_, _, _, first.trans (second.trans third), nameKind, colonKind, rfl⟩

private theorem moreParameters_passes {bound : Nat} {stream final : Stream} {list tree : Tree}
    (ran : moreParametersWithin bound list stream = .ok tree final) (inside : final.current.kind ≠ .endOfText) :
    ∃ row, Passes stream row final ∧
      ∀ before, Derives .parameters before list → Derives .parameters (before ++ row) tree := by
  induction bound generalizing stream list with
  | zero => cases ran
  | succ bound ih =>
    rw [moreParametersWithin, current_bind] at ran
    split at ran
    next comma =>
      simp only [bind_eq_ok] at ran
      obtain ⟨_, afterComma, advanced, next, afterNext, parameterRan, ran⟩ := ran
      obtain ⟨row, third, extended⟩ := ih ran
      obtain ⟨i, c, t, second, named, colon, rfl⟩ := parameter_passes parameterRan (third.inside inside)
      have first := advance_passes advanced (by simp [comma])
      refine ⟨stream.current :: ([i, c, t] ++ row), first.trans (second.trans third), ?_⟩
      intro before derived
      have joined := extended _ (.moreParameters (t := t) derived comma named colon)
      simpa using joined
    next =>
      cases ran
      exact ⟨[], .none, fun before derived => by simpa using derived⟩

theorem parameters_passes {stream final : Stream} {tree : Tree} (ran : parameters stream = .ok tree final)
    (inside : final.current.kind ≠ .endOfText) : ∃ row, Passes stream row final ∧ Derives .parameters row tree := by
  obtain ⟨first, middle, firstRan, moreRan⟩ := bind_eq_ok.mp ran
  obtain ⟨row, second, extended⟩ := moreParameters_passes moreRan inside
  obtain ⟨i, c, t, moved, named, colon, rfl⟩ := parameter_passes firstRan (second.inside inside)
  exact ⟨_, moved.trans second, extended _ (.oneParameter named colon)⟩

theorem reads_simpleCommand : Reads simpleCommand .simple := by
  intro stream tree final ran
  rw [simpleCommand, current_bind] at ran
  obtain ⟨next, same, looked, chosen⟩ := bind_eq_ok.mp ran
  obtain ⟨ahead, rfl⟩ := lookahead_eq_ok.mp looked
  split at chosen
  next becomes =>
    simp only [name, bind_eq_ok, pure_eq_ok] at chosen
    obtain ⟨_, _, ⟨target, middle, taken, rfl, rfl⟩, _, afterBecomes, accepted, value, _, valued, rfl, rfl⟩ := chosen
    obtain ⟨kind, second⟩ := accept_passes accepted (by decide)
    obtain ⟨rfl, ⟨atEnd, rfl⟩ | first⟩ := anyValue_passes taken
    · simp [kind] at atEnd
    · obtain ⟨row, third, derived⟩ := reads_expression valued
      exact ⟨_, first.trans (second.trans third), .assignment kind derived⟩
  next =>
    split at chosen
    next =>
      obtain ⟨f, o, row, c, list, moved, named, opens, inner, closes, rfl⟩ := callOf_passes reads_arguments chosen
      exact ⟨_, moved, .callCommand named opens inner closes⟩
    next other =>
      split at chosen
      next returns =>
        simp only [bind_eq_ok] at chosen
        obtain ⟨_, afterReturn, advanced, value, _, valued, chosen⟩ := chosen
        cases chosen
        obtain ⟨row, second, derived⟩ := reads_expression valued
        have first := advance_passes advanced (by simp [returns])
        refine ⟨_, first.trans second, .returning returns derived ?_⟩
        intro token found
        -- The first token of the value is the one that was looked at.
        have row := (first.trans second).row.1
        obtain ⟨others, rfl⟩ := List.head?_eq_some_iff.mp found
        simp only [List.cons_append, List.nil_append, List.cons.injEq, true_and] at row
        rw [row, List.head?_cons, Option.some.injEq] at ahead
        rw [ahead]
        exact other
      next => cases reject_ne_ok chosen

theorem startsBlock_iff {kind : Kind} : startsBlock kind = true ↔ kind.StartsBlock := by
  unfold Kind.StartsBlock
  constructor
  · intro starts
    unfold startsBlock at starts
    split at starts <;> simp_all
  · intro starts
    rcases starts with rfl | rfl | rfl | rfl <;> rfl

structure CommandsSound (bound : Nat) : Prop where
  block : Reads (blockWithin bound) .block
  single : Reads (singleWithin bound) .single
  command : Reads (commandWithin bound) .command
  declarations : Reads (declarationsWithin bound) .declarations

private theorem block_step {bound : Nat} (ih : CommandsSound bound) : Reads (blockWithin (bound + 1)) .block := by
  intro stream tree final ran
  rw [blockWithin, current_bind] at ran
  generalize kind : stream.current.kind = found at ran
  split at ran
  next =>
    simp only [bind_eq_ok] at ran
    obtain ⟨_, _, advanced, test, _, tested, _, _, thens, yes, _, accepted, _, _, elses, no, _, rejected, ran⟩ := ran
    cases ran
    have first := advance_passes advanced (by simp [kind])
    obtain ⟨testRow, second, testDerived⟩ := reads_expression tested
    obtain ⟨thenKind, third⟩ := accept_passes thens (by decide)
    obtain ⟨yesRow, fourth, yesDerived⟩ := ih.single accepted
    obtain ⟨elseKind, fifth⟩ := accept_passes elses (by decide)
    obtain ⟨noRow, sixth, noDerived⟩ := ih.single rejected
    exact ⟨_, first.trans (second.trans (third.trans (fourth.trans (fifth.trans sixth)))),
      .conditional kind testDerived thenKind yesDerived elseKind noDerived⟩
  next =>
    simp only [bind_eq_ok] at ran
    obtain ⟨_, _, advanced, test, _, tested, _, _, does, body, _, repeated, ran⟩ := ran
    cases ran
    have first := advance_passes advanced (by simp [kind])
    obtain ⟨testRow, second, testDerived⟩ := reads_expression tested
    obtain ⟨doKind, third⟩ := accept_passes does (by decide)
    obtain ⟨bodyRow, fourth, bodyDerived⟩ := ih.single repeated
    exact ⟨_, first.trans (second.trans (third.trans fourth)), .loop kind testDerived doKind bodyDerived⟩
  next =>
    simp only [bind_eq_ok] at ran
    obtain ⟨_, _, advanced, declared, _, declares, _, _, ins, body, _, inner, ran⟩ := ran
    cases ran
    have first := advance_passes advanced (by simp [kind])
    obtain ⟨declaredRow, second, declaredDerived⟩ := ih.declarations declares
    obtain ⟨inKind, third⟩ := accept_passes ins (by decide)
    obtain ⟨bodyRow, fourth, bodyDerived⟩ := ih.single inner
    exact ⟨_, first.trans (second.trans (third.trans fourth)), .scope kind declaredDerived inKind bodyDerived⟩
  next =>
    simp only [bind_eq_ok] at ran
    obtain ⟨_, _, advanced, inner, _, innerRan, _, _, ends, ran⟩ := ran
    cases ran
    have first := advance_passes advanced (by simp [kind])
    obtain ⟨row, second, derived⟩ := ih.command innerRan
    obtain ⟨endKind, third⟩ := accept_passes ends (by decide)
    exact ⟨_, first.trans (second.trans third), .compound kind derived endKind⟩
  next => cases reject_ne_ok ran

private theorem single_step {bound : Nat} (ih : CommandsSound bound) : Reads (singleWithin (bound + 1)) .single := by
  intro stream tree final ran
  rw [singleWithin, current_bind] at ran
  split at ran
  next =>
    obtain ⟨row, moved, derived⟩ := ih.block ran
    exact ⟨row, moved, .singleBlock derived⟩
  next other =>
    simp only [bind_eq_ok] at ran
    obtain ⟨simple, _, simpleRan, _, _, closed, ran⟩ := ran
    cases ran
    obtain ⟨row, first, derived⟩ := reads_simpleCommand simpleRan
    obtain ⟨closes, second⟩ := accept_passes closed (by decide)
    refine ⟨_, first.trans second, .singleSimple derived ?_ closes⟩
    intro token found
    obtain ⟨others, rfl⟩ := List.head?_eq_some_iff.mp found
    rw [← (current_of_passes first).1]
    exact fun starts => other (startsBlock_iff.mpr starts)

private theorem command_step {bound : Nat} (ih : CommandsSound bound) : Reads (commandWithin (bound + 1)) .command := by
  intro stream tree final ran
  rw [commandWithin] at ran
  obtain ⟨first, middle, singleRan, ran⟩ := bind_eq_ok.mp ran
  obtain ⟨row, before, derived⟩ := ih.single singleRan
  rw [current_bind] at ran
  split at ran
  next continues =>
    obtain ⟨second, _, commandRan, ran⟩ := bind_eq_ok.mp ran
    cases ran
    obtain ⟨others, after, more⟩ := ih.command commandRan
    refine ⟨_, before.trans after, .sequence derived more ?_⟩
    intro token found ends
    obtain ⟨rest, rfl⟩ := List.head?_eq_some_iff.mp found
    rw [(current_of_passes after).1, ends] at continues
    cases continues
  next =>
    cases ran
    exact ⟨row, before, .lastSingle derived⟩

theorem declaration_passes {stream middle final : Stream} {tree : Tree}
    (ran : declaration stream = .ok tree middle) (closed : accept .semicolon middle = .ok () final) :
    ∃ row, Passes stream row final ∧ ∀ others rest, Derives .declarations others rest →
      Derives .declarations (row ++ others) (.declarations tree rest) := by
  obtain ⟨closes, last⟩ := accept_passes closed (by decide)
  rw [declaration, current_bind] at ran
  generalize kind : stream.current.kind = found at ran
  split at ran
  next =>
    simp only [bind_eq_ok] at ran
    obtain ⟨_, _, advanced, name, _, named, _, _, equals, value, _, valued, ran⟩ := ran
    cases ran
    have first := advance_passes advanced (by simp [kind])
    obtain ⟨nameKind, rfl, second⟩ := identifier_passes named
    obtain ⟨equalsKind, third⟩ := accept_passes equals (by decide)
    obtain ⟨row, fourth, derived⟩ := reads_expression valued
    refine ⟨_, first.trans (second.trans (third.trans (fourth.trans last))), ?_⟩
    intro others rest more
    have whole := Derives.constDeclaration kind nameKind equalsKind derived closes more
    simpa using whole
  next =>
    simp only [bind_eq_ok] at ran
    obtain ⟨_, _, advanced, name, _, named, _, _, colon, type, _, typed, ran⟩ := ran
    cases ran
    have first := advance_passes advanced (by simp [kind])
    obtain ⟨nameKind, rfl, second⟩ := identifier_passes named
    obtain ⟨colonKind, third⟩ := accept_passes colon (by decide)
    obtain ⟨rfl, ⟨atEnd, rfl⟩ | fourth⟩ := typeName_passes typed
    · simp [closes] at atEnd
    · refine ⟨_, first.trans (second.trans (third.trans (fourth.trans last))), ?_⟩
      intro others rest more
      exact .varDeclaration kind nameKind colonKind closes more
  next => cases reject_ne_ok ran

theorem derives_nonempty {phrase : Phrase} {row : List Token} {tree : Tree} (derived : Derives phrase row tree)
    (other : phrase ≠ .declarations) : row ≠ [] := by
  induction derived with
  | noDeclaration => exact absurd rfl other
  | lastSingle _ ih | singleBlock _ ih | oneArgument _ ih | value _ _ ih | oneTerm _ ih | oneFactor _ ih =>
    exact ih (by simp)
  | sequence _ _ _ ih =>
    intro empty
    exact ih (by simp) (List.append_eq_nil_iff.mp empty).1
  | _ => simp

theorem function_passes {bound : Nat} (ih : CommandsSound bound) {stream final : Stream} {tree : Tree}
    (kind : stream.current.kind = .kwFunc) (ran : functionWithin (bound + 1) stream = .ok tree final) :
    ∃ row, Passes stream row final ∧ ∀ others rest, Derives .declarations others rest →
      Derives .declarations (row ++ others) (.declarations tree rest) := by
  simp only [functionWithin, bind_eq_ok] at ran
  obtain ⟨_, _, advanced, name, _, named, _, _, opened, list, _, listed, _, _, closed, _, afterColon, colon,
    type, _, typed, body, _, bodyRan, ran⟩ := ran
  cases ran
  have first := advance_passes advanced (by simp [kind])
  obtain ⟨nameKind, rfl, second⟩ := identifier_passes named
  obtain ⟨openKind, third⟩ := accept_passes opened (by decide)
  obtain ⟨closeKind, fifth⟩ := accept_passes closed (by decide)
  obtain ⟨listRow, fourth, listDerived⟩ := parameters_passes listed (by simp [closeKind])
  obtain ⟨colonKind, sixth⟩ := accept_passes colon (by decide)
  obtain ⟨bodyRow, eighth, bodyDerived⟩ := ih.single bodyRan
  obtain ⟨rfl, ⟨atEnd, rfl⟩ | seventh⟩ := typeName_passes typed
  · -- No command starts at the end of the text.
    obtain ⟨token, others, rfl⟩ := List.exists_cons_of_ne_nil (derives_nonempty bodyDerived (by simp))
    obtain ⟨same, inside⟩ := current_of_passes eighth
    exact absurd atEnd (same ▸ inside)
  · refine ⟨_, first.trans (second.trans (third.trans (fourth.trans (fifth.trans (sixth.trans (seventh.trans eighth)))))), ?_⟩
    intro others rest more
    have whole := Derives.funcDeclaration (t := afterColon.current) kind nameKind openKind listDerived closeKind colonKind bodyDerived more
    simpa using whole

private theorem declarations_step {bound : Nat} (ih : CommandsSound bound)
    (function : ∀ {stream final tree}, stream.current.kind = .kwFunc → functionWithin bound stream = .ok tree final →
      ∃ row, Passes stream row final ∧ ∀ others rest, Derives .declarations others rest →
        Derives .declarations (row ++ others) (.declarations tree rest)) :
    Reads (declarationsWithin (bound + 1)) .declarations := by
  intro stream tree final ran
  have ended : (do
      let first ← declaration
      accept .semicolon
      return Tree.declarations first (← declarationsWithin bound)) stream = .ok tree final →
      ∃ row, Passes stream row final ∧ Derives .declarations row tree := by
    intro ran
    simp only [bind_eq_ok] at ran
    obtain ⟨first, _, declared, _, _, closed, rest, _, more, ran⟩ := ran
    cases ran
    obtain ⟨row, before, extended⟩ := declaration_passes declared closed
    obtain ⟨others, after, derived⟩ := ih.declarations more
    exact ⟨_, before.trans after, extended others rest derived⟩
  rw [declarationsWithin, current_bind] at ran
  generalize kind : stream.current.kind = found at ran
  split at ran
  next => exact ended ran
  next => exact ended ran
  next =>
    simp only [bind_eq_ok] at ran
    obtain ⟨first, _, declared, rest, _, more, ran⟩ := ran
    cases ran
    obtain ⟨row, before, extended⟩ := function kind declared
    obtain ⟨others, after, derived⟩ := ih.declarations more
    exact ⟨_, before.trans after, extended others rest derived⟩
  next =>
    cases ran
    exact ⟨[], .none, .noDeclaration⟩

theorem commands_sound (bound : Nat) : CommandsSound bound := by
  induction bound using Nat.strongRecOn with
  | ind bound ih =>
    cases bound with
    | zero => exact ⟨reads_endless, reads_endless, reads_endless, reads_endless⟩
    | succ bound =>
      have before := ih bound (by omega)
      refine ⟨block_step before, single_step before, command_step before, declarations_step before ?_⟩
      intro stream final tree kind ran
      cases bound with
      | zero => cases ran
      | succ bound => exact function_passes (ih bound (by omega)) kind ran

theorem reads_block : Reads block .block := reads_bounded fun bound => (commands_sound bound).block

end MiniTriangle.Parse
