import MiniTriangle.Grammar.Rule

/-! What holds of every rule of the grammar. The rules are composed of a few steps along the stream, and they come back to
each other with a smaller bound. A relation between parsers that composes in the same way holds of every rule, with a bound
and with any greater one. The relation may count: the steps that the bound leaves to spare, beyond three for each token
ahead, and the tokens that are passed. -/

namespace MiniTriangle

def Token.unplaced (token : Token) : Token := { token with position := 0 }

namespace Parse

/-- What is said of two parsers: from a current token, where it is known, and with a bound that leaves so many steps to
spare, they pass at least so many tokens. -/
abbrev Relation := ∀ {α : Type}, (here : Option Token) → (bound spare passed : Nat) → Parse α → Parse α → Prop

structure Composes (holds : Relation) : Prop where
  /-- What holds with fewer steps to spare, and if more tokens are passed, holds anywhere. -/
  ample {α : Type} {here : Option Token} {bound spare more passed least : Nat} {first second : Parse α} :
    holds none bound spare passed first second → spare ≤ more → least ≤ passed → holds here bound more least first second
  endless {α : Type} {spare passed : Nat} (other : Parse α) : holds none 0 (spare + 1) passed (throw .endless) other
  deeper {α : Type} {bound spare passed : Nat} {first second : Parse α} :
    holds none bound spare passed first second → holds none (bound + 1) (spare + 1) passed first second
  /-- The bound that a rule gives itself leaves four steps to spare. -/
  bounded {α : Type} {bound spare passed : Nat} {parser : Nat → Parse α} :
    (∀ bound, holds none bound 4 passed (parser bound) (parser bound)) →
      holds none bound spare passed (Parse.bounded parser) (Parse.bounded parser)
  pure {α : Type} {here : Option Token} {bound spare : Nat} (value : α) :
    holds here bound spare 0 (Pure.pure value) (Pure.pure value)
  reject {α : Type} {here : Option Token} {bound spare passed : Nat} :
    holds here bound spare passed (Parse.reject : Parse α) Parse.reject
  /-- Each token that is passed spares three steps. -/
  bind {α β : Type} {here : Option Token} {bound spare passed least : Nat} {first second : Parse α}
    {next others : α → Parse β} :
    holds here bound spare passed first second →
      (∀ value, holds none bound (spare + 3 * passed) (least - passed) (next value) (others value)) →
        holds here bound spare least (first >>= next) (second >>= others)
  /-- What follows does not look at the position of the token. -/
  current {α : Type} {bound spare passed : Nat} {next others : Token → Parse α} :
    (∀ token, holds (some token) bound spare passed (next token) (others token)) →
      (∀ token, next token.unplaced = next token) →
        holds none bound spare passed (Parse.current >>= next) (Parse.current >>= others)
  lookahead {α : Type} {here : Option Token} {bound spare passed : Nat} {next others : Token → Parse α} :
    (∀ token, holds here bound spare passed (next token) (others token)) →
      (∀ token, next token.unplaced = next token) →
        holds here bound spare passed (Parse.lookahead >>= next) (Parse.lookahead >>= others)
  advance {here : Option Token} {bound spare : Nat} : holds here bound spare 0 Parse.advance Parse.advance
  /-- Every token but the end of the text is passed. -/
  pass {bound spare : Nat} {token : Token} :
    token.kind ≠ .endOfText → holds (some token) bound spare 1 Parse.advance Parse.advance

namespace Composes

variable {holds : Relation} (composes : Composes holds) {here : Option Token} {bound more spare passed : Nat}

include composes

/-- A part of a rule needs no more steps than the bound leaves to spare. -/
theorem part {α : Type} {needed : Nat} {first second : Parse α} (related : holds none bound needed passed first second)
    (enough : needed ≤ spare) : holds here bound spare passed first second :=
  composes.ample related enough (Nat.le_refl _)

theorem accept {kind : Kind} (inside : kind ≠ .endOfText) :
    holds here bound spare 1 (Parse.accept kind) (Parse.accept kind) := by
  apply composes.ample _ (Nat.le_refl _) (Nat.le_refl _)
  apply composes.current _ fun _ => rfl
  intro token
  split
  next same => exact composes.pass (same ▸ inside)
  next => exact composes.reject

theorem identifier : holds here bound spare 1 Parse.identifier Parse.identifier := by
  apply composes.ample _ (Nat.le_refl _) (Nat.le_refl _)
  apply composes.current _ fun _ => rfl
  intro token
  exact composes.bind (composes.accept (by decide)) fun _ => composes.pure _

theorem anyValue : holds here bound spare 0 Parse.anyValue Parse.anyValue := by
  apply composes.ample _ (Nat.le_refl _) (Nat.le_refl _)
  apply composes.current _ fun _ => rfl
  intro token
  exact composes.bind composes.advance fun _ => composes.pure _

theorem name : holds here bound spare 0 Parse.name Parse.name := composes.bind composes.anyValue fun _ => composes.pure _

theorem typeName : holds here bound spare 0 Parse.typeName Parse.typeName :=
  composes.bind composes.anyValue fun _ => composes.pure _

/-- A call passes its name and a parenthesis before its arguments. -/
theorem callOf {list others : Parse Tree} (inner : holds none bound 4 0 list others) :
    holds here bound spare 0 (Parse.callOf list) (Parse.callOf others) := by
  apply composes.bind composes.identifier
  intro name
  apply composes.bind (composes.accept (by decide))
  intro _
  apply composes.bind (composes.part inner (by omega))
  intro arguments
  exact composes.bind (composes.accept (by decide)) fun _ => composes.pure _

/-- One round of a loop: a token is passed, and an operand is parsed before the next round. -/
theorem round {operand others : Parse Tree} {rest later : Tree → Parse Tree} {combine : Tree → Tree} {token : Token}
    (inside : token.kind ≠ .endOfText) (inner : holds none bound 3 passed operand others)
    (again : ∀ tree, holds none bound 1 0 (rest tree) (later tree)) :
    holds (some token) bound spare 0 (do Parse.advance; let next ← operand; rest (combine next))
      (do Parse.advance; let next ← others; later (combine next)) := by
  apply composes.bind (composes.pass inside)
  intro _
  apply composes.bind (composes.part inner (by omega))
  intro next
  exact composes.ample (again _) (by omega) (by omega)

end Composes

structure ExpressionsHold (holds : Relation) (bound more : Nat) : Prop where
  expression : holds none bound 3 0 (expressionWithin bound) (expressionWithin more)
  sum : ∀ left, holds none bound 1 0 (sumWithin bound left) (sumWithin more left)
  term : holds none bound 2 0 (termWithin bound) (termWithin more)
  product : ∀ left, holds none bound 1 0 (productWithin bound left) (productWithin more left)
  factor : holds none bound 1 0 (factorWithin bound) (factorWithin more)
  arguments : holds none bound 4 0 (argumentsWithin bound) (argumentsWithin more)
  moreArguments : ∀ list, holds none bound 1 0 (moreArgumentsWithin bound list) (moreArgumentsWithin more list)

structure CommandsHold (holds : Relation) (bound more : Nat) : Prop where
  block : holds none bound 1 1 (blockWithin bound) (blockWithin more)
  single : holds none bound 2 1 (singleWithin bound) (singleWithin more)
  command : holds none bound 3 1 (commandWithin bound) (commandWithin more)
  declarations : holds none bound 2 0 (declarationsWithin bound) (declarationsWithin more)
  function : holds none bound 1 1 (functionWithin bound) (functionWithin more)

section

variable {holds : Relation} (composes : Composes holds) {here : Option Token} {bound more spare : Nat}

private theorem isOneOf_inside {token : Token} {signs : List String} (sign : isOneOf token signs = true) :
    token.kind ≠ .endOfText := by
  intro atEnd
  simp [isOneOf, atEnd] at sign

include composes

private theorem factor_holds (ih : ExpressionsHold holds bound more) :
    holds none (bound + 1) 1 0 (factorWithin (bound + 1)) (factorWithin (more + 1)) := by
  apply composes.deeper
  apply composes.current _ fun _ => rfl
  intro token
  split
  next kind => exact composes.bind (composes.pass (by simp [kind])) fun _ => composes.pure _
  next => exact composes.bind composes.name fun _ => composes.pure _
  next kind =>
    apply composes.bind (composes.pass (by simp [kind]))
    intro _
    exact composes.bind (composes.part ih.factor (by decide)) fun _ => composes.pure _
  next kind =>
    apply composes.bind (composes.pass (by simp [kind]))
    intro _
    apply composes.bind (composes.part ih.expression (by decide))
    intro inner
    exact composes.bind (composes.accept (by decide)) fun _ => composes.pure _
  next => exact composes.reject

theorem expressions_hold (below : bound ≤ more) : ExpressionsHold holds bound more := by
  induction bound generalizing more with
  | zero =>
    exact ⟨composes.endless _, fun _ => composes.endless _, composes.endless _, fun _ => composes.endless _,
      composes.endless _, composes.endless _, fun _ => composes.endless _⟩
  | succ bound ih =>
    obtain ⟨more, rfl⟩ := Nat.exists_eq_add_one.mpr (Nat.lt_of_lt_of_le (Nat.zero_lt_succ bound) below)
    have inner := ih (Nat.le_of_succ_le_succ below)
    refine ⟨?expression, ?sum, ?term, ?product, factor_holds composes inner, ?arguments, ?moreArguments⟩
    case expression =>
      apply composes.deeper
      apply composes.lookahead _ fun _ => rfl
      intro next
      split
      · exact composes.callOf inner.arguments
      · exact composes.bind inner.term fun left => composes.part (inner.sum left) (by decide)
    case sum =>
      intro left
      apply composes.deeper
      apply composes.current _ fun _ => rfl
      intro token
      split
      next sign => exact composes.round (isOneOf_inside sign) (composes.part inner.term (by decide)) inner.sum
      next => exact composes.pure _
    case term =>
      apply composes.deeper
      exact composes.bind inner.factor fun left => inner.product left
    case product =>
      intro left
      apply composes.deeper
      apply composes.current _ fun _ => rfl
      intro token
      split
      next sign => exact composes.round (isOneOf_inside sign) (composes.part inner.factor (by decide)) inner.product
      next => exact composes.pure _
    case arguments =>
      apply composes.deeper
      exact composes.bind inner.expression fun first => composes.part (inner.moreArguments _) (by decide)
    case moreArguments =>
      intro list
      apply composes.deeper
      apply composes.current _ fun _ => rfl
      intro token
      split
      next comma => exact composes.round (by simp [comma]) inner.expression inner.moreArguments
      next => exact composes.pure _

theorem expression_holds : holds here bound spare 0 expression expression := by
  apply composes.part (composes.bounded _) (Nat.zero_le _)
  intro bound
  exact composes.part (expressions_hold composes (Nat.le_refl bound)).expression (by decide)

theorem arguments_hold : holds here bound spare 0 arguments arguments := by
  apply composes.part (composes.bounded _) (Nat.zero_le _)
  intro bound
  exact (expressions_hold composes (Nat.le_refl bound)).arguments

theorem parameter_holds : holds here bound spare 1 parameter parameter := by
  apply composes.bind composes.identifier
  intro name
  apply composes.bind (composes.accept (by decide))
  intro _
  exact composes.bind composes.typeName fun _ => composes.pure _

theorem moreParameters_hold (below : bound ≤ more) (list : Tree) :
    holds none bound 1 0 (moreParametersWithin bound list) (moreParametersWithin more list) := by
  induction bound generalizing more list with
  | zero => exact composes.endless _
  | succ bound ih =>
    obtain ⟨more, rfl⟩ := Nat.exists_eq_add_one.mpr (Nat.lt_of_lt_of_le (Nat.zero_lt_succ bound) below)
    apply composes.deeper
    apply composes.current _ fun _ => rfl
    intro token
    split
    next comma => exact composes.round (by simp [comma]) (parameter_holds composes) (ih (Nat.le_of_succ_le_succ below))
    next => exact composes.pure _

theorem parameters_hold : holds here bound spare 1 parameters parameters := by
  apply composes.bind (parameter_holds composes)
  intro first
  apply composes.part (composes.bounded _) (Nat.zero_le _)
  intro bound
  exact composes.part (moreParameters_hold composes (Nat.le_refl bound) first) (by decide)

theorem declaration_holds : holds none bound spare 1 declaration declaration := by
  apply composes.current _ fun _ => rfl
  intro token
  split
  next kind =>
    apply composes.bind (composes.pass (by simp [kind]))
    intro _
    apply composes.bind composes.identifier
    intro name
    apply composes.bind (composes.accept (by decide))
    intro _
    exact composes.bind (expression_holds composes) fun _ => composes.pure _
  next kind =>
    apply composes.bind (composes.pass (by simp [kind]))
    intro _
    apply composes.bind composes.identifier
    intro name
    apply composes.bind (composes.accept (by decide))
    intro _
    exact composes.bind composes.typeName fun _ => composes.pure _
  next => exact composes.reject

theorem simpleCommand_holds : holds none bound spare 0 simpleCommand simpleCommand := by
  apply composes.current _ fun _ => rfl
  intro token
  apply composes.lookahead _ fun _ => rfl
  intro next
  split
  · apply composes.bind composes.name
    intro target
    apply composes.bind (composes.accept (by decide))
    intro _
    exact composes.bind (expression_holds composes) fun _ => composes.pure _
  split
  · exact composes.callOf (arguments_hold composes)
  split
  · apply composes.bind composes.advance
    intro _
    exact composes.bind (expression_holds composes) fun _ => composes.pure _
  · exact composes.reject

private theorem block_holds (ih : CommandsHold holds bound more) :
    holds none (bound + 1) 1 1 (blockWithin (bound + 1)) (blockWithin (more + 1)) := by
  apply composes.deeper
  apply composes.current _ fun _ => rfl
  intro token
  split
  next kind =>
    apply composes.bind (composes.pass (by simp [kind]))
    intro _
    apply composes.bind (expression_holds composes)
    intro test
    apply composes.bind (composes.accept (by decide))
    intro _
    apply composes.bind (composes.part ih.single (by decide))
    intro yes
    apply composes.bind (composes.accept (by decide))
    intro _
    exact composes.bind (composes.part ih.single (by decide)) fun _ => composes.pure _
  next kind =>
    apply composes.bind (composes.pass (by simp [kind]))
    intro _
    apply composes.bind (expression_holds composes)
    intro test
    apply composes.bind (composes.accept (by decide))
    intro _
    exact composes.bind (composes.part ih.single (by decide)) fun _ => composes.pure _
  next kind =>
    apply composes.bind (composes.pass (by simp [kind]))
    intro _
    apply composes.bind (composes.part ih.declarations (by decide))
    intro declared
    apply composes.bind (composes.accept (by decide))
    intro _
    exact composes.bind (composes.part ih.single (by decide)) fun _ => composes.pure _
  next kind =>
    apply composes.bind (composes.pass (by simp [kind]))
    intro _
    apply composes.bind (composes.part ih.command (by decide))
    intro inner
    exact composes.bind (composes.accept (by decide)) fun _ => composes.pure _
  next => exact composes.reject

private theorem declarations_hold (ih : CommandsHold holds bound more) :
    holds none (bound + 1) 2 0 (declarationsWithin (bound + 1)) (declarationsWithin (more + 1)) := by
  have ended {token : Token} : holds (some token) bound 1 0
      (do
        let first ← declaration
        accept .semicolon
        return Tree.declarations first (← declarationsWithin bound))
      (do
        let first ← declaration
        accept .semicolon
        return Tree.declarations first (← declarationsWithin more)) := by
    apply composes.bind (composes.part (declaration_holds composes) (Nat.zero_le _))
    intro first
    apply composes.bind (composes.accept (by decide))
    intro _
    exact composes.bind (composes.part ih.declarations (by decide)) fun _ => composes.pure _
  apply composes.deeper
  apply composes.current _ fun _ => rfl
  intro token
  split
  · exact ended
  · exact ended
  · apply composes.bind (composes.part ih.function (by decide))
    intro first
    exact composes.bind (composes.part ih.declarations (by decide)) fun _ => composes.pure _
  · exact composes.pure _

private theorem function_holds (ih : CommandsHold holds bound more) :
    holds none (bound + 1) 1 1 (functionWithin (bound + 1)) (functionWithin (more + 1)) := by
  apply composes.deeper
  apply composes.bind composes.advance
  intro _
  apply composes.bind composes.identifier
  intro name
  apply composes.bind (composes.accept (by decide))
  intro _
  apply composes.bind (parameters_hold composes)
  intro list
  apply composes.bind (composes.accept (by decide))
  intro _
  apply composes.bind (composes.accept (by decide))
  intro _
  apply composes.bind composes.typeName
  intro result
  exact composes.bind (composes.part ih.single (by decide)) fun _ => composes.pure _

theorem commands_hold (below : bound ≤ more) : CommandsHold holds bound more := by
  induction bound generalizing more with
  | zero =>
    exact ⟨composes.endless _, composes.endless _, composes.endless _, composes.endless _, composes.endless _⟩
  | succ bound ih =>
    obtain ⟨more, rfl⟩ := Nat.exists_eq_add_one.mpr (Nat.lt_of_lt_of_le (Nat.zero_lt_succ bound) below)
    have inner := ih (Nat.le_of_succ_le_succ below)
    refine ⟨block_holds composes inner, ?single, ?command, declarations_hold composes inner, function_holds composes inner⟩
    case single =>
      apply composes.deeper
      apply composes.current _ fun _ => rfl
      intro token
      split
      · exact composes.part inner.block (by decide)
      · apply composes.bind (composes.part (simpleCommand_holds composes) (Nat.zero_le _))
        intro simple
        exact composes.bind (composes.accept (by decide)) fun _ => composes.pure _
    case command =>
      apply composes.deeper
      apply composes.bind inner.single
      intro first
      apply composes.current _ fun _ => rfl
      intro token
      split
      · exact composes.bind (composes.part inner.command (by decide)) fun _ => composes.pure _
      · exact composes.pure _

end

end Parse

open Parse

/-- A rule with a bound on the depth of its recursion. The rules that do not come back to themselves have none. -/
def Rule.within (bound : Nat) : Rule → Parse Tree
  | .program => do return .program (← blockWithin bound)
  | .block => blockWithin bound
  | .command => commandWithin bound
  | .single => singleWithin bound
  | .arguments => argumentsWithin bound
  | .expression => expressionWithin bound
  | .term => termWithin bound
  | .factor => factorWithin bound
  | .declarations => declarationsWithin bound
  | .function => functionWithin bound
  | .parameters => do
    let first ← parameter
    moreParametersWithin bound first
  | rule => rule.parse

namespace Rule

variable {holds : Relation} (composes : Composes holds)

include composes

theorem within_holds (rule : Rule) {bound more : Nat} (below : bound ≤ more) :
    holds none bound 4 0 (rule.within bound) (rule.within more) := by
  have expressions := expressions_hold composes below
  have commands := commands_hold composes below
  cases rule with
  | program => exact composes.bind (composes.part commands.block (by decide)) fun _ => composes.pure _
  | block => exact composes.ample commands.block (by decide) (by decide)
  | command => exact composes.ample commands.command (by decide) (by decide)
  | single => exact composes.ample commands.single (by decide) (by decide)
  | simpleCommand => exact simpleCommand_holds composes
  | arguments => exact expressions.arguments
  | expression => exact composes.part expressions.expression (by decide)
  | term => exact composes.part expressions.term (by decide)
  | factor => exact composes.part expressions.factor (by decide)
  | declarations => exact composes.part commands.declarations (by decide)
  | declaration => exact composes.ample (declaration_holds composes) (Nat.le_refl _) (by decide)
  | function => exact composes.ample commands.function (by decide) (by decide)
  | parameters =>
    apply composes.bind (parameter_holds composes)
    intro first
    exact composes.part (moreParameters_hold composes below first) (by decide)
  | typeName => exact composes.typeName
  | name => exact composes.name

theorem parse_holds (rule : Rule) (bound : Nat) : holds none bound 0 0 rule.parse rule.parse := by
  have within (bound : Nat) : holds none bound 4 0 (rule.within bound) (rule.within bound) :=
    rule.within_holds composes (Nat.le_refl bound)
  cases rule with
  | program =>
    have block : holds none bound 0 0 Parse.block Parse.block :=
      composes.bounded fun bound => Rule.block.within_holds composes (Nat.le_refl bound)
    exact composes.bind block fun _ => composes.pure _
  | block | command | single | arguments | expression | term | factor | declarations | function =>
    exact composes.bounded within
  | parameters => exact composes.ample (parameters_hold composes) (Nat.le_refl _) (by decide)
  | simpleCommand => exact simpleCommand_holds composes
  | declaration => exact composes.ample (declaration_holds composes) (Nat.le_refl _) (by decide)
  | typeName => exact composes.typeName
  | name => exact composes.name

end Rule

end MiniTriangle
