import MiniTriangle.Proofs.ParserSoundness

/-! What the grammar derives, the parser accepts, with the same tree, wherever the phrase is followed by a token
that cannot go on with it. The bound on the depth of the recursion is large enough for a phrase if it is about
four times the number of its tokens. -/

namespace MiniTriangle.Parse

open Sequencing

def EndsExpression (token : Token) : Prop :=
  isAdditive token = false ∧ isMultiplicative token = false ∧ token.kind ≠ .leftParen

/-- The parser of a phrase finds it. The parsers of rows with operators or commas are loops: they are described
by the state they are in when they have passed the whole row, with the tree so far. -/
def Found : Phrase → List Token → Tree → Prop
  | .factor, row, tree => ∀ {stream final bound}, Passes stream row final → 4 * row.length ≤ bound + 2 →
      factorWithin bound stream = .ok tree final
  | .product, row, tree => ∀ {stream final bound}, Passes stream row final → 4 * row.length ≤ bound + 2 →
      ∃ later, bound ≤ later + row.length ∧
        (factorWithin bound >>= productWithin bound) stream = productWithin later tree final
  | .sum, row, tree => ∀ {stream final bound}, Passes stream row final → isMultiplicative final.current = false →
      4 * row.length ≤ bound + 1 →
      ∃ later, bound ≤ later + row.length ∧ (termWithin bound >>= sumWithin bound) stream = sumWithin later tree final
  | .expression, row, tree => ∀ {stream final bound}, Passes stream row final → EndsExpression final.current →
      4 * row.length ≤ bound → expressionWithin bound stream = .ok tree final
  | .arguments, row, tree => ∀ {stream final bound}, Passes stream row final → EndsExpression final.current →
      4 * row.length ≤ bound →
      ∃ later, bound ≤ later + row.length ∧
        (expressionWithin bound >>= fun first => moreArgumentsWithin bound (argumentNode first)) stream =
          moreArgumentsWithin later tree final
  | .parameters, row, tree => ∀ {stream final}, Passes stream row final →
      ∃ first middle others, parameter stream = .ok first middle ∧ Passes middle others final ∧
        ∀ {bound}, others.length < bound → ∃ later, bound ≤ later + others.length ∧
          moreParametersWithin bound first middle = moreParametersWithin later tree final
  | .simple, row, tree => ∀ {stream final}, Passes stream row final → EndsExpression final.current →
      simpleCommand stream = .ok tree final
  | .declarations, row, tree => ∀ {stream final bound}, Passes stream row final → final.current.kind = .kwIn →
      4 * row.length + 1 ≤ bound → declarationsWithin bound stream = .ok tree final
  | .block, row, tree => ∀ {stream final bound}, Passes stream row final → 4 * row.length ≤ bound + 2 →
      blockWithin bound stream = .ok tree final
  | .single, row, tree => ∀ {stream final bound}, Passes stream row final → 4 * row.length ≤ bound + 1 →
      singleWithin bound stream = .ok tree final
  | .command, row, tree => ∀ {stream final bound}, Passes stream row final → final.current.kind = .kwEnd →
      4 * row.length ≤ bound → commandWithin bound stream = .ok tree final

theorem not_isOneOf {token : Token} (other : token.kind ≠ .operator) (signs : List String) : isOneOf token signs = false := by
  simp [isOneOf, other]

theorem endsExpression_of_kind {token : Token} {kind : Kind} (same : token.kind = kind) (notSign : kind ≠ .operator)
    (notParen : kind ≠ .leftParen) : EndsExpression token := by
  subst kind
  exact ⟨not_isOneOf notSign _, not_isOneOf notSign _, notParen⟩

theorem isAdditive_not_isMultiplicative {token : Token} (sign : token.IsOperator ["+", "-", "<", ">", "="]) :
    isMultiplicative token = false := by
  obtain ⟨kind, text, listed, value⟩ := sign
  simp only [List.mem_cons, List.not_mem_nil, or_false] at listed
  rcases listed with rfl | rfl | rfl | rfl | rfl <;> simp [isMultiplicative, isOneOf, value]

private theorem succ_of_pos {bound : Nat} (positive : 0 < bound) : ∃ less, bound = less + 1 := ⟨bound - 1, by omega⟩

theorem found_integer {token : Token} (written : token.kind = .integer) :
    Found .factor [token] (.integer (.atom token.value)) := by
  intro stream final bound moved enough
  obtain ⟨less, rfl⟩ := succ_of_pos (by simp at enough; omega : 0 < bound)
  obtain ⟨middle, advanced, rest⟩ := advance_of_passes moved
  cases rest
  rw [factorWithin, current_bind, (current_of_passes moved).1]
  simp only [written]
  rw [bind_ok advanced]
  rfl

theorem found_reference {token : Token} (named : token.kind = .identifier) :
    Found .factor [token] (.reference (.name (.atom token.value))) := by
  intro stream final bound moved enough
  obtain ⟨less, rfl⟩ := succ_of_pos (by simp at enough; omega : 0 < bound)
  obtain ⟨middle, taken, rest⟩ := anyValue_of_passes moved
  cases rest
  have nameRan : name stream = .ok (.name (.atom token.value)) final := bind_ok taken
  rw [factorWithin, current_bind, (current_of_passes moved).1]
  simp only [named]
  rw [bind_ok nameRan]
  rfl

theorem found_unary {token : Token} {row : List Token} {tree : Tree} (sign : token.kind = .operator)
    (operand : Found .factor row tree) : Found .factor (token :: row) (.unary (.atom token.value) tree) := by
  intro stream final bound moved enough
  simp only [List.length_cons] at enough
  obtain ⟨less, rfl⟩ := succ_of_pos (by omega : 0 < bound)
  obtain ⟨middle, advanced, rest⟩ := advance_of_passes moved
  rw [factorWithin, current_bind, (current_of_passes moved).1]
  simp only [sign]
  rw [bind_ok advanced, bind_ok (operand rest (by omega))]
  rfl

theorem found_parenthesis {o c : Token} {row : List Token} {tree : Tree} (opens : o.kind = .leftParen)
    (inner : Found .expression row tree) (closes : c.kind = .rightParen) : Found .factor (o :: (row ++ [c])) tree := by
  intro stream final bound moved enough
  simp only [List.length_cons, List.length_append, List.length_nil] at enough
  obtain ⟨less, rfl⟩ := succ_of_pos (by omega : 0 < bound)
  obtain ⟨afterOpen, advanced, rest⟩ := advance_of_passes moved
  obtain ⟨afterInner, innerMoved, last⟩ := rest.split
  obtain ⟨afterClose, closed, done⟩ := accept_of_passes last closes
  cases done
  have ends : EndsExpression afterInner.current := by
    rw [(current_of_passes last).1]
    exact endsExpression_of_kind closes (by decide) (by decide)
  rw [factorWithin, current_bind, (current_of_passes moved).1]
  simp only [opens]
  rw [bind_ok advanced, bind_ok (inner innerMoved ends (by omega)), bind_ok closed]
  rfl

theorem found_oneFactor {row : List Token} {tree : Tree} (only : Found .factor row tree) : Found .product row tree := by
  intro stream final bound moved enough
  exact ⟨bound, by omega, bind_ok (only moved enough)⟩

theorem found_multiply {row next : List Token} {o : Token} {left right : Tree} (before : Found .product row left)
    (sign : o.IsOperator ["*", "/", "\\"]) (last : Found .factor next right) :
    Found .product (row ++ o :: next) (.binary left (.atom o.value) right) := by
  intro stream final bound moved enough
  simp only [List.length_append, List.length_cons] at enough ⊢
  obtain ⟨middle, first, rest⟩ := moved.split
  obtain ⟨later, kept, ran⟩ := before first (by omega : 4 * row.length ≤ bound + 2)
  obtain ⟨less, rfl⟩ := succ_of_pos (by omega : 0 < later)
  obtain ⟨afterSign, advanced, operand⟩ := advance_of_passes rest
  have goesOn : isMultiplicative o = true := isOneOf_iff.mpr sign
  refine ⟨less, by omega, ran.trans ?_⟩
  rw [productWithin, current_bind, (current_of_passes rest).1, if_pos goesOn, bind_ok advanced,
    bind_ok (last operand (by omega))]

private theorem term_found {row : List Token} {tree : Tree} (nonempty : row ≠ []) (inner : Found .product row tree)
    {stream final : Stream} {bound : Nat} (moved : Passes stream row final)
    (ends : isMultiplicative final.current = false) (enough : 4 * row.length ≤ bound + 1) :
    termWithin bound stream = .ok tree final := by
  have positive := List.length_pos_iff.mpr nonempty
  obtain ⟨less, rfl⟩ := succ_of_pos (by omega : 0 < bound)
  obtain ⟨later, kept, ran⟩ := inner moved (by omega : 4 * row.length ≤ less + 2)
  obtain ⟨fewer, rfl⟩ := succ_of_pos (by omega : 0 < later)
  rw [termWithin]
  refine ran.trans ?_
  rw [productWithin, current_bind, if_neg (by simp [ends])]
  rfl

theorem found_oneTerm {row : List Token} {tree : Tree} (nonempty : row ≠ []) (only : Found .product row tree) :
    Found .sum row tree := by
  intro stream final bound moved ends enough
  exact ⟨bound, by omega, bind_ok (term_found nonempty only moved ends enough)⟩

theorem found_add {row next : List Token} {o : Token} {left right : Tree} (before : Found .sum row left)
    (sign : o.IsOperator ["+", "-", "<", ">", "="]) (nonempty : next ≠ []) (last : Found .product next right) :
    Found .sum (row ++ o :: next) (.binary left (.atom o.value) right) := by
  intro stream final bound moved ends enough
  simp only [List.length_append, List.length_cons] at enough ⊢
  obtain ⟨middle, first, rest⟩ := moved.split
  have stops : isMultiplicative middle.current = false := by
    rw [(current_of_passes rest).1]
    exact isAdditive_not_isMultiplicative sign
  obtain ⟨later, kept, ran⟩ := before first stops (by omega : 4 * row.length ≤ bound + 1)
  obtain ⟨less, rfl⟩ := succ_of_pos (by omega : 0 < later)
  obtain ⟨afterSign, advanced, operand⟩ := advance_of_passes rest
  have goesOn : isAdditive o = true := isOneOf_iff.mpr sign
  refine ⟨less, by omega, ran.trans ?_⟩
  rw [sumWithin, current_bind, (current_of_passes rest).1, if_pos goesOn, bind_ok advanced,
    bind_ok (term_found nonempty last operand ends (by omega))]

theorem found_value {row : List Token} {tree : Tree} (nonempty : row ≠ []) (inner : Found .sum row tree)
    (second : ∀ token ∈ row[1]?, token.kind ≠ .leftParen) : Found .expression row tree := by
  intro stream final bound moved ends enough
  obtain ⟨first, others, rfl⟩ := List.exists_cons_of_ne_nil nonempty
  have length : (first :: others).length = others.length + 1 := rfl
  obtain ⟨less, rfl⟩ := succ_of_pos (by omega : 0 < bound)
  obtain ⟨next, looked, same⟩ := lookahead_of_passes moved
  have plain : next.kind ≠ .leftParen := by
    cases others with
    | nil =>
      cases same
      exact ends.2.2
    | cons other rest =>
      cases same
      exact second next rfl
  obtain ⟨later, kept, ran⟩ := inner moved ends.2.1 (by omega : 4 * (first :: others).length ≤ less + 1)
  obtain ⟨fewer, rfl⟩ := succ_of_pos (by omega : 0 < later)
  rw [expressionWithin, bind_ok looked, if_neg plain]
  refine ran.trans ?_
  rw [sumWithin, current_bind, if_neg (by simp [ends.1])]
  rfl

theorem found_oneArgument {row : List Token} {tree : Tree} (only : Found .expression row tree) :
    Found .arguments row (.parameter tree .absent) := by
  intro stream final bound moved ends enough
  exact ⟨bound, by omega, bind_ok (only moved ends enough)⟩

theorem found_moreArguments {row next : List Token} {m : Token} {list tree : Tree} (before : Found .arguments row list)
    (comma : m.kind = .comma) (last : Found .expression next tree) :
    Found .arguments (row ++ m :: next) (.parameters list (.parameter tree .absent)) := by
  intro stream final bound moved ends enough
  simp only [List.length_append, List.length_cons] at enough ⊢
  obtain ⟨middle, first, rest⟩ := moved.split
  have stops : EndsExpression middle.current := by
    rw [(current_of_passes rest).1]
    exact endsExpression_of_kind comma (by decide) (by decide)
  obtain ⟨later, kept, ran⟩ := before first stops (by omega : 4 * row.length ≤ bound)
  obtain ⟨less, rfl⟩ := succ_of_pos (by omega : 0 < later)
  obtain ⟨afterComma, advanced, argument⟩ := advance_of_passes rest
  refine ⟨less, by omega, ran.trans ?_⟩
  rw [moreArgumentsWithin, current_bind, (current_of_passes rest).1, if_pos comma, bind_ok advanced,
    bind_ok (last argument ends (by omega))]
  rfl

private theorem arguments_found {row : List Token} {list : Tree} (nonempty : row ≠ []) (inner : Found .arguments row list)
    {stream final : Stream} {bound : Nat} (moved : Passes stream row final) (closes : final.current.kind = .rightParen)
    (enough : 4 * row.length < bound) : argumentsWithin bound stream = .ok list final := by
  have positive := List.length_pos_iff.mpr nonempty
  have ends : EndsExpression final.current := endsExpression_of_kind closes (by decide) (by decide)
  obtain ⟨less, rfl⟩ := succ_of_pos (by omega : 0 < bound)
  obtain ⟨later, kept, ran⟩ := inner moved ends (by omega : 4 * row.length ≤ less)
  obtain ⟨fewer, rfl⟩ := succ_of_pos (by omega : 0 < later)
  rw [argumentsWithin]
  refine ran.trans ?_
  rw [moreArgumentsWithin, current_bind, if_neg (by simp [closes])]
  rfl

private theorem callOf_found {f o c : Token} {row : List Token} {list : Tree} {arguments : Parse Tree}
    (named : f.kind = .identifier) (opens : o.kind = .leftParen) (closes : c.kind = .rightParen) {stream final : Stream}
    (moved : Passes stream (f :: o :: (row ++ [c])) final)
    (inner : ∀ {start stop}, Passes start row stop → stop.current.kind = .rightParen → arguments start = .ok list stop) :
    callOf arguments stream = .ok (.call (.atom f.value) list) final := by
  obtain ⟨afterName, nameRan, rest⟩ := identifier_of_passes moved named
  obtain ⟨afterOpen, openRan, rest⟩ := accept_of_passes rest opens
  obtain ⟨afterList, listMoved, last⟩ := rest.split
  obtain ⟨afterClose, closeRan, done⟩ := accept_of_passes last closes
  cases done
  have stops : afterList.current.kind = .rightParen := by
    rw [(current_of_passes last).1]
    exact closes
  rw [callOf, bind_ok nameRan, bind_ok openRan, bind_ok (inner listMoved stops), bind_ok closeRan]
  rfl

theorem found_call {f o c : Token} {row : List Token} {list : Tree} (named : f.kind = .identifier)
    (opens : o.kind = .leftParen) (nonempty : row ≠ []) (inner : Found .arguments row list)
    (closes : c.kind = .rightParen) : Found .expression (f :: o :: (row ++ [c])) (.call (.atom f.value) list) := by
  intro stream final bound moved _ enough
  simp only [List.length_cons, List.length_append, List.length_nil] at enough
  obtain ⟨less, rfl⟩ := succ_of_pos (by omega : 0 < bound)
  obtain ⟨next, looked, same⟩ := lookahead_of_passes moved
  cases same
  rw [expressionWithin, bind_ok looked, if_pos opens]
  apply callOf_found named opens closes moved
  intro start stop passed stops
  exact arguments_found nonempty inner passed stops (by omega)

theorem expression_found {row : List Token} {tree : Tree} (inner : Found .expression row tree)
    {stream final : Stream} (moved : Passes stream row final) (ends : EndsExpression final.current) :
    expression stream = .ok tree final := by
  have shorter := moved.length_le
  exact inner moved ends (by omega)

theorem found_assignment {t b : Token} {row : List Token} {tree : Tree} (becomes : b.kind = .becomes)
    (value : Found .expression row tree) : Found .simple (t :: b :: row) (.assign (.name (.atom t.value)) tree) := by
  intro stream final moved ends
  obtain ⟨next, looked, same⟩ := lookahead_of_passes moved
  cases same
  obtain ⟨afterName, taken, rest⟩ := anyValue_of_passes moved
  have nameRan : name stream = .ok (.name (.atom t.value)) afterName := bind_ok taken
  obtain ⟨afterBecomes, accepted, rest⟩ := accept_of_passes rest becomes
  rw [simpleCommand, current_bind, bind_ok looked, if_pos becomes, bind_ok nameRan, bind_ok accepted,
    bind_ok (expression_found value rest ends)]
  rfl

theorem found_callCommand {f o c : Token} {row : List Token} {list : Tree} (named : f.kind = .identifier)
    (opens : o.kind = .leftParen) (nonempty : row ≠ []) (inner : Found .arguments row list)
    (closes : c.kind = .rightParen) : Found .simple (f :: o :: (row ++ [c])) (.call (.atom f.value) list) := by
  intro stream final moved _
  obtain ⟨next, looked, same⟩ := lookahead_of_passes moved
  cases same
  rw [simpleCommand, current_bind, bind_ok looked, if_neg (by simp [opens]), if_pos opens]
  apply callOf_found named opens closes moved
  intro start stop passed stops
  have shorter := passed.length_le
  exact arguments_found nonempty inner passed stops (by omega)

def StartsValue (kind : Kind) : Prop := kind = .integer ∨ kind = .identifier ∨ kind = .operator ∨ kind = .leftParen

theorem derives_head {phrase : Phrase} {row : List Token} {tree : Tree} (derived : Derives phrase row tree)
    (expressive : phrase = .expression ∨ phrase = .sum ∨ phrase = .product ∨ phrase = .factor) :
    ∀ token ∈ row.head?, StartsValue token.kind := by
  induction derived with
  | call named | reference named | integer named | unary named | parenthesis named =>
    intro token first
    cases first
    simp [StartsValue, named]
  | value _ _ ih | oneTerm _ ih | oneFactor _ ih => exact ih (by simp)
  | add before _ _ ih | multiply before _ _ ih =>
    obtain ⟨start, others, rfl⟩ := List.exists_cons_of_ne_nil (derives_nonempty before (by simp))
    exact ih (by simp)
  | _ => simp at expressive

theorem found_returning {r : Token} {row : List Token} {tree : Tree} (returns : r.kind = .kwReturn)
    (nonempty : row ≠ []) (starts : ∀ token ∈ row.head?, StartsValue token.kind) (value : Found .expression row tree)
    (bare : ∀ token ∈ row.head?, token.kind ≠ .leftParen) : Found .simple (r :: row) (.returns tree) := by
  intro stream final moved ends
  obtain ⟨first, others, rfl⟩ := List.exists_cons_of_ne_nil nonempty
  obtain ⟨next, looked, same⟩ := lookahead_of_passes moved
  cases same
  have notBecomes : first.kind ≠ .becomes := by
    intro becomes
    rcases starts first rfl with kind | kind | kind | kind <;> simp [becomes] at kind
  obtain ⟨afterReturn, advanced, rest⟩ := advance_of_passes moved
  rw [simpleCommand, current_bind, bind_ok looked, if_neg notBecomes, if_neg (bare first rfl), (current_of_passes moved).1,
    if_pos returns, bind_ok advanced, bind_ok (expression_found value rest ends)]
  rfl

theorem typeName_of_passes {stream final : Stream} {token : Token} {passed : List Token}
    (moved : Passes stream (token :: passed) final) :
    ∃ middle, typeName stream = .ok (.typeName (.atom token.value)) middle ∧ Passes middle passed final := by
  obtain ⟨middle, taken, rest⟩ := anyValue_of_passes moved
  exact ⟨middle, bind_ok taken, rest⟩

private theorem parameter_found {i c t : Token} (named : i.kind = .identifier) (colon : c.kind = .colon)
    {stream final : Stream} (moved : Passes stream [i, c, t] final) :
    parameter stream = .ok (.parameter (.atom i.value) (.typeName (.atom t.value))) final := by
  obtain ⟨afterName, nameRan, rest⟩ := identifier_of_passes moved named
  obtain ⟨afterColon, colonRan, rest⟩ := accept_of_passes rest colon
  obtain ⟨afterType, typeRan, done⟩ := typeName_of_passes rest
  cases done
  rw [parameter, bind_ok nameRan, bind_ok colonRan, bind_ok typeRan]
  rfl

theorem found_oneParameter {i c t : Token} (named : i.kind = .identifier) (colon : c.kind = .colon) :
    Found .parameters [i, c, t] (.parameter (.atom i.value) (.typeName (.atom t.value))) := by
  intro stream final moved
  refine ⟨_, final, [], parameter_found named colon moved, .none, ?_⟩
  intro bound enough
  exact ⟨bound, by omega, rfl⟩

theorem found_moreParameters {row : List Token} {m i c t : Token} {list : Tree} (before : Found .parameters row list)
    (comma : m.kind = .comma) (named : i.kind = .identifier) (colon : c.kind = .colon) :
    Found .parameters (row ++ [m, i, c, t]) (.parameters list (.parameter (.atom i.value) (.typeName (.atom t.value)))) := by
  intro stream final moved
  obtain ⟨middle, start, rest⟩ := moved.split
  obtain ⟨first, afterFirst, others, firstRan, between, loop⟩ := before start
  refine ⟨first, afterFirst, others ++ [m, i, c, t], firstRan, between.trans rest, ?_⟩
  intro bound enough
  simp only [List.length_append, List.length_cons, List.length_nil] at enough ⊢
  obtain ⟨later, kept, ran⟩ := loop (by omega : others.length < bound)
  obtain ⟨less, rfl⟩ := succ_of_pos (by omega : 0 < later)
  obtain ⟨afterComma, advanced, last⟩ := advance_of_passes rest
  refine ⟨less, by omega, ran.trans ?_⟩
  rw [moreParametersWithin, current_bind, (current_of_passes rest).1, if_pos comma, bind_ok advanced,
    bind_ok (parameter_found named colon last)]

theorem parameters_found {row : List Token} {tree : Tree} (inner : Found .parameters row tree)
    {stream final : Stream} (moved : Passes stream row final) (closes : final.current.kind = .rightParen) :
    parameters stream = .ok tree final := by
  obtain ⟨first, middle, others, firstRan, between, loop⟩ := inner moved
  have shorter := between.length_le
  obtain ⟨later, kept, ran⟩ := loop (by omega : others.length < 4 * (middle.ahead.length + 1))
  obtain ⟨less, rfl⟩ := succ_of_pos (by omega : 0 < later)
  rw [parameters, bind_ok firstRan]
  refine ran.trans ?_
  rw [moreParametersWithin, current_bind, if_neg (by simp [closes])]
  rfl

theorem found_noDeclaration : Found .declarations [] .absent := by
  intro stream final bound moved closes enough
  obtain ⟨less, rfl⟩ := succ_of_pos (by omega : 0 < bound)
  cases moved
  rw [declarationsWithin, current_bind]
  simp only [closes]
  rfl

/-- After a declaration the parser goes on with the declarations that follow it. -/
theorem varDeclaration_then {v i c t s : Token} {row : List Token} (opens : v.kind = .kwVar) (named : i.kind = .identifier)
    (colon : c.kind = .colon) (closes : s.kind = .semicolon) {stream final : Stream}
    (moved : Passes stream (v :: i :: c :: t :: s :: row) final) :
    ∃ middle, Passes middle row final ∧ ∀ bound, declarationsWithin (bound + 1) stream =
      (declarationsWithin bound >>= fun rest =>
        pure (Tree.declarations (.varDecl (.atom i.value) (.typeName (.atom t.value))) rest)) middle := by
  obtain ⟨afterVar, advanced, passed⟩ := advance_of_passes moved
  obtain ⟨afterName, nameRan, passed⟩ := identifier_of_passes passed named
  obtain ⟨afterColon, colonRan, passed⟩ := accept_of_passes passed colon
  obtain ⟨afterType, typeRan, passed⟩ := typeName_of_passes passed
  obtain ⟨afterClose, closeRan, passed⟩ := accept_of_passes passed closes
  have declared : declaration stream = .ok (.varDecl (.atom i.value) (.typeName (.atom t.value))) afterType := by
    rw [declaration, current_bind, (current_of_passes moved).1]
    simp only [opens]
    rw [bind_ok advanced, bind_ok nameRan, bind_ok colonRan, bind_ok typeRan]
    rfl
  refine ⟨afterClose, passed, fun bound => ?_⟩
  rw [declarationsWithin, current_bind, (current_of_passes moved).1]
  simp only [opens]
  rw [bind_ok declared, bind_ok closeRan]

theorem found_varDeclaration {v i c t s : Token} {row : List Token} {rest : Tree} (opens : v.kind = .kwVar)
    (named : i.kind = .identifier) (colon : c.kind = .colon) (closes : s.kind = .semicolon)
    (more : Found .declarations row rest) :
    Found .declarations (v :: i :: c :: t :: s :: row)
      (.declarations (.varDecl (.atom i.value) (.typeName (.atom t.value))) rest) := by
  intro stream final bound moved ins enough
  simp only [List.length_cons] at enough
  obtain ⟨less, rfl⟩ := succ_of_pos (by omega : 0 < bound)
  obtain ⟨middle, passed, ran⟩ := varDeclaration_then opens named colon closes moved
  rw [ran, bind_ok (more passed ins (by omega))]
  rfl

theorem constDeclaration_then {k i e s : Token} {value row : List Token} {tree : Tree} (opens : k.kind = .kwConst)
    (named : i.kind = .identifier) (equals : e.kind = .tilde) (valued : Found .expression value tree)
    (closes : s.kind = .semicolon) {stream final : Stream} (moved : Passes stream (k :: i :: e :: (value ++ s :: row)) final) :
    ∃ middle, Passes middle row final ∧ ∀ bound, declarationsWithin (bound + 1) stream =
      (declarationsWithin bound >>= fun rest => pure (Tree.declarations (.constDecl (.atom i.value) tree) rest)) middle := by
  obtain ⟨afterConst, advanced, passed⟩ := advance_of_passes moved
  obtain ⟨afterName, nameRan, passed⟩ := identifier_of_passes passed named
  obtain ⟨afterEquals, equalsRan, passed⟩ := accept_of_passes passed equals
  obtain ⟨afterValue, valueMoved, passed⟩ := passed.split
  have ends : EndsExpression afterValue.current := by
    rw [(current_of_passes passed).1]
    exact endsExpression_of_kind closes (by decide) (by decide)
  obtain ⟨afterClose, closeRan, passed⟩ := accept_of_passes passed closes
  have declared : declaration stream = .ok (.constDecl (.atom i.value) tree) afterValue := by
    rw [declaration, current_bind, (current_of_passes moved).1]
    simp only [opens]
    rw [bind_ok advanced, bind_ok nameRan, bind_ok equalsRan, bind_ok (expression_found valued valueMoved ends)]
    rfl
  refine ⟨afterClose, passed, fun bound => ?_⟩
  rw [declarationsWithin, current_bind, (current_of_passes moved).1]
  simp only [opens]
  rw [bind_ok declared, bind_ok closeRan]

theorem found_constDeclaration {k i e s : Token} {value row : List Token} {tree rest : Tree} (opens : k.kind = .kwConst)
    (named : i.kind = .identifier) (equals : e.kind = .tilde) (valued : Found .expression value tree)
    (closes : s.kind = .semicolon) (more : Found .declarations row rest) :
    Found .declarations (k :: i :: e :: (value ++ s :: row)) (.declarations (.constDecl (.atom i.value) tree) rest) := by
  intro stream final bound moved ins enough
  simp only [List.length_cons, List.length_append] at enough
  obtain ⟨less, rfl⟩ := succ_of_pos (by omega : 0 < bound)
  obtain ⟨middle, passed, ran⟩ := constDeclaration_then opens named equals valued closes moved
  rw [ran, bind_ok (more passed ins (by omega))]
  rfl

/-- After the name and the parameters of a function come its type and its body. -/
theorem function_then {f i o c k : Token} {list row : List Token} {names : Tree} (named : i.kind = .identifier)
    (begins : o.kind = .leftParen) (listed : Found .parameters list names) (ends : c.kind = .rightParen)
    (colon : k.kind = .colon) {stream final : Stream} (moved : Passes stream (f :: i :: o :: (list ++ c :: k :: row)) final) :
    ∃ middle, Passes middle row final ∧ ∀ bound, functionWithin (bound + 1) stream = (do
      let result ← typeName
      return Tree.funcDecl (.atom i.value) names result (← singleWithin bound)) middle := by
  obtain ⟨afterFunc, advanced, passed⟩ := advance_of_passes moved
  obtain ⟨afterName, nameRan, passed⟩ := identifier_of_passes passed named
  obtain ⟨afterOpen, openRan, passed⟩ := accept_of_passes passed begins
  obtain ⟨afterList, listMoved, passed⟩ := passed.split
  have stops : afterList.current.kind = .rightParen := by
    rw [(current_of_passes passed).1]
    exact ends
  obtain ⟨afterClose, closeRan, passed⟩ := accept_of_passes passed ends
  obtain ⟨afterColon, colonRan, passed⟩ := accept_of_passes passed colon
  refine ⟨afterColon, passed, fun bound => ?_⟩
  rw [functionWithin, bind_ok advanced, bind_ok nameRan, bind_ok openRan, bind_ok (parameters_found listed listMoved stops),
    bind_ok closeRan, bind_ok colonRan]

theorem funcDeclaration_then {f i o c k t : Token} {list body row : List Token} {names command : Tree}
    (opens : f.kind = .kwFunc) (named : i.kind = .identifier) (begins : o.kind = .leftParen)
    (listed : Found .parameters list names) (ends : c.kind = .rightParen) (colon : k.kind = .colon)
    (inner : Found .single body command) {stream final : Stream}
    (moved : Passes stream (f :: i :: o :: (list ++ c :: k :: t :: (body ++ row))) final) :
    ∃ middle, Passes middle row final ∧ ∀ bound, 4 * body.length ≤ bound → declarationsWithin (bound + 2) stream =
      (declarationsWithin (bound + 1) >>= fun rest =>
        pure (Tree.declarations (.funcDecl (.atom i.value) names (.typeName (.atom t.value)) command) rest)) middle := by
  obtain ⟨afterColon, passed, ran⟩ := function_then named begins listed ends colon moved
  obtain ⟨afterType, typeRan, passed⟩ := typeName_of_passes passed
  obtain ⟨afterBody, bodyMoved, passed⟩ := passed.split
  refine ⟨afterBody, passed, fun bound enough => ?_⟩
  have declared : functionWithin (bound + 1) stream =
      .ok (.funcDecl (.atom i.value) names (.typeName (.atom t.value)) command) afterBody := by
    rw [ran, bind_ok typeRan, bind_ok (inner bodyMoved (by omega))]
    rfl
  rw [declarationsWithin, current_bind, (current_of_passes moved).1]
  simp only [opens]
  rw [bind_ok declared]

theorem found_funcDeclaration {f i o c k t : Token} {list body row : List Token} {names command rest : Tree}
    (opens : f.kind = .kwFunc) (named : i.kind = .identifier) (begins : o.kind = .leftParen)
    (listed : Found .parameters list names) (ends : c.kind = .rightParen) (colon : k.kind = .colon)
    (inner : Found .single body command) (more : Found .declarations row rest) :
    Found .declarations (f :: i :: o :: (list ++ c :: k :: t :: (body ++ row)))
      (.declarations (.funcDecl (.atom i.value) names (.typeName (.atom t.value)) command) rest) := by
  intro stream final bound moved ins enough
  simp only [List.length_cons, List.length_append] at enough
  obtain ⟨less, rfl⟩ := succ_of_pos (by omega : 0 < bound)
  obtain ⟨fewer, rfl⟩ := succ_of_pos (by omega : 0 < less)
  obtain ⟨middle, passed, ran⟩ := funcDeclaration_then opens named begins listed ends colon inner moved
  rw [ran fewer (by omega), bind_ok (more passed ins (by omega))]
  rfl

/-- After the test of a conditional come its two commands. -/
theorem conditional_then {i t : Token} {test row : List Token} {testTree : Tree} (opens : i.kind = .kwIf)
    (tested : Found .expression test testTree) (thens : t.kind = .kwThen) {stream final : Stream}
    (moved : Passes stream (i :: (test ++ t :: row)) final) :
    ∃ middle, Passes middle row final ∧ ∀ bound, blockWithin (bound + 1) stream = (do
      let yes ← singleWithin bound
      accept .kwElse
      return Tree.ifElse testTree yes (← singleWithin bound)) middle := by
  obtain ⟨afterIf, advanced, passed⟩ := advance_of_passes moved
  obtain ⟨afterTest, testMoved, passed⟩ := passed.split
  have ends : EndsExpression afterTest.current := by
    rw [(current_of_passes passed).1]
    exact endsExpression_of_kind thens (by decide) (by decide)
  obtain ⟨afterThen, thenRan, passed⟩ := accept_of_passes passed thens
  refine ⟨afterThen, passed, fun bound => ?_⟩
  rw [blockWithin, current_bind, (current_of_passes moved).1]
  simp only [opens]
  rw [bind_ok advanced, bind_ok (expression_found tested testMoved ends), bind_ok thenRan]

theorem found_conditional {i t e : Token} {test yes no : List Token} {testTree yesTree noTree : Tree}
    (opens : i.kind = .kwIf) (tested : Found .expression test testTree) (thens : t.kind = .kwThen)
    (accepted : Found .single yes yesTree) (elses : e.kind = .kwElse) (rejected : Found .single no noTree) :
    Found .block (i :: (test ++ t :: (yes ++ e :: no))) (.ifElse testTree yesTree noTree) := by
  intro stream final bound moved enough
  simp only [List.length_cons, List.length_append] at enough
  obtain ⟨less, rfl⟩ := succ_of_pos (by omega : 0 < bound)
  obtain ⟨afterThen, passed, ran⟩ := conditional_then opens tested thens moved
  obtain ⟨afterYes, yesMoved, passed⟩ := passed.split
  obtain ⟨afterElse, elseRan, noMoved⟩ := accept_of_passes passed elses
  rw [ran, bind_ok (accepted yesMoved (by omega)), bind_ok elseRan, bind_ok (rejected noMoved (by omega))]
  rfl

theorem loop_then {w d : Token} {test row : List Token} {testTree : Tree} (opens : w.kind = .kwWhile)
    (tested : Found .expression test testTree) (does : d.kind = .kwDo) {stream final : Stream}
    (moved : Passes stream (w :: (test ++ d :: row)) final) :
    ∃ middle, Passes middle row final ∧ ∀ bound, blockWithin (bound + 1) stream =
      (singleWithin bound >>= fun body => pure (Tree.whileDo testTree body)) middle := by
  obtain ⟨afterWhile, advanced, passed⟩ := advance_of_passes moved
  obtain ⟨afterTest, testMoved, passed⟩ := passed.split
  have ends : EndsExpression afterTest.current := by
    rw [(current_of_passes passed).1]
    exact endsExpression_of_kind does (by decide) (by decide)
  obtain ⟨afterDo, doRan, passed⟩ := accept_of_passes passed does
  refine ⟨afterDo, passed, fun bound => ?_⟩
  rw [blockWithin, current_bind, (current_of_passes moved).1]
  simp only [opens]
  rw [bind_ok advanced, bind_ok (expression_found tested testMoved ends), bind_ok doRan]

theorem found_loop {w d : Token} {test body : List Token} {testTree bodyTree : Tree} (opens : w.kind = .kwWhile)
    (tested : Found .expression test testTree) (does : d.kind = .kwDo) (repeated : Found .single body bodyTree) :
    Found .block (w :: (test ++ d :: body)) (.whileDo testTree bodyTree) := by
  intro stream final bound moved enough
  simp only [List.length_cons, List.length_append] at enough
  obtain ⟨less, rfl⟩ := succ_of_pos (by omega : 0 < bound)
  obtain ⟨afterDo, bodyMoved, ran⟩ := loop_then opens tested does moved
  rw [ran, bind_ok (repeated bodyMoved (by omega))]
  rfl

theorem scope_then {l i : Token} {declared row : List Token} {declaredTree : Tree} (opens : l.kind = .kwLet)
    (declares : Found .declarations declared declaredTree) (ins : i.kind = .kwIn) {stream final : Stream}
    (moved : Passes stream (l :: (declared ++ i :: row)) final) :
    ∃ middle, Passes middle row final ∧ ∀ bound, 4 * declared.length + 1 ≤ bound → blockWithin (bound + 1) stream =
      (singleWithin bound >>= fun body => pure (Tree.letIn declaredTree body)) middle := by
  obtain ⟨afterLet, advanced, passed⟩ := advance_of_passes moved
  obtain ⟨afterDeclared, declaredMoved, passed⟩ := passed.split
  have stops : afterDeclared.current.kind = .kwIn := by
    rw [(current_of_passes passed).1]
    exact ins
  obtain ⟨afterIn, inRan, passed⟩ := accept_of_passes passed ins
  refine ⟨afterIn, passed, fun bound enough => ?_⟩
  rw [blockWithin, current_bind, (current_of_passes moved).1]
  simp only [opens]
  rw [bind_ok advanced, bind_ok (declares declaredMoved stops enough), bind_ok inRan]

theorem found_scope {l i : Token} {declared body : List Token} {declaredTree bodyTree : Tree} (opens : l.kind = .kwLet)
    (declares : Found .declarations declared declaredTree) (ins : i.kind = .kwIn) (inner : Found .single body bodyTree) :
    Found .block (l :: (declared ++ i :: body)) (.letIn declaredTree bodyTree) := by
  intro stream final bound moved enough
  simp only [List.length_cons, List.length_append] at enough
  obtain ⟨less, rfl⟩ := succ_of_pos (by omega : 0 < bound)
  obtain ⟨afterIn, bodyMoved, ran⟩ := scope_then opens declares ins moved
  rw [ran less (by omega), bind_ok (inner bodyMoved (by omega))]
  rfl

theorem found_compound {b e : Token} {body : List Token} {tree : Tree} (opens : b.kind = .kwBegin)
    (inner : Found .command body tree) (closes : e.kind = .kwEnd) : Found .block (b :: (body ++ [e])) tree := by
  intro stream final bound moved enough
  simp only [List.length_cons, List.length_append, List.length_nil] at enough
  obtain ⟨less, rfl⟩ := succ_of_pos (by omega : 0 < bound)
  obtain ⟨afterBegin, advanced, passed⟩ := advance_of_passes moved
  obtain ⟨afterBody, bodyMoved, passed⟩ := passed.split
  have stops : afterBody.current.kind = .kwEnd := by
    rw [(current_of_passes passed).1]
    exact closes
  obtain ⟨afterEnd, endRan, done⟩ := accept_of_passes passed closes
  cases done
  rw [blockWithin, current_bind, (current_of_passes moved).1]
  simp only [opens]
  rw [bind_ok advanced, bind_ok (inner bodyMoved stops (by omega)), bind_ok endRan]
  rfl

theorem derives_block_head {row : List Token} {tree : Tree} (derived : Derives .block row tree) :
    ∃ first others, row = first :: others ∧ first.kind.StartsBlock := by
  cases derived with
  | conditional opens | loop opens | scope opens | compound opens => exact ⟨_, _, rfl, by simp [Kind.StartsBlock, opens]⟩

theorem found_singleBlock {row : List Token} {tree : Tree} (derived : Derives .block row tree)
    (inner : Found .block row tree) : Found .single row tree := by
  intro stream final bound moved enough
  obtain ⟨first, others, rfl, starts⟩ := derives_block_head derived
  obtain ⟨less, rfl⟩ := succ_of_pos (by simp only [List.length_cons] at enough; omega : 0 < bound)
  rw [singleWithin, current_bind, (current_of_passes moved).1, if_pos (startsBlock_iff.mpr starts)]
  exact inner moved (by omega)

theorem found_singleSimple {row : List Token} {s : Token} {tree : Tree} (nonempty : row ≠ [])
    (inner : Found .simple row tree) (other : ∀ token ∈ row.head?, ¬ token.kind.StartsBlock)
    (closes : s.kind = .semicolon) : Found .single (row ++ [s]) tree := by
  intro stream final bound moved enough
  simp only [List.length_append] at enough
  obtain ⟨first, others, rfl⟩ := List.exists_cons_of_ne_nil nonempty
  obtain ⟨less, rfl⟩ := succ_of_pos (by simp only [List.length_cons] at enough; omega : 0 < bound)
  have plain : ¬ startsBlock first.kind = true := fun starts => other first rfl (startsBlock_iff.mp starts)
  obtain ⟨afterSimple, simpleMoved, passed⟩ := moved.split
  have ends : EndsExpression afterSimple.current := by
    rw [(current_of_passes passed).1]
    exact endsExpression_of_kind closes (by decide) (by decide)
  obtain ⟨afterClose, closeRan, done⟩ := accept_of_passes passed closes
  cases done
  rw [singleWithin, current_bind, (current_of_passes moved).1, if_neg plain, bind_ok (inner simpleMoved ends),
    bind_ok closeRan]
  rfl

theorem continuesCommand_iff {kind : Kind} : continuesCommand kind = true ↔ kind ≠ .endOfText ∧ kind ≠ .kwEnd := by
  cases kind <;> simp [continuesCommand]

theorem found_lastSingle {row : List Token} {tree : Tree} (nonempty : row ≠ []) (only : Found .single row tree) :
    Found .command row tree := by
  intro stream final bound moved closes enough
  have positive := List.length_pos_iff.mpr nonempty
  obtain ⟨less, rfl⟩ := succ_of_pos (by omega : 0 < bound)
  rw [commandWithin, bind_ok (only moved (by omega)), current_bind, if_neg (by simp [continuesCommand_iff, closes])]
  rfl

theorem found_sequence {row rest : List Token} {first second : Tree} (nonempty : row ≠ []) (begins : Found .single row first)
    (others : rest ≠ []) (more : Found .command rest second) (goingOn : ∀ token ∈ rest.head?, token.kind ≠ .kwEnd) :
    Found .command (row ++ rest) (.sequence first second) := by
  intro stream final bound moved closes enough
  simp only [List.length_append] at enough
  have positive := List.length_pos_iff.mpr nonempty
  obtain ⟨next, later, rfl⟩ := List.exists_cons_of_ne_nil others
  obtain ⟨less, rfl⟩ := succ_of_pos (by omega : 0 < bound)
  obtain ⟨middle, start, passed⟩ := moved.split
  obtain ⟨same, inside⟩ := current_of_passes passed
  have goesOn : continuesCommand middle.current.kind = true := by
    rw [same]
    exact continuesCommand_iff.mpr ⟨inside, goingOn next rfl⟩
  rw [commandWithin, bind_ok (begins start (by omega)), current_bind, if_pos goesOn,
    bind_ok (more passed closes (by omega))]
  rfl

/-- Every phrase that the grammar derives is found. -/
theorem found_of_derives {phrase : Phrase} {row : List Token} {tree : Tree} (derived : Derives phrase row tree) :
    Found phrase row tree := by
  induction derived with
  | conditional opens _ thens _ elses _ tested accepted rejected =>
    exact found_conditional opens tested thens accepted elses rejected
  | loop opens _ does _ tested repeated => exact found_loop opens tested does repeated
  | scope opens _ ins _ declares inner => exact found_scope opens declares ins inner
  | compound opens _ closes inner => exact found_compound opens inner closes
  | lastSingle single only => exact found_lastSingle (derives_nonempty single (by simp)) only
  | sequence single command goingOn begins more =>
    exact found_sequence (derives_nonempty single (by simp)) begins (derives_nonempty command (by simp)) more goingOn
  | singleBlock block inner => exact found_singleBlock block inner
  | singleSimple simple other closes inner =>
    exact found_singleSimple (derives_nonempty simple (by simp)) inner other closes
  | assignment becomes _ value => exact found_assignment becomes value
  | callCommand named opens list closes inner =>
    exact found_callCommand named opens (derives_nonempty list (by simp)) inner closes
  | returning returns value bare found =>
    exact found_returning returns (derives_nonempty value (by simp)) (derives_head value (by simp)) found bare
  | noDeclaration => exact found_noDeclaration
  | varDeclaration opens named colon closes _ more => exact found_varDeclaration opens named colon closes more
  | constDeclaration opens named equals _ closes _ valued more =>
    exact found_constDeclaration opens named equals valued closes more
  | funcDeclaration opens named begins _ ends colon _ _ listed inner more =>
    exact found_funcDeclaration opens named begins listed ends colon inner more
  | oneParameter named colon => exact found_oneParameter named colon
  | moreParameters _ comma named colon before => exact found_moreParameters before comma named colon
  | oneArgument _ only => exact found_oneArgument only
  | moreArguments _ comma _ before last => exact found_moreArguments before comma last
  | call named opens list closes inner => exact found_call named opens (derives_nonempty list (by simp)) inner closes
  | value sum second inner => exact found_value (derives_nonempty sum (by simp)) inner second
  | oneTerm product only => exact found_oneTerm (derives_nonempty product (by simp)) only
  | add _ sign product before last => exact found_add before sign (derives_nonempty product (by simp)) last
  | oneFactor _ only => exact found_oneFactor only
  | multiply _ sign _ before last => exact found_multiply before sign last
  | integer written => exact found_integer written
  | reference named => exact found_reference named
  | unary sign _ operand => exact found_unary sign operand
  | parenthesis opens _ closes inner => exact found_parenthesis opens inner closes

end MiniTriangle.Parse
