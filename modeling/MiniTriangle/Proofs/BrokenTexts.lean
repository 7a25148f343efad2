import MiniTriangle.Compile
import MiniTriangle.Proofs.MissingTokens
import MiniTriangle.Proofs.Tokenisation

/-! Texts that break off. Wherever an expression or a simple command is due at the end of the text, the parser asks for
a token beyond it, so this is exactly when the tokens of a text give neither a tree nor an error at one of them. -/

namespace MiniTriangle.Parse

open Sequencing

structure AtEnd (stream : Stream) : Prop where
  ended : stream.current.kind = .endOfText
  last : stream.ahead = []

theorem AtEnd.lookahead {stream : Stream} (atEnd : AtEnd stream) : Parse.lookahead stream = .error .noToken stream := by
  obtain ⟨current, ahead, index⟩ := stream
  obtain ⟨_, last⟩ := atEnd
  cases last
  rfl

/-- The parser of a phrase lacks a token where the text ends after these tokens. The parsers of rows with operators or
commas are taken together with their loops. -/
def Breaks : Phrase → List Token → Prop
  | .factor, row => ∀ {stream final bound}, Passes stream row final → AtEnd final → 4 * row.length ≤ bound + 1 →
      factorWithin bound stream = .error .noToken final
  | .product, row => ∀ {stream final bound}, Passes stream row final → AtEnd final → 4 * row.length ≤ bound + 1 →
      (factorWithin bound >>= productWithin bound) stream = .error .noToken final
  | .sum, row => ∀ {stream final bound}, Passes stream row final → AtEnd final → 4 * row.length ≤ bound →
      (termWithin bound >>= sumWithin bound) stream = .error .noToken final
  | .expression, row => ∀ {stream final bound}, Passes stream row final → AtEnd final → 4 * row.length < bound →
      expressionWithin bound stream = .error .noToken final
  | .arguments, row => ∀ {stream final bound}, Passes stream row final → AtEnd final → 4 * row.length < bound →
      (expressionWithin bound >>= fun first => moreArgumentsWithin bound (argumentNode first)) stream =
        .error .noToken final
  | .parameters, _ => True
  | .simple, row => ∀ {stream final}, Passes stream row final → AtEnd final → simpleCommand stream = .error .noToken final
  | .declarations, row => ∀ {stream final bound}, Passes stream row final → AtEnd final → 4 * row.length ≤ bound →
      declarationsWithin bound stream = .error .noToken final
  | .block, row => ∀ {stream final bound}, Passes stream row final → AtEnd final → 4 * row.length ≤ bound →
      blockWithin bound stream = .error .noToken final
  | .single, row => ∀ {stream final bound}, Passes stream row final → AtEnd final → 4 * row.length < bound →
      singleWithin bound stream = .error .noToken final
  | .command, row => ∀ {stream final bound}, Passes stream row final → AtEnd final → 4 * row.length + 1 < bound →
      commandWithin bound stream = .error .noToken final

theorem breaks_operand {o : Token} {row : List Token} (sign : o.kind = .operator) (due : Breaks .factor row) :
    Breaks .factor (o :: row) := by
  intro stream final bound moved atEnd enough
  simp only [List.length_cons] at enough
  obtain ⟨less, rfl⟩ := Nat.exists_eq_add_one.mpr (by omega : 0 < bound)
  obtain ⟨middle, advanced, rest⟩ := advance_of_passes moved
  rw [factorWithin, current_bind, (current_of_passes moved).1]
  simp only [sign]
  rw [bind_ok advanced, bind_error (due rest atEnd (by omega))]

theorem breaks_parenthesis {o : Token} {row : List Token} (opens : o.kind = .leftParen) (due : Breaks .expression row) :
    Breaks .factor (o :: row) := by
  intro stream final bound moved atEnd enough
  simp only [List.length_cons] at enough
  obtain ⟨less, rfl⟩ := Nat.exists_eq_add_one.mpr (by omega : 0 < bound)
  obtain ⟨middle, advanced, rest⟩ := advance_of_passes moved
  rw [factorWithin, current_bind, (current_of_passes moved).1]
  simp only [opens]
  rw [bind_ok advanced, bind_error (due rest atEnd (by omega))]

theorem breaks_firstFactor {row : List Token} (due : Breaks .factor row) : Breaks .product row := by
  intro stream final bound moved atEnd enough
  apply bind_error
  exact due moved atEnd enough

theorem breaks_factor {row next : List Token} {o : Token} {left : Tree} (before : Found .product row left)
    (sign : o.IsOperator ["*", "/", "\\"]) (due : Breaks .factor next) : Breaks .product (row ++ o :: next) := by
  intro stream final bound moved atEnd enough
  simp only [List.length_append, List.length_cons] at enough
  obtain ⟨middle, first, rest⟩ := moved.split
  obtain ⟨later, kept, ran⟩ := before first (by omega : 4 * row.length ≤ bound + 2)
  obtain ⟨less, rfl⟩ := Nat.exists_eq_add_one.mpr (by omega : 0 < later)
  obtain ⟨afterSign, advanced, operand⟩ := advance_of_passes rest
  have goesOn : isMultiplicative o = true := isOneOf_iff.mpr sign
  rw [ran, productWithin, current_bind, (current_of_passes rest).1, if_pos goesOn, bind_ok advanced,
    bind_error (due operand atEnd (by omega))]

/-- A sum, a product or a factor has a first token before the text breaks off. -/
theorem awaits_operation_head {phrase : Phrase} {row : List Token} (due : Awaits phrase row)
    (operation : phrase = .sum ∨ phrase = .product ∨ phrase = .factor) :
    ∃ first others, row = first :: others ∧ StartsValue first.kind := by
  induction due with
  | operand sign => exact ⟨_, _, rfl, by simp [StartsValue, sign]⟩
  | parenthesis opens => exact ⟨_, _, rfl, by simp [StartsValue, opens]⟩
  | firstTerm _ ih | firstFactor _ ih => exact ih (by simp)
  | term before | factor before =>
    obtain ⟨start, others, rfl⟩ := List.exists_cons_of_ne_nil (derives_nonempty before (by simp))
    exact ⟨start, _, rfl, derives_head before (by simp) start rfl⟩
  | _ => simp at operation

theorem breaks_firstTerm {row : List Token} (nonempty : row ≠ []) (due : Breaks .product row) : Breaks .sum row := by
  intro stream final bound moved atEnd enough
  have positive := List.length_pos_iff.mpr nonempty
  obtain ⟨less, rfl⟩ := Nat.exists_eq_add_one.mpr (by omega : 0 < bound)
  apply bind_error
  rw [termWithin]
  exact due moved atEnd enough

theorem breaks_term {row next : List Token} {o : Token} {left : Tree} (before : Found .sum row left)
    (sign : o.IsOperator ["+", "-", "<", ">", "="]) (due : Breaks .product next) : Breaks .sum (row ++ o :: next) := by
  intro stream final bound moved atEnd enough
  simp only [List.length_append, List.length_cons] at enough
  obtain ⟨middle, first, rest⟩ := moved.split
  have stops : isMultiplicative middle.current = false := by
    rw [(current_of_passes rest).1]
    exact isAdditive_not_isMultiplicative sign
  obtain ⟨later, kept, ran⟩ := before first stops (by omega : 4 * row.length ≤ bound + 1)
  obtain ⟨less, rfl⟩ := Nat.exists_eq_add_one.mpr (by omega : 0 < later)
  obtain ⟨fewer, rfl⟩ := Nat.exists_eq_add_one.mpr (by omega : 0 < less)
  obtain ⟨afterSign, advanced, operand⟩ := advance_of_passes rest
  have goesOn : isAdditive o = true := isOneOf_iff.mpr sign
  rw [ran, sumWithin, current_bind, (current_of_passes rest).1, if_pos goesOn, bind_ok advanced, termWithin]
  apply bind_error
  exact due operand atEnd (by omega)

theorem breaks_value {row : List Token} (nonempty : row ≠ []) (due : Breaks .sum row)
    (second : ∀ token ∈ row[1]?, token.kind ≠ .leftParen) : Breaks .expression row := by
  intro stream final bound moved atEnd enough
  obtain ⟨first, others, rfl⟩ := List.exists_cons_of_ne_nil nonempty
  obtain ⟨less, rfl⟩ := Nat.exists_eq_add_one.mpr (by omega : 0 < bound)
  obtain ⟨next, looked, same⟩ := lookahead_of_passes moved
  have plain : next.kind ≠ .leftParen := by
    cases others with
    | nil =>
      cases same
      simp [atEnd.ended]
    | cons other rest =>
      cases same
      exact second next rfl
  rw [expressionWithin, bind_ok looked, if_neg plain]
  exact due moved atEnd (by omega)

theorem callOf_breaks {f o : Token} {row : List Token} {list : Parse Tree} {stream final : Stream}
    (named : f.kind = .identifier) (opens : o.kind = .leftParen) (moved : Passes stream (f :: o :: row) final)
    (due : ∀ {middle}, Passes middle row final → list middle = .error .noToken final) :
    callOf list stream = .error .noToken final := by
  obtain ⟨afterName, nameRan, rest⟩ := identifier_of_passes moved named
  obtain ⟨afterOpen, openRan, rest⟩ := accept_of_passes rest opens
  rw [callOf, bind_ok nameRan, bind_ok openRan, bind_error (due rest)]

theorem breaks_call {f o : Token} {row : List Token} (named : f.kind = .identifier) (opens : o.kind = .leftParen)
    (due : Breaks .arguments row) : Breaks .expression (f :: o :: row) := by
  intro stream final bound moved atEnd enough
  simp only [List.length_cons] at enough
  obtain ⟨less, rfl⟩ := Nat.exists_eq_add_one.mpr (by omega : 0 < bound)
  obtain ⟨fewer, rfl⟩ := Nat.exists_eq_add_one.mpr (by omega : 0 < less)
  obtain ⟨next, looked, same⟩ := lookahead_of_passes moved
  cases same
  rw [expressionWithin, bind_ok looked, if_pos opens]
  apply callOf_breaks named opens moved
  intro middle passed
  rw [argumentsWithin]
  exact due passed atEnd (by omega)

theorem breaks_expression : Breaks .expression [] := by
  intro stream final bound moved atEnd enough
  cases moved
  obtain ⟨less, rfl⟩ := Nat.exists_eq_add_one.mpr (by omega : 0 < bound)
  rw [expressionWithin]
  exact bind_error atEnd.lookahead

theorem breaks_firstArgument {row : List Token} (due : Breaks .expression row) : Breaks .arguments row := by
  intro stream final bound moved atEnd enough
  apply bind_error
  exact due moved atEnd enough

theorem breaks_argument {row next : List Token} {m : Token} {list : Tree} (before : Found .arguments row list)
    (comma : m.kind = .comma) (due : Breaks .expression next) : Breaks .arguments (row ++ m :: next) := by
  intro stream final bound moved atEnd enough
  simp only [List.length_append, List.length_cons] at enough
  obtain ⟨middle, first, rest⟩ := moved.split
  have stops : EndsExpression middle.current := by
    rw [(current_of_passes rest).1]
    exact endsExpression_of_kind comma (by simp) (by simp)
  obtain ⟨later, kept, ran⟩ := before first stops (by omega : 4 * row.length ≤ bound)
  obtain ⟨less, rfl⟩ := Nat.exists_eq_add_one.mpr (by omega : 0 < later)
  obtain ⟨afterComma, advanced, argument⟩ := advance_of_passes rest
  rw [ran, moreArgumentsWithin, current_bind, (current_of_passes rest).1, if_pos comma, bind_ok advanced,
    bind_error (due argument atEnd (by omega))]

theorem expression_breaks {row : List Token} (due : Breaks .expression row) {stream final : Stream}
    (moved : Passes stream row final) (atEnd : AtEnd final) : expression stream = .error .noToken final := by
  have shorter := moved.length_le
  exact due moved atEnd (by omega)

theorem breaks_simple : Breaks .simple [] := by
  intro stream final moved atEnd
  cases moved
  rw [simpleCommand, current_bind]
  exact bind_error atEnd.lookahead

theorem breaks_assigned {t b : Token} {row : List Token} (becomes : b.kind = .becomes) (due : Breaks .expression row) :
    Breaks .simple (t :: b :: row) := by
  intro stream final moved atEnd
  obtain ⟨next, looked, same⟩ := lookahead_of_passes moved
  cases same
  obtain ⟨afterName, taken, rest⟩ := anyValue_of_passes moved
  have nameRan : name stream = .ok (.name (.atom t.value)) afterName := bind_ok taken
  obtain ⟨afterBecomes, accepted, rest⟩ := accept_of_passes rest becomes
  rw [simpleCommand, current_bind, bind_ok looked, if_pos becomes, bind_ok nameRan, bind_ok accepted,
    bind_error (expression_breaks due rest atEnd)]

theorem breaks_callCommand {f o : Token} {row : List Token} (named : f.kind = .identifier) (opens : o.kind = .leftParen)
    (due : Breaks .arguments row) : Breaks .simple (f :: o :: row) := by
  intro stream final moved atEnd
  obtain ⟨next, looked, same⟩ := lookahead_of_passes moved
  cases same
  rw [simpleCommand, current_bind, bind_ok looked, if_neg (by simp [opens]), if_pos opens]
  apply callOf_breaks named opens moved
  intro middle passed
  have shorter := passed.length_le
  have run : arguments middle = argumentsWithin (4 * middle.ahead.length + 3 + 1) middle := rfl
  rw [run, argumentsWithin]
  exact due passed atEnd (by omega)

theorem breaks_returned {r : Token} {row : List Token} (returns : r.kind = .kwReturn) (due : Breaks .expression row)
    (starts : ∀ token ∈ row.head?, StartsValue token.kind) (bare : ∀ token ∈ row.head?, token.kind ≠ .leftParen) :
    Breaks .simple (r :: row) := by
  intro stream final moved atEnd
  obtain ⟨next, looked, same⟩ := lookahead_of_passes moved
  have other : next.kind ≠ .becomes ∧ next.kind ≠ .leftParen := by
    cases row with
    | nil =>
      cases same
      simp [atEnd.ended]
    | cons first others =>
      cases same
      refine ⟨fun becomes => ?_, bare next rfl⟩
      rcases starts next rfl with kind | kind | kind | kind <;> simp [becomes] at kind
  obtain ⟨afterReturn, advanced, rest⟩ := advance_of_passes moved
  rw [simpleCommand, current_bind, bind_ok looked, if_neg other.1, if_neg other.2, (current_of_passes moved).1,
    if_pos returns, bind_ok advanced, bind_error (expression_breaks due rest atEnd)]

theorem awaits_expression_head {row : List Token} (due : Awaits .expression row) :
    ∀ token ∈ row.head?, StartsValue token.kind := by
  intro token found
  cases due with
  | expression => cases found
  | call named =>
    cases found
    simp [StartsValue, named]
  | value due =>
    obtain ⟨first, others, rfl, starts⟩ := awaits_operation_head due (by simp)
    cases found
    exact starts

theorem breaks_constant {k i e : Token} {row : List Token} (opens : k.kind = .kwConst) (named : i.kind = .identifier)
    (equals : e.kind = .tilde) (due : Breaks .expression row) : Breaks .declarations (k :: i :: e :: row) := by
  intro stream final bound moved atEnd enough
  simp only [List.length_cons] at enough
  obtain ⟨less, rfl⟩ := Nat.exists_eq_add_one.mpr (by omega : 0 < bound)
  obtain ⟨afterConst, advanced, passed⟩ := advance_of_passes moved
  obtain ⟨afterName, nameRan, passed⟩ := identifier_of_passes passed named
  obtain ⟨afterEquals, equalsRan, passed⟩ := accept_of_passes passed equals
  have declared : declaration stream = .error .noToken final := by
    rw [declaration, current_bind, (current_of_passes moved).1]
    simp only [opens]
    rw [bind_ok advanced, bind_ok nameRan, bind_ok equalsRan, bind_error (expression_breaks due passed atEnd)]
  rw [declarationsWithin, current_bind, (current_of_passes moved).1]
  simp only [opens]
  exact bind_error declared

theorem breaks_singleSimple {row : List Token} (due : Breaks .simple row)
    (other : ∀ token ∈ row.head?, ¬ token.kind.StartsBlock) : Breaks .single row := by
  intro stream final bound moved atEnd enough
  obtain ⟨less, rfl⟩ := Nat.exists_eq_add_one.mpr (by omega : 0 < bound)
  have plain : ¬ startsBlock stream.current.kind = true := by
    cases row with
    | nil =>
      cases moved
      simp [atEnd.ended, startsBlock]
    | cons first others =>
      rw [(current_of_passes moved).1, startsBlock_iff]
      exact other first rfl
  rw [singleWithin, current_bind, if_neg plain, bind_error (due moved atEnd)]

/-- At the end of the text no token is passed for the type, and the body is due. -/
theorem breaks_untyped {f i o c k : Token} {list : List Token} {names : Tree} (opens : f.kind = .kwFunc)
    (named : i.kind = .identifier) (begins : o.kind = .leftParen) (listed : Found .parameters list names)
    (ends : c.kind = .rightParen) (colon : k.kind = .colon) :
    Breaks .declarations (f :: i :: o :: (list ++ [c, k])) := by
  intro stream final bound moved atEnd enough
  simp only [List.length_cons, List.length_append, List.length_nil] at enough
  obtain ⟨less, rfl⟩ := Nat.exists_eq_add_one.mpr (by omega : 0 < bound)
  obtain ⟨fewer, rfl⟩ := Nat.exists_eq_add_one.mpr (by omega : 0 < less)
  obtain ⟨middle, passed, ran⟩ := function_then named begins listed ends colon moved
  cases passed
  have stays : advance final = .ok () final := by
    rw [advance, get_bind, if_pos atEnd.ended]
    rfl
  have taken : anyValue final = .ok final.current.value final := bind_ok stays
  have typeRan : typeName final = .ok (.typeName (.atom final.current.value)) final := bind_ok taken
  have bodyDue : singleWithin fewer final = .error .noToken final := by
    apply breaks_singleSimple breaks_simple (by simp) .none atEnd
    simp only [List.length_nil]
    omega
  rw [declarationsWithin, current_bind, (current_of_passes moved).1]
  simp only [opens]
  apply bind_error
  rw [ran, bind_ok typeRan, bind_error bodyDue]

theorem breaks_body {f i o c k t : Token} {list row : List Token} {names : Tree} (opens : f.kind = .kwFunc)
    (named : i.kind = .identifier) (begins : o.kind = .leftParen) (listed : Found .parameters list names)
    (ends : c.kind = .rightParen) (colon : k.kind = .colon) (due : Breaks .single row) :
    Breaks .declarations (f :: i :: o :: (list ++ c :: k :: t :: row)) := by
  intro stream final bound moved atEnd enough
  simp only [List.length_cons, List.length_append] at enough
  obtain ⟨less, rfl⟩ := Nat.exists_eq_add_one.mpr (by omega : 0 < bound)
  obtain ⟨fewer, rfl⟩ := Nat.exists_eq_add_one.mpr (by omega : 0 < less)
  obtain ⟨middle, passed, ran⟩ := function_then named begins listed ends colon moved
  obtain ⟨afterType, typeRan, passed⟩ := typeName_of_passes passed
  rw [declarationsWithin, current_bind, (current_of_passes moved).1]
  simp only [opens]
  apply bind_error
  rw [ran, bind_ok typeRan, bind_error (due passed atEnd (by omega))]

/-- Declarations that are complete are passed one after the other. -/
theorem breaks_declarations {phrase : Phrase} {row rest : List Token} {tree : Tree} (declares : Derives phrase row tree)
    (same : phrase = .declarations) (due : Breaks .declarations rest) : Breaks .declarations (row ++ rest) := by
  induction declares with
  | noDeclaration => exact due
  | varDeclaration opens named colon closes _ ih =>
    intro stream final bound moved atEnd enough
    simp only [List.cons_append, List.length_cons] at moved enough
    obtain ⟨less, rfl⟩ := Nat.exists_eq_add_one.mpr (by omega : 0 < bound)
    obtain ⟨middle, passed, ran⟩ := varDeclaration_then opens named colon closes moved
    rw [ran, bind_error (ih rfl passed atEnd (by omega))]
  | constDeclaration opens named equals valued closes _ _ ih =>
    intro stream final bound moved atEnd enough
    simp only [List.cons_append, List.append_assoc, List.length_cons, List.length_append] at moved enough
    obtain ⟨less, rfl⟩ := Nat.exists_eq_add_one.mpr (by omega : 0 < bound)
    obtain ⟨middle, passed, ran⟩ := constDeclaration_then opens named equals (found_of_derives valued) closes moved
    rw [ran, bind_error (ih rfl passed atEnd (by simp only [List.length_append]; omega))]
  | funcDeclaration opens named begins listed ends colon inner _ _ _ ih =>
    intro stream final bound moved atEnd enough
    simp only [List.cons_append, List.append_assoc, List.length_cons, List.length_append] at moved enough
    obtain ⟨less, rfl⟩ := Nat.exists_eq_add_one.mpr (by omega : 0 < bound)
    obtain ⟨fewer, rfl⟩ := Nat.exists_eq_add_one.mpr (by omega : 0 < less)
    obtain ⟨middle, passed, ran⟩ :=
      funcDeclaration_then opens named begins (found_of_derives listed) ends colon (found_of_derives inner) moved
    rw [ran fewer (by omega), bind_error (ih rfl passed atEnd (by simp only [List.length_append]; omega))]
  | _ => cases same

theorem breaks_test {i : Token} {row : List Token} (opens : i.kind = .kwIf ∨ i.kind = .kwWhile)
    (due : Breaks .expression row) : Breaks .block (i :: row) := by
  intro stream final bound moved atEnd enough
  simp only [List.length_cons] at enough
  obtain ⟨less, rfl⟩ := Nat.exists_eq_add_one.mpr (by omega : 0 < bound)
  obtain ⟨afterWord, advanced, passed⟩ := advance_of_passes moved
  rw [blockWithin, current_bind, (current_of_passes moved).1]
  rcases opens with opens | opens <;> simp only [opens]
  all_goals rw [bind_ok advanced, bind_error (expression_breaks due passed atEnd)]

theorem breaks_accepted {i t : Token} {test row : List Token} {testTree : Tree} (opens : i.kind = .kwIf)
    (tested : Found .expression test testTree) (thens : t.kind = .kwThen) (due : Breaks .single row) :
    Breaks .block (i :: (test ++ t :: row)) := by
  intro stream final bound moved atEnd enough
  simp only [List.length_cons, List.length_append] at enough
  obtain ⟨less, rfl⟩ := Nat.exists_eq_add_one.mpr (by omega : 0 < bound)
  obtain ⟨afterThen, passed, ran⟩ := conditional_then opens tested thens moved
  rw [ran, bind_error (due passed atEnd (by omega))]

theorem breaks_rejected {i t e : Token} {test yes row : List Token} {testTree yesTree : Tree} (opens : i.kind = .kwIf)
    (tested : Found .expression test testTree) (thens : t.kind = .kwThen) (accepted : Found .single yes yesTree)
    (elses : e.kind = .kwElse) (due : Breaks .single row) : Breaks .block (i :: (test ++ t :: (yes ++ e :: row))) := by
  intro stream final bound moved atEnd enough
  simp only [List.length_cons, List.length_append] at enough
  obtain ⟨less, rfl⟩ := Nat.exists_eq_add_one.mpr (by omega : 0 < bound)
  obtain ⟨afterThen, passed, ran⟩ := conditional_then opens tested thens moved
  obtain ⟨afterYes, yesMoved, passed⟩ := passed.split
  obtain ⟨afterElse, elseRan, passed⟩ := accept_of_passes passed elses
  rw [ran, bind_ok (accepted yesMoved (by omega)), bind_ok elseRan, bind_error (due passed atEnd (by omega))]

theorem breaks_repeated {w d : Token} {test row : List Token} {testTree : Tree} (opens : w.kind = .kwWhile)
    (tested : Found .expression test testTree) (does : d.kind = .kwDo) (due : Breaks .single row) :
    Breaks .block (w :: (test ++ d :: row)) := by
  intro stream final bound moved atEnd enough
  simp only [List.length_cons, List.length_append] at enough
  obtain ⟨less, rfl⟩ := Nat.exists_eq_add_one.mpr (by omega : 0 < bound)
  obtain ⟨afterDo, passed, ran⟩ := loop_then opens tested does moved
  rw [ran, bind_error (due passed atEnd (by omega))]

theorem breaks_declared {l : Token} {row : List Token} (opens : l.kind = .kwLet) (due : Breaks .declarations row) :
    Breaks .block (l :: row) := by
  intro stream final bound moved atEnd enough
  simp only [List.length_cons] at enough
  obtain ⟨less, rfl⟩ := Nat.exists_eq_add_one.mpr (by omega : 0 < bound)
  obtain ⟨afterLet, advanced, passed⟩ := advance_of_passes moved
  rw [blockWithin, current_bind, (current_of_passes moved).1]
  simp only [opens]
  rw [bind_ok advanced, bind_error (due passed atEnd (by omega))]

theorem breaks_scope {l i : Token} {declared row : List Token} {declaredTree : Tree} (opens : l.kind = .kwLet)
    (declares : Found .declarations declared declaredTree) (ins : i.kind = .kwIn) (due : Breaks .single row) :
    Breaks .block (l :: (declared ++ i :: row)) := by
  intro stream final bound moved atEnd enough
  simp only [List.length_cons, List.length_append] at enough
  obtain ⟨less, rfl⟩ := Nat.exists_eq_add_one.mpr (by omega : 0 < bound)
  obtain ⟨afterIn, passed, ran⟩ := scope_then opens declares ins moved
  rw [ran less (by omega), bind_error (due passed atEnd (by omega))]

theorem breaks_compound {b : Token} {row : List Token} (opens : b.kind = .kwBegin) (due : Breaks .command row) :
    Breaks .block (b :: row) := by
  intro stream final bound moved atEnd enough
  simp only [List.length_cons] at enough
  obtain ⟨less, rfl⟩ := Nat.exists_eq_add_one.mpr (by omega : 0 < bound)
  obtain ⟨afterBegin, advanced, passed⟩ := advance_of_passes moved
  rw [blockWithin, current_bind, (current_of_passes moved).1]
  simp only [opens]
  rw [bind_ok advanced, bind_error (due passed atEnd (by omega))]

theorem awaits_block_head {row : List Token} (due : Awaits .block row) :
    ∃ first others, row = first :: others ∧ first.kind.StartsBlock := by
  cases due with
  | test opens | accepted opens | rejected opens | loopTest opens | repeated opens | declared opens | scope opens
  | compound opens => exact ⟨_, _, rfl, by simp [Kind.StartsBlock, opens]⟩

theorem breaks_singleBlock {row : List Token} (starts : ∃ first others, row = first :: others ∧ first.kind.StartsBlock)
    (due : Breaks .block row) : Breaks .single row := by
  intro stream final bound moved atEnd enough
  obtain ⟨first, others, rfl, starts⟩ := starts
  obtain ⟨less, rfl⟩ := Nat.exists_eq_add_one.mpr (by omega : 0 < bound)
  rw [singleWithin, current_bind, (current_of_passes moved).1, if_pos (startsBlock_iff.mpr starts)]
  exact due moved atEnd (by omega)

theorem breaks_firstSingle {row : List Token} (due : Breaks .single row) : Breaks .command row := by
  intro stream final bound moved atEnd enough
  obtain ⟨less, rfl⟩ := Nat.exists_eq_add_one.mpr (by omega : 0 < bound)
  rw [commandWithin, bind_error (due moved atEnd (by omega))]

theorem breaks_sequence {row rest : List Token} {first : Tree} (nonempty : row ≠ []) (begins : Found .single row first)
    (due : Breaks .command rest) (goingOn : ∃ token ∈ rest.head?, token.kind ≠ .kwEnd) :
    Breaks .command (row ++ rest) := by
  intro stream final bound moved atEnd enough
  have positive := List.length_pos_iff.mpr nonempty
  simp only [List.length_append] at enough
  obtain ⟨less, rfl⟩ := Nat.exists_eq_add_one.mpr (by omega : 0 < bound)
  obtain ⟨middle, start, passed⟩ := moved.split
  obtain ⟨next, found, other⟩ := goingOn
  obtain ⟨later, rfl⟩ := List.head?_eq_some_iff.mp found
  obtain ⟨same, inside⟩ := current_of_passes passed
  have goesOn : continuesCommand middle.current.kind = true := by
    rw [same]
    exact continuesCommand_iff.mpr ⟨inside, other⟩
  rw [commandWithin, bind_ok (begins start (by omega)), current_bind, if_pos goesOn,
    bind_error (due passed atEnd (by omega))]

/-- Wherever an expression or a simple command is due at the end of the text, the parser lacks a token. -/
theorem breaks_of_awaits {phrase : Phrase} {row : List Token} (due : Awaits phrase row) : Breaks phrase row := by
  induction due with
  | expression => exact breaks_expression
  | simple => exact breaks_simple
  | test opens _ ih => exact breaks_test (.inl opens) ih
  | accepted opens tested thens _ ih => exact breaks_accepted opens (found_of_derives tested) thens ih
  | rejected opens tested thens accepted elses _ ih =>
    exact breaks_rejected opens (found_of_derives tested) thens (found_of_derives accepted) elses ih
  | loopTest opens _ ih => exact breaks_test (.inr opens) ih
  | repeated opens tested does _ ih => exact breaks_repeated opens (found_of_derives tested) does ih
  | declared opens _ ih => exact breaks_declared opens ih
  | scope opens declares ins _ ih => exact breaks_scope opens (found_of_derives declares) ins ih
  | compound opens _ ih => exact breaks_compound opens ih
  | firstSingle _ ih => exact breaks_firstSingle ih
  | sequence begins _ goingOn ih =>
    exact breaks_sequence (derives_nonempty begins (by simp)) (found_of_derives begins) ih goingOn
  | singleBlock due ih => exact breaks_singleBlock (awaits_block_head due) ih
  | singleSimple _ other ih => exact breaks_singleSimple ih other
  | assigned becomes _ ih => exact breaks_assigned becomes ih
  | callCommand named opens _ ih => exact breaks_callCommand named opens ih
  | returned returns due bare ih => exact breaks_returned returns ih (awaits_expression_head due) bare
  | constant opens named equals _ ih => exact breaks_constant opens named equals ih
  | untyped opens named begins listed ends colon =>
    exact breaks_untyped opens named begins (found_of_derives listed) ends colon
  | body opens named begins listed ends colon _ ih =>
    exact breaks_body opens named begins (found_of_derives listed) ends colon ih
  | declarations declares _ ih => exact breaks_declarations declares rfl ih
  | firstArgument _ ih => exact breaks_firstArgument ih
  | argument before comma _ ih => exact breaks_argument (found_of_derives before) comma ih
  | call named opens _ ih => exact breaks_call named opens ih
  | value due second ih =>
    obtain ⟨first, others, rfl, _⟩ := awaits_operation_head due (by simp)
    exact breaks_value (by simp) ih second
  | firstTerm due ih =>
    obtain ⟨first, others, rfl, _⟩ := awaits_operation_head due (by simp)
    exact breaks_firstTerm (by simp) ih
  | term before sign _ ih => exact breaks_term (found_of_derives before) sign ih
  | firstFactor _ ih => exact breaks_firstFactor ih
  | factor before sign _ ih => exact breaks_factor (found_of_derives before) sign ih
  | operand sign _ ih => exact breaks_operand sign ih
  | parenthesis opens _ ih => exact breaks_parenthesis opens ih

theorem program_breaks {stream final : Stream} {row : List Token} (due : Awaits .block row)
    (moved : Passes stream row final) (atEnd : AtEnd final) : program stream = .error .noToken final := by
  have shorter := moved.length_le
  have failed : block stream = .error .noToken final := breaks_of_awaits due moved atEnd (by omega)
  exact bind_error failed

theorem atEnd_of_closed {stream : Stream} (closed : Closed stream) (ended : stream.current.kind = .endOfText) :
    AtEnd stream := by
  refine ⟨ended, ?_⟩
  cases ahead : stream.ahead with
  | nil => rfl
  | cons next rest =>
    have inside := closed.inside (by rw [ahead]; rfl : stream.ahead.head? = some next)
    exact absurd ended inside

theorem closed_of_passes {stream final : Stream} {row : List Token} (moved : Passes stream row final) (atEnd : AtEnd final) :
    Closed stream := by
  refine ⟨row, final.current, ?_, atEnd.ended, moved.tokens_inside⟩
  rw [moved.row.1, atEnd.last]

theorem program_lacks_iff {stream final : Stream} {row : List Token} (moved : Passes stream row final) (atEnd : AtEnd final) :
    (∃ stop, program stream = .error .noToken stop) ↔ Awaits .block row := by
  constructor
  · intro ⟨stop, failed⟩
    have closed := closed_of_passes moved atEnd
    obtain ⟨_, _, _, blames⟩ := program_stops stream closed failed (by simp)
    have ended : stop.current.kind = .endOfText := by
      rcases blames with other | ⟨_, ended⟩
      · cases other
      · exact ended
    obtain ⟨passed, onward, due⟩ := program_lacks stream failed ended
    -- The text ends once, so the parser has stopped where the tokens of the text are all passed.
    have stopped := atEnd_of_closed (closed.later onward) ended
    have same : passed ++ [stop.current] = row ++ [final.current] :=
      calc passed ++ [stop.current] = stream.current :: stream.ahead := by rw [onward.row.1, stopped.last]
        _ = row ++ [final.current] := by rw [moved.row.1, atEnd.last]
    rw [← (List.append_inj' same rfl).1]
    exact due
  · intro due
    exact ⟨final, program_breaks due moved atEnd⟩

end MiniTriangle.Parse

namespace MiniTriangle

open Parse

/-- On the tokens of a text the parser lacks a token exactly if the text breaks off where an expression or a simple
command is due. In every other text it answers a tree, or it fails at one of the tokens. -/
theorem lacks_token_iff_awaits {text : String} {tokens : List Token} (scanned : Token.ofText text = .ok tokens) :
    (parseProgram tokens = .error .noToken ↔ Awaits .block tokens.dropLast) ∧
      (¬ Awaits .block tokens.dropLast →
        (∃ tree, parseProgram tokens = .ok tree) ∨ ∃ token ∈ tokens, parseProgram tokens = .error (.unexpected token)) := by
  obtain ⟨body, rfl, inside, _⟩ := Scan.ofText_sound scanned
  obtain ⟨first, rest, split⟩ := List.exists_cons_of_ne_nil (List.concat_ne_nil (Token.plain .endOfText text.length) body)
  have moved := Passes.of_row inside (.plain .endOfText text.length) [] 0 split.symm
  have atEnd : AtEnd ⟨.plain .endOfText text.length, [], 0 + body.length⟩ := ⟨rfl, rfl⟩
  rw [List.dropLast_concat, split, ← program_lacks_iff moved atEnd]
  cases ran : program ⟨first, rest, 0⟩ with
  | ok tree stop =>
    have answered : parseProgram (first :: rest) = .ok tree := by
      simp only [parseProgram, Rule.parseTokens, Stream.ofTokens?, Rule.parse, ran]
    rw [answered]
    simp
  | error cause stop =>
    have answered : parseProgram (first :: rest) = .error cause := by
      simp only [parseProgram, Rule.parseTokens, Stream.ofTokens?, Rule.parse, ran]
    rw [answered]
    refine ⟨by simp, fun other => .inr ?_⟩
    have bounded : cause ≠ .endless := by
      rintro rfl
      exact never_endless .program _ _ ran
    obtain ⟨row, passed, _, same | ⟨rfl, _⟩⟩ := program_stops _ (closed_of_passes moved atEnd) ran bounded
    · refine ⟨stop.current, ?_, by rw [same]⟩
      have position : first :: rest = row ++ stop.current :: stop.ahead := passed.row.1
      simp [position]
    · exact absurd ⟨stop, rfl⟩ other

def valueDue : String := "let var x: Integer; in x :="

def valueDueTokens : List Token :=
  [.plain .kwLet 0, .plain .kwVar 4, ⟨.identifier, .text "x", 8⟩, .plain .colon 9, ⟨.identifier, .text "Integer", 11⟩,
   .plain .semicolon 18, .plain .kwIn 20, ⟨.identifier, .text "x", 23⟩, .plain .becomes 25, .plain .endOfText 27]

theorem valueDue_lacks_token : Token.ofText valueDue = .ok valueDueTokens ∧ Awaits .block valueDueTokens.dropLast ∧
    parseProgram valueDueTokens = .error .noToken := by
  have scanned : Token.ofText valueDue = .ok valueDueTokens := by decide +kernel
  have awaits : Awaits .block valueDueTokens.dropLast := by
    have declares : Derives .declarations ((valueDueTokens.drop 1).take 5) _ :=
      .varDeclaration rfl rfl rfl rfl .noDeclaration
    exact .scope rfl declares rfl (.singleSimple (.assigned rfl .expression) (by simp [Kind.StartsBlock]))
  exact ⟨scanned, awaits, (lacks_token_iff_awaits scanned).1.mpr awaits⟩

end MiniTriangle
