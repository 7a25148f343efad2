import MiniTriangle.Proofs.ViablePrefixes

/-! Where the parser asks for a token beyond the end of the text. It looks at the token after the current one where an
expression or a simple command starts, so it lacks a token if the text breaks off just there. -/

namespace MiniTriangle

/-- The start of a phrase that breaks off where an expression or a simple command is due. A function without a type breaks
off before its body. -/
inductive Awaits : Phrase → List Token → Prop where
  | expression : Awaits .expression []
  | simple : Awaits .simple []
  | test {i : Token} {row : List Token} (opens : i.kind = .kwIf) (due : Awaits .expression row) : Awaits .block (i :: row)
  | accepted {i t : Token} {test row : List Token} {testTree : Tree} (opens : i.kind = .kwIf)
      (tested : Derives .expression test testTree) (thens : t.kind = .kwThen) (due : Awaits .single row) :
      Awaits .block (i :: (test ++ t :: row))
  | rejected {i t e : Token} {test yes row : List Token} {testTree yesTree : Tree} (opens : i.kind = .kwIf)
      (tested : Derives .expression test testTree) (thens : t.kind = .kwThen) (accepted : Derives .single yes yesTree)
      (elses : e.kind = .kwElse) (due : Awaits .single row) : Awaits .block (i :: (test ++ t :: (yes ++ e :: row)))
  | loopTest {w : Token} {row : List Token} (opens : w.kind = .kwWhile) (due : Awaits .expression row) :
      Awaits .block (w :: row)
  | repeated {w d : Token} {test row : List Token} {testTree : Tree} (opens : w.kind = .kwWhile)
      (tested : Derives .expression test testTree) (does : d.kind = .kwDo) (due : Awaits .single row) :
      Awaits .block (w :: (test ++ d :: row))
  | declared {l : Token} {row : List Token} (opens : l.kind = .kwLet) (due : Awaits .declarations row) :
      Awaits .block (l :: row)
  | scope {l i : Token} {declared row : List Token} {declaredTree : Tree} (opens : l.kind = .kwLet)
      (declares : Derives .declarations declared declaredTree) (ins : i.kind = .kwIn) (due : Awaits .single row) :
      Awaits .block (l :: (declared ++ i :: row))
  | compound {b : Token} {row : List Token} (opens : b.kind = .kwBegin) (due : Awaits .command row) :
      Awaits .block (b :: row)
  | firstSingle {row : List Token} (due : Awaits .single row) : Awaits .command row
  | sequence {row rest : List Token} {first : Tree} (begins : Derives .single row first) (due : Awaits .command rest)
      (goingOn : ∃ token ∈ rest.head?, token.kind ≠ .kwEnd) : Awaits .command (row ++ rest)
  | singleBlock {row : List Token} (due : Awaits .block row) : Awaits .single row
  | singleSimple {row : List Token} (due : Awaits .simple row) (other : ∀ token ∈ row.head?, ¬ token.kind.StartsBlock) :
      Awaits .single row
  | assigned {t b : Token} {row : List Token} (becomes : b.kind = .becomes) (due : Awaits .expression row) :
      Awaits .simple (t :: b :: row)
  | callCommand {f o : Token} {row : List Token} (named : f.kind = .identifier) (opens : o.kind = .leftParen)
      (due : Awaits .arguments row) : Awaits .simple (f :: o :: row)
  | returned {r : Token} {row : List Token} (returns : r.kind = .kwReturn) (due : Awaits .expression row)
      (bare : ∀ token ∈ row.head?, token.kind ≠ .leftParen) : Awaits .simple (r :: row)
  | constant {k i e : Token} {row : List Token} (opens : k.kind = .kwConst) (named : i.kind = .identifier)
      (equals : e.kind = .tilde) (due : Awaits .expression row) : Awaits .declarations (k :: i :: e :: row)
  | untyped {f i o c k : Token} {list : List Token} {names : Tree} (opens : f.kind = .kwFunc)
      (named : i.kind = .identifier) (begins : o.kind = .leftParen) (listed : Derives .parameters list names)
      (ends : c.kind = .rightParen) (colon : k.kind = .colon) :
      Awaits .declarations (f :: i :: o :: (list ++ [c, k]))
  | body {f i o c k t : Token} {list row : List Token} {names : Tree} (opens : f.kind = .kwFunc)
      (named : i.kind = .identifier) (begins : o.kind = .leftParen) (listed : Derives .parameters list names)
      (ends : c.kind = .rightParen) (colon : k.kind = .colon) (due : Awaits .single row) :
      Awaits .declarations (f :: i :: o :: (list ++ c :: k :: t :: row))
  | declarations {row rest : List Token} {declaredTree : Tree} (declares : Derives .declarations row declaredTree)
      (due : Awaits .declarations rest) : Awaits .declarations (row ++ rest)
  | firstArgument {row : List Token} (due : Awaits .expression row) : Awaits .arguments row
  | argument {row next : List Token} {m : Token} {list : Tree} (before : Derives .arguments row list)
      (comma : m.kind = .comma) (due : Awaits .expression next) : Awaits .arguments (row ++ m :: next)
  | call {f o : Token} {row : List Token} (named : f.kind = .identifier) (opens : o.kind = .leftParen)
      (due : Awaits .arguments row) : Awaits .expression (f :: o :: row)
  | value {row : List Token} (due : Awaits .sum row) (second : ∀ token ∈ row[1]?, token.kind ≠ .leftParen) :
      Awaits .expression row
  | firstTerm {row : List Token} (due : Awaits .product row) : Awaits .sum row
  | term {row next : List Token} {o : Token} {left : Tree} (before : Derives .sum row left)
      (sign : o.IsOperator ["+", "-", "<", ">", "="]) (due : Awaits .product next) : Awaits .sum (row ++ o :: next)
  | firstFactor {row : List Token} (due : Awaits .factor row) : Awaits .product row
  | factor {row next : List Token} {o : Token} {left : Tree} (before : Derives .product row left)
      (sign : o.IsOperator ["*", "/", "\\"]) (due : Awaits .factor next) : Awaits .product (row ++ o :: next)
  | operand {o : Token} {row : List Token} (sign : o.kind = .operator) (due : Awaits .factor row) :
      Awaits .factor (o :: row)
  | parenthesis {o : Token} {row : List Token} (opens : o.kind = .leftParen) (due : Awaits .expression row) :
      Awaits .factor (o :: row)

end MiniTriangle

namespace MiniTriangle.Parse

open Sequencing

def Provided {α : Type} (parser : Parse α) : Prop :=
  ∀ ⦃stream final⦄, parser stream = .error .noToken final → final.current.kind ≠ .endOfText

namespace Provided

variable {α β : Type}

theorem bind {first : Parse α} {next : α → Parse β} (provided : Provided first) (rest : ∀ value, Provided (next value)) :
    Provided (first >>= next) := by
  intro stream final failed
  cases ran : first stream with
  | error cause middle =>
    rw [bind_error ran] at failed
    cases failed
    exact provided ran
  | ok value middle =>
    rw [bind_ok ran] at failed
    exact rest value failed

theorem pure (value : α) : Provided (Pure.pure value : Parse α) := by
  intro stream final failed
  cases failed

theorem reject : Provided (Parse.reject : Parse α) := by
  intro stream final failed
  cases failed

theorem endless : Provided (throw .endless : Parse α) := by
  intro stream final failed
  cases failed

theorem current : Provided Parse.current := by
  intro stream final failed
  cases failed

/-- A step beyond the last token leaves that token the current one, and it does not end the text. -/
theorem advance : Provided Parse.advance := by
  intro stream final failed
  obtain ⟨token, ahead, index⟩ := stream
  rw [Parse.advance, get_bind] at failed
  split at failed
  next => cases failed
  next inside =>
    cases ahead with
    | nil =>
      cases failed
      exact inside
    | cons next rest => cases failed

theorem accept (kind : Kind) : Provided (Parse.accept kind) := by
  refine current.bind fun token => ?_
  split
  next => exact advance
  next => exact reject

theorem identifier : Provided Parse.identifier := current.bind fun _ => (accept _).bind fun _ => pure _

theorem anyValue : Provided Parse.anyValue := current.bind fun _ => advance.bind fun _ => pure _

theorem parameter : Provided Parse.parameter :=
  identifier.bind fun _ => (accept _).bind fun _ => (anyValue.bind fun _ => pure _).bind fun _ => pure _

theorem moreParameters (bound : Nat) (list : Tree) : Provided (moreParametersWithin bound list) := by
  induction bound generalizing list with
  | zero => exact endless
  | succ bound ih =>
    refine current.bind fun token => ?_
    split
    next => exact advance.bind fun _ => parameter.bind fun _ => ih _
    next => exact pure _

theorem parameters : Provided Parse.parameters := parameter.bind fun _ _ _ failed => moreParameters _ _ failed

end Provided

/-- Where the parser lacks a token at the end of the text, it has passed a row of the given kind. -/
def Lacks {α : Type} (parser : Parse α) (stream : Stream) (awaits : List Token → Prop) : Prop :=
  ∀ ⦃final⦄, parser stream = .error .noToken final → final.current.kind = .endOfText →
    ∃ row, Passes stream row final ∧ awaits row

theorem Provided.lacks {α : Type} {parser : Parse α} (provided : Provided parser) {stream : Stream}
    {awaits : List Token → Prop} : Lacks parser stream awaits :=
  fun _ failed ended => absurd ended (provided failed)

namespace Lacks

variable {α β : Type} {stream : Stream} {awaits : List Token → Prop}

theorem mono {parser : Parse α} {other : List Token → Prop} (lacks : Lacks parser stream other)
    (weaker : ∀ row final, Passes stream row final → final.current.kind = .endOfText → other row → awaits row) :
    Lacks parser stream awaits := by
  intro final failed ended
  obtain ⟨row, moved, holds⟩ := lacks failed ended
  exact ⟨row, moved, weaker row final moved ended holds⟩

theorem bind {first : Parse α} {next : α → Parse β} (lacks : Lacks first stream awaits)
    (rest : ∀ value middle, first stream = .ok value middle →
      ∃ row, Passes stream row middle ∧ Lacks (next value) middle fun later => awaits (row ++ later)) :
    Lacks (first >>= next) stream awaits := by
  intro final failed ended
  cases ran : first stream with
  | error cause middle =>
    rw [bind_error ran] at failed
    cases failed
    exact lacks ran ended
  | ok value middle =>
    rw [bind_ok ran] at failed
    obtain ⟨row, moved, restLacks⟩ := rest value middle ran
    obtain ⟨later, onward, holds⟩ := restLacks failed ended
    exact ⟨row ++ later, moved.trans onward, holds⟩

theorem current {next : Token → Parse α} (lacks : Lacks (next stream.current) stream awaits) :
    Lacks (Parse.current >>= next) stream awaits := lacks

theorem bounded {parser : Nat → Parse α} (lacks : ∀ bound, Lacks (parser bound) stream awaits) :
    Lacks (Parse.bounded parser) stream awaits := lacks _

theorem advance_then {next : Unit → Parse β} (inside : stream.current.kind ≠ .endOfText)
    (rest : ∀ middle, Passes stream [stream.current] middle →
      Lacks (next ()) middle fun later => awaits (stream.current :: later)) :
    Lacks (Parse.advance >>= next) stream awaits := by
  refine Provided.advance.lacks.bind fun _ middle ran => ?_
  have moved := advance_passes ran inside
  exact ⟨_, moved, rest middle moved⟩

theorem accept_then {kind : Kind} {next : Unit → Parse β} (inside : kind ≠ .endOfText)
    (rest : ∀ token middle, token.kind = kind → Passes stream [token] middle →
      Lacks (next ()) middle fun later => awaits (token :: later)) :
    Lacks (Parse.accept kind >>= next) stream awaits := by
  refine (Provided.accept kind).lacks.bind fun _ middle ran => ?_
  obtain ⟨same, moved⟩ := accept_passes ran inside
  exact ⟨_, moved, rest _ middle same moved⟩

theorem identifier_then {next : Atom → Parse β}
    (rest : ∀ token middle, token.kind = .identifier → Passes stream [token] middle →
      Lacks (next token.value) middle fun later => awaits (token :: later)) :
    Lacks (Parse.identifier >>= next) stream awaits := by
  refine Provided.identifier.lacks.bind fun value middle ran => ?_
  obtain ⟨named, rfl, moved⟩ := identifier_passes ran
  exact ⟨_, moved, rest _ middle named moved⟩

/-- Names of targets and types take any token, and none at the end of the text. -/
theorem token_then {make : Atom → Tree} {next : Tree → Parse β}
    (atEnd : stream.current.kind = .endOfText → Lacks (next (make stream.current.value)) stream awaits)
    (rest : ∀ middle, Passes stream [stream.current] middle →
      Lacks (next (make stream.current.value)) middle fun later => awaits (stream.current :: later)) :
    Lacks ((do return make (← Parse.anyValue)) >>= next) stream awaits := by
  refine (Provided.anyValue.bind fun _ => .pure _).lacks.bind fun tree middle ran => ?_
  obtain ⟨value, after, taken, made⟩ := bind_eq_ok.mp ran
  cases made
  obtain ⟨rfl, ⟨ended, rfl⟩ | moved⟩ := anyValue_passes taken
  · exact ⟨[], .none, atEnd ended⟩
  · exact ⟨_, moved, rest middle moved⟩

/-- A token is lacking here, or there is one to look at. -/
theorem lookahead_then {next : Token → Parse β} (holds : awaits [])
    (rest : ∀ token, stream.ahead.head? = some token → Lacks (next token) stream awaits) :
    Lacks (lookahead >>= next) stream awaits := by
  have lacks : Lacks lookahead stream awaits := by
    intro final failed _
    obtain ⟨current, ahead, index⟩ := stream
    cases ahead with
    | nil =>
      cases failed
      exact ⟨[], .none, holds⟩
    | cons next rest => cases failed
  refine lacks.bind fun token middle ran => ?_
  obtain ⟨found, rfl⟩ := lookahead_eq_ok.mp ran
  exact ⟨[], .none, rest token found⟩

/-- A phrase comes first: a token is lacking inside it, or all of it is passed. -/
theorem phrase_then {part : List Token → Prop} {parser : Parse Tree} {phrase : Phrase} {next : Tree → Parse β}
    (reads : Reads parser phrase) (lacks : Lacks parser stream part) (inside : ∀ row, part row → awaits row)
    (rest : ∀ tree row middle, Derives phrase row tree → Passes stream row middle →
      Lacks (next tree) middle fun later => awaits (row ++ later)) :
    Lacks (parser >>= next) stream awaits := by
  refine (lacks.mono fun row _ _ _ => inside row).bind fun tree middle ran => ?_
  obtain ⟨row, moved, derived⟩ := reads ran
  exact ⟨row, moved, rest tree row middle derived moved⟩

/-- The last phrase of a rule. -/
theorem phrase {parser : Parse α} {make : α → β} (lacks : Lacks parser stream awaits) :
    Lacks (parser >>= fun tree => Pure.pure (make tree)) stream awaits := by
  intro final failed ended
  cases ran : parser stream with
  | error cause middle =>
    rw [bind_error ran] at failed
    cases failed
    exact lacks ran ended
  | ok value middle =>
    rw [bind_ok ran] at failed
    cases failed

end Lacks

/-- The loop after a phrase already passed lacks a token in a longer phrase. -/
def LacksAfter (parser : Tree → Parse Tree) (phrase : Phrase) : Prop :=
  ∀ ⦃left before⦄ (stream : Stream), Derives phrase before left →
    Lacks (parser left) stream fun row => Awaits phrase (before ++ row)

theorem round_lacks {operand : Parse Tree} {rest : Tree → Parse Tree} {phrase inner : Phrase} {stream : Stream}
    {combine : Tree → Tree} {before : List Token} (reads : Reads operand inner)
    (lacks : ∀ stream, Lacks operand stream (Awaits inner)) (after : LacksAfter rest phrase)
    (inside : stream.current.kind ≠ .endOfText)
    (due : ∀ row, Awaits inner row → Awaits phrase (before ++ stream.current :: row))
    (rule : ∀ row next, Derives inner row next → Derives phrase (before ++ stream.current :: row) (combine next)) :
    Lacks (do advance; let next ← operand; rest (combine next)) stream fun row => Awaits phrase (before ++ row) := by
  refine Lacks.advance_then inside fun afterSign moved => ?_
  refine Lacks.phrase_then reads (lacks afterSign) due fun next row middle derived passed => ?_
  have goesOn := after middle (rule row next derived)
  simpa using goesOn

theorem callOf_lacks {list : Parse Tree} {stream : Stream} {awaits : List Token → Prop}
    (lacks : ∀ stream, Lacks list stream (Awaits .arguments))
    (due : ∀ {f o}, f.kind = .identifier → o.kind = .leftParen → ∀ row, Awaits .arguments row → awaits (f :: o :: row))
    (reads : Reads list .arguments) : Lacks (callOf list) stream awaits := by
  refine Lacks.identifier_then fun f afterName named _ => ?_
  refine Lacks.accept_then (by decide) fun o afterOpen opens _ => ?_
  refine Lacks.phrase_then reads (lacks afterOpen) (due named opens) fun tree row afterList derived _ => ?_
  exact Lacks.accept_then (by decide) fun c final _ _ => (Provided.pure _).lacks

structure ExpressionsLack (bound : Nat) : Prop where
  expression : ∀ stream, Lacks (expressionWithin bound) stream (Awaits .expression)
  sum : LacksAfter (sumWithin bound) .sum
  term : ∀ stream, Lacks (termWithin bound) stream (Awaits .product)
  product : LacksAfter (productWithin bound) .product
  factor : ∀ stream, Lacks (factorWithin bound) stream (Awaits .factor)
  arguments : ∀ stream, Lacks (argumentsWithin bound) stream (Awaits .arguments)
  moreArguments : LacksAfter (moreArgumentsWithin bound) .arguments

private theorem expression_lacks_step {bound : Nat} (ih : ExpressionsLack bound) (stream : Stream) :
    Lacks (expressionWithin (bound + 1)) stream (Awaits .expression) := by
  have sound := expressions_sound bound
  rw [expressionWithin]
  refine Lacks.lookahead_then .expression fun next ahead => ?_
  split
  next => exact callOf_lacks ih.arguments (fun named opens row => .call named opens) sound.arguments
  next other =>
    have sum : Lacks (termWithin bound >>= sumWithin bound) stream (Awaits .sum) :=
      Lacks.phrase_then sound.term (ih.term stream) (fun row => .firstTerm) fun left row middle derived _ =>
        ih.sum middle (.oneTerm derived)
    refine sum.mono fun row final moved _ due => .value due ?_
    intro token found
    rw [second_of_passes moved ahead token found]
    exact other

private theorem factor_lacks_step {bound : Nat} (ih : ExpressionsLack bound) (stream : Stream) :
    Lacks (factorWithin (bound + 1)) stream (Awaits .factor) := by
  have sound := expressions_sound bound
  rw [factorWithin]
  apply Lacks.current
  split
  next => exact (Provided.advance.bind fun _ => .pure _).lacks
  next => exact ((Provided.anyValue.bind fun _ => .pure _).bind fun _ => .pure _).lacks
  next sign =>
    refine Lacks.advance_then (by simp [sign]) fun middle _ => ?_
    exact ((ih.factor middle).mono fun row _ _ _ => .operand sign).phrase
  next opens =>
    refine Lacks.advance_then (by simp [opens]) fun middle _ => ?_
    refine Lacks.phrase_then sound.expression (ih.expression middle) (fun row => .parenthesis opens)
      fun inner row afterInner derived _ => ?_
    exact Lacks.accept_then (by decide) fun c final _ _ => (Provided.pure _).lacks
  next => exact Provided.reject.lacks

theorem expressions_lack (bound : Nat) : ExpressionsLack bound := by
  induction bound with
  | zero =>
    exact ⟨fun _ => Provided.endless.lacks, fun _ _ _ _ => Provided.endless.lacks, fun _ => Provided.endless.lacks,
      fun _ _ _ _ => Provided.endless.lacks, fun _ => Provided.endless.lacks, fun _ => Provided.endless.lacks,
      fun _ _ _ _ => Provided.endless.lacks⟩
  | succ bound ih =>
    have sound := expressions_sound bound
    refine ⟨expression_lacks_step ih, ?sum, ?term, ?product, factor_lacks_step ih, ?arguments, ?moreArguments⟩
    case sum =>
      intro left before stream derived
      rw [sumWithin]
      apply Lacks.current
      split
      next additive =>
        have sign := isOneOf_iff.mp additive
        exact round_lacks sound.term ih.term ih.sum (by simp [sign.1]) (fun row => .term derived sign)
          fun row next => .add derived sign
      next => exact (Provided.pure _).lacks
    case term =>
      intro stream
      exact Lacks.phrase_then sound.factor (ih.factor stream) (fun row => .firstFactor) fun left row middle derived _ =>
        ih.product middle (.oneFactor derived)
    case product =>
      intro left before stream derived
      rw [productWithin]
      apply Lacks.current
      split
      next multiplicative =>
        have sign := isOneOf_iff.mp multiplicative
        exact round_lacks sound.factor ih.factor ih.product (by simp [sign.1]) (fun row => .factor derived sign)
          fun row next => .multiply derived sign
      next => exact (Provided.pure _).lacks
    case arguments =>
      intro stream
      exact Lacks.phrase_then sound.expression (ih.expression stream) (fun row => .firstArgument)
        fun first row middle derived _ => ih.moreArguments middle (.oneArgument derived)
    case moreArguments =>
      intro list before stream derived
      rw [moreArgumentsWithin]
      apply Lacks.current
      split
      next comma =>
        exact round_lacks sound.expression ih.expression ih.moreArguments (by simp [comma])
          (fun row => .argument derived comma) fun row next => .moreArguments derived comma
      next => exact (Provided.pure _).lacks

theorem expression_lacks (stream : Stream) : Lacks expression stream (Awaits .expression) :=
  Lacks.bounded fun bound => (expressions_lack bound).expression stream

theorem arguments_lack (stream : Stream) : Lacks arguments stream (Awaits .arguments) :=
  Lacks.bounded fun bound => (expressions_lack bound).arguments stream

theorem simpleCommand_lacks (stream : Stream) : Lacks simpleCommand stream (Awaits .simple) := by
  rw [simpleCommand]
  apply Lacks.current
  refine Lacks.lookahead_then .simple fun next ahead => ?_
  split
  next =>
    refine Lacks.token_then (fun atEnd => ?_) fun afterName _ => ?_
    · refine Lacks.accept_then (by decide) fun b afterBecomes _ moved => ?_
      exact absurd atEnd ((current_of_passes moved).1 ▸ (current_of_passes moved).2)
    · refine Lacks.accept_then (by decide) fun b afterBecomes becomes _ => ?_
      exact ((expression_lacks afterBecomes).mono fun row _ _ _ => .assigned becomes).phrase
  next =>
    split
    next => exact callOf_lacks arguments_lack (fun named opens row => .callCommand named opens) reads_arguments
    next other =>
      split
      next returns =>
        refine Lacks.advance_then (by simp [returns]) fun afterReturn moved => ?_
        refine ((expression_lacks afterReturn).mono fun row final onward _ due => .returned returns due ?_).phrase
        intro token found
        rw [second_of_passes (moved.trans onward) ahead token (by simpa [List.head?_eq_getElem?] using found)]
        exact other
      next => exact Provided.reject.lacks

structure CommandsLack (bound : Nat) : Prop where
  block : ∀ stream, Lacks (blockWithin bound) stream (Awaits .block)
  single : ∀ stream, Lacks (singleWithin bound) stream (Awaits .single)
  command : ∀ stream, Lacks (commandWithin bound) stream (Awaits .command)
  declarations : ∀ stream, Lacks (declarationsWithin bound) stream (Awaits .declarations)
  function : ∀ {stream}, stream.current.kind = .kwFunc → Lacks (functionWithin bound) stream (Awaits .declarations)

private theorem block_lacks {bound : Nat} (ih : CommandsLack bound) (stream : Stream) :
    Lacks (blockWithin (bound + 1)) stream (Awaits .block) := by
  have sound := commands_sound bound
  rw [blockWithin]
  apply Lacks.current
  split
  next opens =>
    refine Lacks.advance_then (by simp [opens]) fun afterIf _ => ?_
    refine Lacks.phrase_then reads_expression (expression_lacks afterIf) (fun row => .test opens)
      fun test testRow afterTest tested _ => ?_
    refine Lacks.accept_then (by decide) fun t afterThen thens _ => ?_
    refine Lacks.phrase_then sound.single (ih.single afterThen) (fun row => .accepted opens tested thens)
      fun yes yesRow afterYes accepted _ => ?_
    refine Lacks.accept_then (by decide) fun e afterElse elses _ => ?_
    exact ((ih.single afterElse).mono fun row _ _ _ => .rejected opens tested thens accepted elses).phrase
  next opens =>
    refine Lacks.advance_then (by simp [opens]) fun afterWhile _ => ?_
    refine Lacks.phrase_then reads_expression (expression_lacks afterWhile) (fun row => .loopTest opens)
      fun test testRow afterTest tested _ => ?_
    refine Lacks.accept_then (by decide) fun d afterDo does _ => ?_
    exact ((ih.single afterDo).mono fun row _ _ _ => .repeated opens tested does).phrase
  next opens =>
    refine Lacks.advance_then (by simp [opens]) fun afterLet _ => ?_
    refine Lacks.phrase_then sound.declarations (ih.declarations afterLet) (fun row => .declared opens)
      fun declared declaredRow afterDeclared declares _ => ?_
    refine Lacks.accept_then (by decide) fun i afterIn ins _ => ?_
    exact ((ih.single afterIn).mono fun row _ _ _ => .scope opens declares ins).phrase
  next opens =>
    refine Lacks.advance_then (by simp [opens]) fun afterBegin _ => ?_
    refine Lacks.phrase_then sound.command (ih.command afterBegin) (fun row => .compound opens)
      fun inner row afterInner derived _ => ?_
    exact Lacks.accept_then (by decide) fun e final _ _ => (Provided.pure _).lacks
  next => exact Provided.reject.lacks

theorem declaration_lacks (stream : Stream) : Lacks declaration stream (Awaits .declarations) := by
  rw [declaration]
  apply Lacks.current
  split
  next opens =>
    refine Lacks.advance_then (by simp [opens]) fun afterConst _ => ?_
    refine Lacks.identifier_then fun i afterName named _ => ?_
    refine Lacks.accept_then (by decide) fun e afterEquals equals _ => ?_
    exact ((expression_lacks afterEquals).mono fun row _ _ _ => .constant opens named equals).phrase
  next =>
    have provided := Provided.identifier.bind fun name => (Provided.accept .colon).bind fun _ =>
      (Provided.anyValue.bind fun value => .pure (Tree.typeName (.atom value))).bind fun type =>
        .pure (Tree.varDecl (.atom name) type)
    exact (Provided.advance.bind fun _ => provided).lacks
  next => exact Provided.reject.lacks

private theorem function_lacks {bound : Nat} (ih : CommandsLack bound) {stream : Stream}
    (opens : stream.current.kind = .kwFunc) : Lacks (functionWithin (bound + 1)) stream (Awaits .declarations) := by
  rw [functionWithin]
  refine Lacks.advance_then (by simp [opens]) fun afterFunc _ => ?_
  refine Lacks.identifier_then fun i afterName named _ => ?_
  refine Lacks.accept_then (by decide) fun o afterOpen begins _ => ?_
  refine Provided.parameters.lacks.bind fun list afterList ran => ?_
  obtain ⟨row, moved, _⟩ := parameters_leave ran
  refine ⟨row, moved, Lacks.accept_then (by decide) fun c afterClose ends movedClose => ?_⟩
  obtain ⟨listRow, listMoved, listed⟩ := parameters_passes ran (by rw [(current_of_passes movedClose).1, ends]; decide)
  cases moved.same_row listMoved
  refine Lacks.accept_then (by decide) fun k afterColon colon _ => ?_
  refine Lacks.token_then (fun atEnd => ?_) fun afterType _ => ?_
  · -- At the end of the text no token is passed for the body.
    refine ((ih.single afterColon).mono fun row final onward _ _ => ?_).phrase
    cases row with
    | nil => exact .untyped opens named begins listed ends colon
    | cons token rest => exact absurd atEnd ((current_of_passes onward).1 ▸ (current_of_passes onward).2)
  · exact ((ih.single afterType).mono fun row _ _ _ => .body opens named begins listed ends colon).phrase

private theorem declarations_lack {bound : Nat} (ih : CommandsLack bound) (stream : Stream) :
    Lacks (declarationsWithin (bound + 1)) stream (Awaits .declarations) := by
  have later {row : List Token} {tree : Tree} {middle : Stream}
      (extended : ∀ others rest, Derives .declarations others rest →
        Derives .declarations (row ++ others) (.declarations tree rest)) :
      Lacks (declarationsWithin bound >>= fun rest => pure (Tree.declarations tree rest)) middle fun others =>
        Awaits .declarations (row ++ others) := by
    have declares := extended [] _ .noDeclaration
    rw [List.append_nil] at declares
    exact ((ih.declarations middle).mono fun others _ _ _ => .declarations declares).phrase
  have ended : Lacks (do
      let first ← declaration
      accept .semicolon
      return Tree.declarations first (← declarationsWithin bound)) stream (Awaits .declarations) := by
    refine (declaration_lacks stream).bind fun first afterFirst declared => ?_
    obtain ⟨partly, moved, _⟩ := declaration_leaves declared
    refine ⟨partly, moved, (Provided.accept _).lacks.bind fun _ afterClose closed => ?_⟩
    obtain ⟨closes, passed⟩ := accept_passes closed (by decide)
    obtain ⟨row, whole, extended⟩ := declaration_passes declared closed
    cases (moved.trans passed).same_row whole
    refine ⟨_, passed, ?_⟩
    simpa using later extended
  rw [declarationsWithin]
  apply Lacks.current
  split
  next => exact ended
  next => exact ended
  next opens =>
    refine (ih.function opens).bind fun first afterFirst declared => ?_
    obtain ⟨row, moved, extended⟩ := function_extends opens declared
    exact ⟨row, moved, later extended⟩
  next => exact (Provided.pure _).lacks

theorem commands_lack (bound : Nat) : CommandsLack bound := by
  induction bound with
  | zero =>
    exact ⟨fun _ => Provided.endless.lacks, fun _ => Provided.endless.lacks, fun _ => Provided.endless.lacks,
      fun _ => Provided.endless.lacks, fun _ => Provided.endless.lacks⟩
  | succ bound ih =>
    have sound := commands_sound bound
    refine ⟨block_lacks ih, ?single, ?command, declarations_lack ih, function_lacks ih⟩
    case single =>
      intro stream
      rw [singleWithin]
      apply Lacks.current
      split
      next => exact (ih.block stream).mono fun row _ _ _ => .singleBlock
      next plain =>
        have due : Lacks simpleCommand stream (Awaits .single) := by
          refine (simpleCommand_lacks stream).mono fun row final moved _ due => .singleSimple due ?_
          intro token found starts
          obtain ⟨rest, rfl⟩ := List.head?_eq_some_iff.mp found
          rw [← (current_of_passes moved).1] at starts
          exact plain (startsBlock_iff.mpr starts)
        refine Lacks.phrase_then reads_simpleCommand due (fun row same => same) fun simple row afterSimple _ _ => ?_
        exact Lacks.accept_then (by decide) fun s final _ _ => (Provided.pure _).lacks
    case command =>
      intro stream
      rw [commandWithin]
      refine Lacks.phrase_then sound.single (ih.single stream) (fun row => .firstSingle) fun first row middle begins _ => ?_
      apply Lacks.current
      split
      next continues =>
        refine ((ih.command middle).mono fun rest final moved ended due => .sequence begins due ?_).phrase
        obtain ⟨inside, other⟩ := continuesCommand_iff.mp continues
        cases moved with
        | none => exact absurd ended inside
        | step => exact ⟨_, rfl, other⟩
      next => exact (Provided.pure _).lacks

theorem program_lacks (stream : Stream) : Lacks program stream (Awaits .block) :=
  (Lacks.bounded fun bound => (commands_lack bound).block stream).phrase

end MiniTriangle.Parse
