import MiniTriangle.Proofs.DocumentedGrammar
import MiniTriangle.Proofs.ViablePrefixes

/-! Calls that are none. Where an expression or a return command starts, the parser takes any token that an opening
parenthesis follows for the name of a call. It reads the programs of the documented grammar in which only names stand
there, and no others. -/

namespace MiniTriangle

open Parse

def Kind.opensExpression : Kind → Bool
  | .kwIf | .kwWhile | .becomes | .tilde | .leftParen | .comma | .kwReturn => true
  | _ => false

/-- The tokens that start an expression and may have an opening parenthesis after them that opens no list of arguments. -/
def Kind.wraps : Kind → Bool
  | .operator | .leftParen => true
  | _ => false

def startsParen (row : List Token) : Bool := row.head?.any (·.kind = .leftParen)

/-- Whether a row starts as a call would, with an operator or a parenthesis for the name. -/
def startsWrapped : List Token → Bool
  | [] => false
  | token :: rest => token.kind.wraps && startsParen rest

/-- Whether what follows the token is taken for a call, or the token for the name of one. -/
def Token.misleads (token : Token) (row : List Token) : Bool :=
  token.kind = .kwReturn && startsParen row || token.kind.opensExpression && startsWrapped row

def misread : List Token → Bool
  | [] => false
  | token :: rest => token.misleads rest || misread rest

section

variable {token : Token} {before row rest : List Token}

theorem misread_cons : misread (token :: row) = (token.misleads row || misread row) := rfl

theorem startsParen_append (starts : startsParen row = true) (rest : List Token) : startsParen (row ++ rest) = true := by
  cases row with
  | nil => cases starts
  | cons first row => exact starts

theorem misleads_append (misled : token.misleads row = true) (rest : List Token) : token.misleads (row ++ rest) = true := by
  rcases Bool.or_eq_true_iff.mp misled with returned | opened
  · obtain ⟨returns, starts⟩ := Bool.and_eq_true_iff.mp returned
    rw [Token.misleads, returns, startsParen_append starts]
    rfl
  · obtain ⟨opens, starts⟩ := Bool.and_eq_true_iff.mp opened
    have longer : startsWrapped (row ++ rest) = true := by
      cases row with
      | nil => cases starts
      | cons first row =>
        obtain ⟨wraps, paren⟩ := Bool.and_eq_true_iff.mp starts
        exact Bool.and_eq_true_iff.mpr ⟨wraps, startsParen_append paren rest⟩
    rw [Token.misleads, opens, longer, Bool.true_and, Bool.or_true]

theorem misread_left (misled : misread row = true) (rest : List Token) : misread (row ++ rest) = true := by
  induction row with
  | nil => cases misled
  | cons token row ih =>
    rw [List.cons_append, misread_cons]
    rcases Bool.or_eq_true_iff.mp misled with first | later
    · rw [misleads_append first, Bool.true_or]
    · rw [ih later, Bool.or_true]

theorem misread_right (before : List Token) (misled : misread row = true) : misread (before ++ row) = true := by
  induction before with
  | nil => exact misled
  | cons token before ih => rw [List.cons_append, misread_cons, ih, Bool.or_true]

theorem fine_append (before row : List Token) (fine : misread (before ++ row) = false) :
    misread before = false ∧ misread row = false := by
  constructor
  · apply Bool.eq_false_iff.mpr
    intro misled
    rw [misread_left misled row] at fine
    cases fine
  · apply Bool.eq_false_iff.mpr
    intro misled
    rw [misread_right before misled] at fine
    cases fine

theorem fine_cons (fine : misread (token :: row) = false) : token.misleads row = false ∧ misread row = false :=
  Bool.or_eq_false_iff.mp fine

section

variable (plain : token.kind.wraps = false)

include plain

theorem startsParen_split : startsParen (before ++ token :: rest) = startsParen before := by
  cases before with
  | nil =>
    have other : token.kind ≠ .leftParen := by
      intro paren
      rw [paren] at plain
      cases plain
    exact decide_eq_false other
  | cons first before => rfl

theorem startsWrapped_split : startsWrapped (before ++ token :: rest) = startsWrapped before := by
  cases before with
  | nil =>
    show (token.kind.wraps && startsParen rest) = false
    rw [plain, Bool.false_and]
  | cons next before =>
    show (next.kind.wraps && startsParen (before ++ token :: rest)) = (next.kind.wraps && startsParen before)
    rw [startsParen_split plain]

theorem misleads_split {first : Token} : first.misleads (before ++ token :: rest) = first.misleads before := by
  rw [Token.misleads, startsParen_split plain, startsWrapped_split plain]
  rfl

/-- A token that is neither an operator nor a parenthesis parts what is read before it from the rest. -/
theorem misread_split : misread (before ++ token :: rest) = (misread before || misread (token :: rest)) := by
  induction before with
  | nil => rfl
  | cons first before ih =>
    rw [List.cons_append, misread_cons, misread_cons, ih, misleads_split plain, Bool.or_assoc]

end

def Kind.neutral (kind : Kind) : Bool := !kind.wraps && !kind.opensExpression

theorem misread_neutral {kind : Kind} (is : token.kind = kind) (neutral : kind.neutral = true := by decide) :
    misread (token :: row) = misread row := by
  have closed := (Bool.and_eq_true_iff.mp neutral).2
  rw [Bool.not_eq_true', ← is] at closed
  have other : token.kind ≠ .kwReturn := by
    intro returns
    rw [returns] at closed
    cases closed
  rw [misread_cons, Token.misleads, decide_eq_false other, closed]
  rfl

theorem misread_around {kind : Kind} (is : token.kind = kind) (neutral : kind.neutral = true := by decide) :
    misread (before ++ token :: rest) = (misread before || misread rest) := by
  have plain := (Bool.and_eq_true_iff.mp neutral).1
  rw [Bool.not_eq_true', ← is] at plain
  rw [misread_split plain, misread_neutral is neutral]

/-- Rows that end with a neutral token are read by themselves. -/
theorem misread_after {kind : Kind} (is : token.kind = kind) (neutral : kind.neutral = true := by decide)
    (row : List Token) : misread (row ++ [token] ++ rest) = (misread (row ++ [token]) || misread rest) := by
  rw [List.append_assoc, List.singleton_append, misread_around is neutral, misread_around is neutral, misread, Bool.or_false]

end

namespace Documented

variable {phrase : Phrase} {row : List Token}

/-- In a sum only operators and parentheses have an opening parenthesis after them at the start. -/
theorem wraps_of_second (documented : Documented phrase row)
    (valued : phrase = .sum ∨ phrase = .product ∨ phrase = .factor) :
    ∃ first rest, row = first :: rest ∧ (first.kind.wraps = true ∨ ∀ token ∈ rest.head?, token.kind ≠ .leftParen) := by
  induction documented with
  | oneTerm _ ih | oneFactor _ ih => exact ih (by simp)
  | @add row next o _ sign _ ih | @multiply row next o _ sign _ ih =>
    obtain ⟨first, rest, rfl, starts⟩ := ih (by simp)
    refine ⟨first, rest ++ o :: next, rfl, starts.imp_right fun other => ?_⟩
    cases rest with
    | nil => simp [sign.1]
    | cons second rest => exact other
  | integer | reference => exact ⟨_, _, rfl, .inr nofun⟩
  | unary sign | parenthesis sign => exact ⟨_, _, rfl, .inl (by simp [Kind.wraps, sign])⟩
  | _ => simp at valued

/-- What the parser needs of a phrase: it reads all parts rightly, an expression after the token before it. -/
def Legible (phrase : Phrase) (row : List Token) : Prop :=
  match phrase with
  | .expression | .arguments => ∃ token : Token, token.kind.opensExpression = true ∧ misread (token :: row) = false
  | _ => misread row = false

theorem derives (documented : Documented phrase row) (legible : Legible phrase row) : ∃ tree, Derives phrase row tree := by
  induction documented with
  | @conditional i t e test yes no opens _ thens _ elses _ testIH yesIH noIH =>
    obtain ⟨testFine, rest⟩ := fine_append (i :: test) _ legible
    obtain ⟨yesFine, rest⟩ := fine_append yes _ (fine_cons rest).2
    obtain ⟨testTree, tested⟩ := testIH ⟨i, by simp [Kind.opensExpression, opens], testFine⟩
    obtain ⟨yesTree, accepted⟩ := yesIH yesFine
    obtain ⟨noTree, rejected⟩ := noIH (fine_cons rest).2
    exact ⟨_, .conditional opens tested thens accepted elses rejected⟩
  | @loop w d test body opens _ does _ testIH bodyIH =>
    obtain ⟨testFine, rest⟩ := fine_append (w :: test) _ legible
    obtain ⟨testTree, tested⟩ := testIH ⟨w, by simp [Kind.opensExpression, opens], testFine⟩
    obtain ⟨bodyTree, repeated⟩ := bodyIH (fine_cons rest).2
    exact ⟨_, .loop opens tested does repeated⟩
  | @scope l i declared body opens _ _ ins _ declaredIH bodyIH =>
    obtain ⟨declaredFine, rest⟩ := fine_append declared _ (fine_cons legible).2
    obtain ⟨declaredTree, declares⟩ := declaredIH declaredFine
    obtain ⟨bodyTree, inner⟩ := bodyIH (fine_cons rest).2
    exact ⟨_, .scope opens declares ins inner⟩
  | @compound b e body opens _ closes bodyIH =>
    obtain ⟨tree, inner⟩ := bodyIH (fine_append body _ (fine_cons legible).2).1
    exact ⟨_, .compound opens inner closes⟩
  | lastSingle _ ih =>
    obtain ⟨tree, only⟩ := ih legible
    exact ⟨_, .lastSingle only⟩
  | @sequence row rest _ more rowIH restIH =>
    obtain ⟨rowFine, restFine⟩ := fine_append row rest legible
    obtain ⟨first, begins⟩ := rowIH rowFine
    obtain ⟨second, goes⟩ := restIH restFine
    obtain ⟨start, others, rfl, other⟩ := more.head_ne_end (by simp)
    exact ⟨_, .sequence begins goes (by simpa using other)⟩
  | singleBlock _ ih =>
    obtain ⟨tree, inner⟩ := ih legible
    exact ⟨_, .singleBlock inner⟩
  | @singleSimple row s simple closes ih =>
    obtain ⟨tree, inner⟩ := ih (fine_append row _ legible).1
    refine ⟨_, .singleSimple inner ?_ closes⟩
    cases simple with
    | assignment named | callCommand named | returning named => simp [Kind.StartsBlock, named]
  | @assignment t b row _ becomes _ ih =>
    obtain ⟨tree, value⟩ := ih ⟨b, by simp [Kind.opensExpression, becomes], (fine_cons legible).2⟩
    exact ⟨_, .assignment becomes value⟩
  | @callCommand f o c row named opens _ closes ih =>
    have inside := (fine_append (o :: row) _ (fine_cons legible).2).1
    obtain ⟨list, inner⟩ := ih ⟨o, by simp [Kind.opensExpression, opens], inside⟩
    exact ⟨_, .callCommand named opens inner closes⟩
  | @returning r row returns _ ih =>
    obtain ⟨tree, value⟩ := ih ⟨r, by simp [Kind.opensExpression, returns], legible⟩
    refine ⟨_, .returning returns value ?_⟩
    intro token first paren
    cases row with
    | nil => cases first
    | cons next rest =>
      cases first
      have misled := (fine_cons legible).1
      simp [Token.misleads, startsParen, returns, paren] at misled
  | noDeclaration => exact ⟨_, .noDeclaration⟩
  | varDeclaration opens named colon _ closes _ ih =>
    have rest := (fine_cons (fine_cons (fine_cons (fine_cons (fine_cons legible).2).2).2).2).2
    obtain ⟨tree, more⟩ := ih rest
    exact ⟨_, .varDeclaration opens named colon closes more⟩
  | @constDeclaration k i e s value row opens named equals _ closes _ valueIH rowIH =>
    obtain ⟨valueFine, rest⟩ := fine_append (e :: value) _ (fine_cons (fine_cons legible).2).2
    obtain ⟨tree, valued⟩ := valueIH ⟨e, by simp [Kind.opensExpression, equals], valueFine⟩
    obtain ⟨others, more⟩ := rowIH (fine_cons rest).2
    exact ⟨_, .constDeclaration opens named equals valued closes more⟩
  | @funcDeclaration f i o c k t list body row opens named begins _ ends colon _ _ _ listIH bodyIH rowIH =>
    obtain ⟨listFine, rest⟩ := fine_append list _ (fine_cons (fine_cons (fine_cons legible).2).2).2
    obtain ⟨bodyFine, rowFine⟩ := fine_append body row (fine_cons (fine_cons (fine_cons rest).2).2).2
    obtain ⟨names, listed⟩ := listIH listFine
    obtain ⟨command, inner⟩ := bodyIH bodyFine
    obtain ⟨others, more⟩ := rowIH rowFine
    exact ⟨_, .funcDeclaration opens named begins listed ends colon inner more⟩
  | oneParameter named colon _ => exact ⟨_, .oneParameter named colon⟩
  | @moreParameters row m i c t _ comma named colon _ ih =>
    obtain ⟨list, before⟩ := ih (fine_append row _ legible).1
    exact ⟨_, .moreParameters before comma named colon⟩
  | oneArgument _ ih =>
    obtain ⟨tree, only⟩ := ih legible
    exact ⟨_, .oneArgument only⟩
  | @moreArguments row next m _ comma _ rowIH nextIH =>
    obtain ⟨token, opens, fine⟩ := legible
    obtain ⟨rowFine, nextFine⟩ := fine_append (token :: row) _ fine
    obtain ⟨list, before⟩ := rowIH ⟨token, opens, rowFine⟩
    obtain ⟨tree, last⟩ := nextIH ⟨m, by simp [Kind.opensExpression, comma], nextFine⟩
    exact ⟨_, .moreArguments before comma last⟩
  | @call f o c row named opens _ closes ih =>
    obtain ⟨token, _, fine⟩ := legible
    have inside := (fine_append (o :: row) _ (fine_cons (fine_cons fine).2).2).1
    obtain ⟨list, inner⟩ := ih ⟨o, by simp [Kind.opensExpression, opens], inside⟩
    exact ⟨_, .call named opens inner closes⟩
  | value summed ih =>
    obtain ⟨token, opens, fine⟩ := legible
    obtain ⟨tree, inner⟩ := ih (fine_cons fine).2
    refine ⟨_, .value inner ?_⟩
    obtain ⟨first, rest, rfl, starts⟩ := summed.wraps_of_second (by simp)
    intro second found paren
    rcases starts with wraps | other
    · have misled := (fine_cons fine).1
      cases rest with
      | nil => cases found
      | cons next rest =>
        cases found
        simp [Token.misleads, startsWrapped, startsParen, opens, wraps, paren] at misled
    · exact other second (by simpa [List.head?_eq_getElem?] using found) paren
  | oneTerm _ ih =>
    obtain ⟨tree, only⟩ := ih legible
    exact ⟨_, .oneTerm only⟩
  | @add row next o _ sign _ rowIH nextIH =>
    obtain ⟨rowFine, rest⟩ := fine_append row _ legible
    obtain ⟨left, before⟩ := rowIH rowFine
    obtain ⟨right, last⟩ := nextIH (fine_cons rest).2
    exact ⟨_, .add before sign last⟩
  | oneFactor _ ih =>
    obtain ⟨tree, only⟩ := ih legible
    exact ⟨_, .oneFactor only⟩
  | @multiply row next o _ sign _ rowIH nextIH =>
    obtain ⟨rowFine, rest⟩ := fine_append row _ legible
    obtain ⟨left, before⟩ := rowIH rowFine
    obtain ⟨right, last⟩ := nextIH (fine_cons rest).2
    exact ⟨_, .multiply before sign last⟩
  | integer written => exact ⟨_, .integer written⟩
  | reference named => exact ⟨_, .reference named⟩
  | unary sign _ ih =>
    obtain ⟨tree, operand⟩ := ih (fine_cons legible).2
    exact ⟨_, .unary sign operand⟩
  | @parenthesis o c row opens _ closes ih =>
    have inside := (fine_append (o :: row) _ legible).1
    obtain ⟨tree, inner⟩ := ih ⟨o, by simp [Kind.opensExpression, opens], inside⟩
    exact ⟨_, .parenthesis opens inner closes⟩

end Documented

namespace Derives

variable {phrase : Phrase} {row : List Token} {tree : Tree}

/-- The last token of a value. -/
theorem ends_value (derived : Derives phrase row tree)
    (valued : phrase = .expression ∨ phrase = .sum ∨ phrase = .product ∨ phrase = .factor) :
    ∃ front last, row = front ++ [last] ∧ last.kind.neutral = true := by
  induction derived with
  | @call f o c row _ _ _ _ closes => exact ⟨f :: o :: row, c, rfl, by rw [closes]; rfl⟩
  | value _ _ ih | oneTerm _ ih | oneFactor _ ih => exact ih (by simp)
  | @add row next o _ _ _ _ _ _ ih | @multiply row next o _ _ _ _ _ _ ih =>
    obtain ⟨front, last, rfl, neutral⟩ := ih (by simp)
    exact ⟨row ++ o :: front, last, by simp, neutral⟩
  | integer kind | reference kind => exact ⟨[], _, rfl, by rw [kind]; rfl⟩
  | @unary o _ _ _ _ ih =>
    obtain ⟨front, last, rfl, neutral⟩ := ih (by simp)
    exact ⟨o :: front, last, rfl, neutral⟩
  | @parenthesis o c row _ _ _ closes => exact ⟨o :: row, c, rfl, by rw [closes]; rfl⟩
  | _ => simp at valued

theorem fine_opened {token : Token} (other : token.kind ≠ .kwReturn) (fine : misread row = false)
    (wrapped : startsWrapped row = false) : misread (token :: row) = false := by
  rw [misread_cons, Token.misleads, decide_eq_false other, wrapped, fine, Bool.false_and, Bool.and_false]
  rfl

theorem fine_operand {o : Token} (sign : o.kind = .operator) (fine : misread row = false) : misread (o :: row) = false := by
  rw [misread_cons, Token.misleads, sign, fine]
  rfl

theorem fine_enclosed {o c : Token} (opens : o.kind = .leftParen) (closes : c.kind = .rightParen)
    (fine : misread row = false) (wrapped : startsWrapped row = false) : misread (o :: (row ++ [c])) = false := by
  rw [← List.cons_append, misread_around closes, fine_opened (by simp [opens]) fine wrapped]
  rfl

theorem startsWrapped_named {token : Token} (named : token.kind = .identifier) : startsWrapped (token :: row) = false := by
  rw [startsWrapped, named]
  rfl

/-- What the parser reads as a value it reads rightly, and an expression after any token. -/
theorem fine_value (derived : Derives phrase row tree) (valued : phrase = .expression ∨ phrase = .arguments ∨
      phrase = .sum ∨ phrase = .product ∨ phrase = .factor) :
    misread row = false ∧ (phrase = .expression ∨ phrase = .arguments → startsWrapped row = false) := by
  induction derived with
  | oneArgument _ ih =>
    obtain ⟨fine, wrapped⟩ := ih (by simp)
    exact ⟨fine, fun _ => wrapped (by simp)⟩
  | @moreArguments row next m _ _ _ comma _ rowIH nextIH =>
    obtain ⟨fine, wrapped⟩ := rowIH (by simp)
    obtain ⟨nextFine, nextWrapped⟩ := nextIH (by simp)
    have plain : m.kind.wraps = false := by rw [comma]; rfl
    refine ⟨?_, fun _ => ?_⟩
    · rw [misread_split plain, fine, fine_opened (by simp [comma]) nextFine (nextWrapped (by simp))]
      rfl
    · rw [startsWrapped_split plain, wrapped (by simp)]
  | @call f o c row _ named opens _ closes ih =>
    obtain ⟨fine, wrapped⟩ := ih (by simp)
    refine ⟨?_, fun _ => ?_⟩
    · rw [misread_neutral named]
      exact fine_enclosed opens closes fine (wrapped (by simp))
    · exact startsWrapped_named named
  | @value row _ _ second ih =>
    refine ⟨(ih (by simp)).1, fun _ => ?_⟩
    match row with
    | [] => rfl
    | [first] => exact Bool.and_false _
    | first :: next :: rest =>
      have other : next.kind ≠ .leftParen := second next rfl
      show (first.kind.wraps && decide (next.kind = .leftParen)) = false
      rw [decide_eq_false other, Bool.and_false]
  | oneTerm _ ih | oneFactor _ ih => exact ⟨(ih (by simp)).1, by simp⟩
  | @add row next o _ _ before sign _ rowIH nextIH | @multiply row next o _ _ before sign _ rowIH nextIH =>
    refine ⟨?_, by simp⟩
    obtain ⟨front, last, rfl, neutral⟩ := before.ends_value (by simp)
    have operand := fine_operand sign.1 (nextIH (by simp)).1
    rw [misread_after rfl neutral, (rowIH (by simp)).1, operand]
    rfl
  | integer kind | reference kind => exact ⟨misread_neutral kind, by simp⟩
  | unary sign _ ih => exact ⟨fine_operand sign (ih (by simp)).1, by simp⟩
  | parenthesis opens _ closes ih =>
    obtain ⟨fine, wrapped⟩ := ih (by simp)
    exact ⟨fine_enclosed opens closes fine (wrapped (by simp)), by simp⟩
  | _ => simp at valued

theorem fine_after {token : Token} (valued : Derives .expression row tree) (other : token.kind ≠ .kwReturn) :
    misread (token :: row) = false := by
  obtain ⟨fine, wrapped⟩ := valued.fine_value (by simp)
  exact fine_opened other fine (wrapped (by simp))

/-- A command ends where it is read by itself. -/
theorem fine_single (derived : Derives .single row tree) (fine : misread row = false) {rest : List Token} :
    misread (row ++ rest) = misread rest := by
  obtain ⟨front, last, rfl, closes⟩ := derives_last derived (.inr rfl)
  have neutral : last.kind.neutral = true := by
    rcases closes with kind | kind <;> rw [kind] <;> rfl
  rw [misread_after rfl neutral, fine, Bool.false_or]

theorem fine_singleton (token : Token) : misread [token] = false := by
  simp [misread, Token.misleads, startsParen, startsWrapped]

theorem fine_parameter {i c t : Token} (named : i.kind = .identifier) (colon : c.kind = .colon) :
    misread [i, c, t] = false := by
  rw [misread_neutral named, misread_neutral colon, fine_singleton]

theorem fine_parameters (derived : Derives phrase row tree) (listed : phrase = .parameters) :
    misread row = false ∧ startsWrapped row = false := by
  induction derived with
  | oneParameter named colon => exact ⟨fine_parameter named colon, startsWrapped_named named⟩
  | @moreParameters row m i c t _ _ comma named colon ih =>
    obtain ⟨fine, wrapped⟩ := ih rfl
    have plain : m.kind.wraps = false := by rw [comma]; rfl
    have next := fine_opened (by simp [comma] : m.kind ≠ .kwReturn) (fine_parameter named colon (t := t))
      (startsWrapped_named named)
    exact ⟨by rw [misread_split plain, fine, next]; rfl, by rw [startsWrapped_split plain, wrapped]⟩
  | _ => cases listed

/-- What the parser reads, with names for types, it reads rightly. -/
theorem fine_of_typed (derived : Derives phrase row tree) (typed : Typed row)
    (commands : phrase = .block ∨ phrase = .command ∨ phrase = .single ∨ phrase = .simple ∨ phrase = .declarations) :
    misread row = false := by
  induction derived with
  | @conditional i t e test yes no _ _ _ opens tested thens _ elses _ _ yesIH noIH =>
    have testFine := tested.fine_after (by simp [opens] : i.kind ≠ .kwReturn)
    have rest := typed.tail.right_of_append.tail
    rw [← List.cons_append, misread_around thens, misread_around elses, testFine,
      yesIH rest.left_of_append (by simp), noIH rest.right_of_append.tail (by simp)]
    rfl
  | @loop w d test body _ _ opens tested does _ _ bodyIH =>
    have testFine := tested.fine_after (by simp [opens] : w.kind ≠ .kwReturn)
    rw [← List.cons_append, misread_around does, testFine, bodyIH typed.tail.right_of_append.tail (by simp)]
    rfl
  | scope opens _ ins _ declaredIH bodyIH =>
    rw [misread_neutral opens, misread_around ins, declaredIH typed.tail.left_of_append (by simp),
      bodyIH typed.tail.right_of_append.tail (by simp)]
    rfl
  | compound opens _ closes ih =>
    rw [misread_neutral opens, misread_around closes, ih typed.tail.left_of_append (by simp)]
    rfl
  | lastSingle _ ih | singleBlock _ ih => exact ih typed (by simp)
  | sequence begins _ _ rowIH restIH =>
    rw [fine_single begins (rowIH typed.left_of_append (by simp)), restIH typed.right_of_append (by simp)]
  | singleSimple _ _ closes ih =>
    rw [misread_around closes, ih typed.left_of_append (by simp)]
    rfl
  | @assignment t b row _ becomes value =>
    have plain : b.kind.wraps = false := by rw [becomes]; rfl
    show misread ([t] ++ b :: row) = false
    rw [misread_split plain, value.fine_after (by simp [becomes]), fine_singleton]
    rfl
  | callCommand named opens inner closes =>
    obtain ⟨fine, wrapped⟩ := inner.fine_value (by simp)
    rw [misread_neutral named]
    exact fine_enclosed opens closes fine (wrapped (by simp))
  | @returning r row _ returns value bare =>
    obtain ⟨fine, wrapped⟩ := value.fine_value (by simp)
    have unopened : startsParen row = false := by
      cases row with
      | nil => rfl
      | cons first rest => exact decide_eq_false (bare first rfl)
    rw [misread_cons, Token.misleads, unopened, wrapped (by simp), fine, Bool.and_false, Bool.and_false]
    rfl
  | noDeclaration => rfl
  | @varDeclaration v i c t s row _ opens named colon closes _ ih =>
    obtain ⟨type, rest⟩ := List.isChain_cons_cons.mp typed.tail.tail
    rw [misread_neutral opens, misread_neutral named, misread_neutral colon, misread_neutral (type colon),
      misread_neutral closes]
    exact ih rest.tail.tail (by simp)
  | @constDeclaration k i e s value row _ _ opens named equals valued closes _ _ ih =>
    have valueFine := valued.fine_after (by simp [equals] : e.kind ≠ .kwReturn)
    rw [misread_neutral opens, misread_neutral named, ← List.cons_append, misread_around closes, valueFine,
      ih typed.tail.tail.tail.right_of_append.tail (by simp)]
    rfl
  | @funcDeclaration f i o c k t list body row _ _ _ opens named begins listed ends colon inner _ _ bodyIH rowIH =>
    obtain ⟨listFine, wrapped⟩ := listed.fine_parameters rfl
    obtain ⟨type, rest⟩ := List.isChain_cons_cons.mp typed.tail.tail.tail.right_of_append.tail
    rw [misread_neutral opens, misread_neutral named, ← List.cons_append, misread_around ends,
      fine_opened (by simp [begins]) listFine wrapped, misread_neutral colon, misread_neutral (type colon),
      fine_single inner (bodyIH rest.tail.left_of_append (by simp)), rowIH rest.tail.right_of_append (by simp)]
    rfl
  | _ => simp at commands

end Derives

/-- A program of the documented grammar is parsed up to the token after it exactly if no part of it is taken for a call
that is none. -/
theorem documented_parses_iff {row : List Token} (documented : Documented .block row) (last : Token) :
    (∃ tree, Rule.program.parseTokens (row ++ [last]) = .ok (tree, ⟨last, [], row.length⟩)) ↔ misread row = false := by
  constructor
  · intro ⟨tree, parsed⟩
    obtain ⟨command, read, rest, _, split, index, derived⟩ := parseTokens_reads parsed
    have same : row = read := List.append_inj_left split index
    rw [same]
    rw [same] at documented
    have typed := documented.typedWithin [] .nil
    rw [List.append_nil] at typed
    exact derived.fine_of_typed typed (by simp)
  · intro fine
    obtain ⟨command, derived⟩ := documented.derives fine
    exact ⟨_, parseTokens_of_derives derived documented.inside last⟩

/-- The tokens of `let var x: Integer; in x := ((1));`. -/
def doubleParens : List Token :=
  [.plain .kwLet 0, .plain .kwVar 4, ⟨.identifier, .text "x", 8⟩, .plain .colon 9, ⟨.identifier, .text "Integer", 11⟩,
   .plain .semicolon 18, .plain .kwIn 20, ⟨.identifier, .text "x", 23⟩, .plain .becomes 25, .plain .leftParen 28,
   .plain .leftParen 29, ⟨.integer, .number 1, 30⟩, .plain .rightParen 31, .plain .rightParen 32, .plain .semicolon 33]

theorem doubleParens_unread : Documented .block doubleParens ∧
    ¬ ∃ tree, Rule.program.parseTokens (doubleParens ++ [.plain .endOfText 34]) =
      .ok (tree, ⟨.plain .endOfText 34, [], doubleParens.length⟩) := by
  have one : Documented .expression [⟨.integer, .number 1, 30⟩] := .value (.oneTerm (.oneFactor (.integer rfl)))
  have inner : Documented .expression [.plain .leftParen 29, ⟨.integer, .number 1, 30⟩, .plain .rightParen 31] :=
    .value (.oneTerm (.oneFactor (.parenthesis rfl one rfl)))
  have outer : Documented .expression [.plain .leftParen 28, .plain .leftParen 29, ⟨.integer, .number 1, 30⟩,
      .plain .rightParen 31, .plain .rightParen 32] := .value (.oneTerm (.oneFactor (.parenthesis rfl inner rfl)))
  have documented : Documented .block doubleParens :=
    .scope rfl (.varDeclaration rfl rfl rfl rfl rfl .noDeclaration) (by simp) rfl
      (.singleSimple (.assignment rfl rfl outer) rfl)
  refine ⟨documented, ?_⟩
  rw [documented_parses_iff documented]
  decide

end MiniTriangle
