import MiniTriangle.Proofs.Completions
import Mathlib.Data.List.Chain

/-! The grammar as it is documented. It is the grammar of the parser without a look at the token ahead, and with names
in all the places of names, which the parser does not insist on. -/

namespace MiniTriangle

open Parse

/-- The rows of tokens of each sort. Nothing here looks ahead, and the names of types and targets are identifiers. -/
inductive Documented : Phrase → List Token → Prop where
  | conditional {i t e : Token} {test yes no : List Token} (opens : i.kind = .kwIf)
      (tested : Documented .expression test) (thens : t.kind = .kwThen) (accepted : Documented .single yes)
      (elses : e.kind = .kwElse) (rejected : Documented .single no) :
      Documented .block (i :: (test ++ t :: (yes ++ e :: no)))
  | loop {w d : Token} {test body : List Token} (opens : w.kind = .kwWhile) (tested : Documented .expression test)
      (does : d.kind = .kwDo) (repeated : Documented .single body) : Documented .block (w :: (test ++ d :: body))
  | scope {l i : Token} {declared body : List Token} (opens : l.kind = .kwLet)
      (declares : Documented .declarations declared) (some : declared ≠ []) (ins : i.kind = .kwIn)
      (inner : Documented .single body) : Documented .block (l :: (declared ++ i :: body))
  | compound {b e : Token} {body : List Token} (opens : b.kind = .kwBegin) (inner : Documented .command body)
      (closes : e.kind = .kwEnd) : Documented .block (b :: (body ++ [e]))
  | lastSingle {row : List Token} (only : Documented .single row) : Documented .command row
  | sequence {row rest : List Token} (begins : Documented .single row) (more : Documented .command rest) :
      Documented .command (row ++ rest)
  | singleBlock {row : List Token} (inner : Documented .block row) : Documented .single row
  | singleSimple {row : List Token} {s : Token} (inner : Documented .simple row) (closes : s.kind = .semicolon) :
      Documented .single (row ++ [s])
  | assignment {t b : Token} {row : List Token} (named : t.kind = .identifier) (becomes : b.kind = .becomes)
      (value : Documented .expression row) : Documented .simple (t :: b :: row)
  | callCommand {f o c : Token} {row : List Token} (named : f.kind = .identifier) (opens : o.kind = .leftParen)
      (inner : Documented .arguments row) (closes : c.kind = .rightParen) : Documented .simple (f :: o :: (row ++ [c]))
  | returning {r : Token} {row : List Token} (returns : r.kind = .kwReturn) (value : Documented .expression row) :
      Documented .simple (r :: row)
  | noDeclaration : Documented .declarations []
  | varDeclaration {v i c t s : Token} {row : List Token} (opens : v.kind = .kwVar) (named : i.kind = .identifier)
      (colon : c.kind = .colon) (typed : t.kind = .identifier) (closes : s.kind = .semicolon)
      (more : Documented .declarations row) : Documented .declarations (v :: i :: c :: t :: s :: row)
  | constDeclaration {k i e s : Token} {value row : List Token} (opens : k.kind = .kwConst)
      (named : i.kind = .identifier) (equals : e.kind = .tilde) (valued : Documented .expression value)
      (closes : s.kind = .semicolon) (more : Documented .declarations row) :
      Documented .declarations (k :: i :: e :: (value ++ s :: row))
  | funcDeclaration {f i o c k t : Token} {list body row : List Token} (opens : f.kind = .kwFunc)
      (named : i.kind = .identifier) (begins : o.kind = .leftParen) (listed : Documented .parameters list)
      (ends : c.kind = .rightParen) (colon : k.kind = .colon) (typed : t.kind = .identifier)
      (inner : Documented .single body) (more : Documented .declarations row) :
      Documented .declarations (f :: i :: o :: (list ++ c :: k :: t :: (body ++ row)))
  | oneParameter {i c t : Token} (named : i.kind = .identifier) (colon : c.kind = .colon)
      (typed : t.kind = .identifier) : Documented .parameters [i, c, t]
  | moreParameters {row : List Token} {m i c t : Token} (before : Documented .parameters row) (comma : m.kind = .comma)
      (named : i.kind = .identifier) (colon : c.kind = .colon) (typed : t.kind = .identifier) :
      Documented .parameters (row ++ [m, i, c, t])
  | oneArgument {row : List Token} (only : Documented .expression row) : Documented .arguments row
  | moreArguments {row next : List Token} {m : Token} (before : Documented .arguments row) (comma : m.kind = .comma)
      (last : Documented .expression next) : Documented .arguments (row ++ m :: next)
  | call {f o c : Token} {row : List Token} (named : f.kind = .identifier) (opens : o.kind = .leftParen)
      (inner : Documented .arguments row) (closes : c.kind = .rightParen) :
      Documented .expression (f :: o :: (row ++ [c]))
  | value {row : List Token} (inner : Documented .sum row) : Documented .expression row
  | oneTerm {row : List Token} (only : Documented .product row) : Documented .sum row
  | add {row next : List Token} {o : Token} (before : Documented .sum row) (sign : o.IsOperator ["+", "-", "<", ">", "="])
      (last : Documented .product next) : Documented .sum (row ++ o :: next)
  | oneFactor {row : List Token} (only : Documented .factor row) : Documented .product row
  | multiply {row next : List Token} {o : Token} (before : Documented .product row)
      (sign : o.IsOperator ["*", "/", "\\"]) (last : Documented .factor next) : Documented .product (row ++ o :: next)
  | integer {t : Token} (written : t.kind = .integer) : Documented .factor [t]
  | reference {t : Token} (named : t.kind = .identifier) : Documented .factor [t]
  | unary {o : Token} {row : List Token} (sign : o.kind = .operator) (operand : Documented .factor row) :
      Documented .factor (o :: row)
  | parenthesis {o c : Token} {row : List Token} (opens : o.kind = .leftParen) (inner : Documented .expression row)
      (closes : c.kind = .rightParen) : Documented .factor (o :: (row ++ [c]))

namespace Documented

variable {phrase : Phrase} {row : List Token}

theorem inside (documented : Documented phrase row) : Inside row := by
  induction documented with
  | _ => simp_all [Inside, Token.IsOperator, or_imp]

/-- No command starts with the word that ends one. -/
theorem head_ne_end (documented : Documented phrase row)
    (commands : phrase = .block ∨ phrase = .command ∨ phrase = .single ∨ phrase = .simple) :
    ∃ first rest, row = first :: rest ∧ first.kind ≠ .kwEnd := by
  induction documented with
  | conditional opens | loop opens | scope opens | compound opens | assignment opens | callCommand opens | returning opens =>
    exact ⟨_, _, rfl, by simp [opens]⟩
  | lastSingle _ ih | singleBlock _ ih => exact ih (by simp)
  | sequence _ _ ih =>
    obtain ⟨first, others, rfl, other⟩ := ih (by simp)
    exact ⟨first, _, rfl, other⟩
  | singleSimple _ _ ih =>
    obtain ⟨first, others, rfl, other⟩ := ih (by simp)
    exact ⟨first, _, rfl, other⟩
  | _ => simp at commands

end Documented

def Typed (row : List Token) : Prop := row.IsChain fun token next => token.kind = .colon → next.kind = .identifier

/-- Rows that stay typed before any other. -/
def TypedWithin (row : List Token) : Prop := ∀ rest, Typed rest → Typed (row ++ rest)

namespace TypedWithin

variable {token : Token} {row rest : List Token}

theorem nil : TypedWithin [] := fun _ typed => typed

theorem append (first : TypedWithin row) (second : TypedWithin rest) : TypedWithin (row ++ rest) := by
  intro more typed
  rw [List.append_assoc]
  exact first _ (second more typed)

theorem cons {kind : Kind} (typed : TypedWithin row) (is : token.kind = kind) (other : kind ≠ .colon := by decide) :
    TypedWithin (token :: row) := by
  intro more moreTyped
  have inner := typed more moreTyped
  show Typed (token :: (row ++ more))
  generalize row ++ more = whole at inner ⊢
  cases whole with
  | nil => exact List.isChain_singleton token
  | cons next whole => exact List.isChain_cons_cons.mpr ⟨fun colon => absurd (is.symm.trans colon) other, inner⟩

theorem named (typed : TypedWithin row) {c t : Token} (_ : c.kind = .colon) (type : t.kind = .identifier) :
    TypedWithin (c :: t :: row) := by
  intro more moreTyped
  have inner := typed.cons type (by decide) more moreTyped
  exact List.isChain_cons_cons.mpr ⟨fun _ => type, inner⟩

end TypedWithin

/-- In the documented grammar a type is a name. -/
theorem Documented.typedWithin {phrase : Phrase} {row : List Token} (documented : Documented phrase row) :
    TypedWithin row := by
  induction documented with
  | conditional opens _ thens _ elses _ testIH yesIH noIH =>
    have second := yesIH.append (noIH.cons elses)
    exact (testIH.append (second.cons thens)).cons opens
  | loop opens _ does _ testIH bodyIH => exact (testIH.append (bodyIH.cons does)).cons opens
  | scope opens _ _ ins _ declaredIH bodyIH =>
    exact (declaredIH.append (bodyIH.cons ins)).cons opens
  | compound opens _ closes bodyIH =>
    exact (bodyIH.append (TypedWithin.nil.cons closes)).cons opens
  | lastSingle _ ih | singleBlock _ ih | oneArgument _ ih | value _ ih | oneTerm _ ih | oneFactor _ ih => exact ih
  | sequence _ _ rowIH restIH => exact rowIH.append restIH
  | singleSimple _ closes ih => exact ih.append (TypedWithin.nil.cons closes)
  | assignment named becomes _ ih => exact (ih.cons becomes).cons named
  | callCommand named opens _ closes ih | call named opens _ closes ih =>
    have list := ih.append (TypedWithin.nil.cons closes)
    exact (list.cons opens).cons named
  | returning returns _ ih => exact ih.cons returns
  | noDeclaration => exact .nil
  | varDeclaration opens named colon typed closes _ ih =>
    exact (((ih.cons closes).named colon typed).cons named).cons opens
  | constDeclaration opens named equals _ closes _ valueIH rowIH =>
    have value := valueIH.append (rowIH.cons closes)
    exact ((value.cons equals).cons named).cons opens
  | funcDeclaration opens named begins _ ends colon typed _ _ listIH bodyIH rowIH =>
    have type := ((bodyIH.append rowIH).named colon typed).cons ends
    exact (((listIH.append type).cons begins).cons named).cons opens
  | oneParameter named colon typed => exact (TypedWithin.nil.named colon typed).cons named
  | moreParameters _ comma named colon typed ih =>
    exact ih.append (((TypedWithin.nil.named colon typed).cons named).cons comma)
  | moreArguments _ comma _ rowIH nextIH => exact rowIH.append (nextIH.cons comma)
  | add _ sign _ rowIH nextIH | multiply _ sign _ rowIH nextIH => exact rowIH.append (nextIH.cons sign.1)
  | integer kind | reference kind => exact TypedWithin.nil.cons kind
  | unary sign _ ih => exact ih.cons sign
  | parenthesis opens _ closes ih =>
    exact (ih.append (TypedWithin.nil.cons closes)).cons opens

end MiniTriangle
