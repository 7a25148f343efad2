import MiniTriangle.Token
import MiniTriangle.Tree

/-! The grammar as derivations: which rows of tokens are phrases of each sort, and the tree of each. Nothing
here looks ahead; where the choice of a rule depends on a token, the rule says so. -/

namespace MiniTriangle

/-- The sorts of phrase. Sums and products are rows of terms and factors with their operators. -/
inductive Phrase where
  | block
  | command
  | single
  | simple
  | declarations
  | parameters
  | arguments
  | expression
  | sum
  | product
  | factor

def Token.IsOperator (token : Token) (signs : List String) : Prop :=
  token.kind = .operator ∧ ∃ sign ∈ signs, token.value = .text sign

def Kind.StartsBlock (kind : Kind) : Prop :=
  kind = .kwIf ∨ kind = .kwWhile ∨ kind = .kwLet ∨ kind = .kwBegin

inductive Derives : Phrase → List Token → Tree → Prop where
  | conditional {i t e : Token} {test yes no : List Token} {testTree yesTree noTree : Tree}
      (opens : i.kind = .kwIf) (tested : Derives .expression test testTree)
      (thens : t.kind = .kwThen) (accepted : Derives .single yes yesTree)
      (elses : e.kind = .kwElse) (rejected : Derives .single no noTree) :
      Derives .block (i :: (test ++ t :: (yes ++ e :: no))) (.ifElse testTree yesTree noTree)
  | loop {w d : Token} {test body : List Token} {testTree bodyTree : Tree}
      (opens : w.kind = .kwWhile) (tested : Derives .expression test testTree)
      (does : d.kind = .kwDo) (repeated : Derives .single body bodyTree) :
      Derives .block (w :: (test ++ d :: body)) (.whileDo testTree bodyTree)
  | scope {l i : Token} {declared body : List Token} {declaredTree bodyTree : Tree}
      (opens : l.kind = .kwLet) (declares : Derives .declarations declared declaredTree)
      (ins : i.kind = .kwIn) (inner : Derives .single body bodyTree) :
      Derives .block (l :: (declared ++ i :: body)) (.letIn declaredTree bodyTree)
  | compound {b e : Token} {body : List Token} {tree : Tree}
      (opens : b.kind = .kwBegin) (inner : Derives .command body tree) (closes : e.kind = .kwEnd) :
      Derives .block (b :: (body ++ [e])) tree
  | lastSingle {row : List Token} {tree : Tree} (only : Derives .single row tree) : Derives .command row tree
  | sequence {row rest : List Token} {first second : Tree}
      (begins : Derives .single row first) (more : Derives .command rest second)
      (goingOn : ∀ token ∈ rest.head?, token.kind ≠ .kwEnd) :
      Derives .command (row ++ rest) (.sequence first second)
  | singleBlock {row : List Token} {tree : Tree} (inner : Derives .block row tree) : Derives .single row tree
  | singleSimple {row : List Token} {s : Token} {tree : Tree} (inner : Derives .simple row tree)
      (other : ∀ token ∈ row.head?, ¬ token.kind.StartsBlock) (closes : s.kind = .semicolon) :
      Derives .single (row ++ [s]) tree
  | assignment {t b : Token} {row : List Token} {tree : Tree}
      (becomes : b.kind = .becomes) (value : Derives .expression row tree) :
      Derives .simple (t :: b :: row) (.assign (.name (.atom t.value)) tree)
  | callCommand {f o c : Token} {row : List Token} {list : Tree} (named : f.kind = .identifier)
      (opens : o.kind = .leftParen) (inner : Derives .arguments row list) (closes : c.kind = .rightParen) :
      Derives .simple (f :: o :: (row ++ [c])) (.call (.atom f.value) list)
  | returning {r : Token} {row : List Token} {tree : Tree} (returns : r.kind = .kwReturn)
      (value : Derives .expression row tree) (bare : ∀ token ∈ row.head?, token.kind ≠ .leftParen) :
      Derives .simple (r :: row) (.returns tree)
  | noDeclaration : Derives .declarations [] .absent
  | varDeclaration {v i c t s : Token} {row : List Token} {rest : Tree}
      (opens : v.kind = .kwVar) (named : i.kind = .identifier) (colon : c.kind = .colon)
      (closes : s.kind = .semicolon) (more : Derives .declarations row rest) :
      Derives .declarations (v :: i :: c :: t :: s :: row)
        (.declarations (.varDecl (.atom i.value) (.typeName (.atom t.value))) rest)
  | constDeclaration {k i e s : Token} {value row : List Token} {tree rest : Tree}
      (opens : k.kind = .kwConst) (named : i.kind = .identifier) (equals : e.kind = .tilde)
      (valued : Derives .expression value tree) (closes : s.kind = .semicolon)
      (more : Derives .declarations row rest) :
      Derives .declarations (k :: i :: e :: (value ++ s :: row)) (.declarations (.constDecl (.atom i.value) tree) rest)
  | funcDeclaration {f i o c k t : Token} {list body row : List Token} {names command rest : Tree}
      (opens : f.kind = .kwFunc) (named : i.kind = .identifier) (begins : o.kind = .leftParen)
      (listed : Derives .parameters list names) (ends : c.kind = .rightParen) (colon : k.kind = .colon)
      (inner : Derives .single body command) (more : Derives .declarations row rest) :
      Derives .declarations (f :: i :: o :: (list ++ c :: k :: t :: (body ++ row)))
        (.declarations (.funcDecl (.atom i.value) names (.typeName (.atom t.value)) command) rest)
  | oneParameter {i c t : Token} (named : i.kind = .identifier) (colon : c.kind = .colon) :
      Derives .parameters [i, c, t] (.parameter (.atom i.value) (.typeName (.atom t.value)))
  | moreParameters {row : List Token} {m i c t : Token} {list : Tree} (before : Derives .parameters row list)
      (comma : m.kind = .comma) (named : i.kind = .identifier) (colon : c.kind = .colon) :
      Derives .parameters (row ++ [m, i, c, t])
        (.parameters list (.parameter (.atom i.value) (.typeName (.atom t.value))))
  | oneArgument {row : List Token} {tree : Tree} (only : Derives .expression row tree) :
      Derives .arguments row (.parameter tree .absent)
  | moreArguments {row next : List Token} {m : Token} {list tree : Tree} (before : Derives .arguments row list)
      (comma : m.kind = .comma) (last : Derives .expression next tree) :
      Derives .arguments (row ++ m :: next) (.parameters list (.parameter tree .absent))
  | call {f o c : Token} {row : List Token} {list : Tree} (named : f.kind = .identifier)
      (opens : o.kind = .leftParen) (inner : Derives .arguments row list) (closes : c.kind = .rightParen) :
      Derives .expression (f :: o :: (row ++ [c])) (.call (.atom f.value) list)
  | value {row : List Token} {tree : Tree} (inner : Derives .sum row tree)
      (second : ∀ token ∈ row[1]?, token.kind ≠ .leftParen) : Derives .expression row tree
  | oneTerm {row : List Token} {tree : Tree} (only : Derives .product row tree) : Derives .sum row tree
  | add {row next : List Token} {o : Token} {left right : Tree} (before : Derives .sum row left)
      (sign : o.IsOperator ["+", "-", "<", ">", "="]) (last : Derives .product next right) :
      Derives .sum (row ++ o :: next) (.binary left (.atom o.value) right)
  | oneFactor {row : List Token} {tree : Tree} (only : Derives .factor row tree) : Derives .product row tree
  | multiply {row next : List Token} {o : Token} {left right : Tree} (before : Derives .product row left)
      (sign : o.IsOperator ["*", "/", "\\"]) (last : Derives .factor next right) :
      Derives .product (row ++ o :: next) (.binary left (.atom o.value) right)
  | integer {t : Token} (written : t.kind = .integer) : Derives .factor [t] (.integer (.atom t.value))
  | reference {t : Token} (named : t.kind = .identifier) : Derives .factor [t] (.reference (.name (.atom t.value)))
  | unary {o : Token} {row : List Token} {tree : Tree} (sign : o.kind = .operator)
      (operand : Derives .factor row tree) : Derives .factor (o :: row) (.unary (.atom o.value) tree)
  | parenthesis {o c : Token} {row : List Token} {tree : Tree} (opens : o.kind = .leftParen)
      (inner : Derives .expression row tree) (closes : c.kind = .rightParen) : Derives .factor (o :: (row ++ [c])) tree

end MiniTriangle
