import MiniTriangle.Text.Decimal

/-! The values of running programs, the operations on them, and how a run may stand. Source programs and their
code compute with the same values, so both meanings are built on these. -/

namespace MiniTriangle

inductive Value where
  /-- What a variable holds before it is assigned. -/
  | nothing
  | truth (holds : Bool)
  | number (amount : Int)
  deriving DecidableEq

inductive Fault where
  /-- An operation on values that it does not have. -/
  | unsupported
  | zeroDivision
  /-- A variable that holds no value. -/
  | unbound
  /-- A program or code without a meaning. -/
  | malformed
  deriving DecidableEq

/-- How a run stands, with all that it printed. -/
inductive Ending where
  | returned (value : Value) (printed : String)
  | failed (fault : Fault) (printed : String)
  /-- The run goes on after the steps it was given. -/
  | unfinished (printed : String)
  deriving DecidableEq

def Ending.printed : Ending → String
  | .returned _ printed | .failed _ printed | .unfinished printed => printed

def Ending.isFinished : Ending → Bool
  | .unfinished _ => false
  | _ => true

namespace Value

def amount? : Value → Option Int
  | .nothing => none
  | .truth holds => some (if holds then 1 else 0)
  | .number amount => some amount

def isTrue : Value → Bool
  | .nothing => false
  | .truth holds => holds
  | .number amount => amount ≠ 0

def render : Value → String
  | .nothing => "None"
  | .truth true => "True"
  | .truth false => "False"
  | .number amount => Text.decimal amount

private def combine (operation : Int → Int → Except Fault Int) (left right : Value) : Except Fault Value :=
  match left.amount?, right.amount? with
  | some a, some b => (operation a b).map .number
  | _, _ => .error .unsupported

def add : Value → Value → Except Fault Value := combine fun a b => .ok (a + b)

def subtract : Value → Value → Except Fault Value := combine fun a b => .ok (a - b)

def multiply : Value → Value → Except Fault Value := combine fun a b => .ok (a * b)

/-- The quotient rounded down. -/
def divide : Value → Value → Except Fault Value :=
  combine fun a b => if b = 0 then .error .zeroDivision else .ok (a.fdiv b)

/-- The remainder of the quotient rounded down, with the sign of the divisor. -/
def modulo : Value → Value → Except Fault Value :=
  combine fun a b => if b = 0 then .error .zeroDivision else .ok (a.fmod b)

/-- Nothing comes before every number. -/
def less (left right : Value) : Except Fault Value :=
  .ok <| .truth <| match left.amount?, right.amount? with
    | none, other => other.isSome
    | some _, none => false
    | some a, some b => a < b

def greater (left right : Value) : Except Fault Value := less right left

def equal (left right : Value) : Except Fault Value := .ok (.truth (left.amount? = right.amount?))

end Value

end MiniTriangle
