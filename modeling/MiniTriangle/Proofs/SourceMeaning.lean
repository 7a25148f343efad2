import MiniTriangle.Proofs.Values
import MiniTriangle.Tree

/-! The meaning of programs without functions, by lexical scoping. A name means its innermost binding, a `let`
adds bindings for its body only, and nothing is renamed. Each run of a loop is given a number of rounds, so that
the meaning of a program is a function of this number. -/

namespace MiniTriangle

/-- The bindings in force, the innermost first, and what was printed. -/
structure World where
  bindings : List (String × Value)
  printed : String

inductive Result where
  | goesOn (world : World)
  | stops (ending : Ending)

namespace Source

def andThen (result : Result) (next : World → Result) : Result :=
  match result with
  | .goesOn world => next world
  | .stops ending => .stops ending

/-- Goes on with a value, or fails with what was printed before. -/
def withValue (value : Except Fault Value) (printed : String) (next : Value → Result) : Result :=
  match value with
  | .ok value => next value
  | .error fault => .stops (.failed fault printed)

def operate (operator : String) (left right : Value) : Except Fault Value :=
  match operator with
  | "+" => left.add right
  | "-" => left.subtract right
  | "*" => left.multiply right
  | "/" => left.divide right
  | "\\" => left.modulo right
  | "<" => left.less right
  | ">" => left.greater right
  | "=" => left.equal right
  | _ => .error .malformed

def evaluate (bindings : List (String × Value)) : Tree → Except Fault Value
  | .integer (.number amount) => .ok (.number amount)
  | .reference (.name (.text name)) =>
    match bindings.lookup name with
    | some value => .ok value
    | none => .error .unbound
  | .unary (.text "+") operand => evaluate bindings operand
  | .binary left (.text operator) right => do
    let first ← evaluate bindings left
    let second ← evaluate bindings right
    operate operator first second
  | _ => .error .malformed

def assign (name : String) (value : Value) : List (String × Value) → List (String × Value)
  | [] => []
  | binding :: rest => if binding.1 = name then (name, value) :: rest else binding :: assign name value rest

def bind (name : String) (value : Value) (world : World) : World :=
  { world with bindings := (name, value) :: world.bindings }

def declare : Tree → World → Result
  | .absent, world => .goesOn world
  | .varDecl (.text name) _, world => .goesOn (bind name .nothing world)
  | .constDecl (.text name) value, world =>
    withValue (evaluate world.bindings value) world.printed fun value => .goesOn (bind name value world)
  | .declarations first second, world => andThen (declare first world) (declare second)
  | _, world => .stops (.failed .malformed world.printed)

def rounds (test : World → Except Fault Value) (body : World → Result) : Nat → World → Result
  | 0, world => .stops (.unfinished world.printed)
  | more + 1, world =>
    withValue (test world) world.printed fun value =>
      if value.isTrue then andThen (body world) (rounds test body more) else .goesOn world

def leave (count : Nat) (world : World) : World :=
  { world with bindings := world.bindings.drop (world.bindings.length - count) }

def execute (fuel : Nat) : Tree → World → Result
  | .assign (.name (.text name)) value, world =>
    withValue (evaluate world.bindings value) world.printed fun value =>
      .goesOn { world with bindings := assign name value world.bindings }
  | .call (.text "putint") (.parameter argument _), world =>
    withValue (evaluate world.bindings argument) world.printed fun value =>
      .goesOn { world with printed := world.printed ++ value.render ++ "\n" }
  | .sequence first second, world => andThen (execute fuel first world) (execute fuel second)
  | .ifElse test yes no, world =>
    withValue (evaluate world.bindings test) world.printed fun value =>
      if value.isTrue then execute fuel yes world else execute fuel no world
  | .whileDo test body, world =>
    rounds (fun world => evaluate world.bindings test) (execute fuel body) fuel world
  | .letIn declared body, world =>
    andThen (andThen (declare declared world) (execute fuel body)) fun inner =>
      .goesOn (leave world.bindings.length inner)
  | .returns value, world =>
    withValue (evaluate world.bindings value) world.printed fun value => .stops (.returned value world.printed)
  | _, world => .stops (.failed .malformed world.printed)

/-- The meaning of a program; one that comes to its end returns nothing. -/
def run (tree : Tree) (fuel : Nat) : Ending :=
  match tree with
  | .program command =>
    match execute fuel command ⟨[], ""⟩ with
    | .goesOn world => .returned .nothing world.printed
    | .stops ending => ending
  | _ => .failed .malformed ""

end Source

end MiniTriangle
