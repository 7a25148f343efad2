/-! Sessions: a row of requests to one state. Each request is answered from the state that the one before
it left, also where that one failed. -/

namespace MiniTriangle

variable {Request Reply Error State : Type}

/-- One answered request with the state after it. -/
structure Answer (Error State Reply : Type) where
  outcome : Except Error Reply
  state : State

/-- Answers the requests in order. A failure that never comes back ends the session. -/
def session (answer : Request → EStateM Error State Reply) (final : Error → Bool) :
    List Request → State → List (Answer Error State Reply)
  | [], _ => []
  | request :: rest, state =>
    match answer request state with
    | .ok reply state => ⟨.ok reply, state⟩ :: session answer final rest state
    | .error cause state => ⟨.error cause, state⟩ :: if final cause then [] else session answer final rest state

end MiniTriangle
