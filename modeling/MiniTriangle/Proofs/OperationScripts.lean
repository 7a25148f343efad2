import MiniTriangle.Proofs.Sequencing
import MiniTriangle.Session
import Mathlib.Data.List.Forall2

/-! Calls told by the operations they perform. The state survives failures, so what a call has done to it at any moment
is what its operations so far have done. A script chooses every operation by the replies to those before it; it tells a
call if it comes to the same end from every state. Scripts compose as calls do, and the script of every request tells the
operations of a whole session. -/

namespace MiniTriangle

open Sequencing

structure Interface (Error State : Type) where
  Operation : Type
  Reply : Operation → Type
  perform : (operation : Operation) → EStateM Error State (Reply operation)

variable {Error State Other α β : Type}

def endState : EStateM.Result Error State α → State
  | .ok _ state | .error _ state => state

/-- Two calls give the same answer or fail for the same cause, and leave states that match. -/
inductive SameEnd (matching : State → Other → Prop) :
    EStateM.Result Error State α → EStateM.Result Error Other α → Prop where
  | ok {state : State} {other : Other} (answer : α) (matched : matching state other) :
      SameEnd matching (.ok answer state) (.ok answer other)
  | error {state : State} {other : Other} (cause : Error) (matched : matching state other) :
      SameEnd matching (.error cause state) (.error cause other)

theorem SameEnd.endState {matching : State → Other → Prop} {first : EStateM.Result Error State α}
    {second : EStateM.Result Error Other α} (same : SameEnd matching first second) :
    matching (MiniTriangle.endState first) (MiniTriangle.endState second) := by
  cases same with
  | ok answer matched => exact matched
  | error cause matched => exact matched

def Interface.after (interface : Interface Error State) (state : State) (operations : List interface.Operation) : State :=
  operations.foldl (fun state operation => endState (interface.perform operation state)) state

namespace Interface

variable {interface : Interface Error State}

theorem after_append (state : State) (first second : List interface.Operation) :
    interface.after state (first ++ second) = interface.after (interface.after state first) second :=
  List.foldl_append

/-- What every operation keeps holds at every moment. -/
theorem after_keeps {holds : State → Prop}
    (kept : ∀ operation state, holds state → holds (endState (interface.perform operation state)))
    (operations : List interface.Operation) {state : State} (begins : holds state) :
    holds (interface.after state operations) := by
  induction operations generalizing state with
  | nil => exact begins
  | cons operation rest ih => exact ih (kept operation state begins)

end Interface

/-- A call as a row of operations, each chosen by the replies to those before it, up to an answer or a failure. -/
inductive Script (interface : Interface Error State) (α : Type) where
  | give (answer : α)
  | fail (cause : Error)
  | call (operation : interface.Operation) (next : interface.Reply operation → Script interface α)

namespace Script

variable {interface : Interface Error State}

def run : Script interface α → EStateM Error State α
  | .give answer => pure answer
  | .fail cause => throw cause
  | .call operation next => do (next (← interface.perform operation)).run

/-- The operations that a script performs from a state, the last of which may have failed. -/
def performed : Script interface α → State → List interface.Operation
  | .give _, _ | .fail _, _ => []
  | .call operation next, state =>
    operation ::
      match interface.perform operation state with
      | .ok reply state => (next reply).performed state
      | .error _ _ => []

def bind : Script interface α → (α → Script interface β) → Script interface β
  | .give answer, more => more answer
  | .fail cause, _ => .fail cause
  | .call operation next, more => .call operation fun reply => (next reply).bind more

theorem run_bind (script : Script interface α) (more : α → Script interface β) :
    (script.bind more).run = script.run >>= fun answer => (more answer).run := by
  induction script with
  | give answer => exact (pure_bind answer fun answer => (more answer).run).symm
  | fail cause => rfl
  | call operation next ih =>
    simp only [bind, run, bind_assoc]
    exact congrArg (interface.perform operation >>= ·) (funext ih)

/-- The operations that a script performs lead to the state in which it ends. -/
theorem endState_run (script : Script interface α) (state : State) :
    endState (script.run state) = interface.after state (script.performed state) := by
  induction script generalizing state with
  | give answer => rfl
  | fail cause => rfl
  | call operation next ih =>
    rw [run, performed, Interface.after, List.foldl_cons]
    cases ran : interface.perform operation state with
    | ok reply middle =>
      rw [bind_ok ran]
      exact ih reply middle
    | error cause middle =>
      rw [bind_error ran]
      rfl

/-- The script over states of another kind, on which the operations are performed in a way of their own. -/
def runOn (perform : (operation : interface.Operation) → EStateM Error Other (interface.Reply operation)) :
    Script interface α → EStateM Error Other α
  | .give answer => pure answer
  | .fail cause => throw cause
  | .call operation next => do (next (← perform operation)).runOn perform

/-- If every operation comes to the same end on states that match, so does every script. -/
theorem runOn_sameEnd {matching : State → Other → Prop}
    {perform : (operation : interface.Operation) → EStateM Error Other (interface.Reply operation)}
    (step : ∀ operation state other, matching state other →
      SameEnd matching (interface.perform operation state) (perform operation other))
    (script : Script interface α) {state : State} {other : Other} (matched : matching state other) :
    SameEnd matching (script.run state) (script.runOn perform other) := by
  induction script generalizing state other with
  | give answer => exact .ok answer matched
  | fail cause => exact .error cause matched
  | call operation next ih =>
    have first := step operation state other matched
    rw [run, runOn]
    generalize ran : interface.perform operation state = result, otherRan : perform operation other = otherResult at first
    cases first with
    | ok reply matched =>
      rw [bind_ok ran, bind_ok otherRan]
      exact ih reply matched
    | error cause matched =>
      rw [bind_error ran, bind_error otherRan]
      exact .error cause matched

/-- From every state the script comes to the same end as the call, unless the call fails without ever coming back. -/
def Tells (script : Script interface α) (final : Error → Bool) (call : EStateM Error State α) : Prop :=
  ∀ state, (∀ cause later, call state = .error cause later → final cause = false) → script.run state = call state

/-- Where every call comes back, the script is the call. -/
theorem tells_iff {script : Script interface α} {call : EStateM Error State α} :
    script.Tells (fun _ => false) call ↔ script.run = call :=
  ⟨fun tells => funext fun state => tells state fun _ _ _ => rfl, fun same state _ => congrFun same state⟩

end Script

/-- Some script tells the call, so it is made of nothing but the operations. -/
def Scripted (interface : Interface Error State) (final : Error → Bool) (call : EStateM Error State α) : Prop :=
  ∃ script : Script interface α, script.Tells final call

namespace Scripted

variable {interface : Interface Error State} {final : Error → Bool}

theorem pure (answer : α) : Scripted interface final (Pure.pure answer) := ⟨.give answer, fun _ _ => rfl⟩

theorem throw (cause : Error) : Scripted interface final (MonadExcept.throw cause : EStateM Error State α) :=
  ⟨.fail cause, fun _ _ => rfl⟩

theorem operation (interface : Interface Error State) (operation : interface.Operation) :
    Scripted interface final (interface.perform operation) :=
  ⟨.call operation .give, fun state _ => congrFun (bind_pure (interface.perform operation)) state⟩

theorem bind {first : EStateM Error State α} {next : α → EStateM Error State β}
    (scripted : Scripted interface final first) (rest : ∀ value, Scripted interface final (next value)) :
    Scripted interface final (first >>= next) := by
  obtain ⟨script, tells⟩ := scripted
  obtain ⟨scripts, tell⟩ := Classical.axiomOfChoice rest
  refine ⟨script.bind scripts, ?_⟩
  intro state lasting
  have begun : script.run state = first state := by
    apply tells
    intro cause later failed
    exact lasting cause later (bind_error failed)
  rw [Script.run_bind]
  cases ran : first state with
  | ok value middle =>
    rw [bind_ok ran] at lasting ⊢
    rw [bind_ok (begun.trans ran)]
    exact tell value middle lasting
  | error cause middle => rw [bind_error ran, bind_error (begun.trans ran)]

/-- A call that comes to the same end as another one, wherever it comes back, is told by the same script. -/
theorem congr {call other : EStateM Error State α} (scripted : Scripted interface final other)
    (same : ∀ state, (∀ cause later, call state = .error cause later → final cause = false) → other state = call state) :
    Scripted interface final call := by
  obtain ⟨script, tells⟩ := scripted
  refine ⟨script, ?_⟩
  intro state lasting
  have agree := same state lasting
  rw [← agree] at lasting ⊢
  exact tells state lasting

theorem choice {condition : Prop} [Decidable condition] {yes no : EStateM Error State α}
    (taken : Scripted interface final yes) (otherwise : Scripted interface final no) :
    Scripted interface final (if condition then yes else no) := by
  split
  · exact taken
  · exact otherwise

end Scripted

section Sessions

variable {interface : Interface Error State} {Request Reply : Type}

def lastState (state : State) (answers : List (Answer Error State Reply)) : State :=
  answers.foldl (fun _ answer => answer.state) state

def sessionOperations (script : Request → Script interface Reply) (final : Error → Bool) :
    List Request → State → List interface.Operation
  | [], _ => []
  | request :: rest, state =>
    (script request).performed state ++
      match (script request).run state with
      | .ok _ state => sessionOperations script final rest state
      | .error cause state => if final cause then [] else sessionOperations script final rest state

variable {answer : Request → EStateM Error State Reply} {script : Request → Script interface Reply} {final : Error → Bool}

/-- In a session in which every call comes back, a request is answered by its script. -/
private theorem run_eq_answer (tells : ∀ request, (script request).Tells final (answer request)) {request : Request}
    {rest : List Request} {state : State}
    (lasting : ∀ given ∈ session answer final (request :: rest) state, ∀ cause,
      given.outcome = .error cause → final cause = false) :
    (script request).run state = answer request state := by
  apply tells
  intro cause later failed
  rw [session, failed] at lasting
  exact lasting _ List.mem_cons_self cause rfl

/-- The operations of a session in which every call comes back lead to the state that its answers leave. -/
theorem lastState_session (tells : ∀ request, (script request).Tells final (answer request)) (requests : List Request)
    (state : State)
    (lasting : ∀ given ∈ session answer final requests state, ∀ cause, given.outcome = .error cause → final cause = false) :
    lastState state (session answer final requests state) =
      interface.after state (sessionOperations script final requests state) := by
  induction requests generalizing state with
  | nil => rfl
  | cons request rest ih =>
    have same := run_eq_answer tells lasting
    have ended := (script request).endState_run state
    rw [same] at ended
    rw [sessionOperations, Interface.after_append, ← ended, same]
    rw [session] at lasting ⊢
    cases ran : answer request state with
    | ok reply middle =>
      rw [ran] at lasting
      exact ih middle fun given member => lasting given (List.mem_cons_of_mem _ member)
    | error cause middle =>
      rw [ran] at lasting
      have comesBack : final cause = false := lasting _ List.mem_cons_self cause rfl
      simp only [comesBack] at lasting ⊢
      exact ih middle fun given member => lasting given (List.mem_cons_of_mem _ member)

/-- On matching states the scripts give the same answers, and the states after them match. -/
theorem session_matches (tells : ∀ request, (script request).Tells final (answer request)) {matching : State → Other → Prop}
    {perform : (operation : interface.Operation) → EStateM Error Other (interface.Reply operation)}
    (step : ∀ operation state other, matching state other →
      SameEnd matching (interface.perform operation state) (perform operation other))
    (requests : List Request) {state : State} {other : Other} (matched : matching state other)
    (lasting : ∀ given ∈ session answer final requests state, ∀ cause, given.outcome = .error cause → final cause = false) :
    List.Forall₂ (fun given shown => given.outcome = shown.outcome ∧ matching given.state shown.state)
      (session answer final requests state)
      (session (fun request => (script request).runOn perform) final requests other) := by
  induction requests generalizing state other with
  | nil => exact .nil
  | cons request rest ih =>
    have ends := (script request).runOn_sameEnd step matched
    rw [run_eq_answer tells lasting] at ends
    rw [session] at lasting ⊢
    rw [session]
    generalize answer request state = result, (script request).runOn perform other = otherResult at ends lasting ⊢
    cases ends with
    | ok reply matched =>
      refine .cons ⟨rfl, matched⟩ (ih matched ?_)
      exact fun given member => lasting given (List.mem_cons_of_mem _ member)
    | error cause matched =>
      have comesBack : final cause = false := lasting _ List.mem_cons_self cause rfl
      simp only [comesBack] at lasting ⊢
      refine .cons ⟨rfl, matched⟩ (ih matched ?_)
      exact fun given member => lasting given (List.mem_cons_of_mem _ member)

end Sessions

end MiniTriangle
