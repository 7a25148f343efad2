import MiniTriangle.Code.Generate
import MiniTriangle.Proofs.RootedScopes
import MiniTriangle.Proofs.Sequencing

/-! What comes of generating code. From a state with its frames and scopes open and every name with a slot, a step either
succeeds and leaves such a state, or refuses the tree. Which of the two happens is decided by a condition, and the
conditions of steps in sequence are joined. -/

namespace MiniTriangle

open Sequencing

/-- A failure that lies in the tree and not in the state. -/
inductive GenerateError.Refuses : GenerateError → Prop where
  | unexpected (tree : Tree) (expected : Expected) : Refuses (.unexpected tree expected)
  | missing (tree : Tree) (part : Part) : Refuses (.missing tree part)
  | negation : Refuses .negation

structure State.Ready (frames scopes : Nat) (state : State) : Prop where
  frames : state.frames.length = frames
  scopes : state.scopes.length = scopes
  rooted : ∀ scope ∈ state.scopes, scope.Rooted

/-- A state with a scope open, taken apart. -/
theorem State.Ready.innermost {frames scopes : Nat} {state : State} (ready : state.Ready frames (scopes + 1)) :
    ∃ scope outer, state.scopes = scope :: outer ∧ outer.length = scopes ∧ scope.Rooted ∧ ∀ other ∈ outer, other.Rooted := by
  obtain ⟨_, length, rooted⟩ := ready
  cases inside : state.scopes with
  | nil =>
    rw [inside] at length
    cases length
  | cons scope outer =>
    rw [inside] at length rooted
    obtain ⟨own, others⟩ := List.forall_mem_cons.mp rooted
    exact ⟨scope, outer, rfl, Nat.succ.inj length, own, others⟩

namespace Generate

/-- The action succeeds exactly under the condition, and refuses otherwise. -/
def Decides {α : Type} (before : State → Prop) (action : Generate α) (fine : Prop) (after : State → Prop) : Prop :=
  ∀ ⦃state : State⦄, before state →
    match action state with
    | .ok _ final => fine ∧ after final
    | .error cause _ => cause.Refuses ∧ ¬ fine

namespace Decides

variable {α β : Type} {before middle after : State → Prop} {first second : Prop}

theorem bind {action : Generate α} {next : α → Generate β} (decides : Decides before action first middle)
    (rest : ∀ value, Decides middle (next value) second after) :
    Decides before (action >>= next) (first ∧ second) after := by
  intro state ready
  have opened := decides ready
  cases ran : action state with
  | error cause final =>
    rw [ran] at opened
    rw [bind_error ran]
    exact ⟨opened.1, fun both => opened.2 both.1⟩
  | ok value final =>
    rw [ran] at opened
    rw [bind_ok ran]
    have closed := rest value opened.2
    cases done : next value final with
    | error cause last =>
      rw [done] at closed
      exact ⟨closed.1, fun both => closed.2 both.2⟩
    | ok result last =>
      rw [done] at closed
      exact ⟨⟨opened.1, closed.1⟩, closed.2⟩

theorem congr {action : Generate α} (decides : Decides before action first after) (same : first ↔ second) :
    Decides before action second after := by
  rw [← propext same]
  exact decides

/-- A step that always succeeds adds no condition. -/
theorem always_bind {action : Generate α} {next : α → Generate β} (decides : Decides before action True middle)
    (rest : ∀ value, Decides middle (next value) second after) : Decides before (action >>= next) second after :=
  (decides.bind rest).congr (iff_of_eq (true_and second))

theorem bind_always {action : Generate α} {next : α → Generate β} (decides : Decides before action first middle)
    (rest : ∀ value, Decides middle (next value) True after) : Decides before (action >>= next) first after :=
  (decides.bind rest).congr (iff_of_eq (and_true first))

/-- After a step that refuses, nothing else matters. -/
theorem refused_bind {action : Generate α} {next : α → Generate β} (decides : Decides before action False before)
    (bad : ¬ second) : Decides before (action >>= next) second after := by
  intro state ready
  have opened := decides ready
  cases ran : action state with
  | error cause final =>
    rw [ran] at opened
    rw [bind_error ran]
    exact ⟨opened.1, bad⟩
  | ok value final =>
    rw [ran] at opened
    exact opened.1.elim

theorem pure (value : α) : Decides before (Pure.pure value) True before := by
  intro state ready
  exact ⟨trivial, ready⟩

theorem throw {cause : GenerateError} (refuses : cause.Refuses) (bad : ¬ first) :
    Decides before (MonadExcept.throw cause : Generate α) first after := by
  intro state ready
  exact ⟨refuses, bad⟩

end Decides

section

variable {frames scopes : Nat}

theorem emit_decides (instr : Instr) :
    Decides (State.Ready (frames + 1) scopes) (emit instr) True (State.Ready (frames + 1) scopes) := by
  intro state ready
  unfold emit
  rw [get_bind]
  cases inside : state.frames with
  | nil =>
    have none := ready.frames
    rw [inside] at none
    cases none
  | cons frame outer =>
    have length := ready.frames
    rw [inside] at length
    exact ⟨trivial, length, ready.scopes, ready.rooted⟩

theorem emitOp_decides (code : Opcode) (operand : Tree) :
    Decides (State.Ready (frames + 1) scopes) (emitOp code operand) True (State.Ready (frames + 1) scopes) :=
  emit_decides _

theorem freshLabel_decides : Decides (State.Ready frames scopes) freshLabel True (State.Ready frames scopes) := by
  intro state ready
  exact ⟨trivial, ready.frames, ready.scopes, ready.rooted⟩

theorem openFrame_decides : Decides (State.Ready frames scopes) openFrame True (State.Ready (frames + 1) scopes) := by
  intro state ready
  exact ⟨trivial, congrArg (· + 1) ready.frames, ready.scopes, ready.rooted⟩

theorem closeFrame_decides : Decides (State.Ready (frames + 1) scopes) closeFrame True (State.Ready frames scopes) := by
  intro state ready
  unfold closeFrame
  rw [get_bind]
  cases inside : state.frames with
  | nil =>
    have none := ready.frames
    rw [inside] at none
    cases none
  | cons frame outer =>
    have length := ready.frames
    rw [inside] at length
    exact ⟨trivial, Nat.succ.inj length, ready.scopes, ready.rooted⟩

theorem openScope_decides : Decides (State.Ready frames scopes) openScope True (State.Ready frames (scopes + 1)) := by
  intro state ready
  exact ⟨trivial, ready.frames, congrArg (· + 1) ready.scopes, List.forall_mem_cons.mpr ⟨nofun, ready.rooted⟩⟩

theorem closeScope_decides : Decides (State.Ready frames (scopes + 1)) closeScope True (State.Ready frames scopes) := by
  intro state ready
  obtain ⟨scope, outer, inside, length, _, rooted⟩ := ready.innermost
  unfold closeScope
  rw [get_bind]
  simp only [inside]
  exact ⟨trivial, ready.frames, length, rooted⟩

theorem lookup_decides (name : Tree) :
    Decides (State.Ready frames (scopes + 1)) (lookup name) True (State.Ready frames (scopes + 1)) := by
  intro state ready
  obtain ⟨scope, outer, inside, _, own, _⟩ := ready.innermost
  unfold lookup
  rw [get_bind]
  simp only [inside]
  cases known : scope.slots? name with
  | none => exact ⟨trivial, ready⟩
  | some slots =>
    cases slots with
    | nil => exact absurd known (own.slots?_ne_nil name)
    | cons slot older => exact ⟨trivial, ready⟩

theorem declare_decides {name : String} (undigited : Undigited name) :
    Decides (State.Ready frames (scopes + 1)) (declare (.text name)) True (State.Ready frames (scopes + 1)) := by
  intro state ready
  obtain ⟨scope, outer, inside, length, own, others⟩ := ready.innermost
  have opened : ∀ {changed : Scope}, changed.Rooted → ∀ count,
      State.Ready frames (scopes + 1) { state with scopeCount := count, scopes := changed :: outer } := fun rooted count =>
    ⟨ready.frames, congrArg (· + 1) length, List.forall_mem_cons.mpr ⟨rooted, others⟩⟩
  unfold declare
  rw [get_bind]
  simp only [inside]
  by_cases known : (scope.slots? (.text name)).isSome = true
  · rw [if_pos known, set_bind]
    exact ⟨trivial, opened (own.push (.text name) _) _⟩
  · rw [if_neg known, set_bind]
    exact ⟨trivial, opened (own.insert undigited) _⟩

theorem leaveLet_decides : Decides (State.Ready frames (scopes + 1)) leaveLet True (State.Ready frames (scopes + 1)) := by
  intro state ready
  obtain ⟨scope, outer, inside, length, own, others⟩ := ready.innermost
  obtain ⟨released, done, rooted⟩ := own.release state.scopeCount
  unfold leaveLet
  rw [get_bind]
  simp only [inside, done]
  exact ⟨trivial, ready.frames, congrArg (· + 1) length, List.forall_mem_cons.mpr ⟨rooted, others⟩⟩

end

end Generate

end MiniTriangle
