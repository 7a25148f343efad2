import MiniTriangle.Code.Error
import MiniTriangle.Code.Instr
import MiniTriangle.Code.Scope

/-! The state of code generation and the operations on it. Each routine under way has a frame of code, and
each has a scope; a failing operation leaves the state as it was when it failed. -/

namespace MiniTriangle

structure State where
  /-- The scopes, the innermost first. -/
  scopes : List Scope
  /-- The count of repeated declarations, less one for every `let` that was left. -/
  scopeCount : Int
  /-- The code of the routines under way, the innermost first. -/
  frames : List (List Instr)
  /-- The next label that was never used. -/
  nextLabel : Label

def State.empty : State := ⟨[], 0, [], 0⟩

/-- Generating code changes the state and may fail. -/
abbrev Generate := EStateM GenerateError State

namespace Generate

/-- The part of a node. -/
def part (tree : Tree) (part : Part) : Generate Tree :=
  match tree.part? part with
  | some child => return child
  | none => throw (.missing tree part)

def openScope : Generate Unit := modify fun state => { state with scopes := [] :: state.scopes }

def closeScope : Generate Scope := do
  let state ← get
  match state.scopes with
  | [] => throw .nothingOpen
  | scope :: outer =>
    set { state with scopes := outer }
    return scope

def openFrame : Generate Unit := modify fun state => { state with frames := [] :: state.frames }

def closeFrame : Generate (List Instr) := do
  let state ← get
  match state.frames with
  | [] => throw .nothingOpen
  | frame :: outer =>
    set { state with frames := outer }
    return frame

/-- Adds an instruction to the innermost frame. -/
def emit (instr : Instr) : Generate Unit := do
  let state ← get
  match state.frames with
  | [] => throw .noFrame
  | frame :: outer => set { state with frames := (frame ++ [instr]) :: outer }

def emitOp (code : Opcode) (operand : Tree) : Generate Unit := emit (.op code operand)

/-- A label that was never used before. -/
def freshLabel : Generate Label := do
  let state ← get
  set { state with nextLabel := state.nextLabel + 1 }
  return state.nextLabel

/-- Declares a name in the innermost scope and answers its slot. A repeated declaration is counted before
the slot is named. -/
def declare (name : Tree) : Generate Tree := do
  let state ← get
  match state.scopes with
  | [] => throw .noScope
  | scope :: outer =>
    if (scope.slots? name).isSome then
      let count := state.scopeCount + 1
      set { state with scopeCount := count }
      match name.numbered? count with
      | none => throw (.notNumberable name)
      | some slot =>
        set { state with scopeCount := count, scopes := scope.push name slot :: outer }
        return slot
    else
      set { state with scopes := scope.insert name :: outer }
      return name

/-- The newest slot of a name in the innermost scope; an unknown name has the missing slot. -/
def lookup (name : Tree) : Generate Tree := do
  match (← get).scopes with
  | [] => throw .noScope
  | scope :: _ =>
    match scope.slots? name with
    | none => return .absent
    | some [] => throw .noSlot
    | some (slot :: _) => return slot

/-- Takes away the slots of the current count and counts one less. -/
def leaveLet : Generate Unit := do
  let state ← get
  match state.scopes with
  | [] => throw .noScope
  | scope :: outer =>
    let (released, failure) := scope.release (Text.decimal state.scopeCount)
    set { state with scopes := released :: outer }
    match failure with
    | some .noSlot => throw .noSlot
    | some (.notText slot) => throw (.notText slot)
    | none => modify fun state => { state with scopeCount := state.scopeCount - 1 }

end Generate

end MiniTriangle
