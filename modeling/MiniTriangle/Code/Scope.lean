import MiniTriangle.Tree

/-! Scopes: the names declared in a program or a function, each with the slots that hold its values. A name
declared again while it is known gets a slot of its own, named after the count of such declarations; leaving
a `let` takes away the slots that end with the current count. -/

namespace MiniTriangle

/-- Whether two names are one name. Only atoms are names that can be found again. -/
def Tree.sameName : Tree → Tree → Bool
  | .atom a, .atom b => a = b
  | _, _ => false

/-- A declared name and its slots, the newest first. -/
structure Binding where
  name : Tree
  slots : List Tree
  deriving DecidableEq

/-- The bindings in the order in which their names were first declared. -/
abbrev Scope := List Binding

/-- The slots of a name, or nothing if it was never declared. -/
def Scope.slots? (scope : Scope) (name : Tree) : Option (List Tree) :=
  (scope.find? (·.name.sameName name)).map (·.slots)

/-- Declares a name for the first time: its slot has the same name. -/
def Scope.insert (scope : Scope) (name : Tree) : Scope := scope ++ [⟨name, [name]⟩]

/-- Adds a slot to a name declared before. -/
def Scope.push (scope : Scope) (name slot : Tree) : Scope :=
  scope.map fun binding =>
    if binding.name.sameName name then { binding with slots := slot :: binding.slots } else binding

/-- The slot of a name for the given count of repeated declarations; only a text can be extended so. -/
def Tree.numbered? (name : Tree) (count : Int) : Option Tree :=
  match name with
  | .text characters => some (.text (characters ++ Text.decimal count))
  | _ => none

/-- Whether a slot ends with the given text; only a text has an end. -/
def Tree.endsWith? (slot : Tree) (ending : String) : Option Bool :=
  match slot with
  | .text characters => some (ending.toList.isSuffixOf characters.toList)
  | _ => none

/-- Why slots could not be taken away. -/
inductive ReleaseError where
  /-- A name has no slot left. -/
  | noSlot
  /-- A slot is no text. -/
  | notText (slot : Tree)
  deriving DecidableEq

/-- Takes away the newest slot of each name if it ends with the given text, in the order of the bindings.
At the first name that has no slot left, or none that is a text, it stops and leaves the rest as it is. -/
def Scope.release (ending : String) : Scope → Scope × Option ReleaseError
  | [] => ([], none)
  | binding :: rest =>
    match binding.slots with
    | [] => (binding :: rest, some .noSlot)
    | slot :: older =>
      match slot.endsWith? ending with
      | none => (binding :: rest, some (.notText slot))
      | some ends =>
        let (released, failure) := Scope.release ending rest
        ((if ends then { binding with slots := older } else binding) :: released, failure)

end MiniTriangle
