import MiniTriangle.Code.Scope

/-! What the operations on a scope do to the slots of each single name. A declaration changes no other name,
and releasing slots treats every name by itself. -/

namespace MiniTriangle

theorem Tree.sameName_iff {left right : Tree} :
    left.sameName right = true ↔ ∃ value, left = .atom value ∧ right = .atom value := by
  constructor
  · intro same
    cases left with
    | atom value =>
      cases right with
      | atom other =>
        have equal : value = other := of_decide_eq_true same
        exact ⟨value, rfl, by rw [equal]⟩
      | _ => cases same
    | _ => cases same
  · rintro ⟨value, leftIs, rightIs⟩
    subst leftIs rightIs
    exact decide_eq_true rfl

theorem Tree.sameName_congr {left right : Tree} (same : left.sameName right = true) (name : Tree) :
    name.sameName left = name.sameName right := by
  obtain ⟨value, leftIs, rightIs⟩ := Tree.sameName_iff.mp same
  rw [leftIs, rightIs]

namespace Scope

def names (scope : Scope) : List Tree := scope.map (·.name)

/-- What is left of the slots of a name when those with the given ending are released. -/
def dropEnding (ending : String) : List Tree → List Tree
  | [] => []
  | slot :: older => if slot.endsWith? ending = some true then older else slot :: older

theorem isSome_slots? (scope : Scope) (name : Tree) :
    (scope.slots? name).isSome = scope.names.any (·.sameName name) := by
  unfold slots? names
  rw [Option.isSome_map, List.any_map, List.isSome_find?]
  rfl

theorem names_push (scope : Scope) (name slot : Tree) : (scope.push name slot).names = scope.names := by
  unfold push names
  rw [List.map_map]
  apply List.map_congr_left
  intro binding _
  show (if binding.name.sameName name then _ else binding).name = binding.name
  split <;> rfl

theorem names_insert (scope : Scope) (name : Tree) : (scope.insert name).names = scope.names ++ [name] := by
  simp [insert, names]

theorem slots?_cons (binding : Binding) (rest : Scope) (name : Tree) :
    slots? (binding :: rest) name = if binding.name.sameName name then some binding.slots else slots? rest name := by
  unfold slots?
  rw [List.find?_cons]
  cases binding.name.sameName name <;> rfl

theorem slots?_push (scope : Scope) (declared slot name : Tree) :
    (scope.push declared slot).slots? name =
      if declared.sameName name then (scope.slots? name).map (slot :: ·) else scope.slots? name := by
  induction scope with
  | nil => cases declared.sameName name <;> rfl
  | cons binding rest ih =>
    have unfolded : push (binding :: rest) declared slot =
        (if binding.name.sameName declared then { binding with slots := slot :: binding.slots } else binding) ::
          push rest declared slot := rfl
    rw [unfolded, slots?_cons, slots?_cons, ih]
    by_cases same : declared.sameName name = true
    · have together := Tree.sameName_congr same binding.name
      by_cases here : binding.name.sameName declared = true
      · simp [here, same, ← together]
      · simp [here, same, ← together]
    · by_cases here : binding.name.sameName declared = true
      · have apart : binding.name.sameName name = false := by
          obtain ⟨value, bindingIs, declaredIs⟩ := Tree.sameName_iff.mp here
          rw [bindingIs, ← declaredIs]
          exact Bool.eq_false_iff.mpr same
        simp [here, same, apart]
      · simp [here, same]

theorem slots?_insert (scope : Scope) (declared name : Tree) (unknown : scope.slots? declared = none) :
    (scope.insert declared).slots? name = if declared.sameName name then some [declared] else scope.slots? name := by
  unfold insert
  induction scope with
  | nil =>
    rw [List.nil_append, slots?_cons]
  | cons binding rest ih =>
    rw [slots?_cons] at unknown
    by_cases here : binding.name.sameName declared = true
    · rw [if_pos here] at unknown
      cases unknown
    · rw [if_neg here] at unknown
      rw [List.cons_append, slots?_cons, slots?_cons, ih unknown]
      by_cases same : declared.sameName name = true
      · have together := Tree.sameName_congr same binding.name
        simp [same, ← together, here]
      · simp [same]

theorem release_cons {ending : String} {binding : Binding} {rest released : Scope}
    (done : release ending (binding :: rest) = (released, none)) :
    ∃ others, release ending rest = (others, none) ∧
      released = { binding with slots := dropEnding ending binding.slots } :: others := by
  unfold release at done
  split at done
  · cases done
  · next slot older held =>
    split at done
    · cases done
    · next ends tested =>
      cases later : release ending rest with
      | mk others failure =>
        simp only [later, Prod.mk.injEq] at done
        obtain ⟨made, none⟩ := done
        subst made none
        refine ⟨others, rfl, ?_⟩
        rw [held]
        simp only [dropEnding, tested]
        cases ends
        · cases binding
          cases held
          rfl
        · rfl

/-- Releasing slots takes no name away, also where it stops early. -/
theorem names_released (ending : String) (scope : Scope) : (scope.release ending).1.names = scope.names := by
  induction scope with
  | nil => rfl
  | cons binding rest ih =>
    unfold release
    split
    · rfl
    · split
      · rfl
      · next ends _ => cases ends <;> exact congrArg (binding.name :: ·) ih

theorem names_release {ending : String} {scope released : Scope} (done : scope.release ending = (released, none)) :
    released.names = scope.names := by
  rw [← names_released ending scope, done]

theorem slots?_release {ending : String} {scope released : Scope} (done : scope.release ending = (released, none))
    (name : Tree) : released.slots? name = (scope.slots? name).map (dropEnding ending) := by
  induction scope generalizing released with
  | nil =>
    cases done
    rfl
  | cons binding rest ih =>
    obtain ⟨others, later, made⟩ := release_cons done
    subst made
    rw [slots?_cons, slots?_cons, ih later]
    split <;> rfl

end Scope

end MiniTriangle
