import MiniTriangle.Proofs.NumberedNames
import MiniTriangle.Proofs.ScopeLookup

/-! Scopes in which every name keeps a slot. The first slot of a name is the name itself. If the name does not end with
a digit, no number ends it, so leaving a `let` never takes that slot away, however often names are declared and however
far the count goes down. -/

namespace MiniTriangle

/-- The oldest slot is the name itself, which does not end with a digit, and all slots are texts. -/
def Binding.Rooted (binding : Binding) : Prop :=
  ∃ name newer, binding.slots = newer ++ [.text name] ∧ Undigited name ∧ ∀ slot ∈ newer, ∃ characters, slot = .text characters

def Scope.Rooted (scope : Scope) : Prop := ∀ binding ∈ scope, binding.Rooted

theorem decimal_ends (count : Int) : ∃ number, Nat.toDigits 10 number <:+ (Text.decimal count).toList := by
  cases count with
  | ofNat number => exact ⟨number, [], (toList_decimal number).symm⟩
  | negSucc number =>
    refine ⟨number + 1, ?_⟩
    show _ <:+ ("-" ++ String.ofList (Nat.toDigits 10 (number + 1))).toList
    simp only [String.toList_append, String.toList_ofList]
    exact List.suffix_append _ _

theorem Binding.Rooted.newest {binding : Binding} (rooted : binding.Rooted) (count : Int) :
    ∃ characters older, binding.slots = .text characters :: older ∧
      Binding.Rooted { binding with slots := Scope.dropEnding (Text.decimal count) binding.slots } := by
  obtain ⟨name, newer, held, undigited, written⟩ := rooted
  cases newer with
  | nil =>
    obtain ⟨number, ends⟩ := decimal_ends count
    have stays : (Tree.text name).endsWith? (Text.decimal count) = some false :=
      endsWith_eq_false fun ended => not_ends_of_undigited undigited number (ends.trans ended)
    refine ⟨name, [], held, name, [], ?_, undigited, nofun⟩
    simp [held, Scope.dropEnding, stays]
  | cons slot older =>
    obtain ⟨⟨characters, slotIs⟩, others⟩ := List.forall_mem_cons.mp written
    subst slotIs
    refine ⟨characters, older ++ [.text name], held.trans (List.cons_append ..), ?_⟩
    by_cases ends : (Tree.text characters).endsWith? (Text.decimal count) = some true
    · exact ⟨name, older, by simp [held, Scope.dropEnding, ends], undigited, others⟩
    · exact ⟨name, .text characters :: older, by simp [held, Scope.dropEnding, ends], undigited, written⟩

namespace Scope.Rooted

variable {scope : Scope}

theorem insert {name : String} (rooted : scope.Rooted) (undigited : Undigited name) :
    (scope.insert (.text name)).Rooted := by
  intro binding member
  rcases List.mem_append.mp member with before | last
  · exact rooted binding before
  · rw [List.mem_singleton.mp last]
    exact ⟨name, [], rfl, undigited, nofun⟩

theorem push (rooted : scope.Rooted) (name : Tree) (characters : String) :
    (scope.push name (.text characters)).Rooted := by
  intro binding member
  obtain ⟨old, inside, made⟩ := List.mem_map.mp member
  obtain ⟨root, newer, held, undigited, written⟩ := rooted old inside
  rw [← made]
  split
  · refine ⟨root, .text characters :: newer, by simp [held], undigited, ?_⟩
    exact List.forall_mem_cons.mpr ⟨⟨characters, rfl⟩, written⟩
  · exact ⟨root, newer, held, undigited, written⟩

/-- Leaving a `let` succeeds and leaves every name a slot. -/
theorem release (rooted : scope.Rooted) (count : Int) :
    ∃ released, scope.release (Text.decimal count) = (released, none) ∧ Scope.Rooted released := by
  induction scope with
  | nil => exact ⟨[], rfl, nofun⟩
  | cons binding rest ih =>
    obtain ⟨first, others⟩ := List.forall_mem_cons.mp rooted
    obtain ⟨released, done, kept⟩ := ih others
    obtain ⟨characters, older, held, stays⟩ := first.newest count
    refine ⟨{ binding with slots := dropEnding (Text.decimal count) binding.slots } :: released, ?_,
      List.forall_mem_cons.mpr ⟨stays, kept⟩⟩
    rw [Scope.release, held]
    simp only [Tree.endsWith?, done, dropEnding, Option.some.injEq]
    cases ((Text.decimal count).toList.isSuffixOf characters.toList) with
    | true => rfl
    | false =>
      rw [← held]
      rfl

/-- A name that is known has a slot. -/
theorem slots?_ne_nil (rooted : scope.Rooted) (name : Tree) : scope.slots? name ≠ some [] := by
  intro empty
  obtain ⟨binding, found, slots⟩ := Option.map_eq_some_iff.mp empty
  obtain ⟨root, newer, held, _⟩ := rooted binding (List.mem_of_find?_eq_some found)
  rw [held] at slots
  exact List.append_ne_nil_of_right_ne_nil newer (List.cons_ne_nil _ _) slots

end Scope.Rooted

end MiniTriangle
