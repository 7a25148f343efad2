import MiniTriangle.Proofs.RootedScopes

/-! Scopes that know a list of names. A name keeps its place in the scope once it is declared, and all its slots are the
name itself or the name with a number after it, whatever the count was when they were given or taken away. -/

namespace MiniTriangle

/-- A slot of a name: the name itself, or the name with a number after it. -/
def Tree.SlotOf (name slot : Tree) : Prop :=
  ∃ word, name = .text word ∧ (slot = .text word ∨ ∃ count : Int, slot = .text (word ++ Text.decimal count))

theorem Tree.SlotOf.ne_absent {name slot : Tree} (held : name.SlotOf slot) : slot ≠ .absent := by
  obtain ⟨word, _, plain | ⟨count, numbered⟩⟩ := held
  · simp [plain]
  · simp [numbered]

namespace Scope

/-- The names with slots are the given ones, and their slots are named after them. -/
structure Knows (scope : Scope) (known : List String) : Prop where
  rooted : scope.Rooted
  unknown : ∀ name, scope.slots? name = none ↔ ∀ word ∈ known, name ≠ .text word
  slots : ∀ name held, scope.slots? name = some held → ∀ slot ∈ held, name.SlotOf slot

theorem Knows.nothing : Knows [] [] := ⟨nofun, fun _ => iff_of_true rfl nofun, nofun⟩

section

variable {scope : Scope} {known : List String} {word : String}

theorem dropEnding_subset (ending : String) (held : List Tree) : dropEnding ending held ⊆ held := by
  intro slot member
  cases held with
  | nil => exact member
  | cons newest older =>
    rw [dropEnding] at member
    split at member
    · exact List.mem_cons_of_mem _ member
    · exact member

/-- What is unknown after one more declaration. -/
private theorem unknown_declared (name : Tree) :
    (∀ other ∈ known ++ [word], name ≠ .text other) ↔
      (Tree.text word).sameName name = false ∧ ∀ other ∈ known, name ≠ .text other := by
  rw [List.forall_mem_append, List.forall_mem_singleton, and_comm, Bool.eq_false_iff, Ne, Ne, Tree.sameName_iff]
  refine and_congr_left fun _ => not_congr ⟨?_, ?_⟩
  · rintro rfl
    exact ⟨_, rfl, rfl⟩
  · rintro ⟨value, same, rfl⟩
    exact same.symm

theorem Knows.insert (knows : scope.Knows known) (undigited : Undigited word) (fresh : scope.slots? (.text word) = none) :
    (scope.insert (.text word)).Knows (known ++ [word]) := by
  refine ⟨knows.rooted.insert undigited, ?_, ?_⟩
  · intro name
    rw [slots?_insert scope _ name fresh, unknown_declared, ← knows.unknown name]
    cases (Tree.text word).sameName name <;> simp
  · intro name held found slot member
    rw [slots?_insert scope _ name fresh] at found
    split at found
    · next same =>
      obtain ⟨value, wordIs, nameIs⟩ := Tree.sameName_iff.mp same
      cases found
      exact ⟨word, nameIs.trans wordIs.symm, .inl (List.mem_singleton.mp member)⟩
    · exact knows.slots name held found slot member

theorem Knows.push (knows : scope.Knows known) (again : (scope.slots? (.text word)).isSome = true) (count : Int) :
    (scope.push (.text word) (.text (word ++ Text.decimal count))).Knows (known ++ [word]) := by
  refine ⟨knows.rooted.push _ _, ?_, ?_⟩
  · intro name
    rw [slots?_push, unknown_declared, ← knows.unknown name]
    by_cases same : (Tree.text word).sameName name = true
    · obtain ⟨value, wordIs, nameIs⟩ := Tree.sameName_iff.mp same
      have held : scope.slots? name ≠ none := by
        rw [nameIs, ← wordIs]
        exact Option.isSome_iff_ne_none.mp again
      simp [same, held]
    · simp [same]
  · intro name held found slot member
    rw [slots?_push] at found
    split at found
    · next same =>
      obtain ⟨value, wordIs, nameIs⟩ := Tree.sameName_iff.mp same
      obtain ⟨older, before, heldIs⟩ := Option.map_eq_some_iff.mp found
      rw [← heldIs] at member
      rcases List.mem_cons.mp member with newest | earlier
      · exact ⟨word, nameIs.trans wordIs.symm, .inr ⟨count, newest⟩⟩
      · exact knows.slots name older before slot earlier
    · exact knows.slots name held found slot member

/-- Leaving a `let` succeeds, and no name is forgotten. -/
theorem Knows.release (knows : scope.Knows known) (count : Int) :
    ∃ released, scope.release (Text.decimal count) = (released, none) ∧ Knows released known := by
  obtain ⟨released, done, rooted⟩ := knows.rooted.release count
  refine ⟨released, done, rooted, ?_, ?_⟩
  · intro name
    rw [slots?_release done, Option.map_eq_none_iff]
    exact knows.unknown name
  · intro name held found slot member
    rw [slots?_release done] at found
    obtain ⟨before, foundBefore, heldIs⟩ := Option.map_eq_some_iff.mp found
    rw [← heldIs] at member
    exact knows.slots name before foundBefore slot (dropEnding_subset _ _ member)

end

end Scope

end MiniTriangle
