/-! Steps in sequence over a state that survives failures. Scanning, parsing and code generation are all
made of such steps, and their proofs take a run apart, or put it together, at its binds. -/

namespace MiniTriangle.Sequencing

variable {ε σ α β : Type}

theorem bind_ok {first : EStateM ε σ α} {next : α → EStateM ε σ β} {state middle : σ} {value : α}
    (ran : first state = .ok value middle) : (first >>= next) state = next value middle := by
  show EStateM.bind first next state = next value middle
  simp only [EStateM.bind, ran]

theorem bind_error {first : EStateM ε σ α} {next : α → EStateM ε σ β} {state middle : σ} {cause : ε}
    (failed : first state = .error cause middle) : (first >>= next) state = .error cause middle := by
  show EStateM.bind first next state = .error cause middle
  simp only [EStateM.bind, failed]

theorem bind_same {first second : EStateM ε σ α} {state : σ} (same : first state = second state)
    (next : α → EStateM ε σ β) : (first >>= next) state = (second >>= next) state := by
  cases ran : second state with
  | ok value middle => rw [bind_ok ran, bind_ok (same.trans ran)]
  | error cause middle => rw [bind_error ran, bind_error (same.trans ran)]

/-- A sequence succeeds exactly if both of its parts do, one after the other. -/
theorem bind_eq_ok {first : EStateM ε σ α} {next : α → EStateM ε σ β} {state final : σ} {result : β} :
    (first >>= next) state = .ok result final ↔
      ∃ value middle, first state = .ok value middle ∧ next value middle = .ok result final := by
  constructor
  · intro ran
    cases opened : first state with
    | ok value middle => exact ⟨value, middle, rfl, (bind_ok opened).symm.trans ran⟩
    | error cause middle => cases (bind_error opened).symm.trans ran
  · rintro ⟨value, middle, opened, rest⟩
    exact (bind_ok opened).trans rest

theorem pure_eq_ok {value result : α} {state final : σ} :
    (pure value : EStateM ε σ α) state = .ok result final ↔ value = result ∧ state = final := by
  constructor
  · intro ran
    cases ran
    exact ⟨rfl, rfl⟩
  · rintro ⟨rfl, rfl⟩
    rfl

theorem get_bind (next : σ → EStateM ε σ β) (state : σ) : (get >>= next) state = next state state := rfl

theorem set_bind (changed : σ) (next : PUnit → EStateM ε σ β) (state : σ) :
    (set changed >>= next) state = next ⟨⟩ changed := rfl

theorem throw_ne_ok {cause : ε} {state final : σ} {result : α} :
    (throw cause : EStateM ε σ α) state ≠ .ok result final := by
  intro ran
  cases ran

end MiniTriangle.Sequencing
