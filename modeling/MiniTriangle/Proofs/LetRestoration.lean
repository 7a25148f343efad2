import MiniTriangle.Proofs.ScopeLookup
import MiniTriangle.Proofs.SlotNaming

/-! Which names a `let` gives back. The slots of one name can be followed without those of the others: all
that matters is which names were declared before and how far repeated declarations are counted. A name stands
for the same slot after a `let` exactly if the slots followed through the `let` end as they began. -/

namespace MiniTriangle

open Sequencing

/-- One name followed through the steps of a command. -/
structure Trail where
  /-- The names declared in each scope, the innermost first. The last scope is that of the name followed. -/
  known : List (List Tree)
  count : Int
  /-- The slots of the name, the newest first. -/
  slots : List Tree

namespace Trail

/-- A repeated declaration is counted, and one of the name itself adds a slot with the count. Leaving a `let`
takes the newest slot away if it ends with the count, which then goes down. The steps of another function
matter by the count alone. -/
def after (name : Tree) (trail : Trail) : Naming.Step → Trail
  | .declare other =>
    match trail.known with
    | [] => trail
    | names :: outer =>
      if names.any (·.sameName other) then
        let added := if outer.isEmpty && other.sameName name then (other.numbered? (trail.count + 1)).toList else []
        { trail with count := trail.count + 1, slots := added ++ trail.slots }
      else { trail with known := (names ++ [other]) :: outer }
  | .leave =>
    let left := if trail.known.length = 1 then Scope.dropEnding (Text.decimal trail.count) trail.slots else trail.slots
    { trail with count := trail.count - 1, slots := left }
  | .enter => { trail with known := [] :: trail.known }
  | .exit => { trail with known := trail.known.tail }

def run (name : Tree) (trail : Trail) (steps : List Naming.Step) : Trail := steps.foldl (after name) trail

/-- The naming agrees with the trail of a name whose scope lies under the given number of others. -/
structure Shows (name : Tree) (depth : Nat) (trail : Trail) (naming : Naming) : Prop where
  counted : naming.count = trail.count
  placed : ∃ inner own outer, naming.scopes = inner ++ own :: outer ∧ inner.length = depth ∧
    trail.known = (inner ++ [own]).map Scope.names ∧ own.slots? name = some trail.slots

variable {name : Tree} {depth : Nat} {trail : Trail} {naming final : Naming}

private theorem shows_declare {other : Tree} (shows_ : Shows name depth trail naming)
    (stepped : naming.step? (.declare other) = some final) : Shows name depth (trail.after name (.declare other)) final := by
  obtain ⟨counted, inner, own, outer, scopes, level, known, held⟩ := shows_
  obtain ⟨⟨slot, declared⟩, found, same⟩ := Option.map_eq_some_iff.mp stepped
  subst same
  obtain ⟨all, count⟩ := naming
  obtain ⟨names, trailCount, slots⟩ := trail
  simp only at counted scopes known held
  subst counted scopes known
  -- The name declared goes into the innermost scope, which is that of the name followed if no function is open.
  cases inner with
  | nil =>
    simp only [List.nil_append, Naming.declare?] at found
    simp only [after, List.nil_append, List.map_cons, List.map_nil, ← Scope.isSome_slots?]
    by_cases repeated : (own.slots? other).isSome = true
    · rw [if_pos repeated] at found ⊢
      obtain ⟨fresh, numbered, made⟩ := Option.map_eq_some_iff.mp found
      cases made
      refine ⟨rfl, [], _, outer, rfl, level, ?_, ?_⟩
      · simp [Scope.names_push]
      · rw [Scope.slots?_push, held, numbered]
        cases other.sameName name <;> rfl
    · rw [if_neg repeated] at found ⊢
      cases found
      refine ⟨rfl, [], _, outer, rfl, level, ?_, ?_⟩
      · simp [Scope.names_insert]
      · have unknown : own.slots? other = none := Option.not_isSome_iff_eq_none.mp repeated
        have apart : other.sameName name = false := by
          apply Bool.eq_false_iff.mpr
          intro alike
          obtain ⟨value, otherIs, nameIs⟩ := Tree.sameName_iff.mp alike
          rw [nameIs, ← otherIs, unknown] at held
          cases held
        rw [Scope.slots?_insert _ _ _ unknown, apart]
        exact held
  | cons scope rest =>
    simp only [List.cons_append, Naming.declare?] at found
    simp only [after, List.cons_append, List.map_cons, ← Scope.isSome_slots?]
    by_cases repeated : (scope.slots? other).isSome = true
    · rw [if_pos repeated] at found ⊢
      obtain ⟨fresh, numbered, made⟩ := Option.map_eq_some_iff.mp found
      cases made
      refine ⟨rfl, scope.push other slot :: rest, own, outer, rfl, level, ?_, ?_⟩
      · simp [Scope.names_push]
      · simpa using held
    · rw [if_neg repeated] at found ⊢
      cases found
      refine ⟨rfl, scope.insert other :: rest, own, outer, rfl, level, ?_, held⟩
      simp [Scope.names_insert]

private theorem shows_leave (shows_ : Shows name depth trail naming) (stepped : naming.step? .leave = some final) :
    Shows name depth (trail.after name .leave) final := by
  obtain ⟨counted, inner, own, outer, scopes, level, known, held⟩ := shows_
  obtain ⟨all, count⟩ := naming
  obtain ⟨names, trailCount, slots⟩ := trail
  simp only at counted scopes known held
  subst counted scopes known
  cases inner with
  | nil =>
    simp only [Naming.step?, List.nil_append, Naming.leave?] at stepped
    cases released : own.release (Text.decimal count) with
    | mk kept failure =>
      rw [released] at stepped
      cases failure with
      | some cause => cases stepped
      | none =>
        cases stepped
        refine ⟨rfl, [], kept, outer, rfl, level, ?_, ?_⟩
        · simp [after, Scope.names_release released]
        · rw [Scope.slots?_release released, held]
          rfl
  | cons scope rest =>
    simp only [Naming.step?, List.cons_append, Naming.leave?] at stepped
    cases released : scope.release (Text.decimal count) with
    | mk kept failure =>
      rw [released] at stepped
      cases failure with
      | some cause => cases stepped
      | none =>
        cases stepped
        refine ⟨rfl, kept :: rest, own, outer, rfl, level, ?_, ?_⟩
        · simp [after, Scope.names_release released]
        · simpa [after] using held

private theorem shows_enter (shows_ : Shows name depth trail naming) (stepped : naming.step? .enter = some final) :
    Shows name (depth + 1) (trail.after name .enter) final := by
  obtain ⟨counted, inner, own, outer, scopes, level, known, held⟩ := shows_
  cases stepped
  refine ⟨counted, [] :: inner, own, outer, ?_, ?_, ?_, held⟩
  · simp [scopes]
  · simp [level]
  · simp [after, known, Scope.names]

private theorem shows_exit (shows_ : Shows name (depth + 1) trail naming) (stepped : naming.step? .exit = some final) :
    Shows name depth (trail.after name .exit) final := by
  obtain ⟨counted, inner, own, outer, scopes, level, known, held⟩ := shows_
  cases inner with
  | nil => cases level
  | cons scope rest =>
    simp only [Naming.step?, scopes, List.cons_append] at stepped
    cases stepped
    refine ⟨counted, rest, own, outer, rfl, Nat.succ.inj level, ?_, held⟩
    simp [after, known]

end Trail

/-- Steps that end every function they start, and no other. -/
inductive Naming.Enclosed : List Naming.Step → Prop where
  | nil : Enclosed []
  | declare (name : Tree) {rest : List Naming.Step} (more : Enclosed rest) : Enclosed (.declare name :: rest)
  | leave {rest : List Naming.Step} (more : Enclosed rest) : Enclosed (.leave :: rest)
  | function {body rest : List Naming.Step} (inside : Enclosed body) (more : Enclosed rest) :
      Enclosed (.enter :: (body ++ .exit :: rest))

namespace Naming.Enclosed

theorem append {first second : List Naming.Step} (before : Enclosed first) (later : Enclosed second) :
    Enclosed (first ++ second) := by
  induction before with
  | nil => exact later
  | declare name _ ih => exact .declare name ih
  | leave _ ih => exact .leave ih
  | function inside _ _ ih =>
    rw [List.cons_append, List.append_assoc, List.cons_append]
    exact .function inside ih

theorem declareAll (names : List Tree) : Enclosed (names.map .declare) := by
  induction names with
  | nil => exact .nil
  | cons name _ ih => exact .declare name ih

mutual
theorem command (tree : Tree) : Enclosed tree.commandSteps := by
  cases tree with
  | sequence first second => exact (command first).append (command second)
  | ifElse test yes no => exact (command yes).append (command no)
  | whileDo test body => exact command body
  | letIn declared body => exact ((declaration declared).append (command body)).append (.leave .nil)
  | _ => exact .nil

theorem declaration (tree : Tree) : Enclosed tree.declarationSteps := by
  cases tree with
  | varDecl name type => exact .declare name .nil
  | constDecl name value => exact .declare name .nil
  | declarations first second => exact (declaration first).append (declaration second)
  | funcDecl name list type body =>
    have inside := (declareAll list.parameterList).append (command body)
    have whole := Enclosed.function inside .nil
    simpa only [Tree.declarationSteps, List.cons_append, List.nil_append, List.append_assoc] using whole
  | _ => exact .nil
end

end Naming.Enclosed

theorem Trail.Shows.run {name : Tree} {depth : Nat} {trail : Trail} {naming final : Naming} {steps : List Naming.Step}
    (closed : Naming.Enclosed steps) (shows_ : Trail.Shows name depth trail naming)
    (ran : naming.run? steps = some final) : Trail.Shows name depth (trail.run name steps) final := by
  induction closed generalizing depth trail naming final with
  | nil =>
    cases ran
    exact shows_
  | declare other _ ih =>
    obtain ⟨next, stepped, rest⟩ := Option.bind_eq_some_iff.mp ran
    exact ih (shows_declare shows_ stepped) rest
  | leave _ ih =>
    obtain ⟨next, stepped, rest⟩ := Option.bind_eq_some_iff.mp ran
    exact ih (shows_leave shows_ stepped) rest
  | function _ _ insideIH moreIH =>
    obtain ⟨entered, enter, inside⟩ := Option.bind_eq_some_iff.mp ran
    rw [Naming.run?_append] at inside
    obtain ⟨ended, body, leaving⟩ := Option.bind_eq_some_iff.mp inside
    obtain ⟨exited, exit, rest⟩ := Option.bind_eq_some_iff.mp leaving
    have atEnd := insideIH (shows_enter shows_ enter) body
    have back := moreIH (shows_exit atEnd exit) rest
    simpa only [Trail.run, List.foldl_cons, List.foldl_append] using back

def State.slotOf? (state : State) (name : Tree) : Option Tree :=
  match Generate.lookup name state with
  | .ok slot _ => some slot
  | .error _ _ => none

theorem State.slotOf?_known {state : State} {scope : Scope} {outer : List Scope} {name : Tree} {slots : List Tree}
    (inside : state.scopes = scope :: outer) (known : scope.slots? name = some slots) :
    state.slotOf? name = slots.head? := by
  unfold slotOf? Generate.lookup
  rw [get_bind, inside]
  simp only [known]
  cases slots <;> rfl

def State.trail (state : State) (scope : Scope) (slots : List Tree) : Trail :=
  ⟨[scope.names], state.scopeCount, slots⟩

/-- Whether a `let` gives a name back. Of the slots that the name has at the end of the body, the newest goes if
it ends with the count reached there; the newest that stays has to be the newest from the start. -/
def Trail.GivesBack (name declared body : Tree) (trail : Trail) : Prop :=
  let atEnd := trail.run name (declared.declarationSteps ++ body.commandSteps)
  (Scope.dropEnding (Text.decimal atEnd.count) atEnd.slots).head? = trail.slots.head?

instance (name declared body : Tree) (trail : Trail) : Decidable (trail.GivesBack name declared body) :=
  inferInstanceAs (Decidable (_ = _))

/-- A name known before a `let` stands for the same slot after it exactly if the `let` gives it back. -/
theorem let_restores_iff {declared body name : Tree} {state final : State} {scope : Scope} {outer : List Scope}
    {slots : List Tree} (ran : Generate.command (.letIn declared body) state = .ok () final)
    (inside : state.scopes = scope :: outer) (known : scope.slots? name = some slots) :
    final.slotOf? name = state.slotOf? name ↔ (state.trail scope slots).GivesBack name declared body := by
  have start : Trail.Shows name 0 (state.trail scope slots) state.naming :=
    ⟨rfl, [], scope, outer, inside, rfl, rfl, known⟩
  have steps := Generate.command_acts _ ran
  simp only [Tree.commandSteps, Naming.run?_append] at steps
  obtain ⟨middle, first, leaving⟩ := Option.bind_eq_some_iff.mp steps
  rw [← Naming.run?_append] at first
  obtain ⟨left, stepped, last⟩ := Option.bind_eq_some_iff.mp leaving
  cases last
  have closed := (Naming.Enclosed.declaration declared).append (Naming.Enclosed.command body)
  have atEnd := start.run closed first
  have finish := Trail.shows_leave atEnd stepped
  -- No function is open at the end, so the scope of the name is the innermost again.
  obtain ⟨_, inner, own, others, bodyScopes, level, lastKnown, _⟩ := atEnd
  have alone : inner = [] := List.eq_nil_of_length_eq_zero level
  subst alone
  obtain ⟨_, inner, own, others, scopes, level, _, held⟩ := finish
  have alone : inner = [] := List.eq_nil_of_length_eq_zero level
  subst alone
  rw [State.slotOf?_known inside known, State.slotOf?_known scopes held]
  simp only [Trail.after, lastKnown, List.nil_append, List.map_cons, List.map_nil, List.length_singleton, if_true]
  rfl

def twoDeclared : State := ⟨[[⟨.text "x", [.text "x"]⟩, ⟨.text "y", [.text "y"]⟩]], 0, [[]], 0⟩

def bothAgain : Tree × Tree :=
  (.declarations (.varDecl (.text "x") (.typeName (.text "Integer")))
    (.declarations (.varDecl (.text "y") (.typeName (.text "Integer"))) .absent),
   .assign (.name (.text "x")) (.reference (.name (.text "y"))))

/-- A `let` that declares two known names gives back only the second of them. -/
theorem bothAgain_keeps_first : ∃ final,
    Generate.command (.letIn bothAgain.1 bothAgain.2) twoDeclared = .ok () final ∧
      final.slotOf? (.text "x") ≠ twoDeclared.slotOf? (.text "x") ∧
      final.slotOf? (.text "y") = twoDeclared.slotOf? (.text "y") := by
  have runs : ∃ final, Generate.command (.letIn bothAgain.1 bothAgain.2) twoDeclared = .ok () final := ⟨_, rfl⟩
  obtain ⟨final, ran⟩ := runs
  refine ⟨final, ran, ?_, ?_⟩
  · intro same
    have givesBack := (let_restores_iff ran rfl rfl).mp same
    exact absurd givesBack (by decide)
  · exact (let_restores_iff ran rfl rfl).mpr (by decide)

end MiniTriangle
