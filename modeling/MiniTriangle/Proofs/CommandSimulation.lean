import MiniTriangle.Proofs.Simulation

/-! The simulation of declarations and commands. The code of a command stands somewhere in the whole program, so
that the jumps inside it find their places, and each round of a loop takes the machine at least one step. -/

namespace MiniTriangle

open Machine Source

theorem codeAfter_of_suffix {program rest : List Instr} {label : Nat} (once : (placed program).Nodup)
    (here : .place label :: rest <:+ program) : codeAfter label program = some rest := by
  obtain ⟨before, whole⟩ := here
  subst whole
  induction before with
  | nil => simp [codeAfter]
  | cons instr others ih =>
    have split : placed (instr :: (others ++ .place label :: rest)) =
        placed [instr] ++ placed (others ++ .place label :: rest) := placed_append [instr] _
    rw [List.cons_append, split] at once
    obtain ⟨_, laterOnce, apart⟩ := List.nodup_append.mp once
    have found := ih laterOnce
    cases instr with
    | place other =>
      have member : label ∈ placed (others ++ .place label :: rest) := by
        rw [placed_append]
        exact List.mem_append_right _ (List.mem_cons_self)
      have different : other ≠ label := apart other (List.mem_cons_self) label member
      simp only [List.cons_append, codeAfter, if_neg different]
      exact found
    | op code operand => exact found
    | jump kind target => exact found
    | routine parameters body => exact found

/-- The machine came to the given code with the given stack, and matches the bindings in scope. -/
structure Arrives (live : Live) (rest : List Instr) (stack : List Value) (world : World) (machine : Machine) : Prop where
  rest_eq : machine.rest = rest
  stack_eq : machine.stack = stack
  isMatch : Matches live world machine

variable {program : List Instr}

private theorem store_leads (rest : List Instr) (stack : List Value) (slots : Tree → Option Value) (printed : String)
    (slot : Tree) (value : Value) :
    Leads program 1 ⟨.op .storeFast slot :: rest, value :: stack, slots, printed⟩
      (Machine.store ⟨rest, stack, slots, printed⟩ slot value) := .one rfl

private theorem jump_leads {label : Nat} {target : List Instr} (found : codeAfter label program = some target)
    {kind : Jump} (always : kind ≠ .ifFalse) (rest : List Instr) (stack : List Value) (slots : Tree → Option Value)
    (printed : String) :
    Leads program 1 ⟨.jump kind label :: rest, stack, slots, printed⟩ ⟨target, stack, slots, printed⟩ := by
  apply Leads.one
  cases kind with
  | ifFalse => exact absurd rfl always
  | forward => simp only [step, goTo, found]
  | back => simp only [step, goTo, found]

private theorem branch_leads {label : Nat} {target : List Instr} (found : codeAfter label program = some target)
    (rest : List Instr) (value : Value) (stack : List Value) (slots : Tree → Option Value) (printed : String) :
    Leads program 1 ⟨.jump .ifFalse label :: rest, value :: stack, slots, printed⟩
      ⟨if value.isTrue then rest else target, stack, slots, printed⟩ := by
  apply Leads.one
  by_cases holds : value.isTrue = true
  · simp only [step, holds, if_true]
  · simp only [step, holds, goTo, found]
    rfl

theorem Declares.extends_live {live inner : Live} {tree : Tree} {code : List Instr}
    (declares : Declares live tree code inner) : ∃ added, inner = added ++ live := by
  induction declares with
  | nothing live => exact ⟨[], rfl⟩
  | @var live name slot type fresh => exact ⟨[(name, slot)], rfl⟩
  | @const live name slot value fresh valued => exact ⟨[(name, slot)], rfl⟩
  | sequence _ _ firstIH secondIH =>
    obtain ⟨first, middleIs⟩ := firstIH
    obtain ⟨second, afterIs⟩ := secondIH
    exact ⟨second ++ first, by rw [afterIs, middleIs, List.append_assoc]⟩

theorem Declares.distinct {live inner : Live} {tree : Tree} {code : List Instr} (declares : Declares live tree code inner)
    (before : live.slots.Nodup) : inner.slots.Nodup := by
  induction declares with
  | nothing live => exact before
  | var fresh => exact List.nodup_cons.mpr ⟨fresh, before⟩
  | const fresh valued => exact List.nodup_cons.mpr ⟨fresh, before⟩
  | sequence _ _ firstIH secondIH => exact secondIH (firstIH before)

theorem declaration_follows {live inner : Live} {tree : Tree} {code : List Instr}
    (declares : Declares live tree code inner) (fuel : Nat) {world : World} {machine : Machine} {rest : List Instr}
    (here : machine.rest = code ++ rest) (isMatch : Matches live world machine) :
    Follows program fuel machine (Arrives inner rest machine.stack) (declare tree world) := by
  induction declares generalizing world machine rest with
  | nothing live => exact ⟨0, machine, .refl machine, here, rfl, isMatch⟩
  | @var live name slot type fresh =>
    obtain ⟨code, stack, slots, printed⟩ := machine
    simp only at here
    subst here
    have loads : Leads program 1 ⟨[.op .loadConst .absent, .op .storeFast (.text slot)] ++ rest, stack, slots, printed⟩
        ⟨.op .storeFast (.text slot) :: rest, .nothing :: stack, slots, printed⟩ := .one rfl
    have stores := loads.trans (store_leads rest stack slots printed (.text slot) .nothing)
    exact ⟨_, _, stores, rfl, rfl, (isMatch.moved rest stack).bind fresh name .nothing⟩
  | @const live name slot value fresh valued =>
    rw [List.append_assoc] at here
    simp only [declare, ← isMatch.printed]
    refine Follows.withValue (expression_computes valued isMatch here) ?_
    intro value
    exact ⟨_, _, store_leads rest machine.stack machine.slots machine.printed (.text slot) value, rfl, rfl,
      (isMatch.moved rest machine.stack).bind fresh name value⟩
  | sequence _ _ firstIH secondIH =>
    rw [List.append_assoc] at here
    refine Follows.andThen (firstIH here isMatch) ?_
    intro middle reached arrives
    have later := secondIH arrives.rest_eq arrives.isMatch
    rw [arrives.stack_eq] at later
    exact later

private theorem suffix_later {first second : List Instr} (here : first ++ second <:+ program) : second <:+ program :=
  (List.suffix_append first second).trans here

/-- The rounds of a loop, from the code of its test on. The machine takes a step for each round. -/
private theorem rounds_follow {live : Live} {test : Tree} {code rest : List Instr} {label fuel : Nat}
    {body : World → Result} {stack : List Value} (tested : Lexical.Expression live.names test)
    (back : codeAfter label program =
      some (valueCode live test ++ ([Instr.jump .ifFalse (label + 1)] ++ (code ++
        ([Instr.jump .back label, .place (label + 1)] ++ rest)))))
    (done : codeAfter (label + 1) program = some rest)
    (bodyFollows : ∀ {world machine},
      Arrives live (code ++ ([Instr.jump .back label, .place (label + 1)] ++ rest)) stack world machine →
      Follows program fuel machine (Arrives live ([Instr.jump .back label, .place (label + 1)] ++ rest) stack) (body world))
    {count : Nat} (enough : count ≤ fuel) {world : World} {machine : Machine}
    (arrives : Arrives live (valueCode live test ++ ([Instr.jump .ifFalse (label + 1)] ++ (code ++
      ([Instr.jump .back label, .place (label + 1)] ++ rest)))) stack world machine) :
    Follows program count machine (Arrives live rest stack)
      (rounds (fun world => evaluate world.bindings test) body count world) := by
  induction count generalizing world machine with
  | zero => exact ⟨0, machine, Nat.le_refl 0, .refl machine, arrives.isMatch.printed⟩
  | succ count ih =>
    obtain ⟨here, held, isMatch⟩ := arrives
    simp only [rounds, ← isMatch.printed]
    refine Follows.withValue (expression_computes tested isMatch here) ?_
    intro value
    refine Follows.later (branch_leads done _ value machine.stack machine.slots machine.printed) ?_
    by_cases holds : value.isTrue = true
    · rw [if_pos holds, if_pos holds]
      have atBody : Arrives live (code ++ ([.jump .back label, .place (label + 1)] ++ rest)) stack world
          ⟨_, machine.stack, machine.slots, machine.printed⟩ := ⟨rfl, held, isMatch.moved _ machine.stack⟩
      refine Follows.andThen ((bodyFollows atBody).weaken enough) ?_
      intro next reached nextArrives
      obtain ⟨ends, kept, nextMatch⟩ := nextArrives
      obtain ⟨code', stack', slots', printed'⟩ := reached
      simp only at ends kept
      subst ends kept
      have jumps : Leads program 1 ⟨[.jump .back label, .place (label + 1)] ++ rest, stack', slots', printed'⟩
          ⟨_, stack', slots', printed'⟩ := jump_leads back (by decide) _ stack' slots' printed'
      rw [Nat.add_comm]
      exact Follows.after jumps (ih (Nat.le_of_succ_le enough) ⟨rfl, rfl, nextMatch.moved _ stack'⟩)
    · rw [if_neg holds, if_neg holds]
      exact ⟨0, _, .refl _, rfl, held, isMatch.moved rest machine.stack⟩

/-- The code of a command does what the command means, wherever it stands in a program. -/
theorem command_follows (once : (placed program).Nodup) {live : Live} {tree : Tree} {label last : Nat} {code : List Instr}
    (translates : Translates live tree label code last) (distinct : live.slots.Nodup) (fuel : Nat) {world : World}
    {machine : Machine} {rest : List Instr} (stands : code ++ rest <:+ program) (here : machine.rest = code ++ rest)
    (isMatch : Matches live world machine) :
    Follows program fuel machine (Arrives live rest machine.stack) (execute fuel tree world) := by
  induction translates generalizing world machine rest with
  | @assign live name value label declared valued =>
    rw [List.append_assoc] at here
    simp only [execute, ← isMatch.printed]
    refine Follows.withValue (expression_computes valued isMatch here) ?_
    intro result
    have stored := (isMatch.moved rest machine.stack).assign distinct declared result
    exact ⟨_, _, store_leads rest machine.stack machine.slots machine.printed _ result, rfl, rfl, ⟨rfl, stored.values⟩⟩
  | @print live argument type label valued =>
    rw [List.append_assoc] at here
    simp only [execute, ← isMatch.printed]
    refine Follows.withValue (expression_computes valued isMatch here) ?_
    intro result
    have prints : Leads program 2
        ⟨[.op .printItem .absent, .op .printNewline .absent] ++ rest, result :: machine.stack, machine.slots, machine.printed⟩
        ⟨rest, machine.stack, machine.slots, machine.printed ++ result.render ++ "\n"⟩ := .step rfl (.one rfl)
    exact ⟨_, _, prints, rfl, rfl, ⟨rfl, isMatch.values⟩⟩
  | @returns live value label valued =>
    rw [List.append_assoc] at here
    simp only [execute, ← isMatch.printed]
    refine Follows.withValue (expression_computes valued isMatch here) ?_
    intro result
    exact ⟨0, _, .refl _, rfl⟩
  | sequence _ _ firstIH secondIH =>
    rw [List.append_assoc] at here stands
    refine Follows.andThen (firstIH distinct stands here isMatch) ?_
    intro middle reached arrives
    have later := secondIH distinct (suffix_later stands) arrives.rest_eq arrives.isMatch
    rw [arrives.stack_eq] at later
    exact later
  | @scope live inner declared body label last before code declares _ bodyIH =>
    rw [List.append_assoc] at here stands
    obtain ⟨added, innerIs⟩ := declares.extends_live
    have inside : Follows program fuel machine (Arrives inner rest machine.stack)
        (andThen (declare declared world) (execute fuel body)) := by
      refine Follows.andThen (declaration_follows declares fuel here isMatch) ?_
      intro middle reached arrives
      have later := bodyIH (declares.distinct distinct) (suffix_later stands) arrives.rest_eq arrives.isMatch
      rw [arrives.stack_eq] at later
      exact later
    refine Follows.andThen inside ?_
    intro final reached arrives
    rw [isMatch.length_eq]
    have outer := arrives.isMatch
    rw [innerIs] at outer
    exact ⟨0, reached, .refl reached, arrives.rest_eq, arrives.stack_eq, outer.leave⟩
  | @conditional live test yes no label middle last taken otherwise tested _ _ yesIH noIH =>
    simp only [List.append_assoc] at here stands
    have yesStands := suffix_later (suffix_later stands)
    have tailStands := suffix_later yesStands
    have noStands := suffix_later tailStands
    have endStands := suffix_later noStands
    have elseFound : codeAfter label program = some (otherwise ++ ([.place (label + 1)] ++ rest)) :=
      codeAfter_of_suffix once ((List.suffix_cons _ _).trans tailStands)
    have doneFound : codeAfter (label + 1) program = some rest := codeAfter_of_suffix once endStands
    simp only [execute, ← isMatch.printed]
    refine Follows.withValue (expression_computes tested isMatch here) ?_
    intro value
    refine Follows.later (branch_leads elseFound _ value machine.stack machine.slots machine.printed) ?_
    by_cases holds : value.isTrue = true
    · rw [if_pos holds, if_pos holds]
      refine Follows.onward (yesIH distinct yesStands rfl (isMatch.moved _ machine.stack)) ?_
      -- The jump over the other branch ends at the same place as that branch.
      intro next reached arrives
      obtain ⟨ends, kept, nextMatch⟩ := arrives
      obtain ⟨code', stack', slots', printed'⟩ := reached
      simp only at ends kept
      subst ends kept
      have always : Jump.forward ≠ .ifFalse := by decide
      exact ⟨1, _, jump_leads doneFound always _ machine.stack slots' printed', rfl, rfl, nextMatch.moved rest machine.stack⟩
    · rw [if_neg holds, if_neg holds]
      refine Follows.onward (noIH distinct noStands rfl (isMatch.moved _ machine.stack)) ?_
      intro next reached arrives
      obtain ⟨ends, kept, nextMatch⟩ := arrives
      obtain ⟨code', stack', slots', printed'⟩ := reached
      simp only at ends kept
      subst ends kept
      exact ⟨1, _, .one rfl, rfl, rfl, nextMatch.moved rest machine.stack⟩
  | @loop live test body label last code tested _ bodyIH =>
    simp only [List.append_assoc] at here stands
    have headFound := codeAfter_of_suffix once stands
    have bodyStands := suffix_later (suffix_later (suffix_later stands))
    have endStands := suffix_later bodyStands
    have doneFound : codeAfter (label + 1) program = some rest :=
      codeAfter_of_suffix once ((List.suffix_cons _ _).trans endStands)
    have enters : Leads program 1 machine { machine with rest := valueCode live test ++ ([.jump .ifFalse (label + 1)] ++
        (code ++ ([.jump .back label, .place (label + 1)] ++ rest))) } := by
      apply Leads.one
      unfold step
      rw [here]
      rfl
    refine Follows.later enters ?_
    refine rounds_follow tested headFound doneFound ?_ (Nat.le_refl fuel) ⟨rfl, rfl, isMatch.moved _ machine.stack⟩
    intro next reached arrives
    have inside := bodyIH distinct bodyStands arrives.rest_eq arrives.isMatch
    rw [arrives.stack_eq] at inside
    exact inside

/-- The code of a whole program behaves as the program does. -/
theorem program_behaves {command : Tree} {label last : Nat} {code : List Instr}
    (translates : Translates [] command label code last) :
    SameBehaviour (Source.run (.program command))
      (Machine.run (code ++ [Instr.op .loadConst .absent, .op .returnValue .absent])) := by
  apply Machine.sameBehaviour
  intro fuel
  let whole : List Instr := code ++ [.op .loadConst .absent, .op .returnValue .absent]
  have once : (placed whole).Nodup := by
    rw [placed_append]
    simpa [placed] using translates.placed_own.2.2
  have start : Matches [] ⟨[], ""⟩ (Machine.start whole) := ⟨rfl, rfl⟩
  have follows := command_follows once translates List.nodup_nil fuel (List.suffix_refl whole) rfl start
  show ∃ m, fuel ≤ m ∧ runFrom whole m (Machine.start whole) = _
  -- A run that has ended may be given any number of further steps.
  have ended {count : Nat} {ending : Ending} (finished : ending.isFinished = true)
      (ran : runFrom whole count (Machine.start whole) = ending) :
      ∃ m, fuel ≤ m ∧ runFrom whole m (Machine.start whole) = ending :=
    ⟨count + fuel, Nat.le_add_left _ _, runFrom_finished ran finished fuel⟩
  simp only [Source.run]
  cases result : execute fuel command ⟨[], ""⟩ with
  | goesOn world =>
    rw [result] at follows
    show ∃ m, _ ∧ _ = Ending.returned .nothing world.printed
    obtain ⟨count, reached, leads, arrives⟩ := follows
    refine ended rfl (?_ : runFrom whole (count + 2) (Machine.start whole) = _)
    rw [leads.runFrom_add]
    obtain ⟨ends, _, isMatch⟩ := arrives
    obtain ⟨rest, stack, slots, printed⟩ := reached
    simp only at ends
    subst ends
    show Ending.returned .nothing printed = .returned .nothing world.printed
    rw [← isMatch.printed]
  | stops ending =>
    rw [result] at follows
    show ∃ m, _ ∧ _ = ending
    have finishes {count : Nat} {reached : Machine} (leads : Leads whole count (Machine.start whole) reached)
        (stops : reached.step whole = .ends ending) : runFrom whole (count + 1) (Machine.start whole) = ending := by
      rw [leads.runFrom_add]
      simp only [runFrom, stops]
    cases ending with
    | unfinished printed =>
      obtain ⟨count, reached, enough, leads, same⟩ := follows
      refine ⟨count, enough, ?_⟩
      have stage := leads.runFrom_add 0
      rw [Nat.add_zero] at stage
      rw [stage, ← same]
      rfl
    | returned value printed =>
      obtain ⟨count, reached, leads, stops⟩ := follows
      exact ended rfl (finishes leads stops)
    | failed fault printed =>
      obtain ⟨count, reached, leads, stops⟩ := follows
      exact ended rfl (finishes leads stops)

end MiniTriangle
