import MiniTriangle.Proofs.DeclarationCalls
import MiniTriangle.Proofs.LetRestoration
import MiniTriangle.Proofs.ParsedTrees
import MiniTriangle.Proofs.RootedScopes

/-! When two variables that are alive together share a slot. The number put after a name that is declared again is a count
that goes down at the end of each `let`, and a name may itself end with figures. So a variable gets the slot of an outer
one exactly if the count has come back to where it was, or if the figures of one name run into the number of the other. -/

namespace MiniTriangle

open Sequencing

/-- What the slot of the next declaration depends on, as far as it is told by the names declared. -/
structure Tally where
  /-- The names declared in each scope, the innermost first. -/
  known : List (List Tree)
  count : Int

namespace Tally

def repeats (tally : Tally) (name : Tree) : Bool := (tally.known.headD []).any (·.sameName name)

/-- Repeated declarations are counted, and leaving a `let` counts one down. -/
def after (tally : Tally) : Naming.Step → Tally
  | .declare name =>
    if tally.repeats name then { tally with count := tally.count + 1 }
    else { tally with known := tally.known.modifyHead (· ++ [name]) }
  | .leave => { tally with count := tally.count - 1 }
  | .enter => { tally with known := [] :: tally.known }
  | .exit => { tally with known := tally.known.tail }

def run (tally : Tally) (steps : List Naming.Step) : Tally := steps.foldl after tally

def of (events : List Event) : Tally := run ⟨[[]], 0⟩ (steps events)

/-- What is put after a word that is declared: a number if it is declared again. -/
def ending (tally : Tally) (word : String) : String :=
  if tally.repeats (.text word) then Text.decimal (tally.count + 1) else ""

end Tally

def Naming.tally (naming : Naming) : Tally := ⟨naming.scopes.map Scope.names, naming.count⟩

namespace Naming

variable {naming final : Naming}

theorem repeats_tally (scope : Scope) (outer : List Scope) (count : Int) (name : Tree) :
    (tally ⟨scope :: outer, count⟩).repeats name = (scope.slots? name).isSome :=
  (Scope.isSome_slots? scope name).symm

theorem tally_declare {name slot : Tree} (declared : naming.declare? name = some (slot, final)) :
    final.tally = naming.tally.after (.declare name) := by
  obtain ⟨scopes, count⟩ := naming
  cases scopes with
  | nil => cases declared
  | cons scope outer =>
    rw [Naming.declare?] at declared
    rw [Tally.after, repeats_tally]
    by_cases known : (scope.slots? name).isSome = true
    · rw [if_pos known] at declared ⊢
      obtain ⟨fresh, _, made⟩ := Option.map_eq_some_iff.mp declared
      cases made
      simp [tally, Scope.names_push]
    · rw [if_neg known] at declared ⊢
      cases declared
      simp [tally, Scope.names_insert]

theorem tally_step {step : Step} (stepped : naming.step? step = some final) : final.tally = naming.tally.after step := by
  obtain ⟨scopes, count⟩ := naming
  cases step with
  | declare name =>
    obtain ⟨⟨slot, next⟩, declared, same⟩ := Option.map_eq_some_iff.mp stepped
    cases same
    exact tally_declare declared
  | leave =>
    cases scopes with
    | nil => cases stepped
    | cons scope outer =>
      simp only [step?, leave?] at stepped
      cases released : scope.release (Text.decimal count) with
      | mk kept failure =>
        rw [released] at stepped
        cases failure with
        | some cause => cases stepped
        | none =>
          cases stepped
          simp [tally, Tally.after, Scope.names_release released]
  | enter =>
    cases stepped
    rfl
  | exit =>
    cases scopes with
    | nil => cases stepped
    | cons scope outer =>
      cases stepped
      rfl

theorem tally_run {steps : List Step} (ran : naming.run? steps = some final) : final.tally = naming.tally.run steps := by
  induction steps generalizing naming with
  | nil =>
    cases ran
    rfl
  | cons step rest ih =>
    obtain ⟨next, stepped, more⟩ := Option.bind_eq_some_iff.mp ran
    rw [ih more, tally_step stepped]
    rfl

/-- The slot of a word is the word with its ending. -/
theorem slot_of_declare {word : String} {slot : Tree} (declared : naming.declare? (.text word) = some (slot, final)) :
    slot = .text (word ++ naming.tally.ending word) := by
  obtain ⟨scopes, count⟩ := naming
  cases scopes with
  | nil => cases declared
  | cons scope outer =>
    rw [Naming.declare?] at declared
    rw [Tally.ending, repeats_tally]
    by_cases known : (scope.slots? (.text word)).isSome = true
    · rw [if_pos known] at declared ⊢
      cases declared
      rfl
    · rw [if_neg known] at declared ⊢
      cases declared
      rw [String.append_empty]

end Naming

namespace Tally

variable {tally : Tally}

/-- Steps that end what they start take no name away. -/
theorem known_run {steps : List Naming.Step} (closed : Naming.Enclosed steps) {names : List Tree} {outer : List (List Tree)}
    (known : tally.known = names :: outer) : ∃ more, (tally.run steps).known = (names ++ more) :: outer := by
  induction closed generalizing tally names outer with
  | nil => exact ⟨[], by rw [List.append_nil]; exact known⟩
  | declare name _ ih =>
    by_cases repeated : tally.repeats name = true
    · exact ih (by rw [after, if_pos repeated]; exact known)
    · have added : (tally.after (.declare name)).known = (names ++ [name]) :: outer := by
        rw [after, if_neg repeated]
        simp [known]
      obtain ⟨more, later⟩ := ih added
      exact ⟨[name] ++ more, by rw [← List.append_assoc]; exact later⟩
  | leave _ ih => exact ih known
  | @function body rest _ _ insideIH moreIH =>
    have entered : (tally.after .enter).known = [] :: names :: outer := congrArg ([] :: ·) known
    obtain ⟨inner, inside⟩ := insideIH entered
    have back : (((tally.after .enter).run body).after .exit).known = names :: outer := congrArg List.tail inside
    obtain ⟨more, later⟩ := moreIH back
    refine ⟨more, ?_⟩
    rw [← later]
    simp [run]

/-- A word declared is known in all that follows in its function. -/
theorem repeats_declared (word : String) (inside : tally.known ≠ []) {steps : List Naming.Step}
    (closed : Naming.Enclosed steps) : ((tally.after (.declare (.text word))).run steps).repeats (.text word) = true := by
  have own : (Tree.text word).sameName (.text word) = true := Tree.sameName_iff.mpr ⟨_, rfl, rfl⟩
  obtain ⟨names, outer, known⟩ := List.exists_cons_of_ne_nil inside
  have declared : ∃ now, (tally.after (.declare (.text word))).known = now :: outer ∧
      now.any (·.sameName (.text word)) = true := by
    by_cases repeated : tally.repeats (.text word) = true
    · refine ⟨names, by rw [after, if_pos repeated]; exact known, ?_⟩
      rwa [repeats, known] at repeated
    · exact ⟨names ++ [.text word], by rw [after, if_neg repeated]; simp [known], by simp [own]⟩
  obtain ⟨now, knownNow, among⟩ := declared
  obtain ⟨more, later⟩ := known_run closed knownNow
  rw [repeats, later]
  simp [among]

end Tally

/-- When a declaration inside the scope of an earlier one gets its slot, by the tallies before the two. Either one word is
declared again with the count of the earlier declaration, or the longer word is the shorter one with the first figures of
its number. -/
def Clash (earlier : Tally) (word : String) (later : Tally) (other : String) : Prop :=
  (word = other ∧ earlier.repeats (.text word) = true ∧ later.count = earlier.count) ∨
    ∃ figures, figures ≠ "" ∧
      ((word = other ++ figures ∧ later.ending other = figures ++ earlier.ending word) ∨
        (other = word ++ figures ∧ earlier.ending word = figures ++ later.ending other))

theorem decimal_ne_empty (count : Int) : Text.decimal count ≠ "" := by
  obtain ⟨number, ends⟩ := decimal_ends count
  intro empty
  rw [empty] at ends
  exact Nat.toDigits_ne_nil (List.suffix_nil.mp ends)

/-- Of two texts that become one by their endings, one goes on where the other stops. -/
private theorem overlap {word ending other last : String} (same : word ++ ending = other ++ last) :
    (∃ figures, word = other ++ figures ∧ last = figures ++ ending) ∨
      ∃ figures, other = word ++ figures ∧ ending = figures ++ last := by
  have spelled : word.toList ++ ending.toList = other.toList ++ last.toList := by
    rw [← String.toList_append, same, String.toList_append]
  rcases List.append_eq_append_iff.mp spelled with ⟨figures, longer, rest⟩ | ⟨figures, longer, rest⟩
  · refine .inr ⟨String.ofList figures, String.toList_inj.mp ?_, String.toList_inj.mp ?_⟩
    · simpa using longer
    · simpa using rest
  · refine .inl ⟨String.ofList figures, String.toList_inj.mp ?_, String.toList_inj.mp ?_⟩
    · simpa using longer
    · simpa using rest

/-- The slots of two words are the same exactly if the words clash, provided that a word declared stays known. -/
theorem slots_eq_iff {earlier later : Tally} {word other : String}
    (stays : word = other → later.repeats (.text other) = true) :
    word ++ earlier.ending word = other ++ later.ending other ↔ Clash earlier word later other := by
  constructor
  · intro same
    by_cases alike : word = other
    · subst alike
      have endings := (String.append_right_inj word).mp same
      rw [Tally.ending, Tally.ending, if_pos (stays rfl)] at endings
      by_cases repeated : earlier.repeats (.text word) = true
      · rw [if_pos repeated] at endings
        have counts := decimal_injective endings
        exact .inl ⟨rfl, repeated, by omega⟩
      · rw [if_neg repeated] at endings
        exact absurd endings.symm (decimal_ne_empty _)
    · have longer {short long figures : String} (apart : long ≠ short) (made : long = short ++ figures) :
          figures ≠ "" := by
        intro empty
        rw [empty, String.append_empty] at made
        exact apart made
      rcases overlap same with ⟨figures, made, rest⟩ | ⟨figures, made, rest⟩
      · exact .inr ⟨figures, longer alike made, .inl ⟨made, rest⟩⟩
      · exact .inr ⟨figures, longer (Ne.symm alike) made, .inr ⟨made, rest⟩⟩
  · rintro (⟨rfl, repeated, counts⟩ | ⟨figures, _, ⟨rfl, ending⟩ | ⟨rfl, ending⟩⟩)
    · rw [Tally.ending, Tally.ending, if_pos repeated, if_pos (stays rfl), counts]
    · rw [ending, String.append_assoc]
    · rw [ending, String.append_assoc]

namespace Event

inductive Closed : List Event → Prop where
  | nil : Closed []
  | declare (name : Tree) {rest : List Event} (more : Closed rest) : Closed (.declare name :: rest)
  | scope {body rest : List Event} (inside : Closed body) (more : Closed rest) :
      Closed (.openLet :: (body ++ .leaveLet :: rest))
  | function {body rest : List Event} (inside : Closed body) (more : Closed rest) :
      Closed (.enter :: (body ++ .exit :: rest))

/-- Events between a declaration and a place in its scope and in the same function. A `let` may be left open, but none is
left that was not opened, and functions are passed as a whole. -/
inductive Inside : List Event → Prop where
  | here : Inside []
  | declare (name : Tree) {rest : List Event} (more : Inside rest) : Inside (.declare name :: rest)
  | openLet {rest : List Event} (more : Inside rest) : Inside (.openLet :: rest)
  | scope {body rest : List Event} (passed : Closed body) (more : Inside rest) :
      Inside (.openLet :: (body ++ .leaveLet :: rest))
  | function {body rest : List Event} (passed : Closed body) (more : Inside rest) :
      Inside (.enter :: (body ++ .exit :: rest))

theorem Closed.enclosed {events : List Event} (closed : Closed events) : Naming.Enclosed (steps events) := by
  induction closed with
  | nil => exact .nil
  | declare name _ ih => exact .declare name ih
  | @scope body rest _ _ insideIH moreIH =>
    show Naming.Enclosed (steps (body ++ .leaveLet :: rest))
    rw [steps_append]
    exact insideIH.append (.leave moreIH)
  | @function body rest _ _ insideIH moreIH =>
    show Naming.Enclosed (.enter :: steps (body ++ .exit :: rest))
    rw [steps_append]
    exact .function insideIH moreIH

theorem Inside.enclosed {events : List Event} (live : Inside events) : Naming.Enclosed (steps events) := by
  induction live with
  | here => exact .nil
  | declare name _ ih => exact .declare name ih
  | openLet _ ih => exact ih
  | @scope body rest passed _ ih =>
    show Naming.Enclosed (steps (body ++ .leaveLet :: rest))
    rw [steps_append]
    exact passed.enclosed.append (.leave ih)
  | @function body rest passed _ ih =>
    show Naming.Enclosed (.enter :: steps (body ++ .exit :: rest))
    rw [steps_append]
    exact .function passed.enclosed ih

end Event

def Role.events : Role → Tree → List Event
  | .command, tree => tree.commandEvents
  | .declaration, tree => tree.declarationEvents
  | _, _ => []

/-- What a program read from a text declares are words. -/
theorem Shaped.declares_text {role : Role} {tree name : Tree} (shaped : Shaped role tree)
    (declared : .declare name ∈ role.events tree) : ∃ word, name = .text word := by
  induction shaped with
  | sequence _ _ firstIH secondIH => exact (List.mem_append.mp declared).elim firstIH secondIH
  | conditional _ _ _ _ yesIH noIH => exact (List.mem_append.mp declared).elim yesIH noIH
  | loop _ _ _ bodyIH => exact bodyIH declared
  | scope _ _ declaresIH innerIH =>
    simp only [Role.events, Tree.commandEvents, List.mem_cons, List.mem_append, List.not_mem_nil, reduceCtorEq, false_or,
      or_false] at declared
    exact declared.elim declaresIH innerIH
  | var word type =>
    cases List.mem_singleton.mp declared
    exact ⟨word, rfl⟩
  | const word valued =>
    cases List.mem_singleton.mp declared
    exact ⟨word, rfl⟩
  | function word type listed _ _ innerIH =>
    simp only [Role.events, Tree.declarationEvents, List.mem_cons, List.mem_append, List.mem_map, Event.declare.injEq,
      exists_eq_right, List.not_mem_nil, reduceCtorEq, false_or, or_false] at declared
    exact declared.elim (listed.parameter_texts name) innerIH
  | declarations _ _ firstIH secondIH => exact (List.mem_append.mp declared).elim firstIH secondIH
  | _ => cases declared

def State.begun : State := ⟨[[]], 0, [[]], 0⟩

/-- The command of a program declares the name after the given events, and the name gets the slot. -/
def Tree.Gives (command : Tree) (before : List Event) (name slot : Tree) : Prop :=
  ∃ state next, Generate.Calls .command command .begun before name state ∧ Generate.declare name state = .ok slot next

theorem Generate.program_command {command : Tree} {code : List Instr} {final : State}
    (ran : program (.program command) .empty = .ok code final) : ∃ ended, Generate.command command .begun = .ok () ended := by
  cases command with
  | letIn declared body =>
    obtain ⟨_, framed, opened, ran⟩ := bind_eq_ok.mp ran
    obtain ⟨_, inner, entered, ran⟩ := bind_eq_ok.mp ran
    obtain ⟨_, ended, generates, _⟩ := bind_eq_ok.mp ran
    cases opened
    cases entered
    exact ⟨ended, generates⟩
  | _ => exact absurd ran throw_ne_ok

/-- The slot that a word gets is told by the events before it. -/
theorem Tree.Gives.slot_eq {command slot : Tree} {before : List Event} {word : String}
    (given : command.Gives before (.text word) slot) :
    slot = .text (word ++ (Tally.of before).ending word) ∧ (Tally.of before).known ≠ [] := by
  obtain ⟨state, next, calls, declared⟩ := given
  have tallied : state.naming.tally = Tally.of before := Naming.tally_run calls.run
  have named := Generate.declare_ok declared
  rw [← tallied]
  refine ⟨Naming.slot_of_declare named, ?_⟩
  intro none
  have empty : state.naming.scopes = [] := List.map_eq_nil_iff.mp none
  rw [show state.naming = ⟨[], state.naming.count⟩ by rw [← empty]] at named
  cases named

/-- A variable declared in the scope of another one in the same function gets its slot exactly if the two clash. -/
theorem live_slots_shared_iff {text : String} {routine : Routine} {state : State} {command first second : Tree}
    {before between after : List Event} (compiled : compile text = .ok (routine, state))
    (read : readProgram? text = some (.program command))
    (declared : command.commandEvents = before ++ .declare first :: (between ++ .declare second :: after))
    (live : Event.Inside between) :
    ∃ word other slot given, first = .text word ∧ second = .text other ∧ command.Gives before first slot ∧
      command.Gives (before ++ .declare first :: between) second given ∧
      (slot = given ↔ Clash (Tally.of before) word (Tally.of (before ++ .declare first :: between)) other) := by
  obtain ⟨tree, same, generated⟩ := compile_eq_ok.mp compiled
  cases read.symm.trans same
  obtain ⟨ended, ran⟩ := Generate.program_command (compileTree_eq_ok.mp generated).2
  have shaped := shaped_of_read read
  obtain ⟨word, firstIs⟩ : ∃ word, first = .text word :=
    shaped.declares_text (show _ ∈ command.commandEvents by simp [declared])
  obtain ⟨other, secondIs⟩ : ∃ word, second = .text word :=
    shaped.declares_text (show _ ∈ command.commandEvents by simp [declared])
  subst firstIs secondIs
  have declaredLater : command.commandEvents =
      (before ++ .declare (.text word) :: between) ++ .declare (.text other) :: after := by
    rw [declared, List.append_assoc, List.cons_append]
  obtain ⟨atFirst, slot, afterFirst, reachesFirst, givesFirst⟩ := Generate.command_calls command ran declared
  obtain ⟨atSecond, given, afterSecond, reachesSecond, givesSecond⟩ := Generate.command_calls command ran declaredLater
  have former : command.Gives before (.text word) slot := ⟨atFirst, afterFirst, reachesFirst, givesFirst⟩
  have latter : command.Gives (before ++ .declare (.text word) :: between) (.text other) given :=
    ⟨atSecond, afterSecond, reachesSecond, givesSecond⟩
  refine ⟨word, other, slot, given, rfl, rfl, former, latter, ?_⟩
  obtain ⟨slotIs, inside⟩ := former.slot_eq
  rw [slotIs, latter.slot_eq.1, ← slots_eq_iff]
  · simp
  · rintro rfl
    have known := Tally.repeats_declared word inside live.enclosed
    rw [Tally.of, steps_append, Tally.run, List.foldl_append]
    exact known

def declaring (names : List String) (body : Tree) : Tree :=
  .letIn (names.foldr (fun name rest => .declarations (.varDecl (.text name) (.typeName (.text "Integer"))) rest) .absent) body

/-- Declares `x` three times, one inside the other, and leaves a `let` before the last. -/
def recounting : String :=
  "let var x: Integer; in let var x: Integer; in " ++
    "begin let var y: Integer; in y := 1; let var x: Integer; in x := 2; end"

def recountingCommand : Tree :=
  declaring ["x"] (declaring ["x"] (.sequence (declaring ["y"] (.assign (.name (.text "y")) (.integer (.number 1))))
    (declaring ["x"] (.assign (.name (.text "x")) (.integer (.number 2))))))

/-- Declares a name that ends with a figure, and then the name without the figure again. -/
def figured : String :=
  "let var x: Integer; var x1: Integer; var z: Integer; in let var x: Integer; var z: Integer; in x := x1;"

def figuredCommand : Tree :=
  declaring ["x", "x1", "z"] (declaring ["x", "z"] (.assign (.name (.text "x")) (.reference (.name (.text "x1")))))

/-- In both programs a variable takes the slot of one whose scope it lies in. -/
theorem inner_takes_slot :
    (readProgram? recounting = some (.program recountingCommand) ∧ ∃ slot,
      recountingCommand.Gives [.openLet, .declare (.text "x"), .openLet] (.text "x") slot ∧
      recountingCommand.Gives [.openLet, .declare (.text "x"), .openLet, .declare (.text "x"), .openLet,
        .declare (.text "y"), .leaveLet, .openLet] (.text "x") slot) ∧
    readProgram? figured = some (.program figuredCommand) ∧ ∃ slot,
      figuredCommand.Gives [.openLet, .declare (.text "x")] (.text "x1") slot ∧
      figuredCommand.Gives [.openLet, .declare (.text "x"), .declare (.text "x1"), .declare (.text "z"), .openLet]
        (.text "x") slot := by
  constructor
  · have read : readProgram? recounting = some (.program recountingCommand) := by decide +kernel
    obtain ⟨routine, state, compiled⟩ := compiles_of_read read (by decide +kernel)
    have live : Event.Inside [.openLet, .declare (.text "y"), .leaveLet, .openLet] :=
      .scope (.declare _ .nil) (.openLet .here)
    obtain ⟨_, _, slot, given, ⟨⟩, ⟨⟩, former, latter, shared⟩ :=
      @live_slots_shared_iff _ _ _ _ (.text "x") (.text "x") [.openLet, .declare (.text "x"), .openLet] _
        [.leaveLet, .leaveLet, .leaveLet] compiled read
        (by simp [recountingCommand, declaring, Tree.commandEvents, Tree.declarationEvents]) live
    have same : slot = given := shared.mpr (.inl ⟨rfl, by decide, by decide⟩)
    exact ⟨read, slot, former, same ▸ latter⟩
  · have read : readProgram? figured = some (.program figuredCommand) := by decide +kernel
    obtain ⟨routine, state, compiled⟩ := compiles_of_read read (by decide +kernel)
    have live : Event.Inside [.declare (.text "z"), .openLet] := .declare _ (.openLet .here)
    obtain ⟨_, _, slot, given, ⟨⟩, ⟨⟩, former, latter, shared⟩ :=
      @live_slots_shared_iff _ _ _ _ (.text "x1") (.text "x") [.openLet, .declare (.text "x")] _
        [.declare (.text "z"), .leaveLet, .leaveLet] compiled read
        (by simp [figuredCommand, declaring, Tree.commandEvents, Tree.declarationEvents]) live
    have same : slot = given := shared.mpr (.inr ⟨"1", by decide, .inl ⟨by decide, by decide⟩⟩)
    exact ⟨read, slot, former, same ▸ latter⟩

end MiniTriangle
