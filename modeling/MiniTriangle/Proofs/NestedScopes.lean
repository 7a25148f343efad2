import MiniTriangle.Code.Session
import MiniTriangle.Proofs.SlotDisciplines

/-! Scopes are left in the opposite order of entering them. If every repeated declaration is followed by the end of its
`let`, with only such pairs and whole functions between the two, the open declarations are numbered from one upwards
over all scopes together. No other slot that can be looked at ends with the last number, so the end of a `let` takes
away the slot of its own declaration and nothing else. -/

namespace MiniTriangle

open Sequencing

def Declarable (names : List String) : Prop := names.Nodup ∧ ∀ name ∈ names, Undigited name

instance (names : List String) : Decidable (Declarable names) := inferInstanceAs (Decidable (_ ∧ _))

/-- Requests in which every scope that is entered is left again. -/
inductive Nesting where
  | nothing
  | both (first second : Nesting)
  /-- A known name is declared again, until the end of its `let`. -/
  | again (name : String) (inside : Nesting)
  /-- A function with the names of its own scope. -/
  | function (names : List String) (inside : Nesting)

namespace Nesting

open Generate (Request)

def declaring (names : List String) : List Request := names.map fun name => .declare (.text name)

def requests : Nesting → List Request
  | .nothing => []
  | .both first second => first.requests ++ second.requests
  | .again name inside => .declare (.text name) :: (inside.requests ++ [.leaveLet])
  | .function names inside => .openScope :: (declaring names ++ (inside.requests ++ [.closeScope]))

def Fits : List String → Nesting → Prop
  | _, .nothing => True
  | known, .both first second => first.Fits known ∧ second.Fits known
  | known, .again name inside => name ∈ known ∧ inside.Fits known
  | _, .function names inside => Declarable names ∧ inside.Fits names

instance decidableFits : (known : List String) → (nesting : Nesting) → Decidable (nesting.Fits known)
  | _, .nothing => inferInstanceAs (Decidable True)
  | known, .both first second =>
    have := decidableFits known first
    have := decidableFits known second
    inferInstanceAs (Decidable (_ ∧ _))
  | known, .again _ inside =>
    have := decidableFits known inside
    inferInstanceAs (Decidable (_ ∧ _))
  | _, .function names inside =>
    have := decidableFits names inside
    inferInstanceAs (Decidable (_ ∧ _))

/-- A name is declared again after the given requests; with this declaration so many are open. -/
inductive Reopens : Nesting → List Request → String → Nat → Prop where
  | here (name : String) (inside : Nesting) : Reopens (.again name inside) [] name 1
  | inside {nesting : Nesting} {before : List Request} {name : String} {count : Nat} (other : String)
      (later : Reopens nesting before name count) :
      Reopens (.again other nesting) (.declare (.text other) :: before) name (count + 1)
  | first {nesting : Nesting} {before : List Request} {name : String} {count : Nat} (second : Nesting)
      (found : Reopens nesting before name count) : Reopens (.both nesting second) before name count
  | second {nesting : Nesting} {before : List Request} {name : String} {count : Nat} (first : Nesting)
      (found : Reopens nesting before name count) :
      Reopens (.both first nesting) (first.requests ++ before) name count
  | function {nesting : Nesting} {before : List Request} {name : String} {count : Nat} (names : List String)
      (found : Reopens nesting before name count) :
      Reopens (.function names nesting) (.openScope :: (declaring names ++ before)) name count

end Nesting

namespace Scope

variable {scope : Scope} {count : Nat} {name : String}

/-- The newest slot of every name is a text that ends with no number above the count. -/
def Capped (scope : Scope) (count : Nat) : Prop :=
  ∀ binding ∈ scope, ∃ newest older, binding.slots = .text newest :: older ∧
    ∀ number, count < number → ¬ Nat.toDigits 10 number <:+ newest.toList

def reopen (scope : Scope) (name : String) (count : Nat) : Scope :=
  scope.push (.text name) (.text (numbered name (count + 1)))

theorem capped_ofNames {names : List String} (undigited : ∀ name ∈ names, Undigited name) (count : Nat) :
    (ofNames names ownSlot).Capped count := by
  intro binding member
  obtain ⟨name, listed, made⟩ := List.mem_map.mp member
  rw [← made]
  exact ⟨name, [], rfl, fun number _ => not_ends_of_undigited (undigited name listed) number⟩

theorem Capped.reopen (capped : scope.Capped count) (undigited : Undigited name) :
    (scope.reopen name count).Capped (count + 1) := by
  intro binding member
  obtain ⟨old, inside, made⟩ := List.mem_map.mp member
  obtain ⟨newest, older, held, ends⟩ := capped old inside
  rw [← made]
  split
  · refine ⟨numbered name (count + 1), old.slots, rfl, ?_⟩
    intro number above ended
    exact absurd (le_of_numbered_ends undigited ended) (Nat.not_le.mpr above)
  · refine ⟨newest, older, held, ?_⟩
    intro number above
    exact ends number (Nat.lt_of_succ_lt above)

/-- Releasing the last number takes away the slot of the last declaration, and no other. -/
theorem Capped.release_reopen (capped : scope.Capped count) (name : String) :
    (scope.reopen name count).release (Text.decimal ((count + 1 : Nat) : Int)) = (scope, none) := by
  induction scope with
  | nil => rfl
  | cons binding rest ih =>
    obtain ⟨⟨newest, older, held, ends⟩, others⟩ := List.forall_mem_cons.mp capped
    have later := ih others
    have unfolded : Scope.reopen (binding :: rest) name count =
        (if binding.name.sameName (.text name) then
          { binding with slots := .text (numbered name (count + 1)) :: binding.slots } else binding) ::
            Scope.reopen rest name count := rfl
    rw [unfolded, release]
    by_cases same : binding.name.sameName (.text name) = true
    · have last : (Tree.text (numbered name (count + 1))).endsWith? (Text.decimal ((count + 1 : Nat) : Int)) =
          some true := by
        rw [endsWith_iff, toList_numbered, toList_decimal]
        exact List.suffix_append _ _
      simp only [same, if_true, last, later]
    · have stays : (Tree.text newest).endsWith? (Text.decimal ((count + 1 : Nat) : Int)) = some false := by
        apply endsWith_eq_false
        rw [toList_decimal]
        exact ends (count + 1) (Nat.lt_succ_self count)
      simp only [same, if_false, Bool.false_eq_true, held, stays, later]

end Scope

namespace Generate

def perform (requests : List Request) : Generate Unit := requests.forM fun request => discard request.answer

variable {state middle : State}

theorem perform_cons {request : Request} {rest : List Request} {reply : Reply}
    (answered : request.answer state = .ok reply middle) : perform (request :: rest) state = perform rest middle := by
  have done : (discard request.answer : Generate PUnit) state = .ok ⟨⟩ middle := bind_ok answered
  exact bind_ok done

theorem perform_append {first second : List Request} (ran : perform first state = .ok () middle) :
    perform (first ++ second) state = perform second middle := by
  induction first generalizing state with
  | nil =>
    cases ran
    rfl
  | cons request rest ih =>
    obtain ⟨_, between, answered, ran⟩ := bind_eq_ok.mp ran
    exact (bind_ok answered).trans (ih ran)

structure Level (known : List String) (count : Nat) (state : State) : Prop where
  counted : state.scopeCount = count
  undigited : ∀ name ∈ known, Undigited name
  placed : ∃ scope outer, state.scopes = scope :: outer ∧ scope.Capped count ∧
    ∀ name ∈ known, (scope.slots? (.text name)).isSome = true

namespace Level

variable {known names : List String} {count : Nat} {name : String}

/-- What is found of a name before a repeated declaration of another one is found after it. -/
theorem declare_again (level : Level known count state) (listed : name ∈ known) :
    ∃ after, declare (.text name) state = .ok (.text (numbered name (count + 1))) after ∧ Level known (count + 1) after ∧
      leaveLet after = .ok () state ∧ lookup (.text name) after = .ok (.text (numbered name (count + 1))) after ∧
      ∀ other, other ≠ .text name → ∃ slot, lookup other state = .ok slot state ∧ lookup other after = .ok slot after := by
  obtain ⟨scopes, total, frames, label⟩ := state
  obtain ⟨counted, undigited, scope, outer, placed, capped, all⟩ := level
  dsimp only at counted placed
  subst counted placed
  have known_ : (scope.slots? (.text name)).isSome = true := all name listed
  have found (other : Tree) : (scope.reopen name count).slots? other =
      if (Tree.text name).sameName other then
        (scope.slots? other).map (.text (numbered name (count + 1)) :: ·)
      else scope.slots? other := Scope.slots?_push _ _ _ _
  refine ⟨⟨scope.reopen name count :: outer, (count + 1 : Nat), frames, label⟩, ?_, ?_, ?_, ?_, ?_⟩
  · unfold declare
    rw [get_bind]
    simp only [known_, if_true, Tree.numbered?]
    rfl
  · refine ⟨rfl, undigited, _, outer, rfl, capped.reopen (undigited name listed), ?_⟩
    intro other member
    rw [Scope.isSome_slots?, Scope.reopen, Scope.names_push, ← Scope.isSome_slots?]
    exact all other member
  · unfold leaveLet
    rw [get_bind]
    simp only [capped.release_reopen name]
    show EStateM.Result.ok () _ = _
    simp
  · obtain ⟨slots, held⟩ := Option.isSome_iff_exists.mp known_
    have newest := found (.text name)
    rw [if_pos (Tree.sameName_iff.mpr ⟨_, rfl, rfl⟩), held] at newest
    unfold lookup
    rw [get_bind]
    simp only [newest]
    rfl
  · intro other apart
    have different : (Tree.text name).sameName other = false := by
      apply Bool.eq_false_iff.mpr
      intro same
      obtain ⟨value, nameIs, otherIs⟩ := Tree.sameName_iff.mp same
      exact apart (otherIs.trans nameIs.symm)
    have unchanged := found other
    rw [different] at unchanged
    unfold lookup
    simp only [get_bind, unchanged, Bool.false_eq_true, if_false]
    cases held : scope.slots? other with
    | none => exact ⟨.absent, rfl, rfl⟩
    | some slots =>
      obtain ⟨binding, at_, slotsIs⟩ := Option.map_eq_some_iff.mp held
      obtain ⟨newest, older, first, _⟩ := capped binding (List.mem_of_find?_eq_some at_)
      rw [← slotsIs, first]
      exact ⟨.text newest, rfl, rfl⟩

end Level

private theorem declaring_unknown {known names : List String} (once : (known ++ names).Nodup) (outer : List Scope)
    (count : Int) (frames : List (List Instr)) (label : Label) :
    perform (Nesting.declaring names) ⟨Scope.ofNames known ownSlot :: outer, count, frames, label⟩ =
      .ok () ⟨Scope.ofNames (known ++ names) ownSlot :: outer, count, frames, label⟩ := by
  induction names generalizing known with
  | nil => rw [List.append_nil]; rfl
  | cons name rest ih =>
    have fresh : name ∉ known := by
      intro member
      exact (List.nodup_append.mp once).2.2 name member name List.mem_cons_self rfl
    have declared : declare (.text name) ⟨Scope.ofNames known ownSlot :: outer, count, frames, label⟩ =
        .ok (.text name) ⟨Scope.ofNames (known ++ [name]) ownSlot :: outer, count, frames, label⟩ := by
      unfold declare
      rw [get_bind]
      simp only [Scope.slots?_ofNames, if_neg fresh, Option.isSome_none, Bool.false_eq_true, if_false]
      rw [Scope.insert_ofNames rfl]
      rfl
    have answered : (Request.declare (.text name)).answer ⟨Scope.ofNames known ownSlot :: outer, count, frames, label⟩ =
        .ok (.slot (.text name)) ⟨Scope.ofNames (known ++ [name]) ownSlot :: outer, count, frames, label⟩ :=
      bind_ok declared
    have split : known ++ name :: rest = (known ++ [name]) ++ rest := by simp
    rw [split] at once ⊢
    exact (perform_cons answered).trans (ih once)

/-- Opening a scope and declaring names in it. -/
theorem opened {names : List String} {count : Nat} (declarable : Declarable names) (counted : state.scopeCount = count) :
    ∃ start, perform (.openScope :: Nesting.declaring names) state = .ok () start ∧ Level names count start ∧
      start = { state with scopes := Scope.ofNames names ownSlot :: state.scopes } := by
  obtain ⟨scopes, total, frames, label⟩ := state
  dsimp only at counted
  subst counted
  refine ⟨_, ?_, ⟨rfl, declarable.2, _, _, rfl, Scope.capped_ofNames declarable.2 count, ?_⟩, rfl⟩
  · have entered : Request.openScope.answer ⟨scopes, count, frames, label⟩ = .ok .done ⟨[] :: scopes, count, frames, label⟩ := rfl
    rw [perform_cons entered]
    have once : (([] : List String) ++ names).Nodup := declarable.1
    exact declaring_unknown once scopes count frames label
  · intro name listed
    rw [Scope.slots?_ofNames, if_pos listed]
    rfl

end Generate

namespace Nesting

open Generate

variable {known : List String} {count : Nat} {state : State}

/-- Whatever is done inside, the scopes are those from before at the end. -/
theorem restores {nesting : Nesting} (fits : nesting.Fits known) (level : Level known count state) :
    perform nesting.requests state = .ok () state := by
  induction nesting generalizing known count state with
  | nothing => rfl
  | both first second firstIH secondIH =>
    rw [requests, perform_append (firstIH fits.1 level)]
    exact secondIH fits.2 level
  | again name inside ih =>
    obtain ⟨listed, fits⟩ := fits
    obtain ⟨after, declared, deeper, left, _⟩ := level.declare_again listed
    have answered : (Request.declare (.text name)).answer state = .ok (.slot _) after := bind_ok declared
    have ended : Request.leaveLet.answer after = .ok .done state := bind_ok left
    rw [requests, perform_cons answered, perform_append (ih fits deeper), perform_cons ended]
    rfl
  | function names inside ih =>
    obtain ⟨declarable, fits⟩ := fits
    obtain ⟨start, ran, inner, startIs⟩ := opened declarable level.counted
    have closed : Request.closeScope.answer start = .ok (.scope (Scope.ofNames names ownSlot)) state := by
      rw [startIs]
      rfl
    rw [requests, ← List.cons_append, perform_append ran, perform_append (ih fits inner), perform_cons closed]
    rfl

/-- A repeated declaration is numbered by the declarations that are open, and changes no other name. -/
theorem Reopens.numbers {nesting : Nesting} {before : List Request} {name : String} {open_ : Nat}
    (reopens : nesting.Reopens before name open_) (fits : nesting.Fits known) (level : Level known count state) :
    ∃ middle after, perform before state = .ok () middle ∧
      declare (.text name) middle = .ok (.text (numbered name (count + open_))) after ∧
      lookup (.text name) after = .ok (.text (numbered name (count + open_))) after ∧
      ∀ other, other ≠ .text name → ∃ slot, lookup other middle = .ok slot middle ∧ lookup other after = .ok slot after := by
  induction reopens generalizing known count state with
  | here name inside =>
    obtain ⟨after, declared, _, _, found, others⟩ := level.declare_again fits.1
    exact ⟨state, after, rfl, declared, found, others⟩
  | inside other _ ih =>
    obtain ⟨after, declared, deeper, _⟩ := level.declare_again fits.1
    have answered : (Request.declare (.text other)).answer state = .ok (.slot _) after := bind_ok declared
    have inner := ih fits.2 deeper
    rw [Nat.add_right_comm] at inner
    rw [perform_cons answered]
    exact inner
  | first second _ ih => exact ih fits.1 level
  | second first _ ih =>
    rw [perform_append (restores fits.1 level)]
    exact ih fits.2 level
  | function names _ ih =>
    obtain ⟨start, ran, inner, _⟩ := opened fits.1 level.counted
    rw [← List.cons_append, perform_append ran]
    exact ih fits.2 inner

end Nesting

open Generate in
/-- In a scope of names opened at the count zero, nested requests leave the whole state as they found it, and every
repeated declaration among them gives its name the number of the declarations that are open. -/
theorem nested_scopes_restored {state : State} (uncounted : state.scopeCount = 0) {names : List String}
    (declarable : Declarable names) {nesting : Nesting} (fits : nesting.Fits names) :
    ∃ start, perform (.openScope :: Nesting.declaring names) state = .ok () start ∧
      perform nesting.requests start = .ok () start ∧
      ∀ before name count, nesting.Reopens before name count →
        ∃ middle after, perform before start = .ok () middle ∧
          declare (.text name) middle = .ok (.text (name ++ Text.decimal count)) after ∧
          lookup (.text name) after = .ok (.text (name ++ Text.decimal count)) after ∧
          ∀ other, other ≠ .text name →
            ∃ slot, lookup other middle = .ok slot middle ∧ lookup other after = .ok slot after := by
  have counted : state.scopeCount = ((0 : Nat) : Int) := uncounted
  obtain ⟨start, ran, level, _⟩ := opened declarable counted
  refine ⟨start, ran, Nesting.restores fits level, ?_⟩
  intro before name count reopens
  have numbers := reopens.numbers fits level
  rw [Nat.zero_add] at numbers
  exact numbers

/-- Ten declarations are open when a function declares its own `y` again, so two counts have the figure one at the end. -/
def elevenDeep : Nesting :=
  .again "y" ((List.replicate 9 "x").foldr .again (.both (.again "x" .nothing) (.function ["y"] (.again "y" .nothing))))

open Generate in
theorem elevenDeep_restored : ∃ start middle after, perform (.openScope :: Nesting.declaring ["x", "y"]) .empty = .ok () start ∧
    perform elevenDeep.requests start = .ok () start ∧ perform (elevenDeep.requests.take 14) start = .ok () middle ∧
    declare (.text "y") middle = .ok (.text "y11") after ∧ lookup (.text "y") after = .ok (.text "y11") after := by
  obtain ⟨start, ran, restored, numbers⟩ := @nested_scopes_restored .empty rfl ["x", "y"] (by decide) elevenDeep (by decide)
  have reopens : elevenDeep.Reopens (elevenDeep.requests.take 14) "y" 11 :=
    .inside "y" (.inside "x" (.inside "x" (.inside "x" (.inside "x" (.inside "x" (.inside "x" (.inside "x" (.inside "x"
      (.inside "x" (.second (.again "x" .nothing) (.function ["y"] (.here "y" .nothing))))))))))))
  obtain ⟨middle, after, before, declared, found, _⟩ := numbers _ _ _ reopens
  have figures : "y" ++ Text.decimal (11 : Nat) = "y11" := by decide
  rw [figures] at declared found
  exact ⟨start, middle, after, ran, restored, before, declared, found⟩

end MiniTriangle
