import MiniTriangle.Grammar.Rule
import MiniTriangle.Proofs.ParserSoundness
import MiniTriangle.Proofs.TreeHeights
import Mathlib.Data.List.Forall2

/-! The code of expressions and the convention of calls. What an expression adds to the code depends on the scopes only;
it leaves one value on the stack and takes none that was there before. A call loads its function, then adds the code of
each argument in the order of the source, then calls with their number. -/

namespace MiniTriangle

open Sequencing

/-- The calls in an expression or a list of arguments, at any depth: the name and the list of each. -/
def Tree.calls : Tree → List (Tree × Tree)
  | .unary _ operand => operand.calls
  | .binary left _ right => left.calls ++ right.calls
  | .call callee list => (callee, list) :: list.calls
  | .parameter value _ => value.calls
  | .parameters first second => first.calls ++ second.calls
  | _ => []

def Tree.WithoutBuiltIns (tree : Tree) : Prop :=
  ∀ call ∈ tree.calls, call.1 ≠ .text "putint" ∧ call.1 ≠ .text "getint"

instance (tree : Tree) : Decidable tree.WithoutBuiltIns := inferInstanceAs (Decidable (∀ call ∈ tree.calls, _))

/-- From any height the code ends higher by this number of values, and on its way takes only values that it left itself. -/
def Raises (count : Nat) (code : List Instr) : Prop :=
  ∀ height, run? code height = some (height + count) ∧
    ∀ before instr later, code = before ++ instr :: later →
      ∃ reached, run? before height = some reached ∧ height + instr.pops ≤ reached

section

variable {α : Type}

/-- An element of two rows stands in one or the other. -/
private theorem split_append {first second before later : List α} {element : α}
    (same : first ++ second = before ++ element :: later) :
    (∃ rest, first = before ++ element :: rest ∧ later = rest ++ second) ∨
      ∃ front, before = first ++ front ∧ second = front ++ element :: later := by
  rcases List.append_eq_append_iff.mp same with ⟨front, inFirst, rest⟩ | ⟨front, inFirst, rest⟩
  · exact .inr ⟨front, inFirst, rest⟩
  · cases front with
    | nil => exact .inr ⟨[], by simpa using inFirst.symm, by simpa using rest.symm⟩
    | cons other front =>
      cases rest
      exact .inl ⟨front, inFirst, rfl⟩

end

namespace Raises

variable {count more : Nat} {code before later : List Instr} {instr : Instr}

theorem nil : Raises 0 [] := by
  intro height
  refine ⟨rfl, fun before instr later same => ?_⟩
  cases before <;> cases same

theorem append (one : Raises count before) (other : Raises more later) : Raises (count + more) (before ++ later) := by
  intro height
  obtain ⟨ran, inside⟩ := one height
  obtain ⟨ranOn, insideLater⟩ := other (height + count)
  constructor
  · rw [run?_append, ran, Option.bind_some, ranOn, Nat.add_assoc]
  · intro front instr rest same
    rcases split_append same with ⟨others, here, _⟩ | ⟨others, rfl, there⟩
    · exact inside front instr others here
    · obtain ⟨reached, comes, enough⟩ := insideLater others instr rest there
      refine ⟨reached, ?_, by omega⟩
      rw [run?_append, ran, Option.bind_some, comes]

/-- An instruction takes values that were left for it. -/
theorem step (raises : Raises (count + instr.pops) code) : Raises (count + instr.pushes) (code ++ [instr]) := by
  intro height
  obtain ⟨ran, inside⟩ := raises height
  constructor
  · rw [run?_append, ran, Option.bind_some, run?_one, Instr.move?, exchange?, if_pos (by omega)]
    congr 1
    omega
  · intro front other rest same
    rcases split_append same with ⟨others, here, _⟩ | ⟨others, rfl, there⟩
    · exact inside front other others here
    · obtain ⟨rfl, last⟩ := List.append_eq_singleton_iff.mp there.symm |>.resolve_right (by simp)
      cases last
      exact ⟨height + (count + instr.pops), by rw [List.append_nil, ran], by omega⟩

theorem load {kind : Opcode} {operand : Tree} (none : (Instr.op kind operand).pops = 0)
    (one : (Instr.op kind operand).pushes = 1) : Raises 1 [.op kind operand] := by
  have raises : Raises (0 + (Instr.op kind operand).pops) [] := none.symm ▸ nil
  simpa [one] using raises.step

/-- What a call takes is its function and the arguments after it. -/
theorem loaded (raises : Raises count code) (name : Tree) :
    Raises (Instr.op .callFunction (.number count)).pops (.op .loadFast name :: code) := by
  have function : Raises 1 [.op .loadFast name] := .load rfl rfl
  have both := function.append raises
  rwa [Nat.add_comm] at both

end Raises

theorem operator_takes_two {operator : Tree} {instr : Instr} (known : Generate.operatorInstr? operator = some instr) :
    instr.pops = 2 ∧ instr.pushes = 1 ∧ ∀ operand, instr ≠ .op .callFunction operand := by
  unfold Generate.operatorInstr? at known
  split at known <;> cases known <;> exact ⟨rfl, rfl, nofun⟩

namespace Generate

/-- The final state has more code in the innermost frame, and is the same otherwise. -/
def Appended (state final : State) (code : List Instr) : Prop :=
  ∃ frame outer, state.frames = frame :: outer ∧ final = { state with frames := (frame ++ code) :: outer }

/-- The code that an action adds in the given scopes, whatever code there is already. -/
def Adds {α : Type} (action : Generate α) (scopes : List Scope) (answer : α) (code : List Instr) : Prop :=
  ∀ ⦃state⦄, state.scopes = scopes → state.frames ≠ [] → ∃ final, action state = .ok answer final ∧ Appended state final code

namespace Appended

variable {state middle final : State} {first second : List Instr}

theorem scopes (appended : Appended state final first) : final.scopes = state.scopes := by
  obtain ⟨frame, outer, _, rfl⟩ := appended
  rfl

theorem nonempty (appended : Appended state final first) : final.frames ≠ [] := by
  obtain ⟨frame, outer, _, rfl⟩ := appended
  exact List.cons_ne_nil _ _

theorem trans (one : Appended state middle first) (other : Appended middle final second) :
    Appended state final (first ++ second) := by
  obtain ⟨frame, outer, framed, rfl⟩ := one
  obtain ⟨_, _, same, rfl⟩ := other
  cases same
  exact ⟨frame, outer, framed, by rw [List.append_assoc]⟩

theorem emit {instr : Instr} (ran : Generate.emit instr state = .ok () final) : Appended state final [instr] := by
  unfold Generate.emit at ran
  rw [get_bind] at ran
  cases framed : state.frames with
  | nil =>
    simp only [framed] at ran
    cases ran
  | cons frame outer =>
    simp only [framed] at ran
    cases ran
    exact ⟨frame, outer, framed, rfl⟩

end Appended

namespace Adds

variable {α β : Type} {scopes : List Scope} {first second : List Instr}

theorem bind {action : Generate α} {next : α → Generate β} {value : α} {answer : β} (one : Adds action scopes value first)
    (other : Adds (next value) scopes answer second) : Adds (action >>= next) scopes answer (first ++ second) := by
  intro state inside framed
  obtain ⟨middle, ran, appended⟩ := one inside framed
  obtain ⟨final, ranOn, more⟩ := other (appended.scopes.trans inside) appended.nonempty
  exact ⟨final, (bind_ok ran).trans ranOn, appended.trans more⟩

theorem pure (answer : α) : Adds (Pure.pure answer) scopes answer [] := by
  intro state inside framed
  obtain ⟨frame, outer, same⟩ := List.exists_cons_of_ne_nil framed
  exact ⟨state, rfl, frame, outer, same, by rw [List.append_nil, ← same]⟩

theorem emit (instr : Instr) : Adds (Generate.emit instr) scopes () [instr] := by
  intro state inside framed
  obtain ⟨frame, outer, same⟩ := List.exists_cons_of_ne_nil framed
  refine ⟨{ state with frames := (frame ++ [instr]) :: outer }, ?_, frame, outer, same, rfl⟩
  rw [Generate.emit, get_bind]
  simp only [same]
  rfl

end Adds

/-- Only the scopes matter for the slot of a name. -/
theorem lookup_elsewhere {name slot : Tree} {state final other : State} (ran : lookup name state = .ok slot final)
    (same : other.scopes = state.scopes) : lookup name other = .ok slot other := by
  unfold lookup at ran ⊢
  rw [get_bind] at ran ⊢
  rw [same]
  cases inside : state.scopes with
  | nil =>
    simp only [inside] at ran
    cases ran
  | cons scope outer =>
    simp only [inside] at ran ⊢
    generalize scope.slots? name = found at ran ⊢
    split at ran
    · cases ran
      rfl
    · cases ran
    · cases ran
      rfl

end Generate

/-- The code of an expression, or of a list of arguments, in which no built-in name is called. -/
inductive ValueCode (scopes : List Scope) : Operand → Tree → List Instr → Prop where
  | integer (value : Atom) : ValueCode scopes .value (.integer (.atom value)) [.op .loadConst (.atom value)]
  | reference {name : Atom} {slot : Tree}
      (found : ∀ ⦃state⦄, state.scopes = scopes → Generate.lookup (.atom name) state = .ok slot state) :
      ValueCode scopes .value (.reference (.name (.atom name))) [.op .loadFast slot]
  | plus {operand : Tree} {code : List Instr} (inner : ValueCode scopes .value operand code) :
      ValueCode scopes .value (.unary (.text "+") operand) code
  | binary {left right : Tree} {operator : Atom} {first second : List Instr} {instr : Instr}
      (known : Generate.operatorInstr? (.atom operator) = some instr) (before : ValueCode scopes .value left first)
      (later : ValueCode scopes .value right second) :
      ValueCode scopes .value (.binary left (.atom operator) right) (first ++ (second ++ [instr]))
  | call {name : Atom} {list : Tree} {count : Nat} {code : List Instr} (notPrint : Tree.atom name ≠ .text "putint")
      (notRead : Tree.atom name ≠ .text "getint") (inner : ValueCode scopes (.arguments count) list code) :
      ValueCode scopes .value (.call (.atom name) list)
        (.op .loadFast (.atom name) :: (code ++ [.op .callFunction (.number count)]))
  | argument {value : Tree} {code : List Instr} (inner : ValueCode scopes .value value code) :
      ValueCode scopes (.arguments 1) (.parameter value .absent) code
  | arguments {first second : Tree} {count more : Nat} {before later : List Instr}
      (one : ValueCode scopes (.arguments count) first before) (other : ValueCode scopes (.arguments more) second later) :
      ValueCode scopes (.arguments (count + more)) (.parameters first second) (before ++ later)

def Operand.size : Operand → Nat
  | .value => 1
  | .arguments count => count

def Operand.Adds (operand : Operand) (scopes : List Scope) (tree : Tree) (code : List Instr) : Prop :=
  match operand with
  | .value => Generate.Adds (Generate.expression tree) scopes () code
  | .arguments count => Generate.Adds (Generate.arguments tree) scopes count code

def callBlock (name : Tree) (codes : List (List Instr)) : List Instr :=
  .op .loadFast name :: (codes.flatten ++ [.op .callFunction (.number codes.length)])

/-- The code of each argument of a call, in order. Each leaves its value, so the call takes its function and its
arguments and nothing else. -/
structure CallCodes (scopes : List Scope) (name : Tree) (values : List Tree) (codes : List (List Instr)) : Prop where
  added : List.Forall₂ (fun value code => Generate.Adds (Generate.expression value) scopes () code ∧ Raises 1 code)
    values codes
  taken : Raises (Instr.op .callFunction (.number codes.length)).pops (.op .loadFast name :: codes.flatten)

def EndsWithCall (scopes : List Scope) (calls : List (Tree × Tree)) (code : List Instr) : Prop :=
  ∃ name list codes, (name, list) ∈ calls ∧ CallCodes scopes name list.parameterList codes ∧ callBlock name codes <:+ code

theorem EndsWithCall.extend {scopes : List Scope} {calls more : List (Tree × Tree)} {code : List Instr}
    (ends : EndsWithCall scopes calls code) (among : calls ⊆ more) (before : List Instr) :
    EndsWithCall scopes more (before ++ code) := by
  obtain ⟨name, list, codes, inside, given, last⟩ := ends
  exact ⟨name, list, codes, among inside, given, last.trans (List.suffix_append _ _)⟩

namespace ValueCode

variable {scopes : List Scope} {operand : Operand} {tree : Tree} {code : List Instr}

theorem form (valued : ValueCode scopes operand tree code) : OperandCode operand tree code := by
  induction valued with
  | integer value => exact .integer _
  | reference found => exact .reference _ _
  | plus _ ih => exact .plus ih
  | @binary left right operator first second instr known _ _ leftIH rightIH =>
    have form : OperandCode .value (.binary left (.atom operator) right) _ := .binary leftIH rightIH
    rwa [known] at form
  | call notPrint notRead _ ih => exact .call notPrint notRead ih
  | argument _ ih => exact .argument ih
  | arguments _ _ oneIH otherIH => exact .arguments oneIH otherIH

/-- The generator adds this code. -/
theorem adds (valued : ValueCode scopes operand tree code) : operand.Adds scopes tree code := by
  induction valued with
  | integer value => exact .emit _
  | reference found =>
    intro state inside framed
    obtain ⟨final, ran, appended⟩ := Generate.Adds.emit (.op .loadFast _) inside framed
    exact ⟨final, (bind_ok (found inside)).trans ran, appended⟩
  | plus _ ih => exact ih
  | binary known _ _ leftIH rightIH =>
    show Generate.Adds (Generate.expression _) _ _ _
    unfold Generate.expression
    simp only [known]
    exact .bind leftIH (.bind rightIH (.emit _))
  | call notPrint notRead _ ih =>
    show Generate.Adds (Generate.expression _) _ _ _
    unfold Generate.expression Generate.callCode
    rw [if_neg notPrint, if_neg notRead]
    exact .bind (.emit _) (.bind ih (.emit _))
  | @argument value code _ ih =>
    have added : Generate.Adds (Generate.arguments (.parameter value .absent)) scopes 1 (code ++ []) := .bind ih (.pure 1)
    rwa [List.append_nil] at added
  | @arguments first second count more before later _ _ oneIH otherIH =>
    have added : Generate.Adds (Generate.arguments (.parameters first second)) scopes (count + more)
        (before ++ (later ++ [])) := .bind oneIH (.bind otherIH (.pure _))
    rwa [List.append_nil] at added

theorem raises (valued : ValueCode scopes operand tree code) : Raises operand.size code := by
  induction valued with
  | integer value => exact .load rfl rfl
  | reference found => exact .load rfl rfl
  | plus _ ih => exact ih
  | @binary left right operator first second instr known _ _ leftIH rightIH =>
    obtain ⟨takes, leaves, _⟩ := operator_takes_two known
    have both : Raises (0 + instr.pops) (first ++ second) := by
      rw [takes]
      exact leftIH.append rightIH
    have stepped := both.step
    rwa [leaves, List.append_assoc] at stepped
  | @call name list count code notPrint notRead _ ih =>
    have given : Raises (0 + (Instr.op .callFunction (.number count)).pops) (.op .loadFast (.atom name) :: code) := by
      rw [Nat.zero_add]
      exact ih.loaded (.atom name)
    exact given.step
  | argument _ ih => exact ih
  | arguments _ _ oneIH otherIH => exact oneIH.append otherIH

/-- The code of a list is that of its arguments, one after the other. -/
theorem codes {count : Nat} (valued : ValueCode scopes (.arguments count) tree code) :
    ∃ codes, List.Forall₂ (ValueCode scopes .value) tree.parameterList codes ∧ code = codes.flatten ∧
      count = codes.length := by
  generalize given : Operand.arguments count = operand at valued
  induction valued generalizing count with
  | argument inner =>
    cases given
    exact ⟨[_], .cons inner .nil, by simp, rfl⟩
  | arguments _ _ oneIH otherIH =>
    cases given
    obtain ⟨before, one, rfl, rfl⟩ := oneIH rfl
    obtain ⟨later, other, rfl, rfl⟩ := otherIH rfl
    exact ⟨before ++ later, List.rel_append one other, by simp, by simp⟩
  | _ => cases given

theorem callCodes {name : Atom} {count : Nat} (given : ValueCode scopes (.arguments count) tree code) :
    ∃ codes, CallCodes scopes (.atom name) tree.parameterList codes ∧
      callBlock (.atom name) codes = .op .loadFast (.atom name) :: (code ++ [.op .callFunction (.number count)]) := by
  obtain ⟨codes, valued, rfl, rfl⟩ := given.codes
  exact ⟨codes, ⟨valued.imp fun _ _ form => ⟨form.adds, form.raises⟩, given.raises.loaded _⟩, rfl⟩

/-- Every call in the tree has its block in the code. -/
theorem block {name list : Tree} (valued : ValueCode scopes operand tree code) (inside : (name, list) ∈ tree.calls) :
    ∃ codes, CallCodes scopes name list.parameterList codes ∧ callBlock name codes <:+: code := by
  induction valued with
  | integer value => cases inside
  | reference found => cases inside
  | plus _ ih => exact ih inside
  | @binary left right operator first second instr known _ _ leftIH rightIH =>
    rcases List.mem_append.mp inside with before | later
    · obtain ⟨codes, given, placed⟩ := leftIH before
      exact ⟨codes, given, placed.trans (List.prefix_append _ _).isInfix⟩
    · obtain ⟨codes, given, placed⟩ := rightIH later
      exact ⟨codes, given, placed.trans ⟨first, [instr], List.append_assoc _ _ _⟩⟩
  | @call callee arguments count code notPrint notRead inner ih =>
    rcases List.mem_cons.mp inside with same | below
    · cases same
      obtain ⟨codes, given, same⟩ := inner.callCodes
      exact ⟨codes, given, same ▸ List.infix_rfl⟩
    · obtain ⟨codes, given, placed⟩ := ih below
      exact ⟨codes, given, placed.trans ⟨[.op .loadFast (.atom callee)], [.op .callFunction (.number count)], rfl⟩⟩
  | argument _ ih => exact ih inside
  | arguments _ _ oneIH otherIH =>
    rcases List.mem_append.mp inside with before | later
    · obtain ⟨codes, given, placed⟩ := oneIH before
      exact ⟨codes, given, placed.trans (List.prefix_append _ _).isInfix⟩
    · obtain ⟨codes, given, placed⟩ := otherIH later
      exact ⟨codes, given, placed.trans (List.suffix_append _ _).isInfix⟩

/-- Every call in the code is the end of a block. -/
theorem called {before later : List Instr} {count : Tree} (valued : ValueCode scopes operand tree code)
    (same : code = before ++ .op .callFunction count :: later) :
    EndsWithCall scopes tree.calls (before ++ [.op .callFunction count]) := by
  induction valued generalizing before later with
  | integer value => simp [List.singleton_eq_append_iff] at same
  | reference found => simp [List.singleton_eq_append_iff] at same
  | plus _ ih => exact ih same
  | @binary left right operator first second instr known _ _ leftIH rightIH =>
    rcases split_append same with ⟨rest, here, _⟩ | ⟨front, rfl, there⟩
    · exact (leftIH here).extend (List.subset_append_left _ _) []
    · rcases split_append there with ⟨rest, here, _⟩ | ⟨others, rfl, last⟩
      · rw [List.append_assoc]
        exact (rightIH here).extend (List.subset_append_right _ _) first
      · -- The last instruction is that of the operator.
        obtain ⟨rfl, last⟩ := (List.append_eq_singleton_iff.mp last.symm).resolve_right (by simp)
        cases last
        exact absurd rfl ((operator_takes_two known).2.2 count)
  | @call callee list number code notPrint notRead inner ih =>
    rw [← List.cons_append] at same
    rcases split_append same with ⟨rest, here, _⟩ | ⟨front, rfl, there⟩
    · cases before with
      | nil => cases here
      | cons first before =>
        cases here
        exact (ih rfl).extend (List.subset_cons_self _ _) [.op .loadFast (.atom callee)]
    · obtain ⟨rfl, last⟩ := (List.append_eq_singleton_iff.mp there.symm).resolve_right (by simp)
      cases last
      obtain ⟨codes, given, whole⟩ := inner.callCodes
      refine ⟨.atom callee, list, codes, List.mem_cons_self, given, ?_⟩
      rw [whole, List.append_nil]
      exact List.suffix_rfl
  | argument _ ih => exact ih same
  | @arguments first second count more before later _ _ oneIH otherIH =>
    rcases split_append same with ⟨rest, here, _⟩ | ⟨front, rfl, there⟩
    · exact (oneIH here).extend (List.subset_append_left _ _) []
    · rw [List.append_assoc]
      exact (otherIH there).extend (List.subset_append_right _ _) before

end ValueCode

namespace Generate

def Coded : Phrase → Tree → Prop
  | .expression, tree | .sum, tree | .product, tree | .factor, tree =>
    ∀ ⦃state final⦄, tree.WithoutBuiltIns → expression tree state = .ok () final →
      ∃ code, ValueCode state.scopes .value tree code ∧ Appended state final code
  | .arguments, tree =>
    ∀ ⦃state final count⦄, tree.WithoutBuiltIns → arguments tree state = .ok count final →
      ∃ code, ValueCode state.scopes (.arguments count) tree code ∧ Appended state final code
  | _, _ => True

theorem operator_known {token : Token} {signs : List String} (sign : token.IsOperator signs)
    (listed : ∀ sign ∈ signs, (operatorInstr? (.text sign)).isSome = true) :
    ∃ instr, operatorInstr? (.atom token.value) = some instr := by
  obtain ⟨_, text, member, same⟩ := sign
  rw [same]
  exact Option.isSome_iff_exists.mp (listed text member)

private theorem coded_binary {left right : Tree} {operator : Atom} {instr : Instr}
    (known : operatorInstr? (.atom operator) = some instr) (leftIH : Coded .expression left)
    (rightIH : Coded .expression right) : Coded .expression (.binary left (.atom operator) right) := by
  intro state final plain ran
  unfold expression at ran
  obtain ⟨_, middle, opened, ran⟩ := bind_eq_ok.mp ran
  obtain ⟨_, last, closed, ran⟩ := bind_eq_ok.mp ran
  simp only [known] at ran
  obtain ⟨leftPlain, rightPlain⟩ := List.forall_mem_append.mp plain
  obtain ⟨first, before, half⟩ := leftIH leftPlain opened
  obtain ⟨second, later, both⟩ := rightIH rightPlain closed
  rw [half.scopes] at later
  exact ⟨_, .binary known before later, half.trans (both.trans (.emit ran))⟩

theorem coded {phrase : Phrase} {row : List Token} {tree : Tree} (derived : Derives phrase row tree) : Coded phrase tree := by
  induction derived with
  | oneArgument _ ih =>
    intro state final count plain ran
    obtain ⟨_, middle, opened, ran⟩ := bind_eq_ok.mp ran
    obtain ⟨code, valued, appended⟩ := ih plain opened
    cases ran
    exact ⟨code, .argument valued, appended⟩
  | moreArguments _ _ _ listIH valueIH =>
    intro state final count plain ran
    obtain ⟨before, after⟩ := List.forall_mem_append.mp plain
    obtain ⟨few, middle, opened, ran⟩ := bind_eq_ok.mp ran
    obtain ⟨_, last, closed, ran⟩ := bind_eq_ok.mp ran
    obtain ⟨_, reached, computed, one⟩ := bind_eq_ok.mp closed
    cases one
    cases ran
    obtain ⟨first, listed, half⟩ := listIH before opened
    obtain ⟨second, valued, both⟩ := valueIH after computed
    rw [half.scopes] at valued
    exact ⟨_, .arguments listed (.argument valued), half.trans both⟩
  | call named _ _ _ ih =>
    intro state final plain ran
    obtain ⟨⟨notPrint, notRead⟩, inner⟩ := List.forall_mem_cons.mp plain
    unfold expression callCode at ran
    rw [if_neg notPrint, if_neg notRead] at ran
    obtain ⟨_, loaded, load, ran⟩ := bind_eq_ok.mp ran
    obtain ⟨count, given, gave, called⟩ := bind_eq_ok.mp ran
    have begun := Appended.emit load
    obtain ⟨code, listed, appended⟩ := ih inner gave
    rw [begun.scopes] at listed
    exact ⟨_, .call notPrint notRead listed, begun.trans (appended.trans (.emit called))⟩
  | value _ _ ih => exact ih
  | oneTerm _ ih => exact ih
  | oneFactor _ ih => exact ih
  | parenthesis _ _ _ ih => exact ih
  | add _ sign _ leftIH rightIH =>
    obtain ⟨instr, known⟩ := operator_known sign (by decide)
    exact coded_binary known leftIH rightIH
  | multiply _ sign _ leftIH rightIH =>
    obtain ⟨instr, known⟩ := operator_known sign (by decide)
    exact coded_binary known leftIH rightIH
  | integer _ =>
    intro state final plain ran
    exact ⟨_, .integer _, .emit ran⟩
  | reference _ =>
    intro state final plain ran
    obtain ⟨name, first, taken, ran⟩ := bind_eq_ok.mp ran
    cases taken
    obtain ⟨slot, second, found, ran⟩ := bind_eq_ok.mp ran
    rw [lookup_same found] at ran
    exact ⟨_, .reference fun other inside => lookup_elsewhere found inside, .emit ran⟩
  | unary _ _ ih =>
    intro state final plain ran
    unfold expression at ran
    split at ran
    · obtain ⟨_, _, _, failed⟩ := bind_eq_ok.mp ran
      exact absurd failed throw_ne_ok
    · split at ran
      · next positive =>
        obtain ⟨code, valued, appended⟩ := ih plain ran
        rw [positive]
        exact ⟨code, .plus valued, appended⟩
      · exact absurd ran throw_ne_ok
  | _ => trivial

end Generate

inductive Separated : List (List Token) → List Token → Prop where
  | one (row : List Token) : Separated [row] row
  | more {rows : List (List Token)} {row next : List Token} {m : Token} (before : Separated rows row)
      (comma : m.kind = .comma) : Separated (rows ++ [next]) (row ++ m :: next)

/-- A call in a row of tokens: its name, and between parentheses the tokens of each value in order. -/
def Written (row : List Token) (name : Tree) (values : List Tree) : Prop :=
  ∃ f o c inner rows, name = .atom f.value ∧ f.kind = .identifier ∧ o.kind = .leftParen ∧ c.kind = .rightParen ∧
    Separated rows inner ∧ List.Forall₂ (Derives .expression) rows values ∧ f :: o :: (inner ++ [c]) <:+: row

theorem Written.within {row whole : List Token} {name : Tree} {values : List Tree} (written : Written row name values)
    (part : row <:+: whole) : Written whole name values := by
  obtain ⟨f, o, c, inner, rows, named, identifier, opens, closes, separated, derived, placed⟩ := written
  exact ⟨f, o, c, inner, rows, named, identifier, opens, closes, separated, derived, placed.trans part⟩

/-- A call in one of two rows with a token between them. -/
theorem Written.joined {row next : List Token} {m : Token} {first second name list : Tree}
    (before : (name, list) ∈ first.calls → Written row name list.parameterList)
    (later : (name, list) ∈ second.calls → Written next name list.parameterList)
    (inside : (name, list) ∈ first.calls ++ second.calls) : Written (row ++ m :: next) name list.parameterList := by
  rcases List.mem_append.mp inside with inFirst | inSecond
  · exact (before inFirst).within (List.prefix_append _ _).isInfix
  · exact (later inSecond).within ⟨row ++ [m], [], by simp⟩

namespace Derives

/-- The arguments of a call are read in the order of the source. -/
theorem separated {row : List Token} {list : Tree} (derived : Derives .arguments row list) :
    ∃ rows, Separated rows row ∧ List.Forall₂ (Derives .expression) rows list.parameterList := by
  generalize sort : Phrase.arguments = phrase at derived
  induction derived with
  | oneArgument only => exact ⟨[_], .one _, .cons only .nil⟩
  | moreArguments _ comma last listIH =>
    obtain ⟨rows, before, derived⟩ := listIH rfl
    exact ⟨rows ++ [_], .more before comma, List.rel_append derived (.cons last .nil)⟩
  | _ => cases sort

/-- Every call in the tree of an expression is written in the source. -/
theorem written {phrase : Phrase} {row : List Token} {tree name list : Tree} (derived : Derives phrase row tree)
    (sort : phrase ∈ [.arguments, .expression, .sum, .product, .factor]) (inside : (name, list) ∈ tree.calls) :
    Written row name list.parameterList := by
  induction derived with
  | oneArgument _ ih => exact ih (by simp) inside
  | moreArguments _ _ _ listIH valueIH => exact .joined (listIH (by simp)) (valueIH (by simp)) inside
  | @call f o c row list named opens inner closes ih =>
    rcases List.mem_cons.mp inside with same | below
    · cases same
      obtain ⟨rows, separated, derived⟩ := inner.separated
      exact ⟨f, o, c, row, rows, rfl, named, opens, closes, separated, derived, List.infix_rfl⟩
    · exact (ih (by simp) below).within ⟨[f, o], [c], rfl⟩
  | value _ _ ih => exact ih (by simp) inside
  | oneTerm _ ih => exact ih (by simp) inside
  | oneFactor _ ih => exact ih (by simp) inside
  | @parenthesis o c row tree _ _ _ ih => exact (ih (by simp) inside).within ⟨[o], [c], rfl⟩
  | add _ _ _ leftIH rightIH => exact .joined (leftIH (by simp)) (rightIH (by simp)) inside
  | multiply _ _ _ leftIH rightIH => exact .joined (leftIH (by simp)) (rightIH (by simp)) inside
  | @unary o row tree _ _ ih => exact (ih (by simp) inside).within (List.suffix_cons _ _).isInfix
  | integer _ => cases inside
  | reference _ => cases inside
  | _ => simp at sort

end Derives

def Rule.valued : Rule → Bool
  | .expression | .term | .factor => true
  | _ => false

theorem Rule.valued_reads {rule : Rule} {stream after : Stream} {tree : Tree} (valued : rule.valued = true)
    (parsed : rule.parse stream = .ok tree after) :
    Generate.Coded .expression tree ∧ ∃ row, Passes stream row after ∧
      ∀ name list, (name, list) ∈ tree.calls → Written row name list.parameterList := by
  cases rule with
  | expression =>
    obtain ⟨row, passed, derived⟩ := Parse.reads_expression parsed
    exact ⟨Generate.coded derived, row, passed, fun _ _ => derived.written (by simp)⟩
  | term =>
    obtain ⟨row, passed, derived⟩ := Parse.reads_bounded (fun bound => (Parse.expressions_sound bound).term) parsed
    have coded := Generate.coded derived
    exact ⟨coded, row, passed, fun _ _ => derived.written (by simp)⟩
  | factor =>
    obtain ⟨row, passed, derived⟩ := Parse.reads_bounded (fun bound => (Parse.expressions_sound bound).factor) parsed
    have coded := Generate.coded derived
    exact ⟨coded, row, passed, fun _ _ => derived.written (by simp)⟩
  | _ => cases valued

/-- If an expression that was read, in which no built-in name is called, gets code, then this code is added to the
innermost frame and nothing else changes. It has neither labels nor jumps, leaves one value on the stack and takes none
that was there before. For every call in the expression, at any depth, the code of its arguments in the order of the
source stands between the load of its function and the call with their number; and every call in the code ends such a
row, so that it takes its own function and arguments. A sign other than a plus gets no code at all. -/
theorem calls_take_own_arguments {rule : Rule} {stream after : Stream} {tree : Tree} {state final : State}
    (valued : rule.valued = true) (parsed : rule.parse stream = .ok tree after) (plain : tree.WithoutBuiltIns)
    (generated : Generate.expression tree state = .ok () final) :
    ∃ row code, Passes stream row after ∧ Generate.Appended state final code ∧
      (∀ instr ∈ code, instr.straight = true) ∧ Raises 1 code ∧
      (∀ name list, (name, list) ∈ tree.calls → Written row name list.parameterList ∧
        ∃ codes, CallCodes state.scopes name list.parameterList codes ∧ callBlock name codes <:+: code) ∧
      (∀ before count later, code = before ++ .op .callFunction count :: later →
        EndsWithCall state.scopes tree.calls (before ++ [.op .callFunction count])) := by
  obtain ⟨coded, row, passed, written⟩ := Rule.valued_reads valued parsed
  obtain ⟨code, form, appended⟩ := coded plain generated
  refine ⟨row, code, passed, appended, form.form.straight, form.raises, ?_, ?_⟩
  · intro name list inside
    exact ⟨written name list inside, form.block inside⟩
  · intro before count later same
    exact form.called same

/-- The tokens of `f(g(1, x), 2 + 3)`. -/
def nestedCall : Stream :=
  ⟨⟨.identifier, .text "f", 0⟩,
    [.plain .leftParen 1, ⟨.identifier, .text "g", 2⟩, .plain .leftParen 3, ⟨.integer, .number 1, 4⟩, .plain .comma 5,
      ⟨.identifier, .text "x", 7⟩, .plain .rightParen 8, .plain .comma 9, ⟨.integer, .number 2, 11⟩,
      ⟨.operator, .text "+", 13⟩, ⟨.integer, .number 3, 15⟩, .plain .rightParen 16, .plain .endOfText 17], 0⟩

def nestedCallTree : Tree :=
  .call (.text "f") (.parameters
    (.parameter (.call (.text "g") (.parameters (.parameter (.integer (.number 1)) .absent)
      (.parameter (.reference (.name (.text "x"))) .absent))) .absent)
    (.parameter (.binary (.integer (.number 2)) (.text "+") (.integer (.number 3))) .absent))

/-- The state after declaring `x` twice, so that it stands for its second slot. -/
def xAgain : State := ⟨[[⟨.text "x", [.text "x1", .text "x"]⟩]], 1, [[]], 0⟩

theorem nestedCall_takes_own : ∃ after final code codes, Rule.expression.parse nestedCall = .ok nestedCallTree after ∧
    nestedCallTree.WithoutBuiltIns ∧ Generate.expression nestedCallTree xAgain = .ok () final ∧
    Generate.Appended xAgain final code ∧ Raises 1 code ∧
    CallCodes xAgain.scopes (.text "g") [.integer (.number 1), .reference (.name (.text "x"))] codes ∧
    callBlock (.text "g") codes <:+: code := by
  have parsed : ∃ after, Rule.expression.parse nestedCall = .ok nestedCallTree after := ⟨_, rfl⟩
  have generated : ∃ final, Generate.expression nestedCallTree xAgain = .ok () final := ⟨_, rfl⟩
  obtain ⟨after, parsed⟩ := parsed
  obtain ⟨final, generated⟩ := generated
  have plain : nestedCallTree.WithoutBuiltIns := by decide
  obtain ⟨_, code, _, appended, _, raises, blocks, _⟩ := calls_take_own_arguments rfl parsed plain generated
  obtain ⟨_, codes, given, placed⟩ := blocks (.text "g") (.parameters (.parameter (.integer (.number 1)) .absent)
    (.parameter (.reference (.name (.text "x"))) .absent)) (by decide)
  exact ⟨after, final, code, codes, parsed, plain, generated, appended, raises, given, placed⟩

end MiniTriangle
