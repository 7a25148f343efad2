import MiniTriangle.Proofs.CompilablePrograms
import MiniTriangle.Proofs.LexicalProgram
import MiniTriangle.Proofs.SlotClashes
import Mathlib.Data.Finset.Card
import Mathlib.Data.Finset.Dedup

/-! The count of repeated declarations in closed form. All functions share one count: a declaration raises it if its name
was declared before in the same function, and each end of a `let` lowers it, whether or not the `let` raised it. So at the
end of a program it is the number of repeated declarations less the number of `let` commands. -/

namespace MiniTriangle

open Sequencing

def Tree.isLet : Tree → Bool
  | .letIn _ _ => true
  | _ => false

def Tree.lets (tree : Tree) : Nat := tree.nodes.countP isLet

/-- The variables, constants and parameters that a program or a function declares itself, in order. -/
def Tree.bodyNames? : Tree → Option (List String)
  | .program command => some command.declaredNames
  | .funcDecl callee list type body => some ((Tree.funcDecl callee list type body).ownNames ++ body.declaredNames)
  | _ => none

/-- How many names of a list stand there for the second time or later. -/
def repetitions (names : List String) : Int := names.length - names.toFinset.card

def Tree.repetitions (tree : Tree) : Int := ((tree.nodes.filterMap bodyNames?).map MiniTriangle.repetitions).sum

def Tree.balance (tree : Tree) : Int := tree.repetitions - tree.lets

def Tree.ownBalance (tree : Tree) : Int :=
  (tree.bodyNames?.map MiniTriangle.repetitions).getD 0 - if tree.isLet then 1 else 0

theorem Tree.balance_eq_sum (tree : Tree) : tree.balance = (tree.nodes.map ownBalance).sum := by
  unfold balance repetitions lets
  induction tree.nodes with
  | nil => rfl
  | cons node rest ih =>
    rw [List.map_cons, List.sum_cons, ← ih, List.countP_cons, List.filterMap_cons, ownBalance]
    cases node.bodyNames? <;> cases node.isLet <;> simp <;> omega

theorem Tree.balance_eq (tree : Tree) : tree.balance = tree.ownBalance + (tree.children.map balance).sum := by
  rw [balance_eq_sum, nodes_eq, List.map_cons, List.sum_cons]
  congr 1
  induction tree.children with
  | nil => rfl
  | cons child rest ih => simp [balance_eq_sum, ← ih]

theorem Tree.balance_parts {tree : Tree} (plain : tree.ownBalance = 0) : tree.balance = (tree.children.map balance).sum := by
  rw [balance_eq, plain, Int.zero_add]

theorem Tree.balance_zero {tree : Tree} (plain : tree.ownBalance = 0) (parts : ∀ child ∈ tree.children, child.balance = 0) :
    tree.balance = 0 := by
  rw [balance_parts plain, List.map_congr_left parts]
  simp

@[simp] theorem Tree.balance_atom (value : Atom) : (Tree.atom value).balance = 0 := balance_parts rfl

@[simp] theorem Tree.balance_name (value : Atom) : (Tree.name (.atom value)).balance = 0 :=
  balance_zero rfl (by simp [children])

@[simp] theorem Tree.balance_typeName (value : Atom) : (Tree.typeName (.atom value)).balance = 0 :=
  balance_zero rfl (by simp [children])

theorem repetitions_nil : repetitions [] = 0 := rfl

/-- One more name is a repetition if it was there before. -/
theorem repetitions_concat (names : List String) (name : String) :
    repetitions (names ++ [name]) = repetitions names + if name ∈ names then 1 else 0 := by
  have more : (names ++ [name]).toFinset = insert name names.toFinset := by
    ext other
    simp
  unfold repetitions
  rw [more, List.length_append, List.length_singleton]
  by_cases known : name ∈ names
  · rw [Finset.card_insert_of_mem (List.mem_toFinset.mpr known), if_pos known]
    omega
  · rw [Finset.card_insert_of_notMem (mt List.mem_toFinset.mp known), if_neg known]
    omega

namespace Tally

/-- The names declared in the innermost scope are these words; below it lie the other scopes. -/
def Knows (tally : Tally) (words : List String) (outer : List (List Tree)) : Prop :=
  ∃ names, tally.known = names :: outer ∧ ∀ word, names.any (·.sameName (.text word)) = true ↔ word ∈ words

/-- Steps that declare the given words in the innermost scope, and apart from repetitions among the words there change the
count by the given number. -/
def Balances (steps : List Naming.Step) (own : List String) (change : Int) : Prop :=
  ∀ ⦃tally : Tally⦄ ⦃words : List String⦄ ⦃outer : List (List Tree)⦄, tally.Knows words outer →
    (tally.run steps).Knows (words ++ own) outer ∧
      (tally.run steps).count - repetitions (words ++ own) = tally.count - repetitions words + change

namespace Balances

variable {steps more : List Naming.Step} {own later : List String} {change other : Int}

theorem nil : Balances [] [] 0 := by
  intro tally words outer knows
  rw [List.append_nil]
  exact ⟨knows, (Int.add_zero _).symm⟩

theorem append (first : Balances steps own change) (second : Balances more later other) :
    Balances (steps ++ more) (own ++ later) (change + other) := by
  intro tally words outer knows
  obtain ⟨knowsFirst, counted⟩ := first knows
  obtain ⟨knowsBoth, countedMore⟩ := second knowsFirst
  rw [run, List.foldl_append, ← List.append_assoc]
  refine ⟨knowsBoth, countedMore.trans ?_⟩
  rw [counted]
  omega

theorem congr (balances : Balances steps own change) (sameNames : own = later) (sameChange : change = other) :
    Balances steps later other := by
  rw [← sameNames, ← sameChange]
  exact balances

/-- A declaration is counted exactly if it is a repetition. -/
theorem declare (word : String) : Balances [.declare (.text word)] [word] 0 := by
  rintro tally words outer ⟨names, known, listed⟩
  have repeated : tally.repeats (.text word) = true ↔ word ∈ words := by
    rw [repeats, known]
    exact listed word
  rw [repetitions_concat]
  show ((tally.after (.declare (.text word))).Knows _ _ ∧ (tally.after (.declare (.text word))).count - _ = _)
  by_cases again : word ∈ words
  · rw [after, if_pos (repeated.mpr again), if_pos again]
    refine ⟨⟨names, known, fun other => ?_⟩, by simp only; omega⟩
    rw [listed other, List.mem_append, List.mem_singleton]
    exact (or_iff_left_of_imp fun same => same ▸ again).symm
  · rw [after, if_neg (mt repeated.mp again), if_neg again]
    refine ⟨⟨names ++ [.text word], by simp [known], fun other => ?_⟩, by simp only; omega⟩
    have alone : [Tree.text word].any (·.sameName (.text other)) = true ↔ other = word := by simp [Tree.sameName, eq_comm]
    rw [List.any_append, Bool.or_eq_true, listed other, alone, List.mem_append, List.mem_singleton]

theorem leave : Balances [.leave] [] (-1) := by
  intro tally words outer knows
  rw [List.append_nil]
  exact ⟨knows, by simp only [run, List.foldl_cons, List.foldl_nil, after]; omega⟩

theorem declareAll (words : List String) : Balances ((words.map Tree.text).map .declare) words 0 := by
  induction words with
  | nil => exact nil
  | cons word rest ih => exact (declare word).append ih

/-- A function forgets its names at its end, so all its repetitions are counted for good. -/
theorem function (inside : Balances steps own change) :
    Balances ([.enter] ++ steps ++ [.exit]) [] (change + repetitions own) := by
  rintro tally words outer ⟨names, known, listed⟩
  have entered : (tally.after .enter).Knows [] (names :: outer) := ⟨[], congrArg ([] :: ·) known, fun word => by simp⟩
  obtain ⟨⟨inner, knownInside, _⟩, counted⟩ := inside entered
  have ran : tally.run ([.enter] ++ steps ++ [.exit]) = ((tally.after .enter).run steps).after .exit := by simp [run]
  rw [List.nil_append, repetitions_nil] at counted
  rw [ran, List.append_nil]
  refine ⟨⟨names, congrArg List.tail knownInside, listed⟩, ?_⟩
  simp only [after] at counted ⊢
  omega

end Balances

end Tally

def Counted : Role → Tree → Prop
  | .command, tree => Tally.Balances tree.commandSteps tree.declaredNames tree.balance
  | .declaration, tree => Tally.Balances tree.declarationSteps tree.declaredNames tree.balance
  | _, tree => tree.balance = 0

/-- What lies in expressions and lists leaves the count alone. -/
private theorem counted_zero {tree : Tree} (plain : tree.ownBalance = 0) (parts : ∀ child ∈ tree.children, child.balance = 0)
    (none : tree.declaredNames = []) : Tally.Balances [] tree.declaredNames tree.balance :=
  Tally.Balances.nil.congr none.symm (Tree.balance_zero plain parts).symm

theorem Shaped.counted {role : Role} {tree : Tree} (shaped : Shaped role tree) : Counted role tree := by
  induction shaped with
  | @assign target value _ ih =>
    have valued : value.balance = 0 := ih
    exact counted_zero rfl (by simp [Tree.children, valued]) rfl
  | @callCommand name list _ ih =>
    have listed : list.balance = 0 := ih
    exact counted_zero rfl (by simp [Tree.children, listed]) rfl
  | sequence _ _ firstIH secondIH =>
    refine (firstIH.append secondIH).congr rfl ?_
    refine Eq.trans ?_ (Tree.balance_parts rfl).symm
    simp [Tree.children]
  | @conditional test yes no _ _ _ testIH yesIH noIH =>
    have tested : test.balance = 0 := testIH
    refine (yesIH.append noIH).congr rfl ?_
    refine Eq.trans ?_ (Tree.balance_parts rfl).symm
    simp [Tree.children, tested]
  | @loop test body _ _ testIH bodyIH =>
    have tested : test.balance = 0 := testIH
    refine Tally.Balances.congr bodyIH rfl ?_
    refine Eq.trans ?_ (Tree.balance_parts rfl).symm
    simp [Tree.children, tested]
  | scope _ _ declaredIH bodyIH =>
    refine ((declaredIH.append bodyIH).append .leave).congr (List.append_nil _) ?_
    rw [Tree.balance_eq (.letIn _ _), Int.add_comm (Tree.ownBalance _)]
    simp [Tree.children, Tree.ownBalance, Tree.bodyNames?, Tree.isLet]
  | @returns value _ ih =>
    have valued : value.balance = 0 := ih
    exact counted_zero rfl (by simp [Tree.children, valued]) rfl
  | nothing => exact counted_zero rfl (List.forall_mem_nil _) rfl
  | var name type =>
    refine (Tally.Balances.declare name).congr rfl ?_
    exact (Tree.balance_zero rfl (by simp [Tree.children])).symm
  | @const name value _ ih =>
    have valued : value.balance = 0 := ih
    refine (Tally.Balances.declare name).congr rfl ?_
    exact (Tree.balance_zero rfl (by simp [Tree.children, valued])).symm
  | @function name list type body listed _ listIH bodyIH =>
    have plain : list.balance = 0 := listIH
    have names := listed.parameterList_eq (.text name) (.typeName (.atom type)) body
    have inside := (Tally.Balances.declareAll (Tree.funcDecl (.text name) list (.typeName (.atom type)) body).ownNames).append
      bodyIH
    rw [← names] at inside
    have steps : (Tree.funcDecl (.text name) list (.typeName (.atom type)) body).declarationSteps =
        [.enter] ++ (list.parameterList.map .declare ++ body.commandSteps) ++ [.exit] := by simp [Tree.declarationSteps]
    show Tally.Balances (Tree.declarationSteps _) _ _
    rw [steps]
    refine inside.function.congr rfl ?_
    rw [Tree.balance_eq (.funcDecl _ _ _ _), Int.add_comm (Tree.ownBalance _)]
    simp [Tree.children, Tree.ownBalance, Tree.bodyNames?, Tree.isLet, plain]
  | declarations _ _ firstIH secondIH =>
    refine (firstIH.append secondIH).congr rfl ?_
    refine Eq.trans ?_ (Tree.balance_parts rfl).symm
    simp [Tree.children]
  | _ => exact Tree.balance_zero rfl (by simp_all [Tree.children, Counted])

theorem Generate.program_acts (tree : Tree) : Acts (program (.program tree)) ([.enter] ++ tree.commandSteps ++ [.exit]) := by
  cases tree with
  | letIn declared body =>
    rw [List.append_assoc]
    refine openFrame_acts.quiet_bind fun _ => openScope_acts.bind fun _ => (command_acts _).bind fun _ => ?_
    refine (emit_acts _).quiet_bind fun _ => (emit_acts _).quiet_bind fun _ => closeFrame_acts.quiet_bind fun _ => ?_
    exact closeScope_acts.bind_quiet fun _ => Acts.pure _
  | _ => exact Acts.throw _

/-- After a program that was read from a text, the count is the number of declarations that repeat a name in the same
function, or in the program outside functions, less the number of `let` commands. -/
theorem scopeCount_of_program {text : String} {tree : Tree} {routine : Routine} {state : State}
    (read : readProgram? text = some tree) (compiled : compileTree tree = .ok (routine, state)) :
    state.scopeCount = tree.repetitions - tree.lets := by
  obtain ⟨command, _, treeIs, _⟩ := derives_of_read read
  subst treeIs
  have tallied := Naming.tally_run (Generate.program_acts command (compileTree_eq_ok.mp compiled).2)
  have start : Tally.Knows ⟨[[]], 0⟩ [] [] := ⟨[], rfl, fun word => by simp⟩
  obtain ⟨_, counted⟩ := (shaped_of_read read).counted start
  rw [List.nil_append, repetitions_nil] at counted
  have whole : (Tree.program command).balance = repetitions command.declaredNames + command.balance := by
    simp [Tree.balance_eq (.program _), Tree.children, Tree.ownBalance, Tree.bodyNames?, Tree.isLet]
  calc
    state.scopeCount = (Tally.run ⟨[], 0⟩ ([Naming.Step.enter] ++ command.commandSteps ++ [Naming.Step.exit])).count :=
      congrArg Tally.count tallied
    _ = (Tally.run ⟨[[]], 0⟩ command.commandSteps).count := by
      rw [Tally.run, List.foldl_append, List.foldl_append]
      rfl
    _ = repetitions command.declaredNames + command.balance := by
      simp only at counted
      omega
    _ = (Tree.program command).repetitions - (Tree.program command).lets := whole.symm

/-- Declares a constant, and inside a function a parameter and a constant of the same name. -/
def sharedName : String := "let const a ~ 1; func f(a: T): T let const a ~ 2; in return a; in let in return a;"

/-- Only the constant in the function repeats a name, and the count is lowered three times. -/
theorem sharedName_scopeCount : ∃ tree routine state, readProgram? sharedName = some tree ∧
    compileTree tree = .ok (routine, state) ∧ tree.repetitions = 1 ∧ tree.lets = 3 ∧ state.scopeCount = -2 := by
  have computed : (readProgram? sharedName).any (fun tree =>
      (compileTree tree).isOk && decide (tree.repetitions = 1) && decide (tree.lets = 3)) = true := by decide +kernel
  obtain ⟨tree, read, checked⟩ := (Option.any_eq_true _ _).mp computed
  simp only [Bool.and_eq_true, decide_eq_true_eq] at checked
  obtain ⟨⟨fine, repeated⟩, left⟩ := checked
  cases compiled : compileTree tree with
  | error cause =>
    rw [compiled] at fine
    cases fine
  | ok result =>
    refine ⟨tree, result.1, result.2, read, compiled, repeated, left, ?_⟩
    rw [scopeCount_of_program read compiled, repeated, left]
    rfl

end MiniTriangle
