import MiniTriangle.Proofs.RootedScopes
import MiniTriangle.Proofs.SlotNaming
import Mathlib.Data.List.Forall2
import Mathlib.Data.Set.Function

/-! Two runs of the generator side by side, on trees that differ in the spelling of their identifiers. A slot is an
identifier and an ending, which is empty or a number, and leaving a `let` tests slots for an ending. If no declared
identifier could be taken for the start of a number, the test depends on the endings alone, so both runs take away the
same slots and go the same way from state to state. -/

namespace MiniTriangle

open Sequencing

/-- What stands in the place of an identifier, if identifiers are spelled in another way. -/
def Tree.renamed (rename : String → String) : Tree → Tree
  | .text word => .text (rename word)
  | other => other

/-- The tree with its variables, functions and parameters renamed, but neither types nor operators. -/
def Tree.respell (rename : String → String) : Tree → Tree
  | .program child => .program (child.respell rename)
  | .assign target value => .assign (target.respell rename) (value.respell rename)
  | .call callee list => .call (callee.renamed rename) (list.respell rename)
  | .sequence first second => .sequence (first.respell rename) (second.respell rename)
  | .ifElse test yes no => .ifElse (test.respell rename) (yes.respell rename) (no.respell rename)
  | .whileDo test body => .whileDo (test.respell rename) (body.respell rename)
  | .letIn declared body => .letIn (declared.respell rename) (body.respell rename)
  | .returns value => .returns (value.respell rename)
  | .reference target => .reference (target.respell rename)
  | .unary operator operand => .unary operator (operand.respell rename)
  | .binary left operator right => .binary (left.respell rename) operator (right.respell rename)
  | .name identifier => .name (identifier.renamed rename)
  | .constDecl identifier value => .constDecl (identifier.renamed rename) (value.respell rename)
  | .varDecl identifier type => .varDecl (identifier.renamed rename) type
  | .funcDecl callee list type body => .funcDecl (callee.renamed rename) (list.respell rename) type (body.respell rename)
  -- A parameter that is declared has an identifier here, and an argument has an expression.
  | .parameter value type => .parameter ((value.respell rename).renamed rename) type
  | .parameters first second => .parameters (first.respell rename) (second.respell rename)
  | .declarations first second => .declarations (first.respell rename) (second.respell rename)
  | other => other

def GenerateError.respell (rename : String → String) : GenerateError → GenerateError
  | .unexpected tree expected => .unexpected (tree.respell rename) expected
  | .missing tree part => .missing (tree.respell rename) part
  | other => other

def Unnumbered (name : String) : Prop := ∀ c ∈ name.toList.getLast?, c.isDigit = false ∧ c ≠ '-'

def SlotEnding (ending : String) : Prop := ending = "" ∨ ∃ count : Int, ending = Text.decimal count

/-- A slot of the word, and the slot of its new spelling with the same ending. -/
inductive SlotRenamed (rename : String → String) (word : String) : Tree → Tree → Prop where
  | same {ending : String} (numbers : SlotEnding ending) :
      SlotRenamed rename word (.text (word ++ ending)) (.text (rename word ++ ending))

/-- The operands of loads and stores: a slot of one of the identifiers, or none. -/
inductive OperandRenamed (rename : String → String) (identifiers : List String) : Tree → Tree → Prop where
  | absent : OperandRenamed rename identifiers .absent .absent
  | slot {word : String} {left right : Tree} (used : word ∈ identifiers) (spelled : SlotRenamed rename word left right) :
      OperandRenamed rename identifiers left right

inductive Instr.Renamed (rename : String → String) (identifiers : List String) : Instr → Instr → Prop where
  | load {left right : Tree} (spelled : OperandRenamed rename identifiers left right) :
      Renamed rename identifiers (.op .loadFast left) (.op .loadFast right)
  | store {left right : Tree} (spelled : OperandRenamed rename identifiers left right) :
      Renamed rename identifiers (.op .storeFast left) (.op .storeFast right)
  | op {code : Opcode} (operand : Tree) (other : code ≠ .loadFast ∧ code ≠ .storeFast) :
      Renamed rename identifiers (.op code operand) (.op code operand)
  | jump (kind : Jump) (target : Label) : Renamed rename identifiers (.jump kind target) (.jump kind target)
  | place (label : Label) : Renamed rename identifiers (.place label) (.place label)
  | routine (parameters : List Tree) {left right : List Instr} (bodies : List.Forall₂ (Renamed rename identifiers) left right) :
      Renamed rename identifiers (.routine parameters left) (.routine (parameters.map (Tree.renamed rename)) right)

def Binding.Renamed (rename : String → String) (identifiers : List String) (left right : Binding) : Prop :=
  ∃ word ∈ identifiers, Unnumbered word ∧ Unnumbered (rename word) ∧ left.name = .text word ∧
    right.name = .text (rename word) ∧ List.Forall₂ (SlotRenamed rename word) left.slots right.slots

structure State.Renamed (rename : String → String) (identifiers : List String) (left right : State) : Prop where
  scopes : List.Forall₂ (List.Forall₂ (Binding.Renamed rename identifiers)) left.scopes right.scopes
  count : left.scopeCount = right.scopeCount
  frames : List.Forall₂ (List.Forall₂ (Instr.Renamed rename identifiers)) left.frames right.frames
  label : left.nextLabel = right.nextLabel

section Endings

theorem decimal_figures (count : Int) : ∀ c ∈ (Text.decimal count).toList, c.isDigit = true ∨ c = '-' := by
  intro c member
  cases count with
  | ofNat number =>
    rw [Int.ofNat_eq_natCast, toList_decimal] at member
    exact .inl (Nat.isDigit_of_mem_toDigits (by decide) (by decide) member)
  | negSucc number =>
    simp only [Text.decimal, String.toList_append, String.toList_ofList] at member
    rcases List.mem_append.mp member with sign | figure
    · exact .inr (List.mem_singleton.mp sign)
    · exact .inl (Nat.isDigit_of_mem_toDigits (by decide) (by decide) figure)

/-- A number ends a slot exactly if it ends the ending of the slot. -/
theorem decimal_ends_slot {word ending : String} (unnumbered : Unnumbered word) (count : Int) :
    (Text.decimal count).toList <:+ (word ++ ending).toList ↔ (Text.decimal count).toList <:+ ending.toList := by
  rw [String.toList_append]
  constructor
  · rintro ⟨before, whole⟩
    rcases List.append_eq_append_iff.mp whole with ⟨rest, wordIs, numberIs⟩ | ⟨rest, _, endingIs⟩
    · -- The number would start within the word, so the word would end with one of its figures.
      cases last : rest.getLast? with
      | none =>
        rw [List.getLast?_eq_none_iff.mp last, List.nil_append] at numberIs
        exact numberIs ▸ List.suffix_refl _
      | some c =>
        have inside : c ∈ (Text.decimal count).toList := by
          rw [numberIs]
          exact List.mem_append_left _ (List.mem_of_getLast? last)
        have ends : c ∈ word.toList.getLast? := by
          rw [wordIs, List.getLast?_append, last]
          rfl
        obtain ⟨noDigit, noSign⟩ := unnumbered c ends
        rcases decimal_figures count c inside with digit | sign
        · rw [noDigit] at digit
          cases digit
        · exact absurd sign noSign
    · exact ⟨rest, endingIs.symm⟩
  · intro ends
    exact ends.trans (List.suffix_append _ _)

theorem SlotRenamed.plain {rename : String → String} {word : String} :
    SlotRenamed rename word (.text word) (.text (rename word)) := by
  have same := @SlotRenamed.same rename word "" (.inl rfl)
  rwa [String.append_empty, String.append_empty] at same

theorem SlotRenamed.endsWith? {rename : String → String} {word : String} {left right : Tree}
    (spelled : SlotRenamed rename word left right) (first : Unnumbered word) (second : Unnumbered (rename word))
    (count : Int) : left.endsWith? (Text.decimal count) = right.endsWith? (Text.decimal count) ∧
      left.endsWith? (Text.decimal count) ≠ none := by
  cases spelled with
  | @same ending _ =>
    refine ⟨congrArg some (Bool.eq_iff_iff.mpr ?_), nofun⟩
    rw [List.isSuffixOf_iff_suffix, List.isSuffixOf_iff_suffix, decimal_ends_slot first, decimal_ends_slot second]

end Endings

section Scopes

variable {rename : String → String} {identifiers : List String} {word : String} {left right : Scope}

theorem sameName_renamed (injective : Set.InjOn rename {name | name ∈ identifiers}) (used : word ∈ identifiers)
    {first second : Binding} (bound : first.Renamed rename identifiers second) :
    first.name.sameName (.text word) = second.name.sameName (.text (rename word)) := by
  obtain ⟨other, otherUsed, _, _, leftName, rightName, _⟩ := bound
  rw [leftName, rightName]
  apply Bool.eq_iff_iff.mpr
  simp only [Tree.sameName, decide_eq_true_eq, Atom.text.injEq]
  exact (injective.eq_iff otherUsed used).symm

theorem slots?_renamed (injective : Set.InjOn rename {name | name ∈ identifiers}) (used : word ∈ identifiers)
    (bound : List.Forall₂ (Binding.Renamed rename identifiers) left right) :
    Option.Rel (List.Forall₂ (SlotRenamed rename word)) (left.slots? (.text word)) (right.slots? (.text (rename word))) := by
  induction bound with
  | nil => exact .none
  | @cons first second _ _ here _ ih =>
    have same := sameName_renamed injective used here
    obtain ⟨other, _, _, _, leftName, _, slots⟩ := here
    rw [Scope.slots?_cons, Scope.slots?_cons, ← same]
    by_cases found : first.name.sameName (.text word) = true
    · rw [if_pos found, if_pos found]
      have wordIs : other = word := by simpa [leftName, Tree.sameName] using found
      exact .some (wordIs ▸ slots)
    · rw [if_neg found, if_neg found]
      exact ih

/-- Only words are ever bound. -/
theorem slots?_unnamed (bound : List.Forall₂ (Binding.Renamed rename identifiers) left right) (value : Atom)
    (unnamed : ∀ word, value ≠ .text word) : left.slots? (.atom value) = none ∧ right.slots? (.atom value) = none := by
  induction bound with
  | nil => exact ⟨rfl, rfl⟩
  | cons here _ ih =>
    obtain ⟨word, _, _, _, leftName, rightName, _⟩ := here
    have apart (word : String) : (Tree.text word).sameName (.atom value) = false :=
      decide_eq_false fun same => unnamed word same.symm
    rw [Scope.slots?_cons, Scope.slots?_cons, leftName, rightName, apart, apart]
    exact ih

theorem insert_renamed (used : word ∈ identifiers) (first : Unnumbered word) (second : Unnumbered (rename word))
    (bound : List.Forall₂ (Binding.Renamed rename identifiers) left right) :
    List.Forall₂ (Binding.Renamed rename identifiers) (left.insert (.text word)) (right.insert (.text (rename word))) :=
  List.rel_append bound (.cons ⟨word, used, first, second, rfl, rfl, .cons .plain .nil⟩ .nil)

theorem push_renamed (injective : Set.InjOn rename {name | name ∈ identifiers}) (used : word ∈ identifiers) (count : Int)
    (bound : List.Forall₂ (Binding.Renamed rename identifiers) left right) :
    List.Forall₂ (Binding.Renamed rename identifiers) (left.push (.text word) (.text (word ++ Text.decimal count)))
      (right.push (.text (rename word)) (.text (rename word ++ Text.decimal count))) := by
  induction bound with
  | nil => exact .nil
  | @cons first second _ _ here _ ih =>
    refine .cons ?_ ih
    have same := sameName_renamed injective used here
    obtain ⟨other, otherUsed, unnumbered, stillUnnumbered, leftName, rightName, slots⟩ := here
    beta_reduce
    rw [← same]
    by_cases found : first.name.sameName (.text word) = true
    · rw [if_pos found, if_pos found]
      have wordIs : other = word := by simpa [leftName, Tree.sameName] using found
      subst wordIs
      exact ⟨other, otherUsed, unnumbered, stillUnnumbered, leftName, rightName, .cons (.same (.inr ⟨count, rfl⟩)) slots⟩
    · rw [if_neg found, if_neg found]
      exact ⟨other, otherUsed, unnumbered, stillUnnumbered, leftName, rightName, slots⟩

/-- The same slots are taken away, up to the first name that has none left. -/
theorem release_renamed (count : Int) (bound : List.Forall₂ (Binding.Renamed rename identifiers) left right) :
    List.Forall₂ (Binding.Renamed rename identifiers) (left.release (Text.decimal count)).1
        (right.release (Text.decimal count)).1 ∧
      (left.release (Text.decimal count)).2 = (right.release (Text.decimal count)).2 ∧
      ∀ slot, (left.release (Text.decimal count)).2 ≠ some (.notText slot) := by
  induction bound with
  | nil =>
    refine ⟨.nil, rfl, ?_⟩
    rintro _ ⟨⟩
  | @cons first second _ _ here later ih =>
    obtain ⟨released, failure, texts⟩ := ih
    obtain ⟨word, used, unnumbered, stillUnnumbered, leftName, rightName, slots⟩ := here
    have whole : first.Renamed rename identifiers second :=
      ⟨word, used, unnumbered, stillUnnumbered, leftName, rightName, slots⟩
    rw [Scope.release, Scope.release]
    generalize leftSlots : first.slots = leftHeld at slots
    generalize rightSlots : second.slots = rightHeld at slots
    cases slots with
    | nil =>
      refine ⟨.cons whole later, rfl, ?_⟩
      rintro _ ⟨⟩
    | cons newest older =>
      obtain ⟨tested, written⟩ := newest.endsWith? unnumbered stillUnnumbered count
      obtain ⟨ends, endsIs⟩ := Option.ne_none_iff_exists'.mp written
      rw [endsIs] at tested
      simp only [endsIs, ← tested]
      refine ⟨.cons ?_ released, failure, texts⟩
      cases ends with
      | false => exact whole
      | true => exact ⟨word, used, unnumbered, stillUnnumbered, leftName, rightName, older⟩

end Scopes

namespace Generate

/-- The same has come of two runs: related values and states, or the same failure. -/
inductive Alike {α β : Type} (rename : String → String) (identifiers : List String) (answers : α → β → Prop) :
    EStateM.Result GenerateError State α → EStateM.Result GenerateError State β → Prop where
  | ok {value : α} {other : β} {left right : State} (answered : answers value other)
      (states : left.Renamed rename identifiers right) : Alike rename identifiers answers (.ok value left) (.ok other right)
  | error (cause : GenerateError) {left right : State} (states : left.Renamed rename identifiers right) :
      Alike rename identifiers answers (.error cause left) (.error (cause.respell rename) right)

def Mirrors {α β : Type} (rename : String → String) (identifiers : List String) (first : Generate α) (second : Generate β)
    (answers : α → β → Prop) : Prop :=
  ∀ ⦃left right : State⦄, left.Renamed rename identifiers right →
    Alike rename identifiers answers (first left) (second right)

variable {rename : String → String} {identifiers : List String}

namespace Mirrors

variable {α β γ δ : Type} {told : α → β → Prop} {answers : γ → δ → Prop}

theorem bind {first : Generate α} {second : Generate β} {next : α → Generate γ} {later : β → Generate δ}
    (mirrors : Mirrors rename identifiers first second told)
    (rest : ∀ value other, told value other → Mirrors rename identifiers (next value) (later other) answers) :
    Mirrors rename identifiers (first >>= next) (second >>= later) answers := by
  intro left right states
  have opened := mirrors states
  generalize ran : first left = result at opened
  generalize otherRan : second right = otherResult at opened
  cases opened with
  | ok answered middle =>
    rw [bind_ok ran, bind_ok otherRan]
    exact rest _ _ answered middle
  | error cause middle =>
    rw [bind_error ran, bind_error otherRan]
    exact .error cause middle

theorem pure {value : α} {other : β} (answered : told value other) :
    Mirrors rename identifiers (Pure.pure value) (Pure.pure other) told :=
  fun _ _ states => .ok answered states

theorem throw (cause : GenerateError) :
    Mirrors rename identifiers (MonadExcept.throw cause : Generate α)
      (MonadExcept.throw (cause.respell rename) : Generate β) told :=
  fun _ _ states => .error cause states

end Mirrors

/-- Both actions answer nothing of interest. -/
def Both {α β : Type} (_ : α) (_ : β) : Prop := True

theorem emit_mirrors {instr other : Instr} (spelled : instr.Renamed rename identifiers other) :
    Mirrors rename identifiers (emit instr) (emit other) Both := by
  intro left right states
  obtain ⟨scopes, count, frames, label⟩ := states
  unfold emit
  rw [get_bind, get_bind]
  generalize leftFrames : left.frames = leftOpen at frames
  generalize rightFrames : right.frames = rightOpen at frames
  cases frames with
  | nil => exact .error .noFrame ⟨scopes, count, by rw [leftFrames, rightFrames]; exact .nil, label⟩
  | cons inner outer =>
    exact .ok trivial ⟨scopes, count, .cons (List.rel_append inner (.cons spelled .nil)) outer, label⟩

theorem emitOp_mirrors {code : Opcode} (operand : Tree) (other : code ≠ .loadFast ∧ code ≠ .storeFast) :
    Mirrors rename identifiers (emitOp code operand) (emitOp code operand) Both :=
  emit_mirrors (.op operand other)

theorem freshLabel_mirrors : Mirrors rename identifiers freshLabel freshLabel Eq := by
  intro left right states
  obtain ⟨scopes, count, frames, label⟩ := states
  exact .ok label ⟨scopes, count, frames, congrArg (· + 1) label⟩

/-- The slot of an identifier, and that of its new spelling. -/
theorem lookup_mirrors (injective : Set.InjOn rename {name | name ∈ identifiers}) {value : Atom}
    (used : ∀ word, value = .text word → word ∈ identifiers) :
    Mirrors rename identifiers (lookup (.atom value)) (lookup ((Tree.atom value).renamed rename))
      (OperandRenamed rename identifiers) := by
  intro left right states
  unfold lookup
  rw [get_bind, get_bind]
  have scopes := states.scopes
  generalize left.scopes = leftScopes at scopes
  generalize right.scopes = rightScopes at scopes
  cases scopes with
  | nil => exact .error .noScope states
  | cons inner outer =>
    cases value with
    | text word =>
      have member := used word rfl
      have found := slots?_renamed injective member inner
      simp only [Tree.renamed]
      generalize Scope.slots? _ (.text word) = held at found
      generalize Scope.slots? _ (.text (rename word)) = otherHeld at found
      cases found with
      | none => exact .ok .absent states
      | some slots =>
        cases slots with
        | nil => exact .error .noSlot states
        | cons newest _ => exact .ok (.slot member newest) states
    | absent =>
      obtain ⟨unbound, otherUnbound⟩ := slots?_unnamed inner .absent nofun
      simp only [Tree.renamed, unbound, otherUnbound]
      exact .ok .absent states
    | number amount =>
      obtain ⟨unbound, otherUnbound⟩ := slots?_unnamed inner (.number amount) nofun
      simp only [Tree.renamed, unbound, otherUnbound]
      exact .ok .absent states

theorem declare_mirrors (injective : Set.InjOn rename {name | name ∈ identifiers}) {word : String} (used : word ∈ identifiers)
    (first : Unnumbered word) (second : Unnumbered (rename word)) :
    Mirrors rename identifiers (declare (.text word)) (declare (.text (rename word))) (SlotRenamed rename word) := by
  intro left right states
  unfold declare
  rw [get_bind, get_bind]
  obtain ⟨scopes, count, frames, label⟩ := states
  generalize leftScopes : left.scopes = leftOpen at scopes
  generalize rightScopes : right.scopes = rightOpen at scopes
  cases scopes with
  | nil => exact .error .noScope ⟨by rw [leftScopes, rightScopes]; exact .nil, count, frames, label⟩
  | @cons inner otherInner _ _ here outer =>
    have together : (otherInner.slots? (.text (rename word))).isSome = (inner.slots? (.text word)).isSome := by
      have found := slots?_renamed injective used here
      generalize inner.slots? _ = held at found
      generalize otherInner.slots? _ = otherHeld at found
      cases found <;> rfl
    by_cases known : (inner.slots? (.text word)).isSome = true
    · simp only [together, known, if_true, Tree.numbered?, ← count]
      exact .ok (.same (.inr ⟨_, rfl⟩)) ⟨.cons (push_renamed injective used _ here) outer, rfl, frames, label⟩
    · simp only [together, known]
      exact .ok .plain ⟨.cons (insert_renamed used first second here) outer, count, frames, label⟩

theorem leaveLet_mirrors : Mirrors rename identifiers leaveLet leaveLet Both := by
  intro left right states
  unfold leaveLet
  rw [get_bind, get_bind]
  obtain ⟨scopes, count, frames, label⟩ := states
  generalize leftScopes : left.scopes = leftOpen at scopes
  generalize rightScopes : right.scopes = rightOpen at scopes
  cases scopes with
  | nil => exact .error .noScope ⟨by rw [leftScopes, rightScopes]; exact .nil, count, frames, label⟩
  | @cons inner otherInner _ _ here outer =>
    obtain ⟨released, failure, texts⟩ := release_renamed left.scopeCount here
    simp only [← count]
    generalize inner.release (Text.decimal left.scopeCount) = result at released failure texts
    generalize otherInner.release (Text.decimal left.scopeCount) = otherResult at released failure
    obtain ⟨kept, stopped⟩ := result
    obtain ⟨otherKept, otherStopped⟩ := otherResult
    cases failure
    cases stopped with
    | none => exact .ok trivial ⟨.cons released outer, rfl, frames, label⟩
    | some cause =>
      cases cause with
      | noSlot => exact .error .noSlot ⟨.cons released outer, rfl, frames, label⟩
      | notText slot => exact absurd rfl (texts slot)

theorem openFrame_mirrors : Mirrors rename identifiers openFrame openFrame Both := by
  intro left right states
  exact .ok trivial ⟨states.scopes, states.count, .cons .nil states.frames, states.label⟩

theorem openScope_mirrors : Mirrors rename identifiers openScope openScope Both := by
  intro left right states
  exact .ok trivial ⟨.cons .nil states.scopes, states.count, states.frames, states.label⟩

theorem closeFrame_mirrors :
    Mirrors rename identifiers closeFrame closeFrame (List.Forall₂ (Instr.Renamed rename identifiers)) := by
  intro left right states
  obtain ⟨scopes, count, frames, label⟩ := states
  unfold closeFrame
  rw [get_bind, get_bind]
  generalize leftFrames : left.frames = leftOpen at frames
  generalize rightFrames : right.frames = rightOpen at frames
  cases frames with
  | nil => exact .error .nothingOpen ⟨scopes, count, by rw [leftFrames, rightFrames]; exact .nil, label⟩
  | cons inner outer => exact .ok inner ⟨scopes, count, outer, label⟩

theorem closeScope_mirrors : Mirrors rename identifiers closeScope closeScope Both := by
  intro left right states
  obtain ⟨scopes, count, frames, label⟩ := states
  unfold closeScope
  rw [get_bind, get_bind]
  generalize leftScopes : left.scopes = leftOpen at scopes
  generalize rightScopes : right.scopes = rightOpen at scopes
  cases scopes with
  | nil => exact .error .nothingOpen ⟨by rw [leftScopes, rightScopes]; exact .nil, count, frames, label⟩
  | cons inner outer => exact .ok trivial ⟨outer, count, frames, label⟩

end Generate

end MiniTriangle
