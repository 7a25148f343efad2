import MiniTriangle.Proofs.GeneratedCode
import MiniTriangle.Proofs.NumberedNames

/-! Two ways of choosing names under which the scopes follow lexical scoping. If no name is declared twice, every
name keeps its own slot and nothing is ever released. If every inner `let` declares one name again, the slots made
for the open ones are numbered from one upwards, and leaving a `let` releases the slot with the last number. -/

namespace MiniTriangle

def Scope.ofNames (names : List String) (slots : String → List Tree) : Scope :=
  names.map fun name => ⟨.text name, slots name⟩

namespace Scope

variable {names : List String} {slots : String → List Tree}

private theorem sameName_text (name other : String) : (Tree.text name).sameName (.text other) = decide (name = other) := by
  simp [Tree.sameName]

theorem slots?_ofNames (name : String) :
    (ofNames names slots).slots? (.text name) = if name ∈ names then some (slots name) else none := by
  induction names with
  | nil => rfl
  | cons first rest ih =>
    have unfolded : (ofNames (first :: rest) slots).slots? (.text name) =
        if first = name then some (slots first) else (ofNames rest slots).slots? (.text name) := by
      simp only [ofNames, slots?, List.map_cons, List.find?_cons, sameName_text]
      by_cases here : first = name
      · simp [here]
      · simp [here]
    rw [unfolded, ih]
    by_cases here : first = name
    · simp [here]
    · simp [here, Ne.symm here]

theorem push_ofNames (name : String) (slot : Tree) :
    (ofNames names slots).push (.text name) slot =
      ofNames names fun other => if other = name then slot :: slots other else slots other := by
  simp only [push, ofNames, List.map_map]
  apply List.map_congr_left
  intro other _
  by_cases here : other = name
  · simp [sameName_text, here]
  · simp [sameName_text, here]

theorem insert_ofNames {name : String} (own : slots name = [.text name]) :
    (ofNames names slots).insert (.text name) = ofNames (names ++ [name]) slots := by
  simp [insert, ofNames, own]

theorem release_ofNames {ending : String} {after : String → List Tree}
    (each : ∀ name ∈ names, ∃ slot older ends, slots name = slot :: older ∧ slot.endsWith? ending = some ends ∧
      after name = if ends then older else slot :: older) :
    (ofNames names slots).release ending = (ofNames names after, none) := by
  induction names with
  | nil => rfl
  | cons name rest ih =>
    obtain ⟨slot, older, ends, held, tested, afterIs⟩ := each name List.mem_cons_self
    have later := ih fun other member => each other (List.mem_cons_of_mem _ member)
    simp only [ofNames] at later
    simp only [ofNames, List.map_cons, release, held, tested, later, afterIs]
    cases ends <;> rfl

end Scope

def ownSlot (name : String) : List Tree := [.text name]

def Live.Own (live : Live) (known : List String) : Prop := ∀ entry ∈ live, entry.1 ∈ known ∧ entry.2 = entry.1

theorem Live.slotOf_own {live : Live} {known : List String} (own : live.Own known) {name : String}
    (declared : name ∈ live.names) : live.slotOf name = name := by
  induction live with
  | nil => cases declared
  | cons entry rest ih =>
    obtain ⟨first, slot⟩ := entry
    have slotIs : slot = first := (own _ List.mem_cons_self).2
    by_cases here : name = first
    · subst here
      rw [Live.slotOf_here, slotIs]
    · rw [Live.slotOf_later here]
      exact ih (fun other member => own other (List.mem_cons_of_mem _ member)) (Live.mem_names_later here declared)

theorem Live.Own.known_of_mem {live : Live} {known : List String} (own : live.Own known) {name : String}
    (declared : name ∈ live.names) : name ∈ known := by
  obtain ⟨entry, member, same⟩ := List.mem_map.mp declared
  exact same ▸ (own entry member).1

theorem Live.Own.fresh {live : Live} {known : List String} (own : live.Own known) {name : String}
    (unknown : name ∉ known) : name ∉ live.slots := by
  intro used
  obtain ⟨entry, member, same⟩ := List.mem_map.mp used
  have both := own entry member
  exact unknown (same ▸ both.2 ▸ both.1)

theorem Live.Own.mono {live : Live} {known more : List String} (own : live.Own known)
    (within : ∀ name ∈ known, name ∈ more) : live.Own more := by
  intro entry member
  exact ⟨within _ (own entry member).1, (own entry member).2⟩

theorem Live.Own.bind {live : Live} {known : List String} (own : live.Own known) (name : String) :
    Live.Own ((name, name) :: live) (known ++ [name]) := by
  intro entry member
  rcases List.mem_cons.mp member with first | later
  · subst first
    exact ⟨List.mem_append_right _ List.mem_cons_self, rfl⟩
  · exact own.mono (fun other => List.mem_append_left _) entry later

theorem Live.Own.agrees {live : Live} {known : List String} (own : live.Own known) (outer : List Scope) (count : Int) :
    Agrees live ⟨Scope.ofNames known ownSlot :: outer, count⟩ := by
  intro name declared
  have inKnown := own.known_of_mem declared
  simp [Naming.slot?, Scope.slots?_ofNames, inKnown, ownSlot, Live.slotOf_own own declared]

private theorem declare_unknown {known : List String} {name : String} (unknown : name ∉ known) (count : Int) :
    Naming.declare? (.text name) ⟨[Scope.ofNames known ownSlot], count⟩ =
      some (.text name, ⟨[Scope.ofNames (known ++ [name]) ownSlot], count⟩) := by
  simp only [Naming.declare?, Scope.slots?_ofNames, if_neg unknown]
  rw [if_neg (by simp), Scope.insert_ofNames rfl]

/-- Declaring names for the first time gives each its own slot. -/
theorem declares_new {names after : List String} {tree : Tree} (lexical : Lexical.Declaration names tree after)
    {live : Live} (scope : live.names = names) {known : List String} (own : live.Own known) (count : Int)
    (once : (known ++ tree.declaredNames).Nodup) :
    ∃ inner, inner.names = after ∧ inner.Own (known ++ tree.declaredNames) ∧
      DeclaresSlots live ⟨[Scope.ofNames known ownSlot], count⟩ tree inner
        ⟨[Scope.ofNames (known ++ tree.declaredNames) ownSlot], count⟩ := by
  induction lexical generalizing live known with
  | nothing names =>
    refine ⟨live, scope, ?_, ?_⟩
    · simpa [Tree.declaredNames] using own
    · simp only [Tree.declaredNames, List.append_nil]
      exact .nothing _ _
  | var names name type =>
    have unknown : name ∉ known := by
      intro member
      exact (List.nodup_append.mp once).2.2 name member name List.mem_cons_self rfl
    refine ⟨(name, name) :: live, by simp [Live.names, ← scope], ?_, .var (declare_unknown unknown count) (own.fresh unknown)⟩
    exact own.bind name
  | @const names name value valued =>
    have unknown : name ∉ known := by
      intro member
      exact (List.nodup_append.mp once).2.2 name member name List.mem_cons_self rfl
    rw [← scope] at valued
    refine ⟨(name, name) :: live, by simp [Live.names, ← scope], ?_,
      .const (own.agrees [] count) (declare_unknown unknown count) (own.fresh unknown) valued⟩
    exact own.bind name
  | sequence _ _ firstIH secondIH =>
    simp only [Tree.declaredNames, ← List.append_assoc] at once ⊢
    obtain ⟨middle, middleScope, middleOwn, before⟩ := firstIH scope own (List.nodup_append.mp once).1
    obtain ⟨inner, innerScope, innerOwn, later⟩ := secondIH middleScope middleOwn once
    exact ⟨inner, innerScope, innerOwn, .sequence before later⟩

/-- A name that ends with no count that is zero or less. -/
def Lasting (name : String) : Prop := name.toList.getLast? ≠ some '0' ∧ '-' ∉ name.toList

private theorem leave_lasting {known : List String} (lasting : ∀ name ∈ known, Lasting name) {count : Int} (low : count ≤ 0) :
    Naming.leave? ⟨[Scope.ofNames known ownSlot], count⟩ = some ⟨[Scope.ofNames known ownSlot], count - 1⟩ := by
  have released : (Scope.ofNames known ownSlot).release (Text.decimal count) = (Scope.ofNames known ownSlot, none) := by
    apply Scope.release_ofNames
    intro name member
    refine ⟨.text name, [], false, rfl, endsWith_eq_false ?_, rfl⟩
    intro ends
    obtain ⟨noZero, noMinus⟩ := lasting name member
    cases count with
    | ofNat amount =>
      have zero : amount = 0 := by
        have bound : (amount : Int) ≤ 0 := low
        omega
      subst zero
      obtain ⟨before, whole⟩ := ends
      apply noZero
      rw [← whole]
      exact List.getLast?_concat
    | negSucc amount =>
      apply noMinus
      apply ends.subset
      simp [Text.decimal]
  simp only [Naming.leave?, released]

/-- Commands that declare no name twice keep every name in its own slot. -/
theorem keeps_once {names : List String} {tree : Tree} (lexical : Lexical.Command names tree) {live : Live}
    (scope : live.names = names) {known : List String} (own : live.Own known) {count : Int} (low : count ≤ 0)
    (once : (known ++ tree.declaredNames).Nodup) (lasting : ∀ name ∈ known ++ tree.declaredNames, Lasting name) :
    ∃ last ≤ count, KeepsSlots live ⟨[Scope.ofNames known ownSlot], count⟩ tree
      ⟨[Scope.ofNames (known ++ tree.declaredNames) ownSlot], last⟩ := by
  induction lexical generalizing live known count with
  | assign declared valued =>
    rw [← scope] at declared valued
    refine ⟨count, Int.le_refl count, ?_⟩
    simp only [Tree.declaredNames, List.append_nil]
    exact .assign (own.agrees [] count) declared valued
  | print valued =>
    rw [← scope] at valued
    refine ⟨count, Int.le_refl count, ?_⟩
    simp only [Tree.declaredNames, List.append_nil]
    exact .print (own.agrees [] count) valued
  | returns valued =>
    rw [← scope] at valued
    refine ⟨count, Int.le_refl count, ?_⟩
    simp only [Tree.declaredNames, List.append_nil]
    exact .returns (own.agrees [] count) valued
  | sequence _ _ firstIH secondIH =>
    simp only [Tree.declaredNames, ← List.append_assoc] at once lasting ⊢
    obtain ⟨middle, lower, before⟩ := firstIH scope own low (List.nodup_append.mp once).1
      fun name member => lasting name (List.mem_append_left _ member)
    obtain ⟨last, lowest, later⟩ := secondIH scope (own.mono fun name => List.mem_append_left _) (Int.le_trans lower low) once lasting
    exact ⟨last, Int.le_trans lowest lower, .sequence before later⟩
  | conditional tested _ _ yesIH noIH =>
    rw [← scope] at tested
    simp only [Tree.declaredNames, ← List.append_assoc] at once lasting ⊢
    obtain ⟨middle, lower, taken⟩ := yesIH scope own low (List.nodup_append.mp once).1
      fun name member => lasting name (List.mem_append_left _ member)
    obtain ⟨last, lowest, otherwise⟩ := noIH scope (own.mono fun name => List.mem_append_left _) (Int.le_trans lower low) once lasting
    exact ⟨last, Int.le_trans lowest lower, .conditional (own.agrees [] count) tested taken otherwise⟩
  | loop tested _ bodyIH =>
    rw [← scope] at tested
    obtain ⟨last, lower, repeated⟩ := bodyIH scope own low once lasting
    exact ⟨last, lower, .loop (own.agrees [] count) tested repeated⟩
  | scope declares _ bodyIH =>
    simp only [Tree.declaredNames, ← List.append_assoc] at once lasting ⊢
    obtain ⟨inner, innerScope, innerOwn, declared⟩ := declares_new declares scope own count (List.nodup_append.mp once).1
    obtain ⟨last, lower, inside⟩ := bodyIH innerScope innerOwn low once lasting
    exact ⟨last - 1, by omega, .scope declared inside (leave_lasting lasting (Int.le_trans lower low))⟩

/-- The slots of a name while inner `let` commands are open, given by the names they declare, the innermost first. -/
def openSlots : List String → String → List Tree
  | [], name => ownSlot name
  | latest :: opened, name =>
    if name = latest then .text (numbered latest (opened.length + 1)) :: openSlots opened name else openSlots opened name

def openLive : List String → Live
  | [] => []
  | latest :: opened => (latest, numbered latest (opened.length + 1)) :: openLive opened

def openNaming (known opened : List String) : Naming := ⟨[Scope.ofNames known (openSlots opened)], opened.length⟩

structure Shadowing (base : Live) (known opened : List String) : Prop where
  own : base.Own known
  undigited : ∀ name ∈ known, Undigited name
  listed : ∀ name ∈ opened, name ∈ known

namespace Shadowing

variable {base : Live} {known opened : List String}

theorem push (shadowing : Shadowing base known opened) {name : String} (member : name ∈ known) :
    Shadowing base known (name :: opened) :=
  ⟨shadowing.own, shadowing.undigited, List.forall_mem_cons.mpr ⟨member, shadowing.listed⟩⟩

private theorem known_of_mem (shadowing : Shadowing base known opened) {name : String}
    (declared : name ∈ (openLive opened ++ base).names) : name ∈ known := by
  obtain ⟨own, _, listed⟩ := shadowing
  induction opened with
  | nil => exact own.known_of_mem declared
  | cons latest rest ih =>
    obtain ⟨first, later⟩ := List.forall_mem_cons.mp listed
    rcases List.mem_cons.mp declared with same | inRest
    · exact same ▸ first
    · exact ih inRest later

private theorem newest (own : base.Own known) {name : String} (declared : name ∈ (openLive opened ++ base).names) :
    ∃ older, openSlots opened name = .text (Live.slotOf (openLive opened ++ base) name) :: older := by
  induction opened with
  | nil => exact ⟨[], by simp only [openSlots, ownSlot, openLive, List.nil_append, Live.slotOf_own own declared]⟩
  | cons latest rest ih =>
    by_cases here : name = latest
    · subst here
      refine ⟨openSlots rest name, ?_⟩
      rw [openLive, List.cons_append, Live.slotOf_here]
      simp only [openSlots, if_true]
    · obtain ⟨older, found⟩ := ih (Live.mem_names_later here declared)
      refine ⟨older, ?_⟩
      rw [openLive, List.cons_append, Live.slotOf_later here]
      simp only [openSlots, if_neg here, found]

theorem agrees (shadowing : Shadowing base known opened) : Agrees (openLive opened ++ base) (openNaming known opened) := by
  intro name declared
  obtain ⟨older, found⟩ := newest shadowing.own declared
  simp [Naming.slot?, openNaming, Scope.slots?_ofNames, shadowing.known_of_mem declared, found]

/-- The slots in use have numbers up to that of the open `let` commands, or none. -/
private theorem slot_cases {slot : String} (used : slot ∈ (openLive opened ++ base).slots) :
    slot ∈ base.slots ∨ ∃ name ∈ opened, ∃ count ≤ opened.length, slot = numbered name count := by
  induction opened with
  | nil => exact .inl used
  | cons latest rest ih =>
    rcases List.mem_cons.mp used with same | later
    · exact .inr ⟨latest, List.mem_cons_self, rest.length + 1, Nat.le_refl _, same⟩
    · rcases ih later with inBase | ⟨name, member, count, low, same⟩
      · exact .inl inBase
      · exact .inr ⟨name, List.mem_cons_of_mem _ member, count, Nat.le_succ_of_le low, same⟩

theorem fresh (shadowing : Shadowing base known opened) {name : String} (member : name ∈ known) :
    numbered name (opened.length + 1) ∉ (openLive opened ++ base).slots := by
  intro used
  rcases slot_cases used with inBase | ⟨other, otherOpened, count, low, same⟩
  · obtain ⟨entry, inLive, same⟩ := List.mem_map.mp inBase
    obtain ⟨entryKnown, slotIs⟩ := shadowing.own entry inLive
    rw [slotIs] at same
    exact numbered_ne (shadowing.undigited _ entryKnown) _ same.symm
  · have equal := numbered_count (shadowing.undigited _ member) (shadowing.undigited _ (shadowing.listed _ otherOpened)) same
    omega

theorem declare {name : String} (member : name ∈ known) :
    (openNaming known opened).declare? (.text name) =
      some (.text (numbered name (opened.length + 1)), openNaming known (name :: opened)) := by
  simp only [openNaming, Naming.declare?, Scope.slots?_ofNames, if_pos member, Option.isSome_some, if_true,
    Tree.numbered?, Option.map_some, Scope.push_ofNames]
  rfl

/-- The newest slot of a name ends with no number above that of the open `let` commands. -/
private theorem newest_ends {name : String} (undigited : Undigited name) (opened : List String) :
    ∃ slot older, openSlots opened name = .text slot :: older ∧
      ∀ count, opened.length < count → ¬ Nat.toDigits 10 count <:+ slot.toList := by
  induction opened with
  | nil => exact ⟨name, [], rfl, fun count _ => not_ends_of_undigited undigited count⟩
  | cons latest rest ih =>
    by_cases here : name = latest
    · subst here
      refine ⟨numbered name (rest.length + 1), openSlots rest name, by simp [openSlots], ?_⟩
      intro count above ends
      have bound := le_of_numbered_ends undigited ends
      simp only [List.length_cons] at above
      omega
    · obtain ⟨slot, older, found, apart⟩ := ih
      refine ⟨slot, older, by simp [openSlots, here, found], ?_⟩
      intro count above
      simp only [List.length_cons] at above
      exact apart count (by omega)

theorem leave (shadowing : Shadowing base known opened) (name : String) :
    (openNaming known (name :: opened)).leave? = some (openNaming known opened) := by
  have released : (Scope.ofNames known (openSlots (name :: opened))).release (Text.decimal ((opened.length + 1 : Nat) : Int)) =
      (Scope.ofNames known (openSlots opened), none) := by
    apply Scope.release_ofNames
    intro other member
    by_cases here : other = name
    · subst here
      refine ⟨.text (numbered other (opened.length + 1)), openSlots opened other, true, by simp [openSlots], ?_, rfl⟩
      rw [endsWith_iff, toList_numbered, toList_decimal]
      exact List.suffix_append _ _
    · obtain ⟨slot, older, found, apart⟩ := newest_ends (shadowing.undigited other member) opened
      refine ⟨.text slot, older, false, by simp [openSlots, here, found], endsWith_eq_false ?_, found⟩
      rw [toList_decimal]
      exact apart _ (Nat.lt_succ_self _)
  simp only [openNaming, List.length_cons, Naming.leave?, released]
  simp

private theorem declares_nothing {names after : List String} {tree : Tree} (lexical : Lexical.Declaration names tree after)
    (none_ : tree.declaredNames = []) (live : Live) (naming : Naming) :
    after = names ∧ DeclaresSlots live naming tree live naming := by
  induction lexical with
  | nothing names => exact ⟨rfl, .nothing live naming⟩
  | var names name type => cases none_
  | const valued => cases none_
  | sequence _ _ firstIH secondIH =>
    obtain ⟨firstNone, secondNone⟩ := List.append_eq_nil_iff.mp none_
    obtain ⟨middleIs, before⟩ := firstIH firstNone
    obtain ⟨afterIs, later⟩ := secondIH secondNone
    exact ⟨afterIs.trans middleIs, .sequence before later⟩

theorem declares_again (shadowing : Shadowing base known opened) {names after : List String} {tree : Tree}
    (lexical : Lexical.Declaration names tree after) (scope : (openLive opened ++ base).names = names) {name : String}
    (member : name ∈ known) (single : tree.declaredNames = [name]) :
    after = name :: names ∧ DeclaresSlots (openLive opened ++ base) (openNaming known opened) tree
      (openLive (name :: opened) ++ base) (openNaming known (name :: opened)) := by
  induction lexical with
  | nothing names => cases single
  | var names other type =>
    cases single
    exact ⟨rfl, .var (declare member) (shadowing.fresh member)⟩
  | const valued =>
    cases single
    rw [← scope] at valued
    exact ⟨rfl, .const shadowing.agrees (declare member) (shadowing.fresh member) valued⟩
  | sequence first second firstIH secondIH =>
    rcases List.append_eq_singleton_iff.mp single with ⟨firstNone, secondSingle⟩ | ⟨firstSingle, secondNone⟩
    · obtain ⟨middleIs, before⟩ := declares_nothing first firstNone (openLive opened ++ base) (openNaming known opened)
      subst middleIs
      obtain ⟨afterIs, later⟩ := secondIH scope secondSingle
      exact ⟨afterIs, .sequence before later⟩
    · obtain ⟨middleIs, before⟩ := firstIH scope firstSingle
      obtain ⟨afterIs, later⟩ := declares_nothing second secondNone (openLive (name :: opened) ++ base)
        (openNaming known (name :: opened))
      exact ⟨afterIs.trans middleIs, .sequence before later⟩

/-- Commands whose inner `let` commands each declare one name again leave the names as they were. -/
theorem keeps {names : List String} {tree : Tree} (lexical : Lexical.Command names tree)
    (shadowing : Shadowing base known opened) (scope : (openLive opened ++ base).names = names)
    (shadows : tree.ShadowsOne known) :
    KeepsSlots (openLive opened ++ base) (openNaming known opened) tree (openNaming known opened) := by
  induction lexical generalizing opened with
  | assign declared valued =>
    rw [← scope] at declared valued
    exact .assign shadowing.agrees declared valued
  | print valued =>
    rw [← scope] at valued
    exact .print shadowing.agrees valued
  | returns valued =>
    rw [← scope] at valued
    exact .returns shadowing.agrees valued
  | sequence _ _ firstIH secondIH =>
    exact .sequence (firstIH shadowing scope shadows.1) (secondIH shadowing scope shadows.2)
  | conditional tested _ _ yesIH noIH =>
    rw [← scope] at tested
    exact .conditional shadowing.agrees tested (yesIH shadowing scope shadows.1) (noIH shadowing scope shadows.2)
  | loop tested _ bodyIH =>
    rw [← scope] at tested
    exact .loop shadowing.agrees tested (bodyIH shadowing scope shadows)
  | scope declares _ bodyIH =>
    obtain ⟨⟨name, member, single⟩, inner⟩ := shadows
    obtain ⟨innerIs, declared⟩ := declares_again shadowing declares scope member single
    have innerScope : (openLive (name :: opened) ++ base).names = name :: _ := congrArg (name :: ·) scope
    have inside := bodyIH (shadowing.push member) (innerScope.trans innerIs.symm) inner
    exact .scope declared inside (shadowing.leave name)

end Shadowing

theorem keepsSlots_of_declaresOnce {declared body : Tree} (lexical : Lexical.Command [] (.letIn declared body))
    (once : (Tree.letIn declared body).DeclaresOnce)
    (noMinus : ∀ name ∈ (Tree.letIn declared body).declaredNames, '-' ∉ name.toList) :
    ∃ after, KeepsSlots [] ⟨[[]], 0⟩ (.letIn declared body) after := by
  obtain ⟨distinct, noZero⟩ := once
  have own : Live.Own [] [] := by
    intro entry member
    cases member
  obtain ⟨last, _, keeps⟩ := keeps_once lexical rfl own (Int.le_refl 0) distinct
    fun name member => ⟨noZero name member, noMinus name member⟩
  exact ⟨_, keeps⟩

theorem keepsSlots_of_declaresAgain {declared body : Tree} (lexical : Lexical.Command [] (.letIn declared body))
    (again : Tree.DeclaresAgain declared body) : ∃ after, KeepsSlots [] ⟨[[]], 0⟩ (.letIn declared body) after := by
  obtain ⟨distinct, undigited, shadows⟩ := again
  cases lexical with
  | scope declares inside =>
    have own : Live.Own [] [] := by
      intro entry member
      cases member
    obtain ⟨base, baseScope, baseOwn, made⟩ := declares_new declares rfl own 0 distinct
    have shadowing : Shadowing base declared.declaredNames [] := ⟨baseOwn, undigited, by simp⟩
    have kept := Shadowing.keeps inside shadowing baseScope shadows
    -- No name ends with the count of the outermost `let`, so nothing is released at its end.
    have released : (Scope.ofNames declared.declaredNames ownSlot).release (Text.decimal 0) =
        (Scope.ofNames declared.declaredNames ownSlot, none) := by
      apply Scope.release_ofNames
      intro name member
      refine ⟨.text name, [], false, rfl, endsWith_eq_false ?_, rfl⟩
      have digits : (Text.decimal 0).toList = Nat.toDigits 10 0 := toList_decimal 0
      rw [digits]
      exact not_ends_of_undigited (undigited name member) 0
    refine ⟨⟨[Scope.ofNames declared.declaredNames ownSlot], 0 - 1⟩, .scope made kept ?_⟩
    show Naming.leave? ⟨[Scope.ofNames declared.declaredNames ownSlot], 0⟩ = _
    simp only [Naming.leave?, released]

end MiniTriangle
