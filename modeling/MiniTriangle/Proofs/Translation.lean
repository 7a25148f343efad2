import MiniTriangle.Proofs.LexicalProgram

/-! What the code of a program has to be, told without the scopes that give names their slots. Each name in scope
has a slot, the slots of names in scope are apart from each other, and labels are counted upwards. -/

namespace MiniTriangle

/-- The names in scope with their slots, the innermost first. -/
abbrev Live := List (String × String)

namespace Live

def names (live : Live) : List String := live.map (·.1)

def slots (live : Live) : List String := live.map (·.2)

def slotOf (live : Live) (name : String) : String := (live.lookup name).getD ""

theorem slotOf_here (live : Live) (name slot : String) : slotOf ((name, slot) :: live) name = slot := by
  simp [slotOf]

theorem slotOf_later {live : Live} {name other : String} (apart : name ≠ other) (slot : String) :
    slotOf ((other, slot) :: live) name = live.slotOf name := by
  simp [slotOf, List.lookup_cons, beq_eq_false_iff_ne.mpr apart]

theorem mem_names_later {live : Live} {name other slot : String} (apart : name ≠ other)
    (declared : name ∈ names ((other, slot) :: live)) : name ∈ live.names := by
  rcases List.mem_cons.mp declared with same | later
  · exact absurd same apart
  · exact later

theorem slotOf_mem {live : Live} {name : String} (declared : name ∈ live.names) : live.slotOf name ∈ live.slots := by
  induction live with
  | nil => cases declared
  | cons entry rest ih =>
    obtain ⟨known, slot⟩ := entry
    by_cases here : name = known
    · subst here
      rw [slotOf_here]
      exact List.mem_cons_self
    · rw [slotOf_later here]
      exact List.mem_cons_of_mem _ (ih (mem_names_later here declared))

end Live

def valueCode (live : Live) : Tree → List Instr
  | .integer value => [.op .loadConst value]
  | .reference (.name (.text name)) => [.op .loadFast (.text (live.slotOf name))]
  | .unary _ operand => valueCode live operand
  | .binary left operator right =>
    valueCode live left ++ valueCode live right ++ (Generate.operatorInstr? operator).toList
  | _ => []

/-- The code of a declaration, and the names in scope after it. -/
inductive Declares : Live → Tree → List Instr → Live → Prop where
  | nothing (live : Live) : Declares live .absent [] live
  | var {live : Live} {name slot : String} {type : Tree} (fresh : slot ∉ live.slots) :
      Declares live (.varDecl (.text name) type) [.op .loadConst .absent, .op .storeFast (.text slot)]
        ((name, slot) :: live)
  | const {live : Live} {name slot : String} {value : Tree} (fresh : slot ∉ live.slots)
      (valued : Lexical.Expression live.names value) :
      Declares live (.constDecl (.text name) value) (valueCode live value ++ [.op .storeFast (.text slot)])
        ((name, slot) :: live)
  | sequence {live middle after : Live} {first second : Tree} {before later : List Instr}
      (firstDeclares : Declares live first before middle) (secondDeclares : Declares middle second later after) :
      Declares live (.declarations first second) (before ++ later) after

/-- The code of a command, whose labels lie from the first number up to the second. -/
inductive Translates : Live → Tree → Nat → List Instr → Nat → Prop where
  | assign {live : Live} {name : String} {value : Tree} {label : Nat} (declared : name ∈ live.names)
      (valued : Lexical.Expression live.names value) :
      Translates live (.assign (.name (.text name)) value) label
        (valueCode live value ++ [.op .storeFast (.text (live.slotOf name))]) label
  | print {live : Live} {argument type : Tree} {label : Nat} (valued : Lexical.Expression live.names argument) :
      Translates live (.call (.text "putint") (.parameter argument type)) label
        (valueCode live argument ++ [.op .printItem .absent, .op .printNewline .absent]) label
  | sequence {live : Live} {first second : Tree} {label middle last : Nat} {before later : List Instr}
      (firstDoes : Translates live first label before middle) (secondDoes : Translates live second middle later last) :
      Translates live (.sequence first second) label (before ++ later) last
  | conditional {live : Live} {test yes no : Tree} {label middle last : Nat} {taken otherwise : List Instr}
      (tested : Lexical.Expression live.names test) (yesDoes : Translates live yes (label + 2) taken middle)
      (noDoes : Translates live no middle otherwise last) :
      Translates live (.ifElse test yes no) label
        (valueCode live test ++ ([.jump .ifFalse label] ++ (taken ++ ([.jump .forward (label + 1), .place label] ++
          (otherwise ++ [.place (label + 1)]))))) last
  | loop {live : Live} {test body : Tree} {label last : Nat} {code : List Instr}
      (tested : Lexical.Expression live.names test) (bodyDoes : Translates live body (label + 2) code last) :
      Translates live (.whileDo test body) label
        ([.place label] ++ (valueCode live test ++ ([.jump .ifFalse (label + 1)] ++ (code ++
          [.jump .back label, .place (label + 1)])))) last
  | scope {live inner : Live} {declared body : Tree} {label last : Nat} {before code : List Instr}
      (declares : Declares live declared before inner) (bodyDoes : Translates inner body label code last) :
      Translates live (.letIn declared body) label (before ++ code) last
  | returns {live : Live} {value : Tree} {label : Nat} (valued : Lexical.Expression live.names value) :
      Translates live (.returns value) label (valueCode live value ++ [.op .returnValue .absent]) label

def placed (code : List Instr) : List Nat :=
  code.filterMap fun
    | .place label => some label
    | _ => none

theorem placed_append (first second : List Instr) : placed (first ++ second) = placed first ++ placed second :=
  List.filterMap_append

theorem placed_valueCode (live : Live) (tree : Tree) : placed (valueCode live tree) = [] := by
  fun_induction valueCode live tree with
  | case1 value => rfl
  | case2 name => rfl
  | case3 operator operand ih => exact ih
  | case4 left operator right leftIH rightIH =>
    rw [placed_append, placed_append, leftIH, rightIH, List.nil_append, List.nil_append]
    unfold Generate.operatorInstr?
    split <;> rfl
  | case5 => rfl

theorem Declares.placed_nil {live after : Live} {tree : Tree} {code : List Instr}
    (declares : Declares live tree code after) : placed code = [] := by
  induction declares with
  | nothing live => rfl
  | var fresh => rfl
  | const fresh valued =>
    rw [placed_append, placed_valueCode]
    rfl
  | sequence _ _ firstIH secondIH => rw [placed_append, firstIH, secondIH, List.append_nil]

/-- The places in the code of a command are those of its own labels, each once. -/
theorem Translates.placed_own {live : Live} {tree : Tree} {label last : Nat} {code : List Instr}
    (translates : Translates live tree label code last) :
    label ≤ last ∧ (∀ place ∈ placed code, label ≤ place ∧ place < last) ∧ (placed code).Nodup := by
  induction translates with
  | assign declared valued =>
    rw [placed_append, placed_valueCode]
    exact ⟨Nat.le_refl _, by simp [placed]⟩
  | print valued =>
    rw [placed_append, placed_valueCode]
    exact ⟨Nat.le_refl _, by simp [placed]⟩
  | returns valued =>
    rw [placed_append, placed_valueCode]
    exact ⟨Nat.le_refl _, by simp [placed]⟩
  | sequence _ _ firstIH secondIH =>
    obtain ⟨firstUp, firstOwn, firstOnce⟩ := firstIH
    obtain ⟨secondUp, secondOwn, secondOnce⟩ := secondIH
    rw [placed_append]
    refine ⟨Nat.le_trans firstUp secondUp, ?_, ?_⟩
    · intro place member
      rcases List.mem_append.mp member with early | late
      · have bounds := firstOwn place early
        omega
      · have bounds := secondOwn place late
        omega
    · refine List.nodup_append.mpr ⟨firstOnce, secondOnce, ?_⟩
      intro early earlyIn late lateIn same
      have earlyBounds := firstOwn early earlyIn
      have lateBounds := secondOwn late lateIn
      omega
  | @conditional live test yes no label middle last taken otherwise tested _ _ yesIH noIH =>
    obtain ⟨yesUp, yesOwn, yesOnce⟩ := yesIH
    obtain ⟨noUp, noOwn, noOnce⟩ := noIH
    have places : placed (valueCode live test ++ ([.jump .ifFalse label] ++ (taken ++ ([.jump .forward (label + 1),
        .place label] ++ (otherwise ++ [.place (label + 1)]))))) =
        placed taken ++ (label :: (placed otherwise ++ [label + 1])) := by
      simp only [placed_append, placed_valueCode]
      rfl
    rw [places]
    refine ⟨by omega, ?_, ?_⟩
    · intro place member
      simp only [List.mem_append, List.mem_cons, List.not_mem_nil, or_false] at member
      rcases member with early | own | late | own
      · have bounds := yesOwn place early
        omega
      · omega
      · have bounds := noOwn place late
        omega
      · omega
    · refine List.nodup_append.mpr ⟨yesOnce, List.nodup_cons.mpr ⟨?_, List.nodup_append.mpr ⟨noOnce, by simp, ?_⟩⟩, ?_⟩
      · intro member
        simp only [List.mem_append, List.mem_cons, List.not_mem_nil, or_false] at member
        rcases member with late | own
        · have bounds := noOwn label late
          omega
        · omega
      · intro late lateIn own ownIn same
        have bounds := noOwn late lateIn
        simp only [List.mem_cons, List.not_mem_nil, or_false] at ownIn
        omega
      · intro early earlyIn late lateIn same
        have earlyBounds := yesOwn early earlyIn
        simp only [List.mem_append, List.mem_cons, List.not_mem_nil, or_false] at lateIn
        rcases lateIn with own | lateIn | own
        · omega
        · have lateBounds := noOwn late lateIn
          omega
        · omega
  | @loop live test body label last code tested _ bodyIH =>
    obtain ⟨bodyUp, bodyOwn, bodyOnce⟩ := bodyIH
    have places : placed ([.place label] ++ (valueCode live test ++ ([.jump .ifFalse (label + 1)] ++ (code ++
        [.jump .back label, .place (label + 1)])))) = label :: (placed code ++ [label + 1]) := by
      simp only [placed_append, placed_valueCode]
      rfl
    rw [places]
    refine ⟨by omega, ?_, ?_⟩
    · intro place member
      simp only [List.mem_append, List.mem_cons, List.not_mem_nil, or_false] at member
      rcases member with own | inner | own
      · omega
      · have bounds := bodyOwn place inner
        omega
      · omega
    · refine List.nodup_cons.mpr ⟨?_, List.nodup_append.mpr ⟨bodyOnce, by simp, ?_⟩⟩
      · intro member
        simp only [List.mem_append, List.mem_cons, List.not_mem_nil, or_false] at member
        rcases member with inner | own
        · have bounds := bodyOwn label inner
          omega
        · omega
      · intro inner innerIn own ownIn same
        have bounds := bodyOwn inner innerIn
        simp only [List.mem_cons, List.not_mem_nil, or_false] at ownIn
        omega
  | scope declares _ bodyIH =>
    rw [placed_append, declares.placed_nil, List.nil_append]
    exact bodyIH

end MiniTriangle
