import MiniTriangle.Proofs.CompilablePrograms

/-! The spelling of declared names. All variables, constants and parameters of a program read from a text, those inside
functions too, are made of letters, digits and numerals. -/

namespace MiniTriangle

open Alphabet

def Alphanumeric (word : String) : Prop := ∀ c ∈ word.toList, isAlphanumeric c = true

instance : DecidablePred Alphanumeric := fun word =>
  decidable_of_iff (word.toList.all isAlphanumeric = true) List.all_eq_true

def Tree.NamesAlphanumeric (tree : Tree) : Prop := tree.all (fun part => part.ownNames.all fun name => Alphanumeric name) = true

theorem Tree.namesAlphanumeric_iff (tree : Tree) : tree.NamesAlphanumeric ↔
    (∀ name ∈ tree.ownNames, Alphanumeric name) ∧ ∀ child ∈ tree.children, child.NamesAlphanumeric := by
  unfold NamesAlphanumeric
  rw [all_iff, List.all_eq_true]
  simp only [decide_eq_true_eq]

@[simp] theorem Tree.namesAlphanumeric_atom (value : Atom) : (Tree.atom value).NamesAlphanumeric := rfl

@[simp] theorem Tree.namesAlphanumeric_name (value : Atom) : (Tree.name (.atom value)).NamesAlphanumeric := rfl

@[simp] theorem Tree.namesAlphanumeric_typeName (value : Atom) : (Tree.typeName (.atom value)).NamesAlphanumeric := rfl

theorem Tree.NamesAlphanumeric.of_children {tree : Tree} (none : tree.ownNames = [])
    (children : ∀ child ∈ tree.children, child.NamesAlphanumeric) : tree.NamesAlphanumeric := by
  rw [namesAlphanumeric_iff, none]
  exact ⟨nofun, children⟩

theorem Tree.NamesAlphanumeric.child {tree child : Tree} (named : tree.NamesAlphanumeric) (part : child ∈ tree.children) :
    child.NamesAlphanumeric :=
  ((namesAlphanumeric_iff tree).mp named).2 child part

theorem Tree.NamesAlphanumeric.own {tree : Tree} (named : tree.NamesAlphanumeric) {name : String} (own : name ∈ tree.ownNames) :
    Alphanumeric name :=
  ((namesAlphanumeric_iff tree).mp named).1 name own

def Token.Spelled (token : Token) : Prop :=
  token.kind = .identifier → ∃ word, token.value = .text word ∧ Alphanumeric word

theorem Derives.parameters_alphanumeric {row : List Token} {list : Tree} (derived : Derives .parameters row list)
    (spelled : ∀ token ∈ row, token.Spelled) : ∀ name ∈ list.parameterList, ∃ word, name = .text word ∧ Alphanumeric word := by
  generalize phrase : Phrase.parameters = listed at derived
  induction derived with
  | oneParameter named _ =>
    obtain ⟨word, value, alphanumeric⟩ := (List.forall_mem_cons.mp spelled).1 named
    exact fun name member => ⟨word, by rw [List.mem_singleton.mp member, value], alphanumeric⟩
  | moreParameters _ _ named _ ih =>
    simp only [List.forall_mem_cons, List.forall_mem_append] at spelled
    obtain ⟨before, _, declared, _⟩ := spelled
    obtain ⟨word, value, alphanumeric⟩ := declared named
    refine List.forall_mem_append.mpr ⟨ih before phrase, ?_⟩
    exact fun name member => ⟨word, by rw [List.mem_singleton.mp member, value], alphanumeric⟩
  | _ => cases phrase

/-- The names that a program read from a text declares are alphanumeric. -/
theorem Derives.namesAlphanumeric {phrase : Phrase} {row : List Token} {tree : Tree} (derived : Derives phrase row tree)
    (spelled : ∀ token ∈ row, token.Spelled) : tree.NamesAlphanumeric := by
  induction derived with
  | conditional _ _ _ _ _ _ testIH yesIH noIH =>
    simp only [List.forall_mem_cons, List.forall_mem_append] at spelled
    obtain ⟨_, tested, _, accepted, _, rejected⟩ := spelled
    exact .of_children rfl (by simp [Tree.children, testIH tested, yesIH accepted, noIH rejected])
  | loop _ _ _ _ testIH bodyIH =>
    simp only [List.forall_mem_cons, List.forall_mem_append] at spelled
    obtain ⟨_, tested, _, repeated⟩ := spelled
    exact .of_children rfl (by simp [Tree.children, testIH tested, bodyIH repeated])
  | scope _ _ _ _ declaredIH bodyIH =>
    simp only [List.forall_mem_cons, List.forall_mem_append] at spelled
    obtain ⟨_, declares, _, inner⟩ := spelled
    exact .of_children rfl (by simp [Tree.children, declaredIH declares, bodyIH inner])
  | compound _ _ _ ih =>
    simp only [List.forall_mem_cons, List.forall_mem_append] at spelled
    exact ih spelled.2.1
  | lastSingle _ ih => exact ih spelled
  | sequence _ _ _ firstIH secondIH =>
    obtain ⟨begins, more⟩ := List.forall_mem_append.mp spelled
    exact .of_children rfl (by simp [Tree.children, firstIH begins, secondIH more])
  | singleBlock _ ih => exact ih spelled
  | singleSimple _ _ _ ih => exact ih (List.forall_mem_append.mp spelled).1
  | assignment _ _ ih =>
    simp only [List.forall_mem_cons] at spelled
    exact .of_children rfl (by simp [Tree.children, ih spelled.2.2])
  | callCommand _ _ _ _ ih =>
    simp only [List.forall_mem_cons, List.forall_mem_append] at spelled
    exact .of_children rfl (by simp [Tree.children, ih spelled.2.2.1])
  | returning _ _ _ ih =>
    simp only [List.forall_mem_cons] at spelled
    exact .of_children rfl (by simp [Tree.children, ih spelled.2])
  | noDeclaration => rfl
  | varDeclaration _ named _ _ _ ih =>
    simp only [List.forall_mem_cons] at spelled
    obtain ⟨_, declared, _, _, _, more⟩ := spelled
    obtain ⟨word, value, alphanumeric⟩ := declared named
    rw [value]
    exact .of_children rfl (by
      simp [Tree.children, Tree.namesAlphanumeric_iff (.varDecl _ _), Tree.ownNames, alphanumeric, ih more])
  | constDeclaration _ named _ _ _ _ valueIH restIH =>
    simp only [List.forall_mem_cons, List.forall_mem_append] at spelled
    obtain ⟨_, declared, _, valued, _, more⟩ := spelled
    obtain ⟨word, value, alphanumeric⟩ := declared named
    rw [value]
    exact .of_children rfl (by
      simp [Tree.children, Tree.namesAlphanumeric_iff (.constDecl _ _), Tree.ownNames, alphanumeric, valueIH valued, restIH more])
  | funcDeclaration _ _ _ listed _ _ _ _ listIH bodyIH restIH =>
    simp only [List.forall_mem_cons, List.forall_mem_append] at spelled
    obtain ⟨_, _, _, parameters, _, _, _, inner, more⟩ := spelled
    refine .of_children rfl ?_
    have own := listed.parameters_alphanumeric parameters
    simp only [Tree.children, List.forall_mem_cons, Tree.namesAlphanumeric_iff (.funcDecl _ _ _ _)]
    refine ⟨⟨?_, by simp [listIH parameters, bodyIH inner]⟩, restIH more, List.forall_mem_nil _⟩
    intro name member
    obtain ⟨parameter, among, text⟩ := List.mem_filterMap.mp member
    obtain ⟨word, written, alphanumeric⟩ := own parameter among
    rw [written] at text
    cases text
    exact alphanumeric
  | oneParameter _ _ => exact .of_children rfl (by simp [Tree.children])
  | moreParameters _ _ _ _ ih =>
    simp only [List.forall_mem_append] at spelled
    exact .of_children rfl (by
      simp [Tree.children, Tree.namesAlphanumeric_iff (.parameter _ _), Tree.ownNames, ih spelled.1])
  | oneArgument _ ih => exact .of_children rfl (by simp [Tree.children, ih spelled])
  | moreArguments _ _ _ listIH lastIH =>
    simp only [List.forall_mem_cons, List.forall_mem_append] at spelled
    exact .of_children rfl (by
      simp [Tree.children, Tree.namesAlphanumeric_iff (.parameter _ _), Tree.ownNames, listIH spelled.1, lastIH spelled.2.2])
  | call _ _ _ _ ih =>
    simp only [List.forall_mem_cons, List.forall_mem_append] at spelled
    exact .of_children rfl (by simp [Tree.children, ih spelled.2.2.1])
  | value _ _ ih => exact ih spelled
  | oneTerm _ ih => exact ih spelled
  | add _ _ _ leftIH rightIH =>
    simp only [List.forall_mem_cons, List.forall_mem_append] at spelled
    exact .of_children rfl (by simp [Tree.children, leftIH spelled.1, rightIH spelled.2.2])
  | oneFactor _ ih => exact ih spelled
  | multiply _ _ _ leftIH rightIH =>
    simp only [List.forall_mem_cons, List.forall_mem_append] at spelled
    exact .of_children rfl (by simp [Tree.children, leftIH spelled.1, rightIH spelled.2.2])
  | integer _ => rfl
  | reference _ => rfl
  | unary _ _ ih =>
    simp only [List.forall_mem_cons] at spelled
    exact .of_children rfl (by simp [Tree.children, ih spelled.2])
  | parenthesis _ _ _ ih =>
    simp only [List.forall_mem_cons, List.forall_mem_append] at spelled
    exact ih spelled.2.1

theorem namesAlphanumeric_of_read {text : String} {command : Tree} (read : readProgram? text = some (.program command)) :
    command.NamesAlphanumeric := by
  obtain ⟨_, row, ⟨⟩, derived, scanned⟩ := derives_of_read read
  apply derived.namesAlphanumeric
  intro token member named
  rcases scanned token member with ends | ⟨lexeme, spelled⟩
  · cases named.symm.trans ends
  · obtain ⟨⟨first, others, wordIs, letter, rest⟩, value⟩ := spelled.identifier_word named
    refine ⟨_, value, ?_⟩
    rw [Alphanumeric, String.toList_ofList, wordIs, List.forall_mem_cons]
    exact ⟨by simp [isAlphanumeric, letter], rest⟩

end MiniTriangle
