import MiniTriangle.Code.Scope

/-! Names with numbers at their ends. A name that does not itself end with a digit can be told apart from the
number written after it, so such a slot ends with no greater number than its own. -/

namespace MiniTriangle

def Undigited (name : String) : Prop := ∀ c ∈ name.toList.getLast?, c.isDigit = false

instance : DecidablePred Undigited := fun name =>
  decidable_of_iff (name.toList.getLast?.all (! ·.isDigit) = true) (by simp [Undigited, Option.all_eq_true])

def numbered (name : String) (count : Nat) : String := name ++ Text.decimal count

theorem toList_decimal (count : Nat) : (Text.decimal count).toList = Nat.toDigits 10 count := by
  show (String.ofList (Nat.toDigits 10 count)).toList = _
  rw [String.toList_ofList]

theorem toList_numbered (name : String) (count : Nat) :
    (numbered name count).toList = name.toList ++ Nat.toDigits 10 count := by
  rw [numbered, String.toList_append, toList_decimal]

private theorem isDigit_of_mem {c : Char} {count : Nat} (member : c ∈ Nat.toDigits 10 count) : c.isDigit = true :=
  Nat.isDigit_of_mem_toDigits (by decide) (by decide) member

private theorem le_of_suffix {inner outer : Nat} (ends : Nat.toDigits 10 inner <:+ Nat.toDigits 10 outer) : inner ≤ outer := by
  obtain ⟨before, whole⟩ := ends
  have value := congrArg (fun digits => Nat.ofDigitChars 10 digits 0) whole
  simp only [Nat.ofDigitChars_append, Nat.ofDigitChars_ten_toDigits] at value
  rw [Nat.ofDigitChars_eq_ofDigitChars_zero, Nat.ofDigitChars_ten_toDigits] at value
  omega

private theorem toDigits_inj {count more : Nat} (same : Nat.toDigits 10 count = Nat.toDigits 10 more) : count = more :=
  Nat.le_antisymm (le_of_suffix (same ▸ List.suffix_refl _)) (le_of_suffix (same ▸ List.suffix_refl _))

theorem decimal_injective : Function.Injective Text.decimal := by
  -- The figures of a natural number do not start with a sign.
  have unsigned (count more : Nat) : Nat.toDigits 10 count ≠ '-' :: Nat.toDigits 10 more := by
    intro same
    have sign : '-' ∈ Nat.toDigits 10 count := same ▸ List.mem_cons_self
    exact absurd (isDigit_of_mem sign) (by decide)
  intro count more same
  have figures := congrArg String.toList same
  cases count with
  | ofNat count =>
    cases more with
    | ofNat more =>
      simp only [Text.decimal, String.toList_ofList] at figures
      rw [toDigits_inj figures]
    | negSucc more =>
      simp only [Text.decimal, String.toList_append, String.toList_ofList] at figures
      exact absurd figures (unsigned count (more + 1))
  | negSucc count =>
    cases more with
    | ofNat more =>
      simp only [Text.decimal, String.toList_append, String.toList_ofList] at figures
      exact absurd figures.symm (unsigned more (count + 1))
    | negSucc more =>
      simp only [Text.decimal, String.toList_append, String.toList_ofList] at figures
      rw [Nat.succ.inj (toDigits_inj (List.append_cancel_left figures))]

/-- A number at the end of a numbered name is no greater than the number of the name. -/
theorem le_of_numbered_ends {name : String} (undigited : Undigited name) {count inner : Nat}
    (ends : Nat.toDigits 10 inner <:+ (numbered name count).toList) : inner ≤ count := by
  rw [toList_numbered] at ends
  obtain ⟨before, whole⟩ := ends
  rcases List.append_eq_append_iff.mp whole with ⟨part, nameIs, digitsAre⟩ | ⟨part, _, digitsAre⟩
  · -- A digit before the number would be the end of the name.
    cases last : part.getLast? with
    | none =>
      have empty : part = [] := List.getLast?_eq_none_iff.mp last
      rw [empty, List.nil_append] at digitsAre
      exact le_of_suffix (digitsAre ▸ List.suffix_refl _)
    | some c =>
      have atEnd : c ∈ name.toList.getLast? := by
        rw [nameIs, List.getLast?_append, last]
        rfl
      have member : c ∈ Nat.toDigits 10 inner := by
        rw [digitsAre]
        exact List.mem_append_left _ (List.mem_of_getLast? last)
      have digit := isDigit_of_mem member
      rw [undigited c atEnd] at digit
      cases digit
  · exact le_of_suffix ⟨part, digitsAre.symm⟩

theorem not_ends_of_undigited {name : String} (undigited : Undigited name) (count : Nat) :
    ¬ Nat.toDigits 10 count <:+ name.toList := by
  intro ends
  obtain ⟨before, whole⟩ := ends
  have nonempty : Nat.toDigits 10 count ≠ [] := Nat.toDigits_ne_nil
  obtain ⟨c, last⟩ := Option.ne_none_iff_exists'.mp (fun none => nonempty (List.getLast?_eq_none_iff.mp none))
  have atEnd : c ∈ name.toList.getLast? := by
    rw [← whole, List.getLast?_append, last]
    rfl
  have digit := isDigit_of_mem (List.mem_of_getLast? last)
  rw [undigited c atEnd] at digit
  cases digit

theorem numbered_ne {name other : String} (undigited : Undigited other) (count : Nat) : numbered name count ≠ other := by
  intro same
  apply not_ends_of_undigited undigited count
  rw [← same, toList_numbered]
  exact List.suffix_append _ _

theorem numbered_count {name other : String} (first : Undigited name) (second : Undigited other) {count more : Nat}
    (same : numbered name count = numbered other more) : count = more := by
  apply Nat.le_antisymm
  · apply le_of_numbered_ends second
    rw [← same, toList_numbered]
    exact List.suffix_append _ _
  · apply le_of_numbered_ends first
    rw [same, toList_numbered]
    exact List.suffix_append _ _

theorem endsWith_iff (slot ending : String) :
    (Tree.text slot).endsWith? ending = some true ↔ ending.toList <:+ slot.toList := by
  simp [Tree.endsWith?, List.isSuffixOf_iff_suffix]

theorem endsWith_eq_false {slot ending : String} (apart : ¬ ending.toList <:+ slot.toList) :
    (Tree.text slot).endsWith? ending = some false := by
  simp only [Tree.endsWith?, Option.some.injEq]
  apply Bool.eq_false_iff.mpr
  intro ends
  exact apart (List.isSuffixOf_iff_suffix.mp ends)

end MiniTriangle
