import MiniTriangle.Alphabet.Alphanumeric
import MiniTriangle.Alphabet.Space

/-! The classes of characters that scanning tells apart do not overlap, so the order in which it asks for
them does not matter. The classes are tables of ranges, and two tables are compared by walking both. -/

namespace MiniTriangle.Alphabet

/-- Walks two tables at once, dropping the lower of the two first ranges; stops at ranges that meet, or
after the given number of steps. -/
def Ranges.apart : Nat → Ranges → Ranges → Bool
  | _, [], _ => true
  | _, _, [] => true
  | 0, _, _ => false
  | steps + 1, (low, high) :: left, (otherLow, otherHigh) :: right =>
    if high < otherLow then Ranges.apart steps left ((otherLow, otherHigh) :: right)
    else if otherHigh < low then Ranges.apart steps ((low, high) :: left) right
    else false

theorem Ranges.le_of_has {low high code : Nat} {rest : Ranges}
    (inside : Ranges.has ((low, high) :: rest) code = true) : low ≤ code := by
  simp only [Ranges.has] at inside
  split at inside
  next => cases inside
  next above => omega

/-- The search in a table stops at the first range beyond the character. This is why dropping the lower
range is sound even where a table is not ascending. -/
theorem Ranges.not_has_of_apart (steps : Nat) {left right : Ranges} {code : Nat} (inside : left.has code = true)
    (separate : Ranges.apart steps left right = true) : right.has code = false := by
  fun_induction Ranges.apart steps left right with
  | case1 => cases inside
  | case2 => rfl
  | case3 => cases separate
  | case4 steps low high left otherLow otherHigh right below ih =>
    by_cases within : code ≤ high
    · simp only [Ranges.has]
      rw [if_pos (by omega)]
    · have above := Ranges.le_of_has inside
      refine ih ?_ separate
      simpa [Ranges.has, within, Nat.not_lt.mpr above] using inside
  | case5 steps low high left otherLow otherHigh right _ above ih =>
    have beyond := Ranges.le_of_has inside
    simp only [Ranges.has]
    split
    next => rfl
    next =>
      rw [if_neg (by omega)]
      exact ih inside separate
  | case6 => cases separate

def decimalRanges : Ranges := decimalZeros.map fun start => (start, start + 9)

private theorem has_of_valueAfter {starts : List Nat} {code : Nat}
    (found : (valueAfter? code starts).isSome = true) :
    Ranges.has (starts.map fun start => (start, start + 9)) code = true := by
  induction starts with
  | nil => cases found
  | cons start rest ih =>
    simp only [valueAfter?] at found
    simp only [List.map_cons, Ranges.has]
    split at found
    next => cases found
    next above =>
      simp only [above, ↓reduceIte]
      split at found
      next below => simp [below]
      next beyond => simpa [beyond] using ih found

theorem has_of_isDigit {c : Char} (digit : isDigit c = true) :
    decimalRanges.has c.toNat = true ∨ otherDigitRanges.has c.toNat = true := by
  simp only [isDigit, isDecimal, decimalValue?, Bool.or_eq_true] at digit
  exact digit.imp_left has_of_valueAfter

theorem not_space_of_isDigit {c : Char} (digit : isDigit c = true) : isSpace c = false := by
  rcases has_of_isDigit digit with decimal | other
  · exact Ranges.not_has_of_apart 100 decimal (by decide +kernel)
  · exact Ranges.not_has_of_apart 100 other (by decide +kernel)

theorem not_space_of_isLetter {c : Char} (letter : isLetter c = true) : isSpace c = false :=
  Ranges.not_has_of_apart 700 letter (by decide +kernel)

theorem not_letter_of_isDigit {c : Char} (digit : isDigit c = true) : isLetter c = false := by
  rcases has_of_isDigit digit with decimal | other
  · exact Ranges.not_has_of_apart 800 decimal (by decide +kernel)
  · exact Ranges.not_has_of_apart 800 other (by decide +kernel)

theorem not_digit_of_isLetter {c : Char} (letter : isLetter c = true) : isDigit c = false := by
  apply Bool.eq_false_iff.mpr
  intro digit
  simp [not_letter_of_isDigit digit] at letter

theorem not_space_of_isAlphanumeric {c : Char} (continues : isAlphanumeric c = true) : isSpace c = false := by
  simp only [isAlphanumeric, Bool.or_eq_true] at continues
  rcases continues with (letter | digit) | numeral
  · exact not_space_of_isLetter letter
  · exact not_space_of_isDigit digit
  · exact Ranges.not_has_of_apart 100 numeral (by decide +kernel)

end MiniTriangle.Alphabet
