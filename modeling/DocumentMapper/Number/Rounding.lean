/-!
# Rounding quotients of natural numbers

`roundHalfEven num den` is the whole number nearest to `num / den`; a half goes to the even
neighbour. `digitCount n` is the number of decimal digits of `n`, with one digit for zero.
Both are exact: no floating point takes part.
-/

namespace DocumentMapper.Number

/-- The whole number nearest to `num / den`. Exactly half way, the even neighbour wins. -/
def roundHalfEven (num den : Nat) : Nat :=
  let q := num / den
  let r := num % den
  if 2 * r < den then q
  else if den < 2 * r then q + 1
  else if q % 2 = 0 then q
  else q + 1

/-- The rounded quotient is the floor or its successor. -/
theorem roundHalfEven_le (num den : Nat) : roundHalfEven num den ≤ num / den + 1 := by
  unfold roundHalfEven
  dsimp only
  split
  · omega
  · split
    · omega
    · split <;> omega

/-- The rounded quotient is at least the floor. -/
theorem le_roundHalfEven (num den : Nat) : num / den ≤ roundHalfEven num den := by
  unfold roundHalfEven
  dsimp only
  split
  · omega
  · split
    · omega
    · split <;> omega

/-- How many decimal digits `n` has. Zero has one. -/
def digitCount (n : Nat) : Nat :=
  (Nat.toDigits 10 n).length

end DocumentMapper.Number
