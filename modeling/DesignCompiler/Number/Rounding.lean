/-!
# `DesignCompiler.Number.Rounding`: a quotient rounded to a whole number

`roundHalfEven num den` is the whole number nearest to `num / den`; of two equally near ones it is
the even one. All rounding of the library, binary and decimal, is this function at some scale.
-/

set_option autoImplicit false

namespace DesignCompiler

/-- The whole number nearest to `num / den`, a half going to the even neighbour. Twice the remainder
is compared with the divisor, so no fraction is needed. -/
def roundHalfEven (num den : Nat) : Nat :=
  let floor := num / den
  let twice := 2 * (num % den)
  if twice < den then floor
  else if den < twice then floor + 1
  else if floor % 2 = 0 then floor
  else floor + 1

/-- Rounding goes to one of the two whole numbers around the quotient. Bounds on a rounded number
follow from this without another look at the cases. -/
theorem roundHalfEven_eq_or (num den : Nat) :
    roundHalfEven num den = num / den ∨ roundHalfEven num den = num / den + 1 := by
  unfold roundHalfEven
  dsimp only
  split
  · exact .inl rfl
  · split
    · exact .inr rfl
    · split
      · exact .inl rfl
      · exact .inr rfl

/-- A whole quotient is left alone. -/
theorem roundHalfEven_mul (n : Nat) {den : Nat} (h : 0 < den) :
    roundHalfEven (n * den) den = n := by
  simp [roundHalfEven, Nat.mul_div_cancel _ h, h]

end DesignCompiler
