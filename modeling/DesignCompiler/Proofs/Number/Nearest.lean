import DesignCompiler.Proofs.Number.Shortest
import Mathlib.Data.Nat.Dist

/-!
# `DesignCompiler.Proofs.Number.Nearest`: rounding goes to the nearest number

Rounding a quotient to a whole number moves it by at most one half, so no whole number is nearer
(`dist_roundHalfEven_le`). The same holds of rounding to double precision, compared with all numbers
of 53 binary digits (`dist_nearestUnits_le`): those with finer digits than the result are below the
power of two under the quotient, and that power is nearer than they are.

So rounding never turns two numbers of parts around (`nearestUnits_mono_left`). To a whole number a
quotient is rounded by what `IsHalfEven` says alone, which anything nearer to that number has in
common with it.
-/

set_option autoImplicit false

namespace DesignCompiler

/-- A whole number that a quotient is rounded to: less than one half away, or in a tie and even. It
describes the result without the quotient and the remainder. -/
def IsHalfEven (k num den : Nat) : Prop :=
  2 * (k * den).dist num < den ∨ (2 * (k * den).dist num = den ∧ k % 2 = 0)

/-- Rounding goes to such a number. -/
theorem isHalfEven_roundHalfEven (num : Nat) {den : Nat} (hden : 0 < den) :
    IsHalfEven (roundHalfEven num den) num den := by
  have hnum : num / den * den + num % den = num := Nat.div_add_mod' num den
  have hrem : num % den < den := Nat.mod_lt num hden
  have hup : (num / den + 1) * den = num / den * den + den := Nat.succ_mul _ _
  unfold roundHalfEven
  dsimp only
  generalize num / den = below at hnum hup ⊢
  generalize num % den = rest at hnum hrem ⊢
  unfold IsHalfEven Nat.dist
  -- Below one half, above it, and the two ties.
  split
  · omega
  · split
    · omega
    · split <;> omega

/-- A quotient is rounded to one whole number only, so the description is complete. -/
theorem IsHalfEven.eq {j k num den : Nat} (hden : 0 < den) (hj : IsHalfEven j num den)
    (hk : IsHalfEven k num den) : j = k := by
  -- Two numbers are `den` apart or more, so both would be in a tie, and one of them odd.
  have hlt : ∀ {m n : Nat}, IsHalfEven m num den → IsHalfEven n num den → ¬ m < n := by
    intro m n hm hn hlt
    obtain ⟨step, rfl⟩ := Nat.exists_eq_add_of_lt hlt
    have hapart : (m + step + 1) * den = m * den + step * den + den := by
      rw [Nat.succ_mul, Nat.add_mul]
    unfold IsHalfEven Nat.dist at hm hn
    rw [hapart] at hn
    rcases Nat.eq_zero_or_pos step with rfl | hpos
    · rw [Nat.zero_mul] at hn
      omega
    · have hstep := Nat.le_mul_of_pos_left den hpos
      omega
  exact Nat.le_antisymm (Nat.not_lt.mp (hlt hk hj)) (Nat.not_lt.mp (hlt hj hk))

/-- The number that a quotient is rounded to is the one that is described. -/
theorem roundHalfEven_eq_iff {k num den : Nat} (hden : 0 < den) :
    roundHalfEven num den = k ↔ IsHalfEven k num den := by
  constructor
  · rintro rfl
    exact isHalfEven_roundHalfEven num hden
  · exact fun h => (isHalfEven_roundHalfEven num hden).eq hden h

/-- What is nearer to a whole number than something that is rounded to it is rounded to it too. It
is why rounding a second time does no harm. -/
theorem IsHalfEven.of_nearer {k num num' den : Nat} (h : IsHalfEven k num den)
    (hnear : (k * den).dist num' ≤ (k * den).dist num) : IsHalfEven k num' den := by
  unfold IsHalfEven at *
  omega

/-- Rounding to a whole number moves a quotient by at most one half. -/
theorem two_mul_dist_roundHalfEven_le (num : Nat) {den : Nat} (hden : 0 < den) :
    2 * (roundHalfEven num den * den).dist num ≤ den := by
  rcases isHalfEven_roundHalfEven num hden with hlt | ⟨htie, -⟩
  · exact Nat.le_of_lt hlt
  · exact Nat.le_of_eq htie

/-- No whole number is nearer to a quotient than the one that it is rounded to. -/
theorem dist_roundHalfEven_le (num : Nat) {den : Nat} (hden : 0 < den) (k : Nat) :
    (roundHalfEven num den * den).dist num ≤ (k * den).dist num := by
  have hhalf := two_mul_dist_roundHalfEven_le num hden
  generalize roundHalfEven num den = rounded at *
  -- Another whole number is at least one away from the rounded one.
  have hside : k = rounded ∨ k * den + den ≤ rounded * den ∨ rounded * den + den ≤ k * den := by
    rcases Nat.lt_trichotomy k rounded with hlt | heq | hgt
    · right; left
      have hle := Nat.mul_le_mul_right den (Nat.succ_le_of_lt hlt)
      rwa [Nat.succ_mul] at hle
    · exact .inl heq
    · right; right
      have hle := Nat.mul_le_mul_right den (Nat.succ_le_of_lt hgt)
      rwa [Nat.succ_mul] at hle
  rcases hside with rfl | hside
  · exact Nat.le_refl _
  · unfold Nat.dist at *
    omega

/-- Where digits are dropped, the quotient has as many digits left as a double has. -/
theorem two_pow_mul_le_of_dropped {num den dropped : Nat} (hd : (num / den).log2 - 52 = dropped)
    (hpos : 0 < dropped) : 2 ^ (52 : Nat) * (den * 2 ^ dropped) ≤ num := by
  have hne : num / den ≠ 0 := by
    intro hzero
    rw [hzero, Nat.log2_zero, Nat.zero_sub] at hd
    omega
  calc 2 ^ (52 : Nat) * (den * 2 ^ dropped)
      = 2 ^ (52 + dropped) * den := by rw [Nat.mul_comm den, ← Nat.mul_assoc, ← Nat.pow_add]
    _ = 2 ^ (num / den).log2 * den := by rw [show 52 + dropped = (num / den).log2 by omega]
    _ ≤ num / den * den := Nat.mul_le_mul_right den (Nat.log2_self_le hne)
    _ ≤ num := Nat.div_mul_le_self num den

/-- No number of 53 binary digits is nearer to a quotient than the one that it is rounded to. The
size of the numbers is left aside, so it holds beyond the largest double as well. -/
theorem dist_nearestUnits_le (num : Nat) {den : Nat} (hden : 0 < den) {factor : Nat}
    (hfactor : factor < 2 ^ (53 : Nat)) (exponent : Nat) :
    (nearestUnits num den * den).dist num ≤ (factor * 2 ^ exponent * den).dist num := by
  unfold nearestUnits
  dsimp only
  generalize hd : (num / den).log2 - 52 = dropped
  have hlast : 0 < den * 2 ^ dropped := Nat.mul_pos hden (Nat.two_pow_pos dropped)
  have hunits : ∀ kept : Nat, kept * 2 ^ dropped * den = kept * (den * 2 ^ dropped) := by
    intro kept
    rw [Nat.mul_assoc, Nat.mul_comm (2 ^ dropped)]
  rw [hunits]
  rcases Nat.lt_or_ge exponent dropped with hfine | hcoarse
  · -- The power of two under the quotient is a whole number of last digits, and in between.
    have hpower := two_pow_mul_le_of_dropped hd (Nat.zero_lt_of_lt hfine)
    have hbelow : factor * 2 ^ exponent ≤ 2 ^ (52 : Nat) * 2 ^ dropped := by
      calc factor * 2 ^ exponent
          ≤ 2 ^ (53 : Nat) * 2 ^ exponent := Nat.mul_le_mul_right _ (Nat.le_of_lt hfactor)
        _ = 2 ^ (53 + exponent) := (Nat.pow_add 2 53 exponent).symm
        _ ≤ 2 ^ (52 + dropped) := Nat.pow_le_pow_right (by decide) (by omega)
        _ = 2 ^ (52 : Nat) * 2 ^ dropped := Nat.pow_add 2 52 dropped
    have hlower : factor * 2 ^ exponent * den ≤ 2 ^ (52 : Nat) * (den * 2 ^ dropped) := by
      rw [← hunits]
      exact Nat.mul_le_mul_right den hbelow
    refine Nat.le_trans (dist_roundHalfEven_le num hlast (2 ^ (52 : Nat))) ?_
    unfold Nat.dist
    omega
  · -- The number is a whole number of last digits itself.
    have hsplit : factor * 2 ^ exponent = factor * 2 ^ (exponent - dropped) * 2 ^ dropped := by
      rw [Nat.mul_assoc, Nat.pow_sub_mul_pow 2 hcoarse]
    rw [hsplit, hunits]
    exact dist_roundHalfEven_le num hlast _

/-- A larger number of parts is not rounded to a smaller number. It follows from the distances
alone, without a look at which digits are dropped. -/
theorem nearestUnits_mono_left {num more den : Nat} (hden : 0 < den) (h : num ≤ more) :
    nearestUnits num den ≤ nearestUnits more den := by
  obtain ⟨factor, exponent, hfactor, hunits⟩ := exists_factor_nearestUnits num den
  obtain ⟨factor', exponent', hfactor', hunits'⟩ := exists_factor_nearestUnits more den
  have hnear := dist_nearestUnits_le num hden hfactor' exponent'
  have hnear' := dist_nearestUnits_le more hden hfactor exponent
  rw [← hunits'] at hnear
  rw [← hunits] at hnear'
  by_contra hlt
  have hparts := Nat.mul_lt_mul_of_pos_right (Nat.not_le.mp hlt) hden
  -- Both numbers of parts would have to be in the middle between the results, hence equal.
  have hequal : num = more := by
    unfold Nat.dist at hnear hnear'
    omega
  exact hlt (Nat.le_of_eq (by rw [hequal]))

/-- The largest double is more than one below the limit. Adding one half or rounding to hundredths
can therefore not overflow. -/
theorem add_unitsPerOne_lt {units : Nat} (h : IsRepresentable units) :
    units + unitsPerOne < unitsLimit := by
  -- The last digit of the largest double is worth `2 ^ (half + 1)` units.
  obtain ⟨half, hone, hlimit⟩ : ∃ half, unitsPerOne < 2 ^ (half + 1)
      ∧ unitsLimit = 2 ^ (53 : Nat) * 2 ^ (half + 1) := by
    refine ⟨2044, ?_, ?_⟩
    · unfold unitsPerOne
      apply Nat.pow_lt_pow_right <;> decide
    · rw [unitsLimit, ← Nat.pow_add]
  obtain ⟨hlt, factor, exponent, hfactor, rfl⟩ := h
  rw [hlimit] at hlt ⊢
  rcases Nat.lt_or_ge half exponent with hcoarse | hfine
  · have hsplit : factor * 2 ^ exponent
        = factor * 2 ^ (exponent - (half + 1)) * 2 ^ (half + 1) := by
      rw [Nat.mul_assoc, Nat.pow_sub_mul_pow 2 hcoarse]
    rw [hsplit] at hlt ⊢
    generalize factor * 2 ^ (exponent - (half + 1)) = kept at hlt ⊢
    have hkept : (kept + 1) * 2 ^ (half + 1) ≤ 2 ^ (53 : Nat) * 2 ^ (half + 1) :=
      Nat.mul_le_mul_right _ (Nat.lt_of_mul_lt_mul_right hlt)
    rw [Nat.succ_mul] at hkept
    omega
  · -- With finer digits than the largest double has, the number is below half the limit.
    have hsmall : factor * 2 ^ exponent ≤ 2 ^ (53 : Nat) * 2 ^ half :=
      Nat.mul_le_mul (Nat.le_of_lt hfactor) (Nat.pow_le_pow_right (by decide) hfine)
    have hdouble : 2 ^ (half + 1) = 2 ^ half * 2 := Nat.pow_succ 2 half
    rw [hdouble] at hone ⊢
    generalize 2 ^ half = digit at *
    omega

end DesignCompiler
