import DesignCompiler.Number.Shortest
import DesignCompiler.Proofs.Text.Digit

/-!
# `DesignCompiler.Proofs.Number.Shortest`: written decimals read back

`Shortest.digits` gives a decimal whose number of units is the one that is written (`units_digits`).
Two things lie between that and reading the text. The same decimal can be given with zeros moved
between its digits and its exponent (`Scaled.units_shift`), and the reader settles exponents far
outside the range of doubles first, which never happens to a decimal of a positive double
(`Binary64.ofDecimal_eq_finite`).
-/

set_option autoImplicit false

namespace DesignCompiler

/-! ### Quotients that are scaled -/

/-- Rounding looks at the quotient only, and not at the numbers it is given by. -/
theorem roundHalfEven_scale (num den : Nat) {factor : Nat} (h : 0 < factor) :
    roundHalfEven (num * factor) (den * factor) = roundHalfEven num den := by
  have hquot : num * factor / (den * factor) = num / den := Nat.mul_div_mul_right num den h
  have hrem : num * factor % (den * factor) = num % den * factor :=
    Nat.mul_mod_mul_right factor num den
  have hlt : 2 * (num % den * factor) < den * factor ↔ 2 * (num % den) < den := by
    rw [← Nat.mul_assoc, Nat.mul_lt_mul_right h]
  have hgt : den * factor < 2 * (num % den * factor) ↔ den < 2 * (num % den) := by
    rw [← Nat.mul_assoc, Nat.mul_lt_mul_right h]
  simp only [roundHalfEven, hquot, hrem, hlt, hgt]

/-- So does rounding to double precision. -/
theorem nearestUnits_scale (num den : Nat) {factor : Nat} (h : 0 < factor) :
    nearestUnits (num * factor) (den * factor) = nearestUnits num den := by
  simp only [nearestUnits, Nat.mul_div_mul_right num den h, Nat.mul_right_comm den factor,
    roundHalfEven_scale num _ h]

/-- Rounding does not go below a power of two, since a power of two is a double. -/
theorem two_pow_le_nearestUnits {num den k : Nat} (h : 2 ^ k ≤ num / den) :
    2 ^ k ≤ nearestUnits num den := by
  unfold nearestUnits
  generalize hd : (num / den).log2 - 52 = dropped
  -- The digits that are dropped leave the power as it is, or leave a greater one.
  have hne : num / den ≠ 0 := Nat.ne_of_gt (Nat.lt_of_lt_of_le (Nat.two_pow_pos k) h)
  have hlog := Nat.log2_self_le hne
  have hdropped : 2 ^ dropped ≤ num / den :=
    Nat.le_trans (Nat.pow_le_pow_right (by decide) (by omega)) hlog
  have hmax : 2 ^ max k dropped ≤ num / den := by
    rcases Nat.le_total k dropped with hle | hle
    · rwa [Nat.max_eq_right hle]
    · rwa [Nat.max_eq_left hle]
  have hsplit : 2 ^ max k dropped = 2 ^ (max k dropped - dropped) * 2 ^ dropped := by
    rw [← Nat.pow_add, Nat.sub_add_cancel (Nat.le_max_right k dropped)]
  have hkept : 2 ^ (max k dropped - dropped) ≤ num / (den * 2 ^ dropped) := by
    rw [← Nat.div_div_eq_div_mul, Nat.le_div_iff_mul_le (Nat.two_pow_pos dropped), ← hsplit]
    exact hmax
  have hround : num / (den * 2 ^ dropped) ≤ roundHalfEven num (den * 2 ^ dropped) := by
    rcases roundHalfEven_eq_or num (den * 2 ^ dropped) with heq | heq <;> omega
  calc 2 ^ k
      ≤ 2 ^ max k dropped := Nat.pow_le_pow_right (by decide) (Nat.le_max_left k dropped)
    _ = 2 ^ (max k dropped - dropped) * 2 ^ dropped := hsplit
    _ ≤ roundHalfEven num (den * 2 ^ dropped) * 2 ^ dropped :=
      Nat.mul_le_mul_right _ (Nat.le_trans hkept hround)

/-- Less than half a unit is no unit. -/
theorem nearestUnits_eq_zero {num den : Nat} (h : 2 * num < den) : nearestUnits num den = 0 := by
  have hquot : num / den = 0 := Nat.div_eq_of_lt (by omega)
  have hrem : num % den = num := Nat.mod_eq_of_lt (by omega)
  simp [nearestUnits, roundHalfEven, hquot, hrem, h]

/-! ### Decimals -/

namespace Shortest.Scaled

/-- Zeros behind the digits count as much as the exponent says. A decimal may be given with any
number of them, and reads as the same. -/
theorem units_shift (digits count : Nat) (exponent : Int) :
    (Scaled.mk (digits * 10 ^ count) exponent).units
      = (Scaled.mk digits (exponent + count)).units := by
  simp only [units]
  by_cases hexponent : 0 ≤ exponent
  · have hsum : (exponent + count).toNat = count + exponent.toNat := by omega
    rw [if_pos hexponent, if_pos (by omega), hsum, Nat.pow_add, Nat.mul_assoc digits]
  · rw [if_neg hexponent]
    by_cases hsum : 0 ≤ exponent + count
    · -- Some of the zeros are used up by the exponent.
      have hcount : count = (exponent + count).toNat + (-exponent).toNat := by omega
      have hscale := nearestUnits_scale (digits * 10 ^ (exponent + count).toNat * unitsPerOne) 1
        (Nat.pow_pos (n := (-exponent).toNat) (show 0 < 10 by decide))
      have hpow : 10 ^ count = 10 ^ (exponent + count).toNat * 10 ^ (-exponent).toNat := by
        rw [← Nat.pow_add, ← hcount]
      rw [if_pos hsum, ← hscale, hpow, Nat.one_mul, ← Nat.mul_assoc digits, Nat.mul_right_comm]
    · have hplaces : (-exponent).toNat = (-(exponent + count)).toNat + count := by omega
      have hscale := nearestUnits_scale (digits * unitsPerOne) (10 ^ (-(exponent + count)).toNat)
        (Nat.pow_pos (n := count) (show 0 < 10 by decide))
      rw [if_neg hsum, ← hscale, hplaces, Nat.pow_add, Nat.mul_right_comm]

/-- Without digits there are no units, whatever the exponent. -/
theorem units_of_digits_eq_zero {d : Scaled} (h : d.digits = 0) : d.units = 0 := by
  rw [units, h, Nat.zero_mul, Nat.zero_mul, nearestUnits_eq_zero (by decide),
    nearestUnits_eq_zero (Nat.pow_pos (by decide)), ite_self]

end Shortest.Scaled

namespace Binary64

open Shortest

/-- A quotient that is rounded to a double's units is that double. -/
theorem ofUnits_eq_finite {num den units : Nat} (h : IsRepresentable units)
    (hunits : nearestUnits num den = units) (negative : Bool) :
    ofUnits negative num den = .finite negative units h := by
  subst hunits
  exact dif_pos h.1

/-- Ten is more than three binary digits, which is all that is used of powers of ten here. -/
theorem two_pow_le_ten_pow (n : Nat) : 2 ^ (3 * n) ≤ 10 ^ n := by
  rw [Nat.pow_mul]
  exact Nat.pow_le_pow_left (by decide) n

/-- A decimal with a large exponent is above all doubles, so the first test of the reader is never
met by a double's decimal. -/
theorem exponent_le_of_representable {d : Scaled} (h : IsRepresentable d.units)
    (hdigits : d.digits ≠ 0) : d.exponent ≤ 400 := by
  refine Int.not_lt.mp fun hlarge => ?_
  have hpow : ∀ {m n : Nat}, m ≤ n → 2 ^ m ≤ 2 ^ n := fun h => Nat.pow_le_pow_right (by decide) h
  -- A power of ten is more than the power of two with three times its exponent.
  have hbound : unitsLimit ≤ d.digits * 10 ^ d.exponent.toNat * unitsPerOne / 1 := by
    calc unitsLimit
        = 2 ^ (1024 : Nat) * unitsPerOne := by rw [unitsLimit, unitsPerOne, ← Nat.pow_add]
      _ ≤ 2 ^ (3 * d.exponent.toNat) * unitsPerOne := by
          apply Nat.mul_le_mul_right
          apply hpow
          omega
      _ ≤ 10 ^ d.exponent.toNat * unitsPerOne :=
          Nat.mul_le_mul_right _ (two_pow_le_ten_pow _)
      _ ≤ d.digits * (10 ^ d.exponent.toNat * unitsPerOne) :=
          Nat.le_mul_of_pos_left _ (Nat.pos_of_ne_zero hdigits)
      _ = d.digits * 10 ^ d.exponent.toNat * unitsPerOne / 1 := by
          rw [Nat.div_one, Nat.mul_assoc]
  have hunits : unitsLimit ≤ d.units := by
    rw [Scaled.units, if_pos (by omega)]
    exact two_pow_le_nearestUnits hbound
  exact absurd h.1 (Nat.not_lt.mpr hunits)

/-- A decimal with few digits and an exponent far below zero is less than half a unit. The second
test of the reader is therefore met by zeros only. -/
theorem le_exponent_of_units_pos {d : Scaled} (hpos : 0 < d.units) :
    -400 ≤ d.exponent + d.digits.log2 := by
  refine Int.not_lt.mp fun hsmall => ?_
  have hbound : 2 * (d.digits * unitsPerOne) < 10 ^ (-d.exponent).toNat := by
    calc 2 * (d.digits * unitsPerOne)
        < 2 * (2 ^ (d.digits.log2 + 1) * unitsPerOne) :=
          Nat.mul_lt_mul_of_pos_left
            (Nat.mul_lt_mul_of_pos_right Nat.lt_log2_self unitsPerOne_pos) (by decide)
      _ = 2 ^ (1 + (d.digits.log2 + 1 + 1074)) := by
          rw [unitsPerOne, Nat.pow_add 2 1, Nat.pow_add 2 (d.digits.log2 + 1)]
      _ ≤ 2 ^ (3 * (-d.exponent).toNat) := Nat.pow_le_pow_right (by decide) (by omega)
      _ ≤ 10 ^ (-d.exponent).toNat := two_pow_le_ten_pow _
  rw [Scaled.units, if_neg (by omega), nearestUnits_eq_zero hbound] at hpos
  exact absurd hpos (Nat.lt_irrefl 0)

/-- A decimal with the units of a positive double is read as that double. The tests that keep huge
powers away decide nothing here. -/
theorem ofDecimal_eq_finite {d : Scaled} {units : Nat} (hunits : d.units = units)
    (h : IsRepresentable units) (hpos : 0 < units) (negative : Bool) :
    ofDecimal negative d.digits d.exponent = .finite negative units h := by
  subst hunits
  have hdigits : d.digits ≠ 0 := by
    intro hzero
    rw [Scaled.units_of_digits_eq_zero hzero] at hpos
    exact absurd hpos (Nat.lt_irrefl 0)
  have hlarge := exponent_le_of_representable h hdigits
  have hsmall := le_exponent_of_units_pos hpos
  rw [ofDecimal, if_neg hdigits, if_neg (by omega), if_neg (by omega)]
  split
  · next hexponent =>
    exact ofUnits_eq_finite h (by rw [Scaled.units, if_pos hexponent]) negative
  · next hexponent =>
    exact ofUnits_eq_finite h (by rw [Scaled.units, if_neg hexponent]) negative

end Binary64

end DesignCompiler
