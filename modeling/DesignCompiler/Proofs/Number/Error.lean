import DesignCompiler.Proofs.Number.Measure

/-!
# `DesignCompiler.Proofs.Number.Error`: how far rounding goes

A number that is rounded to double precision moves by less than one in the last digit that is kept.
Counted in units this is a bound without cases, `IsNear`: a part in `2 ^ 52` of the number and one
unit more (`isNear_nearestUnits`). Bounds of this form add up over several operations, each rounded,
as long as the numbers are small enough to be finite (`Binary64.exists_ofUnits`).

What the program needs is that a whole number survives the way through a quotient and back
(`Binary64.floor_add_half`): the errors of the three roundings stay far below one half.
-/

set_option autoImplicit false

namespace DesignCompiler

/-- A number of units that is `num / den` up to a part in `2 ^ 52` of it and one unit. The two
clauses are multiplied out, so that `omega` can add several of them up. -/
structure IsNear (units num den : Nat) : Prop where
  above : units * den * 2 ^ (52 : Nat) ≤ num * 2 ^ (52 : Nat) + num + den * 2 ^ (52 : Nat)
  below : num * 2 ^ (52 : Nat) ≤ units * den * 2 ^ (52 : Nat) + num + den * 2 ^ (52 : Nat)

/-- One in the last digit that is kept is a unit, or a small part of the number. The number has 53
digits or more where digits are dropped at all. -/
theorem two_pow_dropped_le (num den : Nat) :
    den * 2 ^ ((num / den).log2 - 52) * 2 ^ (52 : Nat) ≤ num + den * 2 ^ (52 : Nat) := by
  rcases Nat.lt_or_ge 52 (num / den).log2 with hlarge | hsmall
  · have hne : num / den ≠ 0 := by
      intro hzero
      rw [hzero, Nat.log2_zero] at hlarge
      cases hlarge
    calc den * 2 ^ ((num / den).log2 - 52) * 2 ^ (52 : Nat)
        = den * 2 ^ (num / den).log2 := by
          rw [Nat.mul_assoc, ← Nat.pow_add, Nat.sub_add_cancel (Nat.le_of_lt hlarge)]
      _ ≤ den * (num / den) := Nat.mul_le_mul_left den (Nat.log2_self_le hne)
      _ ≤ num := Nat.mul_div_le num den
      _ ≤ num + den * 2 ^ (52 : Nat) := Nat.le_add_right _ _
  · rw [Nat.sub_eq_zero_of_le hsmall, Nat.pow_zero, Nat.mul_one]
    exact Nat.le_add_left _ _

/-- Rounding a quotient to a whole number moves it by less than one. -/
theorem roundHalfEven_error (num : Nat) {den : Nat} (hden : 0 < den) :
    roundHalfEven num den * den ≤ num + den ∧ num ≤ roundHalfEven num den * den + den := by
  have hlow := Nat.div_mul_le_self num den
  have hhigh := Nat.lt_div_mul_add (a := num) hden
  rcases roundHalfEven_eq_or num den with h | h
  · rw [h]
    omega
  · rw [h, Nat.succ_mul]
    omega

/-- Rounding stays near. The error is one in the last digit that is kept, which `two_pow_dropped_le`
bounds. -/
theorem isNear_nearestUnits (num : Nat) {den : Nat} (hden : 0 < den) :
    IsNear (nearestUnits num den) num den := by
  have hdigit := two_pow_dropped_le num den
  unfold nearestUnits
  generalize (num / den).log2 - 52 = dropped at hdigit ⊢
  -- What is dropped is rounded to half of the last digit that is kept, from above and from below.
  obtain ⟨habove, hbelow⟩ :=
    roundHalfEven_error num (Nat.mul_pos hden (Nat.two_pow_pos dropped))
  have hunits : ∀ kept : Nat, kept * 2 ^ dropped * den = kept * (den * 2 ^ dropped) := by
    intro kept
    rw [Nat.mul_assoc, Nat.mul_comm (2 ^ dropped) den]
  have habove := Nat.mul_le_mul_right (2 ^ (52 : Nat)) habove
  have hbelow := Nat.mul_le_mul_right (2 ^ (52 : Nat)) hbelow
  rw [Nat.add_mul] at habove hbelow
  constructor
  · rw [hunits, Nat.add_assoc]
    exact Nat.le_trans habove (Nat.add_le_add_left hdigit _)
  · rw [hunits, Nat.add_assoc]
    exact Nat.le_trans hbelow (Nat.add_le_add_left hdigit _)

/-- One is many units, so an error of a few units is nothing beside it. The exponent has room for
all numbers here. -/
theorem two_pow_le_unitsPerOne : 2 ^ (200 : Nat) ≤ unitsPerOne := by
  have hpow : ∀ {m n : Nat}, m ≤ n → 2 ^ m ≤ 2 ^ n := fun h => Nat.pow_le_pow_right (by decide) h
  rw [unitsPerOne]
  apply hpow
  decide

namespace Binary64

variable {k num den : Nat}

/-- A quotient within a safe bound is rounded to a finite double nearby. -/
theorem exists_ofUnits (negative : Bool) (hden : 0 < den) (h : num / den ≤ k * unitsPerOne)
    (hk : k ≤ safeBound) :
    ∃ units hr, ofUnits negative num den = finite negative units hr ∧ IsNear units num den := by
  rw [ofUnits, dif_pos (nearestUnits_lt h hk)]
  exact ⟨_, _, rfl, isNear_nearestUnits num hden⟩

/-- One half is a finite double near half of one. That it is exactly half is not needed here. -/
theorem exists_half : ∃ units hr, half = finite false units hr ∧ IsNear units unitsPerOne 2 := by
  have hone : 1 * unitsPerOne / 2 ≤ 1 * unitsPerOne := Nat.div_le_self _ _
  obtain ⟨units, hr, hhalf, hnear⟩ := exists_ofUnits false (by decide) hone (by decide)
  rw [Nat.one_mul] at hnear
  exact ⟨units, hr, hhalf, hnear⟩

/-- A sum that is no zero and within a safe bound is finite and near the sum of the units. -/
theorem exists_add {a b : Nat} {ha : IsRepresentable a} {hb : IsRepresentable b} (hpos : 0 < b)
    (h : a + b ≤ k * unitsPerOne) (hk : k ≤ safeBound) :
    ∃ units hr, (finite false a ha).add (finite false b hb) = finite false units hr
      ∧ IsNear units (a + b) 1 := by
  have hsigned : signedUnits false a - signedUnits (!false) b = (a + b : Nat) := by
    simp only [signedUnits, Bool.not_false, if_true, Bool.false_eq_true, if_false]
    omega
  have hne : ((a + b : Nat) : Int) ≠ 0 := by omega
  rw [add, neg, sub, hsigned, ofSignedUnits, if_neg hne, Int.natAbs_natCast,
    decide_eq_false (by omega)]
  exact exists_ofUnits false Nat.one_pos (by rwa [Nat.div_one]) hk

/-- A quotient that is multiplied with its denominator and rounded half up is its numerator again,
though each step is rounded to double precision. The bounds leave room for bytes and far beyond. -/
theorem floor_add_half (hnum : num ≤ 2 ^ (40 : Nat)) (hden : 0 < den)
    (hsmall : den ≤ 2 ^ (40 : Nat)) :
    (((ofQuotient num den).scale den).add half).floor = .ok num := by
  have hlarge := two_pow_le_unitsPerOne
  have hnumber : num * unitsPerOne ≤ 2 ^ (40 : Nat) * unitsPerOne := Nat.mul_le_mul_right _ hnum
  -- The quotient, the product, one half and the sum, each with its bounds from above and below.
  obtain ⟨quotient, _, hquotient, hq₁, hq₂⟩ := exists_ofUnits false hden
    (Nat.div_le_self (num * unitsPerOne) den) (Nat.le_trans hnum (by decide))
  rw [Nat.mul_comm quotient den] at hq₁ hq₂
  have hproduct : den * quotient ≤ 2 ^ (41 : Nat) * unitsPerOne := by omega
  obtain ⟨product, _, hscale, hp₁, hp₂⟩ := exists_ofUnits false Nat.one_pos
    (Nat.le_trans (Nat.div_le_self _ 1) hproduct) (by decide)
  obtain ⟨half, _, hhalf, hh₁, hh₂⟩ := exists_half
  have hsum : product + half ≤ 2 ^ (42 : Nat) * unitsPerOne := by omega
  obtain ⟨sum, _, hadd, hs₁, hs₂⟩ := exists_add (by omega) hsum (by decide)
  -- Each rounding moves the number by far less than a hundredth of one.
  have hfloor : sum / unitsPerOne = num := by
    rw [Nat.div_eq_iff unitsPerOne_pos]
    omega
  rw [ofQuotient, hquotient, scale, hscale, hhalf, hadd]
  show Except.ok (Int.fdiv sum unitsPerOne) = _
  rw [Int.fdiv_eq_ediv_of_nonneg _ (Int.natCast_nonneg _), ← Int.natCast_ediv, hfloor]

end Binary64

end DesignCompiler
