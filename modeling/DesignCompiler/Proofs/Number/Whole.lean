import DesignCompiler.Json.Arithmetic
import DesignCompiler.Proofs.Number.Measure

/-!
# `DesignCompiler.Proofs.Number.Whole`: whole numbers that are doubles

Up to `2 ^ 53` every whole number is a double (`isRepresentable_whole`), so nothing is rounded where
such numbers are turned into doubles (`Binary64.whole?_ofUnits`) or, as doubles, subtracted from one
another (`Binary64.whole?_sub`).

A value of a design file can be a whole number in two ways, as such and as a double. Differences of
whole numbers are whole and exact for both (`Json.exists_sub`), and so is the double that they are
accepted as (`Json.exists_checkNumber`).
-/

set_option autoImplicit false

namespace DesignCompiler

/-- The greatest magnitude up to which every whole number is a double. -/
def wholeLimit : Nat := 2 ^ (53 : Nat)

/-- Shifted by binary digits, a whole number within the limit still has few enough of its own. -/
theorem exists_factor {k : Nat} (h : k ≤ wholeLimit) (shift : Nat) :
    ∃ factor exponent : Nat, factor < 2 ^ (53 : Nat) ∧ k * 2 ^ shift = factor * 2 ^ exponent := by
  rcases Nat.lt_or_ge k wholeLimit with hlt | hge
  · exact ⟨k, shift, hlt, rfl⟩
  · -- The limit itself has one binary digit too many, but it is a power of two.
    obtain rfl : k = 2 ^ (53 : Nat) := Nat.le_antisymm h hge
    exact ⟨1, 53 + shift, by decide, by rw [Nat.one_mul, Nat.pow_add]⟩

/-- Whole numbers within the limit are representable, and far from too large. -/
theorem isRepresentable_whole {k : Nat} (h : k ≤ wholeLimit) :
    IsRepresentable (k * unitsPerOne) := by
  refine ⟨?_, exists_factor h 1074⟩
  have hsafe : k ≤ safeBound := Nat.le_trans h (by decide)
  have hlarger : k * unitsPerOne ≤ (2 * k + 1) * unitsPerOne :=
    Nat.mul_le_mul_right _ (by omega)
  exact Nat.lt_of_le_of_lt hlarger (mul_unitsPerOne_lt hsafe)

namespace Binary64

variable {x y : Binary64} {m n : Int}

/-- A number of units that is representable is not rounded. -/
theorem ofUnits_of_isRepresentable {units : Nat} (h : IsRepresentable units) (negative : Bool) :
    ofUnits negative units 1 = .finite negative units h := by
  have hnearest : nearestUnits units 1 = units := by
    have hmul := nearestUnits_mul h Nat.one_pos
    rwa [Nat.mul_one] at hmul
  have hlimit : nearestUnits units 1 < unitsLimit := by
    rw [hnearest]
    exact h.1
  rw [ofUnits, dif_pos hlimit]
  congr 1

/-- The sign of a number of units carries over to its parts. -/
theorem signedUnits_mul (negative : Bool) (k units : Nat) :
    signedUnits negative (k * units) = signedUnits negative k * units := by
  cases negative
  · exact Int.natCast_mul k units
  · show -((k * units : Nat) : Int) = -(k : Int) * units
    rw [Int.natCast_mul, Int.neg_mul]

/-- A whole number is its magnitude with its sign. -/
theorem signedUnits_natAbs (n : Int) : signedUnits (n < 0) n.natAbs = n := by
  by_cases hneg : n < 0
  · simp only [signedUnits, hneg, decide_true, if_true]
    omega
  · simp only [signedUnits, hneg, decide_false, Bool.false_eq_true, if_false]
    omega

/-- A double is whole if it has as many units as that many ones. It gives the double itself, so
differences can be computed from it. -/
theorem whole?_eq_some : x.whole? = some n
    ↔ ∃ negative k h, x = .finite negative (k * unitsPerOne) h ∧ signedUnits negative k = n := by
  have hone := unitsPerOne_pos
  cases x with
  | nan => simp [whole?]
  | infinite negative => simp [whole?]
  | finite negative units h =>
    rw [whole?]
    constructor
    · intro hwhole
      split at hwhole
      · -- The units are a multiple of those of one, and the quotient is the number.
        next hmod =>
        obtain ⟨k, hk⟩ := Nat.dvd_of_mod_eq_zero hmod
        rw [Nat.mul_comm] at hk
        rw [hk, Nat.mul_div_cancel k hone, Option.some.injEq] at hwhole
        exact ⟨negative, k, hk ▸ h, by simp only [hk], hwhole⟩
      · cases hwhole
    · rintro ⟨negative', k, h', heq, rfl⟩
      cases heq
      rw [Nat.mul_mod_left, if_pos rfl, Nat.mul_div_cancel k hone]

/-- A whole number of ones is not rounded. -/
theorem whole?_ofUnits {k : Nat} (h : k ≤ wholeLimit) (negative : Bool) :
    (ofUnits negative (k * unitsPerOne) 1).whole? = some (signedUnits negative k) := by
  rw [ofUnits_of_isRepresentable (isRepresentable_whole h)]
  exact whole?_eq_some.mpr ⟨negative, k, _, rfl, rfl⟩

/-- A whole number within the limit has a double beside it, which is that number. -/
theorem exists_ofInt?_whole (h : n.natAbs ≤ wholeLimit) :
    ∃ x, ofInt? n = some x ∧ x.whole? = some n := by
  have hwhole := whole?_ofUnits h (n < 0)
  rw [signedUnits_natAbs] at hwhole
  rw [ofInt?, ofUnits_of_isRepresentable (isRepresentable_whole h)] at *
  exact ⟨_, rfl, hwhole⟩

/-- A signed whole number of ones is not rounded either. -/
theorem whole?_ofSignedUnits (h : n.natAbs ≤ wholeLimit) (zeroNegative : Bool) :
    (ofSignedUnits zeroNegative (n * unitsPerOne)).whole? = some n := by
  have hone := unitsPerOne_pos
  rw [ofSignedUnits]
  split
  · next hzero =>
    have hn : n = 0 := by
      rcases Int.mul_eq_zero.mp hzero with hn | hunits
      · exact hn
      · exact absurd (Int.natCast_eq_zero.mp hunits) (Nat.ne_of_gt hone)
    simp only [hn, zero, whole?, Nat.zero_mod, if_true, Nat.zero_div]
    cases zeroNegative <;> rfl
  · -- The units have the sign of the number.
    have hnegative : (decide (n * (unitsPerOne : Int) < 0)) = decide (n < 0) := by
      rw [decide_eq_decide]
      constructor
      · intro hlt
        refine Int.not_le.mp fun hn => Int.not_le.mpr hlt ?_
        exact Int.mul_nonneg hn (Int.natCast_nonneg _)
      · exact fun hlt => Int.mul_neg_of_neg_of_pos hlt (Int.natCast_pos.mpr hone)
    rw [hnegative, Int.natAbs_mul, Int.natAbs_natCast, whole?_ofUnits h, signedUnits_natAbs]

/-- The difference of whole doubles is exact while it is within the limit. The two numbers
themselves may be larger. -/
theorem whole?_sub (hx : x.whole? = some m) (hy : y.whole? = some n)
    (h : (m - n).natAbs ≤ wholeLimit) : (x.sub y).whole? = some (m - n) := by
  obtain ⟨s, j, hj, rfl, rfl⟩ := whole?_eq_some.mp hx
  obtain ⟨t, k, hk, rfl, rfl⟩ := whole?_eq_some.mp hy
  rw [sub, signedUnits_mul, signedUnits_mul, ← Int.sub_mul]
  exact whole?_ofSignedUnits h _

end Binary64

namespace Json

/-- The whole number that a value is, written as such or as a double. A truth value is none. -/
def integer? : Json → Option Int
  | .int n => some n
  | .double x => x.whole?
  | _ => none

variable {a b : Json} {m n : Int}

/-- A whole number that is blank is zero. -/
theorem eq_zero_of_isBlank (ha : a.integer? = some n) (hblank : a.isBlank = true) : n = 0 := by
  cases a with
  | int k =>
    cases ha
    exact of_decide_eq_true hblank
  | double x =>
    obtain ⟨negative, k, hk, rfl, rfl⟩ := Binary64.whole?_eq_some.mp ha
    rw [isBlank, Binary64.isZero, decide_eq_true_eq] at hblank
    rw [(Nat.mul_eq_zero.mp hblank).resolve_right (Nat.ne_of_gt unitsPerOne_pos)]
    cases negative <;> rfl
  | null | bool | text | list | object => cases ha

/-- The double beside a whole number within the limit is that number. -/
theorem exists_numeric?_whole (ha : a.integer? = some m) (hm : m.natAbs ≤ wholeLimit) :
    ∃ x, a.numeric? = some (.ok x) ∧ x.whole? = some m := by
  cases a with
  | int k =>
    cases ha
    obtain ⟨x, hx, hwhole⟩ := Binary64.exists_ofInt?_whole hm
    exact ⟨x, by simp only [numeric?, whole?, Option.map_some, hx, Option.elim_some], hwhole⟩
  | double x => exact ⟨x, rfl, ha⟩
  | null | bool | text | list | object => cases ha

/-- A value that is written as a whole number stands for no other. Truth values are numbers to the
second reading only. -/
theorem eq_of_whole? (ha : a.integer? = some m) (h : a.whole? = some n) : m = n := by
  cases a with
  | int k =>
    cases ha
    cases h
    rfl
  | bool b => cases ha
  | double | null | text | list | object => cases h

/-- Whole numbers within the limit have an exact difference, as long as that is within it too. It
may be given as a whole number or as a double. -/
theorem exists_sub (ha : a.integer? = some m) (hb : b.integer? = some n)
    (hm : m.natAbs ≤ wholeLimit) (hn : n.natAbs ≤ wholeLimit) (h : (m - n).natAbs ≤ wholeLimit) :
    ∃ d, a.sub b = .ok d ∧ d.integer? = some (m - n) := by
  obtain ⟨x, hx, hleft⟩ := exists_numeric?_whole ha hm
  obtain ⟨y, hy, hright⟩ := exists_numeric?_whole hb hn
  rw [sub]
  split
  · next j k hj hk =>
    -- Both are written as whole numbers.
    rw [eq_of_whole? ha hj, eq_of_whole? hb hk]
    exact ⟨_, rfl, rfl⟩
  · rw [hx, hy]
    exact ⟨_, rfl, Binary64.whole?_sub hleft hright h⟩

/-- A whole number within the limit is accepted as that number. -/
theorem exists_checkNumber (ha : a.integer? = some m) (hm : m.natAbs ≤ wholeLimit) :
    ∃ x, Schema.checkNumber a = .accepted x ∧ x.whole? = some m := by
  cases a with
  | int k =>
    cases ha
    obtain ⟨x, hx, hwhole⟩ := Binary64.exists_ofInt?_whole hm
    exact ⟨x, by rw [Schema.checkNumber, hx, Option.elim_some], hwhole⟩
  | double x => exact ⟨x, rfl, ha⟩
  | null | bool | text | list | object => cases ha

end Json

end DesignCompiler
