import DesignCompiler.Proofs.Number.Exact
import DesignCompiler.Proofs.Number.Whole

/-!
# `DesignCompiler.Proofs.Number.Signed`: operations as roundings of signed numbers

Every operation on doubles is one rounding, `roundSigned`, of a signed whole number of units: of the
scaled units, of the sum with one half, of a whole number of ones. So all that is known of a
sequence of operations is known from the rounding: it keeps the order (`roundSigned_mono`) and
leaves alone what is a double already (`roundSigned_of_isRepresentable`).

The overflow of an operation is left to its hypotheses, that the result be finite; adding one half
never overflows (`Binary64.add_half`), since the largest double is more than one below the limit.
-/

set_option autoImplicit false

namespace DesignCompiler

open Binary64 (signedUnits)

/-- The signed number of units nearest to a signed number of units. It has no limit, so overflow is
no matter of it. -/
def roundSigned (units : Int) : Int := signedUnits (units < 0) (nearestUnits units.natAbs 1)

/-- The sign is kept. For zero the sign is lost on both sides. -/
theorem roundSigned_signedUnits (negative : Bool) (units : Nat) :
    roundSigned (signedUnits negative units) = signedUnits negative (nearestUnits units 1) := by
  rcases Nat.eq_zero_or_pos units with rfl | hpos
  · have hzero : nearestUnits 0 1 = 0 := nearestUnits_eq_zero (by decide)
    cases negative <;> simp [roundSigned, signedUnits, hzero]
  · have hne : units ≠ 0 := Nat.ne_of_gt hpos
    cases negative <;> simp [roundSigned, signedUnits, hne]

/-- Zero is not rounded. -/
theorem roundSigned_zero : roundSigned 0 = 0 := roundSigned_signedUnits false 0

/-- What is a double is not rounded. -/
theorem roundSigned_of_isRepresentable {units : Nat} (h : IsRepresentable units) (negative : Bool) :
    roundSigned (signedUnits negative units) = signedUnits negative units := by
  have hnearest := nearestUnits_mul h Nat.one_pos
  rw [Nat.mul_one] at hnearest
  rw [roundSigned_signedUnits, hnearest]

/-- For what is not negative it is the rounding of natural numbers. -/
theorem roundSigned_natCast (units : Nat) : roundSigned units = nearestUnits units 1 :=
  roundSigned_signedUnits false units

/-- Rounding keeps the order, also across zero. -/
theorem roundSigned_mono {a b : Int} (h : a ≤ b) : roundSigned a ≤ roundSigned b := by
  have hmono : ∀ {m n : Nat}, m ≤ n → nearestUnits m 1 ≤ nearestUnits n 1 :=
    nearestUnits_mono_left Nat.one_pos
  rcases Int.lt_or_le a 0 with ha | ha
  · rcases Int.lt_or_le b 0 with hb | hb
    · -- Below zero the greater number has the smaller magnitude.
      have hle := hmono (show b.natAbs ≤ a.natAbs by omega)
      simp only [roundSigned, signedUnits, ha, hb, decide_true, if_true]
      omega
    · have hb : ¬ b < 0 := by omega
      simp only [roundSigned, signedUnits, ha, hb, decide_true, decide_false, if_true,
        Bool.false_eq_true, if_false]
      omega
  · have hle := hmono (show a.natAbs ≤ b.natAbs by omega)
    have ha : ¬ a < 0 := by omega
    have hb : ¬ b < 0 := by omega
    simp only [roundSigned, signedUnits, ha, hb, decide_false, Bool.false_eq_true, if_false]
    omega

/-- Whole numbers of ones within the limit are not rounded. -/
theorem roundSigned_whole {k : Nat} (h : k ≤ wholeLimit) :
    roundSigned ((k * unitsPerOne : Nat) : Int) = (k * unitsPerOne : Nat) :=
  roundSigned_of_isRepresentable (isRepresentable_whole h) false

/-- One half in units. It is a whole number of them. -/
def halfUnits : Nat := 2 ^ (1073 : Nat)

/-- Two halves are one. -/
theorem two_mul_halfUnits : halfUnits * 2 = unitsPerOne := by
  have hpow := Nat.pow_add 2 1073 1
  rw [halfUnits, unitsPerOne]
  omega

/-- One half is a double, so adding it brings in no error of its own. -/
theorem isRepresentable_halfUnits : IsRepresentable halfUnits := by
  refine ⟨?_, 1, 1073, by decide, by rw [halfUnits, Nat.one_mul]⟩
  rw [halfUnits, unitsLimit]
  apply Nat.pow_lt_pow_right <;> decide

namespace Binary64

variable {x : Binary64} {negative : Bool}

/-- A double is not rounded. -/
theorem roundSigned_signed (x : Binary64) : roundSigned x.signed = x.signed := by
  cases x with
  | finite negative units h => exact roundSigned_of_isRepresentable h negative
  | nan | infinite => exact roundSigned_zero

/-- A rounded number of units is rounded as a signed one, if it is finite. -/
theorem signed_ofUnits {units : Nat} (h : (ofUnits negative units 1).isFinite = true) :
    (ofUnits negative units 1).signed = roundSigned (signedUnits negative units) := by
  rw [roundSigned_signedUnits]
  rw [ofUnits] at h ⊢
  split at h
  · next hlimit => rw [dif_pos hlimit, signed]
  · cases h

/-- A product is the rounded product of the units, if it is finite. -/
theorem signed_scale {factor : Nat} (h : (x.scale factor).isFinite = true) :
    (x.scale factor).signed = roundSigned (factor * x.signed) := by
  cases x with
  | finite negative units hr =>
    have hproduct : (factor : Int) * signedUnits negative units
        = signedUnits negative (factor * units) := by
      rw [Nat.mul_comm, signedUnits_mul, Int.mul_comm]
    rw [signed, hproduct]
    exact signed_ofUnits h
  | nan | infinite => cases h

/-- The double beside a whole number is the rounded number. -/
theorem signed_ofInt? {n : Int} (h : ofInt? n = some x) :
    x.signed = roundSigned (n * unitsPerOne) := by
  have hfinite : (ofUnits (n < 0) (n.natAbs * unitsPerOne) 1) = x ∧ x.isFinite = true := by
    rw [ofInt?] at h
    cases hx : ofUnits (n < 0) (n.natAbs * unitsPerOne) 1 with
    | finite negative units hr =>
      rw [hx] at h
      cases h
      exact ⟨rfl, rfl⟩
    | nan | infinite =>
      rw [hx] at h
      cases h
  obtain ⟨rfl, hx⟩ := hfinite
  rw [signed_ofUnits hx, signedUnits_mul, signedUnits_natAbs]

/-- A signed number of units that does not overflow is rounded as one, and the sign of a zero does
not matter for its value. -/
theorem signed_ofSignedUnits {units : Int} (zeroNegative : Bool)
    (h : nearestUnits units.natAbs 1 < unitsLimit) :
    (ofSignedUnits zeroNegative units).isFinite = true
      ∧ (ofSignedUnits zeroNegative units).signed = roundSigned units := by
  rw [ofSignedUnits]
  split
  · next hzero =>
    have hnone : signedUnits zeroNegative 0 = 0 := by cases zeroNegative <;> rfl
    refine ⟨rfl, ?_⟩
    show signedUnits zeroNegative 0 = roundSigned units
    rw [hzero, hnone]
    exact roundSigned_zero.symm
  · have hfinite : (ofUnits (units < 0) units.natAbs 1).isFinite = true := by
      rw [ofUnits, dif_pos h]
      rfl
    rw [signed_ofUnits hfinite, signedUnits_natAbs]
    exact ⟨hfinite, rfl⟩

/-- One half is exactly half of one. -/
theorem half_eq : half = .finite false halfUnits isRepresentable_halfUnits := by
  rw [half, ofQuotient, Nat.one_mul, ← two_mul_halfUnits]
  exact ofUnits_eq_finite _ (nearestUnits_mul isRepresentable_halfUnits (by decide)) false

/-- Adding one half to a number does not overflow, and gives the rounded sum. -/
theorem add_half (h : x.isFinite = true) : (x.add half).isFinite = true
    ∧ (x.add half).signed = roundSigned (x.signed + halfUnits) := by
  obtain ⟨negative, units, hr, rfl⟩ := exists_eq_of_isFinite h
  have hsum : signedUnits negative units - signedUnits (!false) halfUnits
      = signedUnits negative units + halfUnits := by
    rw [Bool.not_false, signedUnits, signedUnits, if_pos rfl]
    omega
  rw [half_eq, add, neg, sub, hsum]
  refine signed_ofSignedUnits _ ?_
  -- The number itself is at most one half away from the sum, so the nearest double is not further.
  have hmagnitude : (signedUnits negative units + halfUnits).natAbs ≤ units + halfUnits := by
    rw [signedUnits]
    split <;> omega
  have hmono := nearestUnits_mono_left Nat.one_pos hmagnitude
  have hroom := add_unitsPerOne_lt hr
  obtain ⟨-, factor, exponent, hfactor, hunits⟩ := hr
  have hnear := dist_nearestUnits_le (units + halfUnits) Nat.one_pos hfactor exponent
  rw [← hunits] at hnear
  have htwo := two_mul_halfUnits
  unfold Nat.dist at hnear
  omega

end Binary64

end DesignCompiler
