import DesignCompiler.Number.Dimension
import DesignCompiler.Proofs.Number.Decimal
import DesignCompiler.Proofs.Number.Exact

/-!
# `DesignCompiler.Proofs.Number.Hundredths`: dimensions are written as their hundredths

A dimension is rounded twice, to hundredths and to the double nearest to them, and that double is
written. The second rounding does no harm: the double is at least as near to the hundredths as the
dimension was, so it is rounded to the same ones (`hundredths_settled`). Hence the written form is
that of a whole number of hundredths, whether the double is whole or not (`write_eq_text`).

`Form` is the shape of a written dimension: no zero too many, no sign of a zero, at most two places.
`write_canonical` puts it together: the shape, how near the decimal is to the dimension, and that
reading and writing it again changes nothing.
-/

set_option autoImplicit false

namespace DesignCompiler.Dimension

open Text
open Json (IsDigits IsWhole pointed)

/-- A decimal number as it is written: whether there is a minus sign, the digits in front of the
point and those behind it. It is the shape that a reader of generated code sees. -/
structure Form where
  negative : Bool
  whole : Text
  places : Text

namespace Form

/-- The written form; the point is left out if nothing stands behind it. -/
def text (form : Form) : Text := Json.signed form.negative ++ (form.whole ++ pointed form.places)

/-- The rational number that is written. -/
def value (form : Form) : ℚ :=
  (if form.negative then -1 else 1) * (toNat (form.whole ++ form.places) / 10 ^ form.places.length)

/-- No digit too many, at most two places, and no sign of a zero. A zero in front, a zero behind the
places and the sign of a zero are the ways in which one value could be written twice. -/
structure IsCanonical (form : Form) : Prop where
  whole : IsWhole form.whole
  places : IsDigits form.places
  length_places : form.places.length ≤ 2
  last_place : form.places.getLast? ≠ some '0'
  ne_zero : form.negative = true → form.value ≠ 0

/-- The shape of a number of hundredths. The sign is given up where there are no hundredths. -/
def ofHundredths (negative : Bool) (n : Nat) : Form where
  negative := negative && n != 0
  whole := ofNat (n / 100)
  places := trimEndBy (· = '0') [digitChar (n / 10 % 10), digitChar (n % 10)]

/-- The places of a number of hundredths are its last two digits without zeros at the end. How many
zeros were taken away is kept, as the value depends on it. -/
theorem exists_places (negative : Bool) (n : Nat) : ∃ zeros,
    [digitChar (n / 10 % 10), digitChar (n % 10)]
      = (ofHundredths negative n).places ++ List.replicate zeros '0'
    ∧ (ofHundredths negative n).places.length + zeros = 2 := by
  obtain ⟨zeros, hzeros⟩ :=
    Json.exists_trimZeros [digitChar (n / 10 % 10), digitChar (n % 10)]
  refine ⟨zeros, hzeros, ?_⟩
  have hlength := congrArg List.length hzeros
  simp only [List.length_append, List.length_replicate, List.length_cons, List.length_nil]
    at hlength
  exact hlength.symm

/-- With the zeros put back, all digits together write the number of hundredths. -/
theorem toNat_ofHundredths (negative : Bool) (n : Nat) {zeros : Nat}
    (h : [digitChar (n / 10 % 10), digitChar (n % 10)]
      = (ofHundredths negative n).places ++ List.replicate zeros '0') :
    toNat ((ofHundredths negative n).whole ++ (ofHundredths negative n).places) * 10 ^ zeros
      = n := by
  rw [← toNat_append_zeros, List.append_assoc, ← h]
  show toNat (ofNat (n / 100) ++ ([digitChar (n / 10 % 10)] ++ [digitChar (n % 10)])) = n
  rw [← List.append_assoc, toNat_concat, toNat_concat, toNat_ofNat,
    digitValue_digitChar (Nat.mod_lt _ (by decide)),
    digitValue_digitChar (Nat.mod_lt _ (by decide))]
  omega

/-- The shape of a number of hundredths writes that many. Leaving zeros out divides the digits and
the power of ten by the same. -/
theorem value_ofHundredths (negative : Bool) (n : Nat) :
    (ofHundredths negative n).value = (if negative then -1 else 1) * ((n : ℚ) / (100 : Nat)) := by
  obtain ⟨zeros, hzeros, hlength⟩ := exists_places negative n
  have hdigits := toNat_ofHundredths negative n hzeros
  have hsign : (ofHundredths negative n).negative = (negative && n != 0) := rfl
  rw [value, hsign]
  generalize toNat ((ofHundredths negative n).whole ++ (ofHundredths negative n).places) = digits
    at hdigits ⊢
  generalize (ofHundredths negative n).places.length = count at hlength ⊢
  -- The zeros that were dropped multiply the digits as they multiply the denominator.
  have hquotient : (digits : ℚ) / 10 ^ count = (n : ℚ) / (100 : Nat) := by
    have hpow : (10 : ℚ) ^ count * 10 ^ zeros = (100 : Nat) := by
      rw [← pow_add, hlength]
      norm_num
    have hcast : (n : ℚ) = digits * 10 ^ zeros := by
      rw [← hdigits, Nat.cast_mul, Nat.cast_pow, Nat.cast_ofNat]
    rw [← hpow, hcast]
    field_simp
  rw [hquotient]
  rcases Nat.eq_zero_or_pos n with rfl | hpos
  · simp
  · have hne : (n != 0) = true := by simpa using Nat.ne_of_gt hpos
    rw [hne, Bool.and_true]

/-- The shape of a number of hundredths has no digit too many and no sign of a zero. It is all that
`write_canonical` says about the form of a dimension, once the dimension is known to be written as
its hundredths. -/
theorem isCanonical_ofHundredths (negative : Bool) (n : Nat) :
    (ofHundredths negative n).IsCanonical := by
  obtain ⟨zeros, hzeros, hlength⟩ := exists_places negative n
  constructor
  case whole => exact Json.isWhole_ofNat (n / 100)
  case places =>
    intro c hc
    have hmem : c ∈ [digitChar (n / 10 % 10), digitChar (n % 10)] := by
      rw [hzeros]
      exact List.mem_append_left _ hc
    simp only [List.mem_cons, List.not_mem_nil, or_false] at hmem
    rcases hmem with rfl | rfl
    · exact isDigit_digitChar (Nat.mod_lt _ (by decide))
    · exact isDigit_digitChar (Nat.mod_lt _ (by decide))
  case length_places => omega
  -- A zero in the last place would have been dropped.
  case last_place =>
    intro hlast
    have hdropped :=
      List.head?_dropWhile_not (· = '0') [digitChar (n % 10), digitChar (n / 10 % 10)]
    rw [ofHundredths, trimEndBy, List.getLast?_reverse] at hlast
    rw [show [digitChar (n % 10), digitChar (n / 10 % 10)]
      = [digitChar (n / 10 % 10), digitChar (n % 10)].reverse from rfl, hlast] at hdropped
    simp at hdropped
  case ne_zero =>
    intro hnegative
    have hpos : 0 < n := by
      have hsign : (negative && n != 0) = true := hnegative
      simp only [Bool.and_eq_true, bne_iff_ne] at hsign
      omega
    have hvalue : (0 : ℚ) < n / (100 : Nat) := div_pos (by exact_mod_cast hpos) (by norm_num)
    rw [value_ofHundredths]
    split
    · linarith
    · linarith

end Form

variable {units : Nat}

/-- The double that is written is at least as near to the hundredths as the dimension. The dimension
is a double too, and no double is nearer than the one that rounding gives. -/
theorem dist_settled_le (h : IsRepresentable units) :
    (hundredths units * unitsPerOne).dist (settled units * 100)
      ≤ (hundredths units * unitsPerOne).dist (units * 100) := by
  obtain ⟨-, factor, exponent, hfactor, hunits⟩ := h
  have hpos : 0 < 100 := by decide
  have hnear := dist_nearestUnits_le (hundredths units * unitsPerOne) hpos hfactor exponent
  rw [← hunits] at hnear
  rw [Nat.dist_comm, Nat.dist_comm _ (units * 100)]
  exact hnear

/-- Writing a dimension as a double does not change its hundredths. Without this a dimension could
be written differently after it was read back. -/
theorem hundredths_settled (h : IsRepresentable units) :
    hundredths (settled units) = hundredths units := by
  have hrounded := isHalfEven_roundHalfEven (units * 100) unitsPerOne_pos
  exact (roundHalfEven_eq_iff unitsPerOne_pos).mpr (hrounded.of_nearer (dist_settled_le h))

/-- The hundredths are at most half of one away from the dimension. -/
theorem two_mul_dist_hundredths_le (units : Nat) :
    2 * (hundredths units * unitsPerOne).dist (units * 100) ≤ unitsPerOne :=
  two_mul_dist_roundHalfEven_le (units * 100) unitsPerOne_pos

/-- The double that is written is finite. Rounding to hundredths moves a number by less than one,
and the largest double is more than one below the limit, so there is no overflow on the way. -/
theorem isRepresentable_settled (h : IsRepresentable units) : IsRepresentable (settled units) := by
  refine nearestUnits_representable ?_
  show settled units < unitsLimit
  have hroom := add_unitsPerOne_lt h
  have hnear := dist_settled_le h
  have herror := two_mul_dist_hundredths_le units
  unfold Nat.dist at hnear herror
  omega

/-- Nothing is written only where there are no hundredths. The sign is dropped by the one and
described by the other. -/
theorem settled_eq_zero_iff (h : IsRepresentable units) :
    settled units = 0 ↔ hundredths units = 0 := by
  constructor
  · intro hzero
    rw [← hundredths_settled h, hzero]
    rw [hundredths, roundHalfEven_eq_iff unitsPerOne_pos]
    left
    simpa using unitsPerOne_pos
  · intro hzero
    rw [settled, hzero, Nat.zero_mul]
    exact nearestUnits_eq_zero (by decide)

/-- A whole dimension is written like any number of hundredths: its places are two zeros, and both
are left out. -/
theorem magnitude_eq (h : IsRepresentable units) :
    magnitude units = placesText (hundredths units) := by
  rw [← hundredths_settled h, magnitude]
  generalize settled units = s
  split
  · next hwhole =>
    obtain ⟨k, hk⟩ := Nat.dvd_of_mod_eq_zero hwhole
    rw [hk]
    -- A whole number has whole hundredths, with two zeros in the end that are dropped.
    have hhundredths : hundredths (unitsPerOne * k) = k * 100 := by
      rw [hundredths, Nat.mul_assoc, Nat.mul_comm unitsPerOne]
      exact roundHalfEven_mul (k * 100) unitsPerOne_pos
    rw [Nat.mul_div_cancel_left k unitsPerOne_pos, hhundredths, placesText]
    have htens : k * 100 / 10 % 10 = 0 := by omega
    have hones : k * 100 % 10 = 0 := by omega
    rw [Nat.mul_div_cancel k (by decide), htens, hones]
    exact (List.append_nil (ofNat k)).symm
  · rfl

/-- A dimension is written in the shape of its hundredths. From here on nothing depends on the
double that is in between. -/
theorem write_eq_text (negative : Bool) (h : IsRepresentable units) :
    write (.finite negative units h) = (Form.ofHundredths negative (hundredths units)).text := by
  have hsign : (negative && settled units != 0) = (negative && hundredths units != 0) := by
    rw [Bool.eq_iff_iff]
    simp [settled_eq_zero_iff h]
  rw [write, hsign, magnitude_eq h]
  generalize hundredths units = n
  rfl

/-- The shape of a number of hundredths is read as the double nearest to them, which is the one that
was written. -/
theorem readLoose?_text (negative : Bool) (h : IsRepresentable units) :
    Decimal.readLoose? (Form.ofHundredths negative (hundredths units)).text
      = some (.finite (negative && hundredths units != 0) (settled units)
          (isRepresentable_settled h)) := by
  have hcanonical := Form.isCanonical_ofHundredths negative (hundredths units)
  obtain ⟨zeros, hzeros, hlength⟩ := Form.exists_places negative (hundredths units)
  have hdigits := Form.toNat_ofHundredths negative (hundredths units) hzeros
  rw [Form.text, Decimal.readLoose?_plain _ hcanonical.whole.ne_nil hcanonical.whole.isDigits
    hcanonical.places]
  have hsign : (Form.ofHundredths negative (hundredths units)).negative
      = (negative && hundredths units != 0) := rfl
  rw [hsign]
  generalize toNat ((Form.ofHundredths negative (hundredths units)).whole
    ++ (Form.ofHundredths negative (hundredths units)).places) = digits at hdigits ⊢
  generalize (Form.ofHundredths negative (hundredths units)).places.length = count at hlength ⊢
  congr 1
  rcases Nat.eq_zero_or_pos (settled units) with hzero | hpos
  · -- There are no hundredths, so there is no digit but zeros.
    have hnone : hundredths units = 0 := (settled_eq_zero_iff h).mp hzero
    have hdigit : digits = 0 := by
      rw [hnone] at hdigits
      exact (Nat.mul_eq_zero.mp hdigits).resolve_right (Nat.ne_of_gt (Nat.pow_pos (by decide)))
    simp only [hdigit, hzero, Binary64.ofDecimal, if_true, Binary64.zero]
  · have hunits : (Shortest.Scaled.mk digits (-(count : Int))).units = settled units := by
      have hexponent : -(count : Int) = -2 + zeros := by omega
      have hden : 10 ^ (-(-2 : Int)).toNat = 100 := by decide
      rw [hexponent, ← Shortest.Scaled.units_shift, hdigits, Shortest.Scaled.units,
        if_neg (show ¬ (0 : Int) ≤ -2 by decide)]
      dsimp only
      rw [hden, settled]
    exact Binary64.ofDecimal_eq_finite hunits (isRepresentable_settled h) hpos _

/-- The shape of a dimension's hundredths is at most half of one away from the dimension. Both have
the same sign, so it is enough to look at magnitudes. -/
theorem abs_value_sub_le (negative : Bool) (h : IsRepresentable units) :
    |(Form.ofHundredths negative (hundredths units)).value
      - (Binary64.finite negative units h).value| ≤ 1 / 200 := by
  have hnear : |(hundredths units : ℚ) / (100 : Nat) - units / unitsPerOne| ≤ 1 / (200 : Nat) := by
    apply abs_div_sub_div_le (by decide) unitsPerOne_pos (by decide)
    have hhalf := two_mul_dist_hundredths_le units
    omega
  have hvalue : (Binary64.finite negative units h).value
      = (if negative then -1 else 1) * ((units : ℚ) / unitsPerOne) := by
    rw [Binary64.value, Binary64.signed, Binary64.signedUnits]
    split
    · push_cast
      ring
    · push_cast
      ring
  -- The sign is that of both, so it has no part in the distance.
  have hsign : |(if negative then -1 else 1 : ℚ)| = 1 := by
    cases negative <;> norm_num
  rw [Form.value_ofHundredths, hvalue, ← mul_sub, abs_mul, hsign, one_mul]
  exact_mod_cast hnear

/-- A finite dimension is written without a digit too many, with at most two places and without a
sign of zero, and the decimal is at most half a hundredth away from it. What is written is read as a
double that is written in the same way. -/
theorem write_canonical {x : Binary64} (hx : x.isFinite = true) :
    (∃ form : Form, write x = form.text ∧ form.IsCanonical ∧ |form.value - x.value| ≤ 1 / 200)
    ∧ ∃ y, Decimal.readLoose? (write x) = some y ∧ write y = write x := by
  obtain ⟨negative, units, h, rfl⟩ := Binary64.exists_eq_of_isFinite hx
  constructor
  · exact ⟨_, write_eq_text negative h, Form.isCanonical_ofHundredths _ _,
      abs_value_sub_le negative h⟩
  · rw [write_eq_text negative h, readLoose?_text negative h]
    refine ⟨_, rfl, ?_⟩
    rw [write_eq_text, hundredths_settled h]
    -- A sign that is left out once is left out again.
    rw [Form.ofHundredths, Form.ofHundredths, Bool.and_assoc, Bool.and_self]

/-- An eighth below zero. -/
def eighth : Binary64 := .ofDecimal true 125 (-3)

/-- It is in the middle between two hundredths, and the even one is written. -/
theorem eighth_canonical :
    (∃ form : Form, write eighth = form.text ∧ form.IsCanonical
      ∧ |form.value - eighth.value| ≤ 1 / 200)
    ∧ (∃ y, Decimal.readLoose? (write eighth) = some y ∧ write y = write eighth)
    ∧ write eighth = "-0.12".toList := by
  have hfinite : eighth.isFinite = true := by decide +kernel
  have hcanonical := write_canonical hfinite
  exact ⟨hcanonical.1, hcanonical.2, by decide +kernel⟩

end DesignCompiler.Dimension
