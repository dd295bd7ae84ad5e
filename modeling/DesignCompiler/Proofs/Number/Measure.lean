import DesignCompiler.Color
import DesignCompiler.Schema.Leaf

/-!
# `DesignCompiler.Proofs.Number.Measure`: numbers that never get out of hand

Doubles end far beyond everything that is drawn. `Binary64.IsWithin` bounds the magnitude of a
double, and says with it that the double is finite. One rounding makes a number at most twice as
large (`nearestUnits_le`), so the few operations that stand between a design file and a layout tree
stay within bounds: a difference of two coordinates, a colour channel as a byte.

`Json.IsMeasure` are the numbers of a design file that this is said about: whole numbers and doubles
up to `2 ^ 53`. They can be subtracted and checked as numbers, and they can be colour channels.
-/

set_option autoImplicit false

namespace DesignCompiler

/-- Rounding makes a number of units at most twice as large, give or take a unit. The bound is
coarse, and that is enough for all that is said about overflow. -/
theorem nearestUnits_le (num den : Nat) : nearestUnits num den ≤ 2 * (num / den) + 1 := by
  unfold nearestUnits
  generalize hd : (num / den).log2 - 52 = dropped
  have hround : roundHalfEven num (den * 2 ^ dropped) ≤ num / (den * 2 ^ dropped) + 1 := by
    rcases roundHalfEven_eq_or num (den * 2 ^ dropped) with h | h <;> omega
  have hquotient : num / (den * 2 ^ dropped) * 2 ^ dropped ≤ num / den := by
    rw [← Nat.div_div_eq_div_mul]
    exact Nat.div_mul_le_self _ _
  -- Rounding up adds one in the last digit that is kept.
  have hdigit : 2 ^ dropped ≤ num / den + 1 := by
    by_cases hzero : num / den = 0
    · rw [hzero, Nat.log2_zero, Nat.zero_sub] at hd
      subst hd
      exact Nat.le_add_left 1 _
    · have hpow : 2 ^ dropped ≤ 2 ^ (num / den).log2 :=
        Nat.pow_le_pow_right (by decide) (by omega)
      have hlog := Nat.log2_self_le hzero
      omega
  calc roundHalfEven num (den * 2 ^ dropped) * 2 ^ dropped
      ≤ (num / (den * 2 ^ dropped) + 1) * 2 ^ dropped := Nat.mul_le_mul_right _ hround
    _ = num / (den * 2 ^ dropped) * 2 ^ dropped + 2 ^ dropped := Nat.succ_mul _ _
    _ ≤ 2 * (num / den) + 1 := by omega

/-- A magnitude that is far from that of the largest double. Sums and products of a few numbers of a
design stay below it. -/
def safeBound : Nat := 2 ^ (100 : Nat)

/-- Twice a safe magnitude is no overflow. -/
theorem mul_unitsPerOne_lt {k : Nat} (hk : k ≤ safeBound) :
    (2 * k + 1) * unitsPerOne < unitsLimit := by
  have hlimit : unitsLimit = 2 ^ (1024 : Nat) * unitsPerOne := by
    rw [unitsLimit, unitsPerOne, ← Nat.pow_add]
  have hpow : ∀ {m n : Nat}, m < n → 2 ^ m < 2 ^ n := fun h => Nat.pow_lt_pow_right (by decide) h
  have hbound : 2 * k + 1 < 2 ^ (102 : Nat) := by
    rw [safeBound] at hk
    omega
  rw [hlimit]
  refine Nat.mul_lt_mul_of_pos_right (Nat.lt_trans hbound ?_) unitsPerOne_pos
  apply hpow
  decide

/-- Rounding keeps a bound in ones, give or take one. -/
theorem nearestUnits_le_mul {num den k : Nat} (h : num / den ≤ k * unitsPerOne) :
    nearestUnits num den ≤ (2 * k + 1) * unitsPerOne := by
  have hone := unitsPerOne_pos
  have hle := nearestUnits_le num den
  rw [Nat.add_mul, Nat.mul_assoc, Nat.one_mul]
  omega

/-- A quotient within a safe bound is rounded without overflow. -/
theorem nearestUnits_lt {num den k : Nat} (h : num / den ≤ k * unitsPerOne) (hk : k ≤ safeBound) :
    nearestUnits num den < unitsLimit :=
  Nat.lt_of_le_of_lt (nearestUnits_le_mul h) (mul_unitsPerOne_lt hk)

namespace Binary64

/-- A finite double of at most the given magnitude. One statement says both, since a bound on what
is not finite would say nothing. -/
def IsWithin (bound : Nat) (x : Binary64) : Prop :=
  ∃ negative units h, x = .finite negative units h ∧ units ≤ bound * unitsPerOne

variable {x y : Binary64} {j k : Nat}

/-- For a finite double it is a bound on its units. -/
theorem isWithin_finite {negative : Bool} {units : Nat} {h : IsRepresentable units} :
    (finite negative units h).IsWithin k ↔ units ≤ k * unitsPerOne := by
  constructor
  · rintro ⟨_, _, _, heq, hle⟩
    cases heq
    exact hle
  · intro hle
    exact ⟨negative, units, h, rfl, hle⟩

/-- Units are compared, and what is not finite is within no bound. -/
instance (bound : Nat) : DecidablePred (IsWithin bound)
  | .finite _ _ _ => decidable_of_iff' _ isWithin_finite
  | .nan | .infinite _ => isFalse (by simp [IsWithin])

/-- A quotient within a safe bound is rounded to a finite double. -/
theorem isWithin_ofUnits (negative : Bool) (num den : Nat) (h : num / den ≤ k * unitsPerOne)
    (hk : k ≤ safeBound) : (ofUnits negative num den).IsWithin (2 * k + 1) := by
  rw [ofUnits, dif_pos (nearestUnits_lt h hk)]
  exact isWithin_finite.mpr (nearestUnits_le_mul h)

/-- A double within bounds is finite. -/
theorem IsWithin.finite?_eq (hx : x.IsWithin k) : x.finite? = some x := by
  obtain ⟨negative, units, hr, rfl, -⟩ := hx
  rfl

/-- A whole number within a safe bound has a double beside it. -/
theorem exists_ofInt? {n : Int} (h : n.natAbs ≤ k) (hk : k ≤ safeBound) :
    ∃ x, ofInt? n = some x ∧ x.IsWithin (2 * k + 1) := by
  have hunits : n.natAbs * unitsPerOne / 1 ≤ k * unitsPerOne := by
    rw [Nat.div_one]
    exact Nat.mul_le_mul_right _ h
  have hwithin := isWithin_ofUnits (n < 0) (n.natAbs * unitsPerOne) 1 hunits hk
  exact ⟨_, by rw [ofInt?, hwithin.finite?_eq], hwithin⟩

/-- A bound may be raised. -/
theorem IsWithin.mono (hx : x.IsWithin j) (h : j ≤ k) : x.IsWithin k := by
  obtain ⟨negative, units, hr, rfl, hunits⟩ := hx
  exact isWithin_finite.mpr (Nat.le_trans hunits (Nat.mul_le_mul_right _ h))

/-- The sign has no part in it. -/
theorem IsWithin.neg (hx : x.IsWithin k) : x.neg.IsWithin k := by
  obtain ⟨negative, units, hr, rfl, hunits⟩ := hx
  exact isWithin_finite.mpr hunits

/-- A difference stays within bounds. Both magnitudes may add up, and rounding may double the sum.
-/
theorem IsWithin.sub (hx : x.IsWithin j) (hy : y.IsWithin k) (h : j + k ≤ safeBound) :
    (x.sub y).IsWithin (2 * (j + k) + 1) := by
  obtain ⟨s, a, ha, rfl, hleft⟩ := hx
  obtain ⟨t, b, hb, rfl, hright⟩ := hy
  rw [Binary64.sub, ofSignedUnits]
  split
  · exact isWithin_finite.mpr (Nat.zero_le _)
  · refine isWithin_ofUnits _ _ 1 ?_ h
    have habs : (signedUnits s a - signedUnits t b).natAbs ≤ a + b := by
      cases s <;> cases t <;> simp only [signedUnits] <;> omega
    rw [Nat.div_one, Nat.add_mul]
    omega

/-- A sum stays within bounds. -/
theorem IsWithin.add (hx : x.IsWithin j) (hy : y.IsWithin k) (h : j + k ≤ safeBound) :
    (x.add y).IsWithin (2 * (j + k) + 1) := hx.sub hy.neg h

/-- A product with a whole number stays within bounds. -/
theorem IsWithin.scale (hx : x.IsWithin k) (factor : Nat) (h : factor * k ≤ safeBound) :
    (x.scale factor).IsWithin (2 * (factor * k) + 1) := by
  obtain ⟨negative, units, hr, rfl, hunits⟩ := hx
  rw [Binary64.scale]
  refine isWithin_ofUnits negative (factor * units) 1 ?_ h
  rw [Nat.div_one, Nat.mul_assoc]
  exact Nat.mul_le_mul_left factor hunits

/-- A quotient of natural numbers is no larger than its numerator. The denominator may even be zero,
where the quotient is. -/
theorem isWithin_ofQuotient (num den : Nat) (h : num ≤ safeBound) :
    (ofQuotient num den).IsWithin (2 * num + 1) := by
  rw [ofQuotient]
  exact isWithin_ofUnits false (num * unitsPerOne) den (Nat.div_le_self _ _) h

/-- A double within bounds has a whole number below it. -/
theorem IsWithin.exists_floor (hx : x.IsWithin k) : ∃ n, x.floor = .ok n := by
  obtain ⟨negative, units, hr, rfl, -⟩ := hx
  exact ⟨_, rfl⟩

end Binary64

/-- A channel within bounds has a byte. The scaling and the sum with one half raise the bound, and
it stays safe. -/
theorem Color.exists_channelHex {x : Binary64} (hx : x.IsWithin (2 ^ (55 : Nat))) :
    ∃ t, channelHex x = .ok t := by
  have hscaled := hx.scale 255 (by decide)
  have hrounded := hscaled.add (Binary64.isWithin_ofQuotient 1 2 (by decide)) (by decide)
  obtain ⟨n, hn⟩ := hrounded.exists_floor
  exact ⟨_, by rw [channelHex, channelByte, Binary64.half, hn]; rfl⟩

/-- A value that is accepted as a number. A text that writes one is accepted as well. -/
def Schema.IsNumber (value : Json) : Prop := ∃ x, checkNumber value = .accepted x

namespace Json

/-- A whole number or a finite double, up to `2 ^ 53` in magnitude. Beyond that, differences of
whole numbers need not be doubles. -/
def IsMeasure : Json → Prop
  | .int n => n.natAbs ≤ 2 ^ (53 : Nat)
  | .double x => x.IsWithin (2 ^ (53 : Nat))
  | _ => False

/-- Each kind of value has its own test, or none. -/
instance : DecidablePred IsMeasure
  | .int n => inferInstanceAs (Decidable (n.natAbs ≤ 2 ^ (53 : Nat)))
  | .double x => inferInstanceAs (Decidable (x.IsWithin (2 ^ (53 : Nat))))
  | .null | .bool _ | .text _ | .list _ | .object _ => inferInstanceAs (Decidable False)

namespace IsMeasure

variable {a b : Json}

/-- A measure has a double beside it. -/
theorem exists_numeric? (ha : a.IsMeasure) :
    ∃ x, a.numeric? = some (.ok x) ∧ x.IsWithin (2 ^ (55 : Nat)) := by
  cases a with
  | int n =>
    obtain ⟨x, hx, hwithin⟩ := Binary64.exists_ofInt? ha (by decide)
    refine ⟨x, ?_, hwithin.mono (by decide)⟩
    simp only [numeric?, whole?, Option.map_some, hx, Option.elim_some]
  | double x => exact ⟨x, rfl, Binary64.IsWithin.mono ha (by decide)⟩
  | null | bool | text | list | object => cases ha

/-- A measure can be a colour channel. -/
theorem exists_valueHex (ha : a.IsMeasure) : ∃ t, Color.valueHex a = .ok t := by
  obtain ⟨x, hx, hwithin⟩ := ha.exists_numeric?
  obtain ⟨t, ht⟩ := Color.exists_channelHex hwithin
  refine ⟨t, ?_⟩
  simp only [Color.valueHex, toDouble, hx]
  exact ht

/-- The double beside a whole number within a safe bound is accepted. -/
theorem isNumber_int {n : Int} (h : n.natAbs ≤ 2 ^ (54 : Nat)) : Schema.IsNumber (.int n) := by
  obtain ⟨x, hx, -⟩ := Binary64.exists_ofInt? h (by decide)
  exact ⟨x, by rw [Schema.checkNumber, hx, Option.elim_some]⟩

/-- A measure is a number. -/
theorem isNumber (ha : a.IsMeasure) : Schema.IsNumber a := by
  cases a with
  | int n => exact isNumber_int (Nat.le_trans ha (by decide))
  | double x => exact ⟨x, rfl⟩
  | null | bool | text | list | object => cases ha

/-- A measure that is written as a whole number is within the limit. -/
theorem natAbs_le (ha : a.IsMeasure) {n : Int} (h : a.whole? = some n) :
    n.natAbs ≤ 2 ^ (53 : Nat) := by
  cases a with
  | int m =>
    cases h
    exact ha
  | double x => cases h
  | null | bool | text | list | object => cases ha

/-- The difference of two measures is a number. Two whole numbers are subtracted as such, and
anything else as doubles. -/
theorem exists_sub (ha : a.IsMeasure) (hb : b.IsMeasure) :
    ∃ d, a.sub b = .ok d ∧ Schema.IsNumber d := by
  obtain ⟨x, hx, -⟩ := ha.exists_numeric?
  obtain ⟨y, hy, -⟩ := hb.exists_numeric?
  rw [sub]
  split
  · next m n hm hn =>
    -- Whole numbers are subtracted exactly.
    have hleft := ha.natAbs_le hm
    have hright := hb.natAbs_le hn
    exact ⟨_, rfl, isNumber_int (by omega)⟩
  · rw [hx, hy]
    exact ⟨_, rfl, _, rfl⟩

end IsMeasure

end Json

end DesignCompiler
