import DesignCompiler.Number.Rounding

/-!
# `DesignCompiler.Number.Binary64`: double-precision numbers, exactly

A finite double is a whole number of the smallest positive double, `2 ^ -1074`, which is called a
unit here; `2 ^ 1074` units make one. Not every number of units is a double: `IsRepresentable`
asks for a factor below `2 ^ 53` times a power of two, below `2 ^ 1024` in all. The sign is kept
apart, so that there are two zeros.

With this reading every operation is exact arithmetic on natural numbers followed by one rounding,
`nearestUnits`: to the nearest representable number, a half going to the even neighbour. The main
statements are `nearestUnits_representable` and `nearestUnits_mul`: the result is representable
unless it is too large, and a representable number stays what it is.
-/

set_option autoImplicit false

namespace DesignCompiler

/-- Powers of natural numbers are those of the core library here, whatever else is imported. A
library of algebra has powers of its own, which are the same numbers by another name. -/
scoped instance (priority := 2000) natPow : Pow Nat Nat := instPowNat

/-- How many units make one. -/
def unitsPerOne : Nat := 2 ^ (1074 : Nat)

/-- The least number of units that is too large for a double. -/
def unitsLimit : Nat := 2 ^ (2098 : Nat)

/-- There are units in one. It makes division by `unitsPerOne` division by something. -/
theorem unitsPerOne_pos : 0 < unitsPerOne := by
  rw [unitsPerOne]
  apply Nat.pow_pos
  decide

/-- Zero is not too large for a double. -/
theorem unitsLimit_pos : 0 < unitsLimit := by
  rw [unitsLimit]
  apply Nat.pow_pos
  decide

/-- Numbers of units that are doubles: a factor of 53 binary digits times a power of two. The
exponent is a natural number, so near zero there are fewer digits, as for doubles. -/
def IsRepresentable (units : Nat) : Prop :=
  units < unitsLimit
    ∧ ∃ factor exponent : Nat, factor < 2 ^ (53 : Nat) ∧ units = factor * 2 ^ exponent

/-- The representable number nearest to `num / den` units, as if there were no largest one: the
quotient is rounded to 53 binary digits, or to a whole number of units if that is coarser. Every
operation on doubles ends in one call of this function. -/
def nearestUnits (num den : Nat) : Nat :=
  let dropped := (num / den).log2 - 52
  -- Rounding up may carry into one more digit; the result is a power of two then.
  roundHalfEven num (den * 2 ^ dropped) * 2 ^ dropped

/-- Rounding leaves 53 binary digits. It says nothing about the size, which is checked where a
double is made. -/
theorem exists_factor_nearestUnits (num den : Nat) : ∃ factor exponent : Nat,
    factor < 2 ^ (53 : Nat) ∧ nearestUnits num den = factor * 2 ^ exponent := by
  unfold nearestUnits
  dsimp only
  generalize hd : (num / den).log2 - 52 = dropped
  have hquot : num / (den * 2 ^ dropped) < 2 ^ (53 : Nat) := by
    rw [← Nat.div_div_eq_div_mul]
    apply Nat.div_lt_of_lt_mul
    have hlog : num / den < 2 ^ ((num / den).log2 + 1) := Nat.lt_log2_self
    refine Nat.lt_of_lt_of_le hlog ?_
    rw [← Nat.pow_add]
    exact Nat.pow_le_pow_right (by decide) (by omega)
  -- The rounded factor has 53 digits, or it is the next power of two, which has one digit and one
  -- more zero.
  rcases Nat.lt_or_ge (roundHalfEven num (den * 2 ^ dropped)) (2 ^ (53 : Nat)) with hlt | hge
  · exact ⟨_, dropped, hlt, rfl⟩
  · have heq : roundHalfEven num (den * 2 ^ dropped) = 2 ^ (53 : Nat) := by
      rcases roundHalfEven_eq_or num (den * 2 ^ dropped) with hr | hr <;> omega
    refine ⟨2 ^ (52 : Nat), dropped + 1, by decide, ?_⟩
    rw [heq, Nat.pow_succ 2 dropped, Nat.pow_succ 2 52, Nat.mul_assoc, Nat.mul_comm 2]

/-- Rounding gives a representable number unless it is too large. -/
theorem nearestUnits_representable {num den : Nat} (h : nearestUnits num den < unitsLimit) :
    IsRepresentable (nearestUnits num den) :=
  ⟨h, exists_factor_nearestUnits num den⟩

/-- The binary digits that rounding drops from a representable number are zeros. This is why a
number that is a double already is not changed. -/
theorem two_pow_dvd_of_representable {units : Nat} (h : IsRepresentable units) :
    2 ^ (units.log2 - 52) ∣ units := by
  obtain ⟨-, factor, exponent, hfactor, rfl⟩ := h
  rcases Nat.eq_zero_or_pos factor with hzero | hpos
  · subst hzero
    simp
  · have hlt : factor * 2 ^ exponent < 2 ^ (53 + exponent) := by
      rw [Nat.pow_add]
      exact Nat.mul_lt_mul_of_pos_right hfactor (Nat.two_pow_pos exponent)
    have hne : factor * 2 ^ exponent ≠ 0 :=
      Nat.ne_of_gt (Nat.mul_pos hpos (Nat.two_pow_pos exponent))
    have hlog : (factor * 2 ^ exponent).log2 < 53 + exponent := (Nat.log2_lt hne).mpr hlt
    exact Nat.dvd_trans (Nat.pow_dvd_pow 2 (by omega)) (Nat.dvd_mul_left _ _)

/-- A quotient that is representable is not changed by rounding, whatever the numbers it is a
quotient of. -/
theorem nearestUnits_mul {units den : Nat} (h : IsRepresentable units) (hden : 0 < den) :
    nearestUnits (units * den) den = units := by
  obtain ⟨factor, hfactor⟩ := two_pow_dvd_of_representable h
  unfold nearestUnits
  rw [Nat.mul_div_cancel _ hden]
  generalize units.log2 - 52 = dropped at hfactor ⊢
  dsimp only
  have hquot : units * den = factor * (den * 2 ^ dropped) := by
    rw [hfactor, Nat.mul_comm (2 ^ dropped) factor, Nat.mul_assoc, Nat.mul_comm (2 ^ dropped) den]
  rw [hquot, roundHalfEven_mul _ (Nat.mul_pos hden (Nat.two_pow_pos dropped)), hfactor,
    Nat.mul_comm]

/-- A double-precision number. A finite one carries the proof that its units are those of a double,
so nothing else can be built. -/
inductive Binary64
  | nan
  | infinite (negative : Bool)
  | finite (negative : Bool) (units : Nat) (representable : IsRepresentable units)
  deriving DecidableEq

namespace Binary64

/-- The double nearest to the quotient `num / den` units with the given sign; a quotient too large
for a double becomes infinite. -/
def ofUnits (negative : Bool) (num den : Nat) : Binary64 :=
  if h : nearestUnits num den < unitsLimit then
    .finite negative (nearestUnits num den) (nearestUnits_representable h)
  else .infinite negative

/-- Zero with the given sign. -/
def zero (negative : Bool) : Binary64 :=
  .finite negative 0 ⟨unitsLimit_pos, 0, 0, by decide, by simp⟩

/-- The default double is zero, as it is for a field that is not given. -/
instance : Inhabited Binary64 := ⟨zero false⟩

/-- The double nearest to a quotient of natural numbers. -/
def ofQuotient (num den : Nat) : Binary64 := ofUnits false (num * unitsPerOne) den

/-- The number itself if it is finite. -/
def finite? : Binary64 → Option Binary64
  | .finite negative units h => some (.finite negative units h)
  | .nan | .infinite _ => none

/-- The double nearest to a whole number, if that is not too large. -/
def ofInt? (n : Int) : Option Binary64 :=
  finite? (ofUnits (n < 0) (n.natAbs * unitsPerOne) 1)

/-- The double nearest to `digits * 10 ^ exponent`. Exponents far outside the range of doubles are
settled first, so that no huge power is computed; the two bounds are wide of the range, and the
result there is the same. -/
def ofDecimal (negative : Bool) (digits : Nat) (exponent : Int) : Binary64 :=
  if digits = 0 then zero negative
  -- Doubles end before `10 ^ 309` and start after `10 ^ -324`.
  else if 400 < exponent then .infinite negative
  else if exponent + digits.log2 < -400 then zero negative
  else if 0 ≤ exponent then ofUnits negative (digits * 10 ^ exponent.toNat * unitsPerOne) 1
  else ofUnits negative (digits * unitsPerOne) (10 ^ (-exponent).toNat)

/-- A number of units with its sign. -/
def signedUnits (negative : Bool) (units : Nat) : Int := if negative then -units else units

/-- The double nearest to a signed number of units; `zeroNegative` is the sign of a zero, which the
number itself does not have. -/
def ofSignedUnits (zeroNegative : Bool) (units : Int) : Binary64 :=
  if units = 0 then zero zeroNegative else ofUnits (units < 0) units.natAbs 1

/-- The number with its sign changed. -/
def neg : Binary64 → Binary64
  | .nan => .nan
  | .infinite negative => .infinite !negative
  | .finite negative units h => .finite (!negative) units h

/-- The rounded difference. The infinite cases are those of the standard: equal infinities have no
difference, and otherwise the infinite one decides. -/
def sub : Binary64 → Binary64 → Binary64
  | .nan, _ => .nan
  | _, .nan => .nan
  | .infinite s, .infinite t => if s = t then .nan else .infinite s
  | .infinite s, .finite _ _ _ => .infinite s
  | .finite _ _ _, .infinite t => .infinite !t
  | .finite s a _, .finite t b _ => ofSignedUnits (s && !t) (signedUnits s a - signedUnits t b)

/-- The rounded sum, which is the rounded difference to the number with its sign changed. -/
def add (x y : Binary64) : Binary64 := sub x (neg y)

/-- The rounded product with a positive whole number. -/
def scale (factor : Nat) : Binary64 → Binary64
  | .nan => .nan
  | .infinite negative => .infinite negative
  | .finite negative units _ => ofUnits negative (factor * units) 1

/-- One half. -/
def half : Binary64 := ofQuotient 1 2

/-- Whether a number is zero, of either sign. -/
def isZero : Binary64 → Bool
  | .finite _ units _ => units = 0
  | _ => false

/-- Whether a number is greater than zero. -/
def isPositive : Binary64 → Bool
  | .nan => false
  | .infinite negative => !negative
  | .finite negative units _ => !negative && units != 0

/-- The whole number that a double is, if it is one. Both zeros are, and the sign of zero is lost.
-/
def whole? : Binary64 → Option Int
  | .finite negative units _ =>
    if units % unitsPerOne = 0 then some (signedUnits negative (units / unitsPerOne)) else none
  | _ => none

/-- Why a double has no whole number beside it. -/
inductive NotFinite
  | nan
  | infinite
  deriving DecidableEq

/-- The greatest whole number that is not above a double. -/
def floor : Binary64 → Except NotFinite Int
  | .nan => .error .nan
  | .infinite _ => .error .infinite
  | .finite negative units _ => .ok (Int.fdiv (signedUnits negative units) unitsPerOne)

/-- The whole number nearest to a double, a half going to the even neighbour. -/
def round : Binary64 → Except NotFinite Int
  | .nan => .error .nan
  | .infinite _ => .error .infinite
  | .finite negative units _ => .ok (signedUnits negative (roundHalfEven units unitsPerOne))

end Binary64

end DesignCompiler
