import DesignCompiler.Number.Binary64
import DesignCompiler.Text.Digit

/-!
# `DesignCompiler.Number.Shortest`: the fewest digits that read back

`Shortest.digits` gives, for a positive number of units, the decimal number with the fewest digits
whose nearest double it is; among those with the fewest digits it takes the nearest. For one to
seventeen digits it looks at the two neighbours of the value on the grid of decimals with so many
digits. Should no grid have a hit, all digits of the exact value are written, so that the result
reads back in any case: `units_digits`.

`Notation` holds the decisions of a written form: where the point may stand without an exponent, and
the words for infinity and for not a number.
-/

set_option autoImplicit false

namespace DesignCompiler.Shortest

open Text

/-- A decimal number `digits * 10 ^ exponent`. -/
structure Scaled where
  digits : Nat
  exponent : Int
  deriving DecidableEq

/-- The number of units that a decimal is read as. It does not ask whether the decimal is too large
for a double. -/
def Scaled.units (d : Scaled) : Nat :=
  if 0 ≤ d.exponent then nearestUnits (d.digits * 10 ^ d.exponent.toNat * unitsPerOne) 1
  else nearestUnits (d.digits * unitsPerOne) (10 ^ (-d.exponent).toNat)

/-- Where the decimal point stands: the value lies below `10 ^ point` and not below a tenth of
it. -/
def point (units : Nat) : Int :=
  if unitsPerOne ≤ units then (ofNat (units / unitsPerOne)).length
  -- No double lies below `10 ^ -330` but zero, so the scaled value has a whole part.
  else (ofNat (units * 10 ^ (330 : Nat) / unitsPerOne)).length - 330

/-- The value's neighbours among the multiples of `10 ^ exponent`, the nearer one first. The decimal
that reads back is one of the two if there is one on the grid at all. -/
def neighbours (units : Nat) (exponent : Int) : List Scaled :=
  let num := if 0 ≤ exponent then units else units * 10 ^ (-exponent).toNat
  let den := if 0 ≤ exponent then unitsPerOne * 10 ^ exponent.toNat else unitsPerOne
  let below := num / den
  let nearer := roundHalfEven num den
  let other := if nearer = below then below + 1 else below
  [⟨nearer, exponent⟩, ⟨other, exponent⟩]

/-- The neighbour on the grid of `count` digits that reads back, if there is one. The nearer one is
tried first. -/
def onGrid? (units : Nat) (top : Int) (count : Nat) : Option Scaled :=
  (neighbours units (top - count)).find? fun d => d.units = units

/-- All digits of the exact value. A unit is `2 ^ -1074`, so 1074 places are enough for every
double. -/
def exactDigits (units : Nat) : Scaled := ⟨units * 5 ^ (1074 : Nat), -1074⟩

/-- The shortest decimal that reads back, for a positive number of units. Grids are tried from one
digit on, so the first hit has the fewest. -/
def digits (units : Nat) : Scaled :=
  let top := point units
  ((List.range 17).findSome? fun i => onGrid? units top (i + 1)).getD (exactDigits units)

/-- All digits of a number of units are as many places as there are halvings from one to a unit. -/
theorem units_allPlaces (places : Nat) {units : Nat} (h : IsRepresentable units) (hpos : 0 < places)
    (hunit : unitsPerOne = 2 ^ places) :
    (Scaled.mk (units * 5 ^ places) (-(places : Int))).units = units := by
  have hneg : ¬ (0 : Int) ≤ -(places : Int) := by omega
  have hplaces : (- -(places : Int)).toNat = places := by omega
  unfold Scaled.units
  dsimp only
  rw [if_neg hneg, hplaces, hunit, Nat.mul_assoc, ← Nat.mul_pow]
  exact nearestUnits_mul h (Nat.pow_pos (by decide))

/-- All digits of the exact value read back. -/
theorem units_exactDigits {units : Nat} (h : IsRepresentable units) :
    (exactDigits units).units = units :=
  units_allPlaces 1074 h (by decide) (by rw [unitsPerOne])

/-- The shortest decimal reads back. The proof does not need that seventeen digits are always
enough: the exact value is the last resort and reads back too. -/
theorem units_digits {units : Nat} (h : IsRepresentable units) : (digits units).units = units := by
  unfold digits
  dsimp only
  -- Either a grid has a hit, and a hit reads back by its own test, or all digits are written.
  cases hgrid : (List.range 17).findSome? fun i => onGrid? units (point units) (i + 1) with
  | none => exact units_exactDigits h
  | some d =>
    rw [Option.getD_some]
    obtain ⟨i, -, hi⟩ := List.exists_of_findSome?_eq_some hgrid
    have hfound := List.find?_some hi
    simpa using hfound

/-- The decisions of a written form. -/
structure Notation where
  /-- The leftmost point that is written without an exponent. -/
  leastPoint : Int
  /-- The rightmost point that is written without an exponent. -/
  greatestPoint : Int
  infinity : Text
  notANumber : Text

/-- The text without zeros at its end. -/
def trimZeros (t : Text) : Text := trimEndBy (· = '0') t

/-- An exponent with its sign and at least two digits. -/
def exponentText (n : Int) : Text :=
  let size := ofNat n.natAbs
  (if n < 0 then '-' else '+') :: (if size.length < 2 then '0' :: size else size)

/-- Digits, the first of which is not zero, with the point after `point` of them. -/
def layout (form : Notation) (digits : Text) (point : Int) : Text :=
  if point < form.leastPoint ∨ form.greatestPoint < point then
    match digits with
    | [] => []
    | first :: rest =>
      first :: (if rest.isEmpty then [] else '.' :: rest) ++ ('e' :: exponentText (point - 1))
  else if point ≤ 0 then "0.".toList ++ List.replicate (-point).toNat '0' ++ digits
  else if digits.length ≤ point.toNat then
    digits ++ List.replicate (point.toNat - digits.length) '0' ++ ".0".toList
  else digits.take point.toNat ++ '.' :: digits.drop point.toNat

/-- The written form of a double. -/
def write (form : Notation) : Binary64 → Text
  | .nan => form.notANumber
  | .infinite negative => (if negative then ['-'] else []) ++ form.infinity
  | .finite negative units _ =>
    (if negative then ['-'] else []) ++
      (if units = 0 then "0.0".toList
       else
        let d := digits units
        let all := ofNat d.digits
        layout form (trimZeros all) (all.length + d.exponent))

end DesignCompiler.Shortest
