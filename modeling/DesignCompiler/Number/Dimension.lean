import DesignCompiler.Number.Binary64
import DesignCompiler.Text.Digit

/-!
# `DesignCompiler.Number.Dimension`: sizes with at most two decimal places

A dimension of the generated code is a double rounded to hundredths, a half going to the even
neighbour. The double nearest to that decimal is what is written: all its digits if it is whole,
else two places without zeros at the end. There is no exponent and no negative zero.
-/

set_option autoImplicit false

namespace DesignCompiler.Dimension

open Text

/-- The hundredths nearest to a number of units. -/
def hundredths (units : Nat) : Nat := roundHalfEven (units * 100) unitsPerOne

/-- The double nearest to a number rounded to hundredths, in units. The second rounding matters:
what is written is a form of this double and not of the decimal. -/
def settled (units : Nat) : Nat := nearestUnits (hundredths units * unitsPerOne) 100

/-- A number of hundredths with a point before the last two digits; zeros at the end are left out,
and the point too if nothing follows it. -/
def placesText (n : Nat) : Text :=
  let places := trimEndBy (· = '0') [digitChar (n / 10 % 10), digitChar (n % 10)]
  ofNat (n / 100) ++ (if places.isEmpty then [] else '.' :: places)

/-- The written form of a non-negative dimension. -/
def magnitude (units : Nat) : Text :=
  let s := settled units
  if s % unitsPerOne = 0 then ofNat (s / unitsPerOne)
  else placesText (hundredths s)

/-- The written form of a dimension. The sign is left out where the magnitude is zero, so no
negative zero is written. What is not finite is written as a word. -/
def write : Binary64 → Text
  | .nan => "nan".toList
  | .infinite negative => (if negative then ['-'] else []) ++ "inf".toList
  | .finite negative units _ =>
    (if negative && settled units != 0 then ['-'] else []) ++ magnitude units

end DesignCompiler.Dimension
