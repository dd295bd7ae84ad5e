import DesignCompiler.Fault
import DesignCompiler.Number.Decimal

/-!
# `DesignCompiler.Json.Arithmetic`: unchecked values as numbers

Positions and colour channels of a design file are used before anybody has checked them. A
difference of whole numbers is exact, a difference with a double is rounded; truth values count as
zero and one. A text becomes a double if it writes a number.
-/

set_option autoImplicit false

namespace DesignCompiler.Json

/-- The whole number that a value is, truth values included. Two of them have an exact difference.
-/
def whole? : Json → Option Int
  | .int n => some n
  | .bool b => some b.toNat
  | _ => none

/-- The double beside a number, truth values included; texts are no numbers here. A whole number
beyond the greatest double has none, and asking for it is a fault. -/
def numeric? : Json → Option (Except Fault Binary64)
  | .double x => some (.ok x)
  | value => value.whole?.map fun n => (Binary64.ofInt? n).elim (.error .wholeTooLarge) .ok

/-- The difference of two unchecked values: exact for whole numbers, rounded if one is a double, and
a fault for anything else, as positions may be any JSON value. -/
def sub (left right : Json) : Except Fault Json :=
  match left.whole?, right.whole? with
  | some a, some b => .ok (.int (a - b))
  | _, _ =>
    match left.numeric?, right.numeric? with
    | some a, some b => do
      let a ← a
      let b ← b
      return .double (a.sub b)
    | _, _ => .error (.noDifference left.kind right.kind)

/-- The double that an unchecked value writes. Unlike a difference, this accepts a text, with blanks
around the number. -/
def toDouble (value : Json) : Except Fault Binary64 :=
  match value.numeric? with
  | some x => x
  | none =>
    match value with
    | .text t =>
      match Decimal.readLoose? t with
      | some x => .ok x
      | none => .error (.noNumberText t)
    | _ => .error (.notNumeric value.kind)

end DesignCompiler.Json
