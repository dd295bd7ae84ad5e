import DesignCompiler.Text.Ascii

/-!
# `DesignCompiler.Text.Digit`: digits and the numbers they write

Decimal digits of a natural number without leading zeros, hexadecimal digits in a fixed width, and
the values of both. `decimalValue?` knows the decimal digits of every script, the Unicode category
`Nd`, which comes in runs of ten; all else here is ASCII.
-/

set_option autoImplicit false

namespace DesignCompiler.Text

/-- The value of an ASCII digit. -/
def digitValue (c : Char) : Nat := c.toNat - 0x30

/-- The digit of a value below ten. -/
def digitChar (n : Nat) : Char := Char.ofNat (0x30 + n)

/-- The decimal digits of a number, the first one not `0` unless the number is zero. The recursion
takes the last digit off, so proofs about it go up from the front digit. -/
def ofNat (n : Nat) : Text :=
  if n < 10 then [digitChar n] else ofNat (n / 10) ++ [digitChar (n % 10)]
termination_by n
decreasing_by omega

/-- A number with its sign in front if it is negative. -/
def ofInt : Int → Text
  | .ofNat n => ofNat n
  | .negSucc n => '-' :: ofNat (n + 1)

/-- The number that a run of ASCII digits writes. -/
def toNat (t : Text) : Nat := t.foldl (fun n c => 10 * n + digitValue c) 0

/-- The value of a hexadecimal digit of either case. -/
def hexValue? (c : Char) : Option Nat :=
  let n := c.toNat
  if 0x30 ≤ n ∧ n ≤ 0x39 then some (n - 0x30)
  else if 0x61 ≤ n ∧ n ≤ 0x66 then some (n - 0x61 + 10)
  else if 0x41 ≤ n ∧ n ≤ 0x46 then some (n - 0x41 + 10)
  else none

/-- The lower-case hexadecimal digit of a value below sixteen. -/
def hexChar (n : Nat) : Char := if n < 10 then digitChar n else Char.ofNat (0x61 + (n - 10))

/-- The last `width` hexadecimal digits of a number. A number with more digits loses its first ones,
which does not happen to a byte of two. -/
def hexDigits : Nat → Nat → Text
  | 0, _ => []
  | width + 1, n => hexDigits width (n / 16) ++ [hexChar (n % 16)]

/-- The zeros of the runs of ten that make up the decimal digits of all scripts. -/
def decimalZeros : List Nat :=
  [0x30, 0x660, 0x6F0, 0x7C0, 0x966, 0x9E6, 0xA66, 0xAE6, 0xB66, 0xBE6, 0xC66, 0xCE6, 0xD66, 0xDE6,
   0xE50, 0xED0, 0xF20, 0x1040, 0x1090, 0x17E0, 0x1810, 0x1946, 0x19D0, 0x1A80, 0x1A90, 0x1B50,
   0x1BB0, 0x1C40, 0x1C50, 0xA620, 0xA8D0, 0xA900, 0xA9D0, 0xA9F0, 0xAA50, 0xABF0, 0xFF10, 0x104A0,
   0x10D30, 0x11066, 0x110F0, 0x11136, 0x111D0, 0x112F0, 0x11450, 0x114D0, 0x11650, 0x116C0,
   0x11730, 0x118E0, 0x11950, 0x11C50, 0x11D50, 0x11DA0, 0x16A60, 0x16AC0, 0x16B50, 0x1D7CE,
   0x1D7D8, 0x1D7E2, 0x1D7EC, 0x1D7F6, 0x1E140, 0x1E2F0, 0x1E950, 0x1FBF0]

/-- The value of a decimal digit of any script. -/
def decimalValue? (c : Char) : Option Nat :=
  (decimalZeros.find? fun first => first ≤ c.toNat && c.toNat < first + 10).map (c.toNat - ·)

/-- Decimal digits of all scripts written as ASCII digits; every other character stays. -/
def withAsciiDigits (t : Text) : Text :=
  t.map fun c => match decimalValue? c with
    | some n => digitChar n
    | none => c

end DesignCompiler.Text
