import DesignCompiler.Text.Basic

/-!
# `DesignCompiler.Text.Ascii`: ASCII letters and digits

Names of generated components, file keys and the grammar of numbers know ASCII only: no letter or
digit of another script is one here.
-/

set_option autoImplicit false

namespace DesignCompiler.Text

/-- An ASCII digit. -/
def isDigit (c : Char) : Bool := 0x30 ≤ c.toNat && c.toNat ≤ 0x39

/-- An ASCII letter of either case. -/
def isLetter (c : Char) : Bool :=
  (0x41 ≤ c.toNat && c.toNat ≤ 0x5A) || (0x61 ≤ c.toNat && c.toNat ≤ 0x7A)

/-- An ASCII letter or digit. -/
def isAlphanumeric (c : Char) : Bool := isDigit c || isLetter c

/-- The lower case of an ASCII letter; every other character stays. -/
def lowerAscii (c : Char) : Char :=
  if 0x41 ≤ c.toNat ∧ c.toNat ≤ 0x5A then Char.ofNat (c.toNat + 0x20) else c

/-- The upper case of an ASCII letter; every other character stays. -/
def upperAscii (c : Char) : Char :=
  if 0x61 ≤ c.toNat ∧ c.toNat ≤ 0x7A then Char.ofNat (c.toNat - 0x20) else c

end DesignCompiler.Text
