import DesignCompiler.Number.Binary64
import DesignCompiler.Text.Blank
import DesignCompiler.Text.Digit

/-!
# `DesignCompiler.Number.Decimal`: decimal numbers read as doubles

`Decimal.read?` accepts an optional sign followed by `inf`, `infinity` or `nan` in any case, or by
digits with an optional point (a digit on at least one side) and an optional exponent. The result is
the nearest double.

Two readers of free text are built on it, both with white space around the number. `readLoose?`
takes what an unchecked value may hold: decimal digits of any script, and single underscores between
digits. `readStrict?` takes what a checked field may hold: ASCII digits, and underscores that stand
neither at an end nor beside each other.
-/

set_option autoImplicit false

namespace DesignCompiler.Decimal

open Text

/-- A sign in front of a text: whether it is a minus, and what follows. -/
def splitSign : Text → Bool × Text
  | '-' :: rest => (true, rest)
  | '+' :: rest => (false, rest)
  | t => (false, t)

/-- An exponent, with its letter and sign, that makes up a whole text; no text is exponent zero. -/
def readExponent? : Text → Option Int
  | [] => some 0
  | c :: rest =>
    if c = 'e' ∨ c = 'E' then
      let (negative, digits) := splitSign rest
      if digits.isEmpty || !digits.all isDigit then none
      else some (if negative then -(toNat digits : Int) else toNat digits)
    else none

/-- Digits with an optional point and an optional exponent. A point needs a digit on one side; the
digits are read as one whole number, and the fraction lowers the exponent. -/
def readDigits? (negative : Bool) (t : Text) : Option Binary64 :=
  let whole := t.takeWhile isDigit
  let rest := t.dropWhile isDigit
  let (fraction, rest) := match rest with
    | '.' :: more => (more.takeWhile isDigit, more.dropWhile isDigit)
    | _ => ([], rest)
  if whole.isEmpty && fraction.isEmpty then none
  else (readExponent? rest).map fun exponent =>
    Binary64.ofDecimal negative (toNat (whole ++ fraction)) (exponent - fraction.length)

/-- A signed decimal number, or one of the words for infinity and for not a number. -/
def read? (t : Text) : Option Binary64 :=
  let (negative, body) := splitSign t
  let word := body.map lowerAscii
  if word = "inf".toList ∨ word = "infinity".toList then some (.infinite negative)
  else if word = "nan".toList then some .nan
  else readDigits? negative body

/-- Removes underscores that stand between two digits; `previous` tells whether a digit came just
before. Any other underscore makes the text unreadable. -/
def joinDigits? (previous : Bool) : Text → Option Text
  | [] => some []
  | '_' :: rest =>
    match rest with
    | next :: _ => if previous && isDigit next then joinDigits? false rest else none
    | [] => none
  | c :: rest => (joinDigits? (isDigit c) rest).map (c :: ·)

/-- A number in free text: white space around it, digits of any script, underscores between
digits. -/
def readLoose? (t : Text) : Option Binary64 :=
  (joinDigits? false (withAsciiDigits (trimBy isWhiteSpace t))).bind read?

/-- Whether two underscores stand beside each other. -/
def hasDoubleUnderscore : Text → Bool
  | '_' :: '_' :: _ => true
  | _ :: rest => hasDoubleUnderscore rest
  | [] => false

/-- A number in a checked field: white space around it, ASCII digits; a text that is no number as
it stands may become one without its underscores, if none stands at an end or beside another. -/
def readStrict? (t : Text) : Option Binary64 :=
  match read? (trimBy isWhiteSpace t) with
  | some x => some x
  | none =>
    if t.head? = some '_' ∨ t.getLast? = some '_' ∨ hasDoubleUnderscore t ∨ '_' ∉ t then none
    else read? (t.filter (· ≠ '_'))

end DesignCompiler.Decimal
