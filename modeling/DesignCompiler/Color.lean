import DesignCompiler.Json.Arithmetic
import DesignCompiler.Text.Ascii
import DesignCompiler.Text.Blank
import DesignCompiler.Text.Digit

/-!
# `DesignCompiler.Color`: colours as eight hexadecimal digits

A design file gives a colour by four channels between zero and one; the layout tree writes it as `#`
and two lower-case digits for each of red, green, blue and alpha. A channel is scaled to 255 and
rounded half up, both in double precision, and cut off at the ends of the range. A missing channel
is zero, a missing or null alpha is one.

`Color.decode` reads six or eight digits of either case behind any number of `#`, blanks around them
allowed; six digits mean full alpha. Each byte becomes the double nearest to its 255th part.
-/

set_option autoImplicit false

namespace DesignCompiler

/-- The four channels of a colour, one meaning full. The channels are doubles and not bytes: a
colour that a design gives need not be one that eight digits can write. -/
structure Color where
  red : Binary64
  green : Binary64
  blue : Binary64
  alpha : Binary64
  deriving DecidableEq

namespace Color

open Text

/-- The byte of a channel: its 255-fold, rounded half up by adding a half and taking the floor, and
cut off at both ends. The scaling and the sum round as doubles do, which is why the byte is not
defined over the rationals; `Proofs/Color/Accuracy` bounds the difference.

An infinite channel or one that is no number has no floor, and the fault says so. -/
def channelByte (x : Binary64) : Except Fault Nat :=
  match ((x.scale 255).add .half).floor with
  | .error e => .error (.ofNotFinite e)
  | .ok n => .ok (max 0 (min 255 n)).toNat

/-- The two digits of a channel. Two are always enough, since a byte is at most 255. -/
def channelHex (x : Binary64) : Except Fault Text := (channelByte x).map (hexDigits 2)

/-- The two digits of an unchecked channel, which may be a number, a text that writes one, or
nothing of the kind. -/
def valueHex (value : Json) : Except Fault Text := value.toDouble.bind channelHex

/-- The written form of a colour: `#` and the digits of red, green, blue and alpha. It fails exactly
where a channel has no byte, and then with the fault of the first such channel. -/
def encode (c : Color) : Except Fault Text := do
  let red ← channelHex c.red
  let green ← channelHex c.green
  let blue ← channelHex c.blue
  let alpha ← channelHex c.alpha
  return '#' :: red ++ green ++ blue ++ alpha

/-- The alpha channel of an unchecked colour. Null counts as missing here, and a missing alpha is
one; the other channels take null as it stands and fail on it. -/
def alphaOf (fields : Json.Fields) : Json :=
  match Json.fieldOrNull fields "a".toList with
  | .null => .int 1
  | value => value

/-- The written form of an unchecked colour. The channels are looked at in order, so of two
unreadable ones the first is named. -/
def encodeFields (fields : Json.Fields) : Except Fault Text := do
  let red ← valueHex ((Json.field? fields "r".toList).getD (.int 0))
  let green ← valueHex ((Json.field? fields "g".toList).getD (.int 0))
  let blue ← valueHex ((Json.field? fields "b".toList).getD (.int 0))
  let alpha ← valueHex (alphaOf fields)
  return '#' :: red ++ green ++ blue ++ alpha

/-- The written form of a value that should be a colour. A value that is no object fails as one that
cannot be asked for its fields. -/
def encodeValue : Json → Except Fault Text
  | .object fields => encodeFields fields
  | value => .error (.noOperation value.kind "get".toList)

/-- A hexadecimal digit of either case. -/
def isHexDigit (c : Char) : Bool := (hexValue? c).isSome

/-- The bytes that pairs of hexadecimal digits write. It is applied to checked digits only; the
default of a digit that is none is never taken there. -/
def bytes : Text → List Nat
  | high :: low :: rest => ((hexValue? high).getD 0 * 16 + (hexValue? low).getD 0) :: bytes rest
  | _ => []

/-- The double nearest to the 255th part of a byte. Writing it again gives the byte back
(`Proofs/Color/Hexadecimal`). -/
def byteChannel (byte : Nat) : Binary64 := .ofQuotient byte 255

/-- The digits of a written colour, alpha included, if it is one: blanks around it and any number of
`#` in front are taken away first. -/
def digits? (t : Text) : Option Text :=
  let body := (trim t).dropWhile (· = '#')
  -- Without alpha the colour is opaque.
  let full := if body.length = 6 then body ++ ['f', 'f'] else body
  if full.length = 8 ∧ full.all isHexDigit then some full else none

/-- The colour that a text writes. The fault carries the text as it was given, blanks and `#`
included. -/
def decode (t : Text) : Except Fault Color :=
  match (digits? t).map bytes with
  | some [red, green, blue, alpha] =>
    .ok ⟨byteChannel red, byteChannel green, byteChannel blue, byteChannel alpha⟩
  | _ => .error (.badHexColor t)

/-- The colour that a value writes. -/
def decodeValue : Json → Except Fault Color
  | .text t => decode t
  | value => .error (.noOperation value.kind "strip".toList)

end Color

end DesignCompiler
