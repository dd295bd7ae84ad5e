import DesignCompiler.Text.Digit

/-!
# `DesignCompiler.Json.Quoted`: texts as JSON strings

A JSON string escapes the quotation mark, the backslash and the characters below U+0020. Two forms
are written: `Quoted.unicode` leaves every other character as it is; `Quoted.ascii` also spells out
what lies outside the visible ASCII characters and the space, characters above U+FFFF as a pair of
surrogates.
-/

set_option autoImplicit false

namespace DesignCompiler.Quoted

open Text

/-- An escape of four hexadecimal digits. -/
def fourDigits (n : Nat) : Text := '\\' :: 'u' :: hexDigits 4 n

/-- The escape that a character needs in every JSON string: the quotation mark, the backslash and
the control characters, six of them by a letter. -/
def required? (c : Char) : Option Text :=
  if c = '"' then some ['\\', '"']
  else if c = '\\' then some ['\\', '\\']
  else if c = '\n' then some ['\\', 'n']
  else if c = '\r' then some ['\\', 'r']
  else if c = '\t' then some ['\\', 't']
  else if c.toNat = 8 then some ['\\', 'b']
  else if c.toNat = 12 then some ['\\', 'f']
  else if c.toNat < 0x20 then some (fourDigits c.toNat)
  else none

/-- A character inside a JSON string. -/
def unicodeChar (c : Char) : Text := (required? c).getD [c]

/-- A character inside a JSON string of ASCII characters. One above U+FFFF takes two escapes, the
surrogates of its code. -/
def asciiChar (c : Char) : Text :=
  match required? c with
  | some escape => escape
  | none =>
    let n := c.toNat
    if n < 0x7F then [c]
    else if n < 0x10000 then fourDigits n
    else fourDigits (0xD800 + (n - 0x10000) / 0x400) ++ fourDigits (0xDC00 + (n - 0x10000) % 0x400)

/-- A text as a JSON string with its characters as they are. -/
def unicode (t : Text) : Text := '"' :: t.flatMap unicodeChar ++ ['"']

/-- A text as a JSON string of ASCII characters. -/
def ascii (t : Text) : Text := '"' :: t.flatMap asciiChar ++ ['"']

end DesignCompiler.Quoted
