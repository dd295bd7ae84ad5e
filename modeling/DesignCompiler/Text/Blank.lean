import DesignCompiler.Text.Basic

/-!
# `DesignCompiler.Text.Blank`: white space and the words between it

Two classes of characters are in use. `isWhiteSpace` is the Unicode property `White_Space`;
`isBlank` adds the four information separators U+001C to U+001F. Layer names, colours and font
weights are trimmed and cut at blanks, numbers and the strings of a request at white space.

Zero-width characters (U+200B, U+FEFF) and the vowel separator U+180E are in neither class.
-/

set_option autoImplicit false

namespace DesignCompiler.Text

/-- The Unicode property `White_Space`. -/
def isWhiteSpace (c : Char) : Bool :=
  let n := c.toNat
  (9 ≤ n && n ≤ 13) || n = 0x20 || n = 0x85 || n = 0xA0 || n = 0x1680
    || (0x2000 ≤ n && n ≤ 0x200A) || n = 0x2028 || n = 0x2029 || n = 0x202F || n = 0x205F
    || n = 0x3000

/-- White space, or one of the information separators U+001C to U+001F. -/
def isBlank (c : Char) : Bool := isWhiteSpace c || (0x1C ≤ c.toNat && c.toNat ≤ 0x1F)

/-- The text without the blanks at its two ends. -/
def trim (t : Text) : Text := trimBy isBlank t

/-- The longest runs of characters that are not blank, in order. The recursion looks one character
ahead: a run ends where a blank is next. -/
def words : Text → List Text
  | [] => []
  | c :: rest =>
    if isBlank c then words rest
    else match rest, words rest with
      | next :: _, word :: more => if isBlank next then [c] :: word :: more else (c :: word) :: more
      | _, more => [c] :: more

/-- The words of a text with one space between each two: the text on one line, whatever blanks it
was written with. A line feed is a blank, so none is left. -/
def onOneLine (t : Text) : Text := joinWith [' '] (words t)

end DesignCompiler.Text
