import DesignCompiler.Json.Value
import DesignCompiler.Number.Shortest
import DesignCompiler.Text.Digit
import DesignCompiler.Text.Printable

/-!
# `DesignCompiler.Json.Inline`: values shown inside a sentence

Messages and titles show the value they speak of. A text stands in single quotes, or in double
quotes if it holds a single quote and no double one; characters that cannot be shown are spelled
out. Lists and objects show their members in the same way. `Json.shown` is the form for names and
titles: a text as it is, any other value inline.
-/

set_option autoImplicit false

namespace DesignCompiler

namespace Text

/-- The single quote. -/
def apostrophe : Char := Char.ofNat 0x27

/-- A character inside quotes, spelled out if it cannot be shown or is the quote itself. The code
has as many digits as the character needs: two, four or eight. -/
def inlineChar (quote c : Char) : Text :=
  let n := c.toNat
  if c = quote ∨ c = '\\' then ['\\', c]
  else if c = '\n' then ['\\', 'n']
  else if c = '\r' then ['\\', 'r']
  else if c = '\t' then ['\\', 't']
  else if isPrintable c then [c]
  else if n < 0x100 then '\\' :: 'x' :: hexDigits 2 n
  else if n < 0x10000 then '\\' :: 'u' :: hexDigits 4 n
  else '\\' :: 'U' :: hexDigits 8 n

/-- The quote that a text is shown in: the single one, unless the text holds it and not the double
one. -/
def inlineQuote (t : Text) : Char :=
  if apostrophe ∈ t ∧ '"' ∉ t then '"' else apostrophe

/-- A text in quotes. -/
def inline (t : Text) : Text :=
  let quote := inlineQuote t
  quote :: t.flatMap (inlineChar quote) ++ [quote]

end Text

namespace Json

/-- Doubles inside a sentence: laid out as in JSON, with short words. -/
def inlineForm : Shortest.Notation := ⟨-3, 16, "inf".toList, "nan".toList⟩

mutual

/-- A value as it is shown inside a sentence. -/
def inline : Json → Text
  | .null => "None".toList
  | .bool true => "True".toList
  | .bool false => "False".toList
  | .int n => Text.ofInt n
  | .double x => Shortest.write inlineForm x
  | .text t => Text.inline t
  | .list [] => "[]".toList
  | .list (item :: rest) => '[' :: inline item ++ inlineItems rest ++ [']']
  | .object [] => ['{', '}']
  | .object ((name, value) :: rest) =>
    '{' :: Text.inline name ++ ": ".toList ++ inline value ++ inlineFields rest ++ ['}']

/-- The items after the first one. -/
def inlineItems : List Json → Text
  | [] => []
  | item :: rest => ", ".toList ++ inline item ++ inlineItems rest

/-- The fields after the first one. -/
def inlineFields : Fields → Text
  | [] => []
  | (name, value) :: rest =>
    ", ".toList ++ Text.inline name ++ ": ".toList ++ inline value ++ inlineFields rest

end

/-- A value as a name or title shows it: a text as it is, any other value inline. Only a text can
bring a line feed with it. -/
def shown : Json → Text
  | .text t => t
  | value => inline value

end Json

end DesignCompiler
