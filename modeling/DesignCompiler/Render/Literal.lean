import DesignCompiler.Fault
import DesignCompiler.Json.Quoted

/-!
# `DesignCompiler.Render.Literal`: string literals of the three target languages

Texts of a design go into string literals. Swift and Kotlin escape the backslash, the quotation
mark, line feed, carriage return and tab; Kotlin also the dollar sign, which would start a template.
A JavaScript literal is a JSON string.
-/

set_option autoImplicit false

namespace DesignCompiler.Literal

/-- A character inside a Swift literal. The five that are escaped are those that would end the
literal, break its line, or be taken for an escape. -/
def swiftChar (c : Char) : Text :=
  if c = '\\' then ['\\', '\\']
  else if c = '"' then ['\\', '"']
  else if c = '\n' then ['\\', 'n']
  else if c = '\r' then ['\\', 'r']
  else if c = '\t' then ['\\', 't']
  else [c]

/-- A character inside a Kotlin literal. A dollar sign would begin a template, so it is escaped as
well. -/
def kotlinChar (c : Char) : Text := if c = '$' then ['\\', '$'] else swiftChar c

/-- A text as a Swift string literal, character by character. `Proofs/Lexical/Literal` proves it
equal to the five replacements made one after the other on the whole text. -/
def swift (t : Text) : Text := '"' :: t.flatMap swiftChar ++ ['"']

/-- A text as a Kotlin string literal, likewise in one pass. -/
def kotlin (t : Text) : Text := '"' :: t.flatMap kotlinChar ++ ['"']

/-- A text as a JavaScript string literal. -/
def javaScript (t : Text) : Text := Quoted.unicode t

/-- The text of an unchecked value that is to be quoted. -/
def textOf : Json → Except Fault Text
  | .text t => .ok t
  | value => .error (.noOperation value.kind "replace".toList)

end DesignCompiler.Literal
