import DesignCompiler.Number.Binary64
import DesignCompiler.Text.Basic

/-!
# `DesignCompiler.Json.Value`: JSON values

Design files, layout trees and requests arrive as JSON whose shape nobody has checked, so a value
type of its own is the input of the whole library. Whole numbers are kept apart from doubles: the
first are exact and of any size. The fields of an object stay in the order in which they were
written; a name occurs once, and writing it again replaces the value where the name first stood
(`setField`).

A value is *blank* (`isBlank`) if it stands for nothing: null, false, zero, an empty text, list or
object. Optional fields of a design file fall back to a default when they are blank.
-/

set_option autoImplicit false

namespace DesignCompiler

/-- A JSON value. -/
inductive Json
  | null
  | bool (b : Bool)
  | int (n : Int)
  | double (x : Binary64)
  | text (t : Text)
  | list (items : List Json)
  | object (fields : List (Text × Json))
  deriving Inhabited

namespace Json

/-- The fields of an object, in order. -/
abbrev Fields := List (Text × Json)

/-- What a value is, without what it holds. Messages name the kind of a value that cannot be used.
-/
inductive Kind
  | null
  | bool
  | int
  | double
  | text
  | list
  | object
  deriving DecidableEq

/-- The word for a kind in messages. -/
def Kind.label : Kind → Text
  | .null => "NoneType".toList
  | .bool => "bool".toList
  | .int => "int".toList
  | .double => "float".toList
  | .text => "str".toList
  | .list => "list".toList
  | .object => "dict".toList

/-- What a value is. -/
def kind : Json → Kind
  | .null => .null
  | .bool _ => .bool
  | .int _ => .int
  | .double _ => .double
  | .text _ => .text
  | .list _ => .list
  | .object _ => .object

/-- Whether a value stands for nothing. Not a number does stand for something, and so does a text of
blanks. -/
def isBlank : Json → Bool
  | .null => true
  | .bool b => !b
  | .int n => n = 0
  | .double x => x.isZero
  | .text t => t.isEmpty
  | .list items => items.isEmpty
  | .object fields => fields.isEmpty

/-- The value, or `fallback` if it is blank. A field that is missing and one that is blank lead to
the same default. -/
def orIfBlank (value fallback : Json) : Json := if value.isBlank then fallback else value

/-- The value of a field. -/
def field? (fields : Fields) (name : Text) : Option Json :=
  (fields.find? fun entry => entry.1 = name).map (·.2)

/-- The value of a field, null if there is none. -/
def fieldOrNull (fields : Fields) (name : Text) : Json := (field? fields name).getD .null

/-- Sets a field: in its place if the name is there already, else at the end. So the fields of an
object keep the order in which their names first stood. -/
def setField (name : Text) (value : Json) : Fields → Fields
  | [] => [(name, value)]
  | (key, old) :: rest =>
    if key = name then (key, value) :: rest else (key, old) :: setField name value rest

/-- Whether a value is the given text. -/
def isText (value : Json) (t : Text) : Bool :=
  match value with
  | .text s => s = t
  | _ => false

end Json

end DesignCompiler
