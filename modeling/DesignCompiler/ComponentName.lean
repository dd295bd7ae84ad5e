import DesignCompiler.Fault
import DesignCompiler.Text.Ascii

/-!
# `DesignCompiler.ComponentName`: layer names as identifiers

A component is named after its layer: the ASCII letters and digits of the layer's name, in order,
from the first letter on, which is put in upper case. A name without an ASCII letter gives the
default.
-/

set_option autoImplicit false

namespace DesignCompiler.ComponentName

open Text

/-- The name of a component whose layer's name holds no letter. -/
def fallback : Text := "ExtractedComponent".toList

/-- The identifier for a layer's name. It is one pass over the name; `Proofs/Generate/ComponentName`
proves it equal to the three passes that filter, strip and capitalise one after the other. -/
def ofName (name : Text) : Text :=
  -- Filtering comes first: digits that were apart in the name may come together.
  match (name.filter isAlphanumeric).dropWhile isDigit with
  | [] => fallback
  | first :: rest => upperAscii first :: rest

/-- The identifier for an unchecked name. A blank one, null included, gives the default; any other
value that is no text fails. -/
def ofValue (value : Json) : Except Fault Text :=
  if value.isBlank then .ok fallback
  else match value with
    | .text name => .ok (ofName name)
    | _ => .error (.textExpected value.kind)

end DesignCompiler.ComponentName
