import DesignCompiler.Json.Value
import DesignCompiler.Number.Decimal
import DesignCompiler.Schema.Issue
import DesignCompiler.Text.Ascii

/-!
# `DesignCompiler.Schema.Leaf`: checks of single values

What a field of each type takes. A number may be written as a number, a truth value or a text; a
truth value may also be written as a whole number or one of twelve words. Texts, lists and tokens
are taken only as such.

`field` looks a field up under each of its names, the first of which wins even if its value is null,
and puts the name that was used into the location of every complaint.
-/

set_option autoImplicit false

namespace DesignCompiler.Schema

variable {α : Type}

/-- A text. -/
def checkText : Json → Checked Text
  | .text t => .accepted t
  | _ => .refuse .notText

/-- A number, which becomes a double. A whole number beyond the doubles is refused and not rounded
to infinity. -/
def checkNumber : Json → Checked Binary64
  | .double x => .accepted x
  | .int n => (Binary64.ofInt? n).elim (.refuse .notNumber) .accepted
  | .bool b => .accepted (Binary64.ofQuotient b.toNat 1)
  | .text t =>
    match Decimal.readStrict? t with
    | some x => .accepted x
    | none => .refuse .numberText
  | _ => .refuse .notNumber

/-- The words for true, in lower case. -/
def trueWords : List Text :=
  ["1".toList, "on".toList, "t".toList, "true".toList, "y".toList, "yes".toList]

/-- The words for false, in lower case. -/
def falseWords : List Text :=
  ["0".toList, "off".toList, "f".toList, "false".toList, "n".toList, "no".toList]

/-- Powers of whole numbers are those of the core library in this module, whatever else is
imported. -/
local instance (priority := 2000) intPow : Pow Int Nat := instPowNat

/-- The least whole number that is looked at as a truth value. -/
def leastWord : Int := -2 ^ (63 : Nat)

/-- The least whole number above those that are looked at as a truth value. -/
def wordLimit : Int := 2 ^ (63 : Nat)

/-- The whole number that a value is, of those that are looked at as a truth value. Only zero and
one are one; the bounds decide which complaint the others get. -/
def word? : Json → Option Int
  | .int n => if leastWord ≤ n ∧ n < wordLimit then some n else none
  -- A double at the lower end may stand for a number beyond it, so it is left out.
  | .double x => x.whole?.filter fun n => leastWord < n && n < wordLimit
  | _ => none

/-- A truth value. -/
def checkBool : Json → Checked Bool
  | .bool b => .accepted b
  | .text t =>
    let word := t.map Text.lowerAscii
    if word ∈ trueWords then .accepted true
    else if word ∈ falseWords then .accepted false
    else .refuse .boolText
  | value =>
    match word? value with
    | none => .refuse .notBool
    | some n =>
      if n = 0 then .accepted false
      else if n = 1 then .accepted true
      else .refuse .boolText

/-- One of the tokens of an enumeration. -/
def checkToken (tokens : List (Text × α)) : Json → Checked α
  | .text t =>
    match tokens.find? fun entry => entry.1 = t with
    | some (_, value) => .accepted value
    | none => .refuse .notToken
  | _ => .refuse .notToken

/-- A value or null. -/
def nullable (check : Json → Checked α) : Json → Checked (Option α)
  | .null => .accepted none
  | value => (check value).map some

/-- The value given under the first of the names that is there, with that name. -/
def given? (fields : Json.Fields) (names : List Text) : Option (Text × Json) :=
  names.findSome? fun name => (Json.field? fields name).map (name, ·)

/-- Checks a field that has a default. The default is taken as it stands; the check is for values
that are given. -/
def field (fallback : α) (check : Json → Checked α) : Option (Text × Json) → Checked α
  | none => .accepted fallback
  | some (name, value) => (check value).under (.field name)

/-- Checks a field that has to be given. -/
def required (name : Text) (check : Json → Checked α) : Option (Text × Json) → Checked α
  | none => .rejected [⟨.missing, [.field name]⟩]
  | some (given, value) => (check value).under (.field given)

end DesignCompiler.Schema
