import DesignCompiler.Json.Quoted
import DesignCompiler.Json.Value
import DesignCompiler.Number.Shortest

/-!
# `DesignCompiler.Json.Writer`: JSON values as text

The written form is ASCII only. `Style` chooses the blanks: two spaces per level and a line for each
member, one space after commas and colons, or none at all. Doubles have the fewest digits that read
back; whole numbers have all of theirs.

`writeBefore` puts a value in front of the text that follows it, so that no text is copied again for
each list and object around it. `write` is the case in which nothing follows, and `writeBefore_eq`
says that this case is enough.
-/

set_option autoImplicit false

namespace DesignCompiler.Json

/-- Where blanks stand in written JSON. -/
inductive Style
  /-- Each member on a line of its own, two spaces per level. -/
  | indented
  /-- One space after each comma and colon. -/
  | spaced
  /-- No blanks. -/
  | compact
  deriving DecidableEq

/-- Doubles in JSON: a point up to sixteen digits from the left or behind three zeros, else an
exponent. -/
def doubleForm : Shortest.Notation := ⟨-3, 16, "Infinity".toList, "NaN".toList⟩

namespace Style

/-- What stands after an opening bracket, before a closing one, and after a comma between members
of the given level. -/
def breakBefore (style : Style) (level : Nat) : Text :=
  match style with
  | .indented => '\n' :: List.replicate (2 * level) ' '
  | _ => []

/-- What stands between two members. -/
def separator (style : Style) (level : Nat) : Text :=
  match style with
  | .indented => ',' :: style.breakBefore level
  | .spaced => [',', ' ']
  | .compact => [',']

/-- What stands between a name and its value. -/
def colon : Style → Text
  | .compact => [':']
  | _ => [':', ' ']

end Style

mutual

/-- A value as text in front of `rest`; `level` counts the lists and objects around it. The empty
list and the empty object have no blanks inside, in any style. -/
def writeBefore (style : Style) (level : Nat) : Json → Text → Text
  | .null, rest => "null".toList ++ rest
  | .bool true, rest => "true".toList ++ rest
  | .bool false, rest => "false".toList ++ rest
  | .int n, rest => Text.ofInt n ++ rest
  | .double x, rest => Shortest.write doubleForm x ++ rest
  | .text t, rest => Quoted.ascii t ++ rest
  | .list [], rest => '[' :: ']' :: rest
  | .list (item :: items), rest =>
    '[' :: (style.breakBefore (level + 1)
      ++ writeBefore style (level + 1) item
        (writeItems style (level + 1) items (style.breakBefore level ++ ']' :: rest)))
  | .object [], rest => '{' :: '}' :: rest
  | .object ((name, value) :: fields), rest =>
    '{' :: (style.breakBefore (level + 1) ++ Quoted.ascii name ++ style.colon
      ++ writeBefore style (level + 1) value
        (writeFields style (level + 1) fields (style.breakBefore level ++ '}' :: rest)))

/-- The items after the first one, each behind a separator, in front of `rest`. -/
def writeItems (style : Style) (level : Nat) : List Json → Text → Text
  | [], rest => rest
  | item :: items, rest =>
    style.separator level ++ writeBefore style level item (writeItems style level items rest)

/-- The fields after the first one, each behind a separator, in front of `rest`. -/
def writeFields (style : Style) (level : Nat) : Fields → Text → Text
  | [], rest => rest
  | (name, value) :: fields, rest =>
    style.separator level ++ Quoted.ascii name ++ style.colon
      ++ writeBefore style level value (writeFields style level fields rest)

end

/-- A value as text; `level` counts the lists and objects around it. -/
def write (style : Style) (level : Nat) (value : Json) : Text := writeBefore style level value []

mutual

/-- What follows a value stays behind it. The three statements go by recursion over the value, as
the three writers do. -/
theorem writeBefore_append (style : Style) (level : Nat) (value : Json) (rest more : Text) :
    writeBefore style level value (rest ++ more)
      = writeBefore style level value rest ++ more := by
  cases value with
  | null | int | double | text => simp [writeBefore]
  | bool b => cases b <;> simp [writeBefore]
  | list items =>
    cases items with
    | nil => simp [writeBefore]
    | cons item items =>
      simp only [writeBefore, List.cons_append, List.append_assoc]
      -- What follows the first item is the rest of the list, which the text goes behind.
      rw [← writeBefore_append, ← writeItems_append]
      simp
  | object fields =>
    cases fields with
    | nil => simp [writeBefore]
    | cons field fields =>
      obtain ⟨name, value⟩ := field
      simp only [writeBefore, List.cons_append, List.append_assoc]
      rw [← writeBefore_append, ← writeFields_append]
      simp

/-- What follows the items of a list stays behind them. -/
theorem writeItems_append (style : Style) (level : Nat) (items : List Json) (rest more : Text) :
    writeItems style level items (rest ++ more) = writeItems style level items rest ++ more := by
  cases items with
  | nil => simp [writeItems]
  | cons item items =>
    simp only [writeItems, List.append_assoc]
    rw [writeItems_append, writeBefore_append]

/-- What follows the fields of an object stays behind them. -/
theorem writeFields_append (style : Style) (level : Nat) (fields : Fields) (rest more : Text) :
    writeFields style level fields (rest ++ more)
      = writeFields style level fields rest ++ more := by
  cases fields with
  | nil => simp [writeFields]
  | cons field fields =>
    obtain ⟨name, value⟩ := field
    simp only [writeFields, List.append_assoc]
    rw [writeFields_append, writeBefore_append]

end

/-- A value in front of a text is its written form followed by that text. -/
theorem writeBefore_eq (style : Style) (level : Nat) (value : Json) (rest : Text) :
    writeBefore style level value rest = write style level value ++ rest := by
  rw [write, ← writeBefore_append, List.nil_append]

/-- A value on lines of its own. -/
def indented (value : Json) : Text := write .indented 0 value

/-- A value on one line with spaces after commas and colons. -/
def spaced (value : Json) : Text := write .spaced 0 value

/-- A value without blanks. -/
def compact (value : Json) : Text := write .compact 0 value

end DesignCompiler.Json
