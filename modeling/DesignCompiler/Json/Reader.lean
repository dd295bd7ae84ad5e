import DesignCompiler.Json.Value
import DesignCompiler.Text.Encoding

/-!
# `DesignCompiler.Json.Reader`: JSON text read as a value

`Json.read` accepts one value with blanks around it, also `NaN`, `Infinity` and `-Infinity`. A
number without point and exponent is whole, any other is a double. What cannot be read is reported
as a `Problem` and the rest of the text at the place where it shows; `ReadError.message` turns the
rest into a line, a column and an offset.

Two things are refused although they are JSON: a whole number of more than `digitLimit` digits, and
lists and objects inside one another in more levels than the caller allows. Both are seen on the
way, before anything that is wrong behind them.

Readers take a text and give a value and the rest. A budget of recursive calls makes them total;
each call consumes a character first, so the length of the text is always enough.
-/

set_option autoImplicit false

namespace DesignCompiler.Json

open Text

/-- Why a text is no JSON value. -/
inductive Problem
  | expectingValue
  | expectingName
  | expectingColon
  | expectingComma
  | unterminatedString
  | controlCharacter
  | invalidEscape
  | invalidCodeEscape
  | extraData
  /-- A whole number of more digits than are read. -/
  | tooManyDigits (count : Nat)
  /-- A list inside as many levels as are read. -/
  | listTooDeep
  /-- An object inside as many levels as are read. -/
  | objectTooDeep
  deriving DecidableEq

/-- The greatest number of digits of a whole number. It is a limit on conversions from text, and
does not bound the whole numbers themselves. -/
def digitLimit : Nat := 4300

/-- The words for a problem. -/
def Problem.label : Problem → Text
  | .expectingValue => "Expecting value".toList
  | .expectingName => "Expecting property name enclosed in double quotes".toList
  | .expectingColon => "Expecting ':' delimiter".toList
  | .expectingComma => "Expecting ',' delimiter".toList
  | .unterminatedString => "Unterminated string starting at".toList
  | .controlCharacter => "Invalid control character at".toList
  | .invalidEscape => "Invalid \\escape".toList
  | .invalidCodeEscape => "Invalid \\uXXXX escape".toList
  | .extraData => "Extra data".toList
  | .tooManyDigits count =>
    "Exceeds the limit (".toList ++ ofNat digitLimit
      ++ " digits) for integer string conversion: value has ".toList ++ ofNat count
      ++ " digits; use sys.set_int_max_str_digits() to increase the limit".toList
  | .listTooDeep =>
    "maximum recursion depth exceeded while decoding a JSON array from a unicode string".toList
  | .objectTooDeep =>
    "maximum recursion depth exceeded while decoding a JSON object from a unicode string".toList

/-- Whether a problem is that the levels are not enough. -/
def Problem.isDepth : Problem → Bool
  | .listTooDeep | .objectTooDeep => true
  | _ => false

/-- Whether a problem is told with its place: those of the grammar are, limits are not. -/
def Problem.isPlaced : Problem → Bool
  | .tooManyDigits _ | .listTooDeep | .objectTooDeep => false
  | _ => true

/-- A problem and the rest of the text at its place. -/
structure ReadError where
  problem : Problem
  rest : Text

/-- The place where the rest of a text starts: line, column and offset. -/
def placeText (whole rest : Text) : Text :=
  let offset := whole.length - rest.length
  let passed := whole.take offset
  let column := (passed.reverse.takeWhile (· ≠ '\n')).length + 1
  let line := (passed.filter (· = '\n')).length + 1
  ": line ".toList ++ ofNat line ++ " column ".toList ++ ofNat column
    ++ " (char ".toList ++ ofNat offset ++ ")".toList

/-- The problem, with its place in the whole text if it has one. -/
def ReadError.message (whole : Text) (e : ReadError) : Text :=
  e.problem.label ++ if e.problem.isPlaced then placeText whole e.rest else []

/-- The text without the blanks in front that JSON allows. -/
def skip (t : Text) : Text := t.dropWhile fun c => c = ' ' ∨ c = '\t' ∨ c = '\n' ∨ c = '\r'

/-- The number that four hexadecimal digits at the start write, and the rest. -/
def fourHex? : Text → Option (Nat × Text)
  | a :: b :: c :: d :: rest =>
    match hexValue? a, hexValue? b, hexValue? c, hexValue? d with
    | some a, some b, some c, some d => some (((a * 16 + b) * 16 + c) * 16 + d, rest)
    | _, _, _, _ => none
  | _ => none

/-- Whether a text is longer than `count` characters. -/
def isLonger (count : Nat) (t : Text) : Bool := !(t.drop count).isEmpty

/-- A code escape, from its letter on. A character has to follow the digits; in a string that is
closed, the quotation mark does. -/
def codeEscape? : Text → Option (Nat × Text)
  | _ :: rest => if isLonger 4 rest then fourHex? rest else none
  | [] => none

/-- The character that stands for the escape letter. -/
def escapeLetter? (c : Char) : Option Char :=
  if c = '"' ∨ c = '\\' ∨ c = '/' then some c
  else if c = 'b' then some (Char.ofNat 8)
  else if c = 'f' then some (Char.ofNat 12)
  else if c = 'n' then some '\n'
  else if c = 'r' then some '\r'
  else if c = 't' then some '\t'
  else none

/-- One escape, from the character after the backslash on. A high surrogate is completed by a low
one that follows it, and stands alone otherwise. -/
def readEscape (backslash : Text) : Text → Except ReadError (Char × Text)
  | [] => .error ⟨.unterminatedString, backslash⟩
  | c :: rest =>
    if c = 'u' then
      match codeEscape? (c :: rest) with
      | none => .error ⟨.invalidCodeEscape, c :: rest⟩
      | some (high, rest) =>
        -- A second code escape is looked at only where it can complete a pair.
        match rest with
        | '\\' :: 'u' :: more =>
          if isHigh high && isLonger 4 more then
            match codeEscape? ('u' :: more) with
            | none => .error ⟨.invalidCodeEscape, 'u' :: more⟩
            | some (low, after) =>
              if isLow low then .ok (charOfPair high low, after)
              else .ok (charOfCode high, rest)
          else .ok (charOfCode high, rest)
        | _ => .ok (charOfCode high, rest)
    else match escapeLetter? c with
      | some found => .ok (found, rest)
      | none => .error ⟨.invalidEscape, backslash⟩

/-- A character that a string may hold as it is. -/
def isPlain (c : Char) : Bool := c != '"' && c != '\\' && 0x20 ≤ c.toNat

/-- The inside of a string up to its closing quote; `start` is the text at the opening one, which a
string without an end is reported at. -/
def readString (start : Text) : Nat → Text → Except ReadError (Text × Text)
  | 0, _ => .error ⟨.unterminatedString, start⟩
  | budget + 1, t =>
    -- Plain characters are taken in one run, so a call is spent on each escape only.
    let run := t.takeWhile isPlain
    match t.dropWhile isPlain with
    | '"' :: rest => .ok (run, rest)
    | '\\' :: next :: rest =>
      match readEscape ('\\' :: next :: rest) (next :: rest) with
      | .error e => .error e
      | .ok (found, rest) =>
        (readString start budget rest).map fun (inside, rest) => (run ++ found :: inside, rest)
    | c :: rest =>
      if c = '\\' then .error ⟨.unterminatedString, start⟩
      else .error ⟨.controlCharacter, c :: rest⟩
    | [] => .error ⟨.unterminatedString, start⟩

/-- A string from its opening quote on. -/
def readQuoted (budget : Nat) (t : Text) : Except ReadError (Text × Text) :=
  readString t budget (t.drop 1)

/-- The digits of a whole number: a zero, or digits that start with another one. Behind a zero the
number goes on with a fraction or an exponent or not at all. -/
def wholeDigits : Text → Text × Text
  | '0' :: rest => (['0'], rest)
  | t => (t.takeWhile isDigit, t.dropWhile isDigit)

/-- A point with digits after it, if there is one. A point without digits is left in the rest, where
it is found to be too much. -/
def fractionDigits : Text → Text × Text
  | '.' :: rest =>
    if (rest.takeWhile isDigit).isEmpty then ([], '.' :: rest)
    else (rest.takeWhile isDigit, rest.dropWhile isDigit)
  | t => ([], t)

/-- The digits of an exponent with its sign. -/
def signedExponent : Text → Bool × Text
  | '-' :: rest => (true, rest)
  | '+' :: rest => (false, rest)
  | t => (false, t)

/-- An exponent, if there is one. A letter without digits is left in the rest, like a point. -/
def exponent? : Text → Option Int × Text
  | [] => (none, [])
  | c :: rest =>
    if c = 'e' ∨ c = 'E' then
      let (negative, digits) := signedExponent rest
      let size := digits.takeWhile isDigit
      if size.isEmpty then (none, c :: rest)
      else (some (if negative then -(toNat size : Int) else toNat size), digits.dropWhile isDigit)
    else (none, c :: rest)

/-- Whether a number starts with a minus sign, and what stands behind it. -/
def splitSign : Text → Bool × Text
  | '-' :: rest => (true, rest)
  | t => (false, t)

/-- The number at the start of a text: whole without a fraction and an exponent, a double otherwise.
The limit on digits holds for whole numbers only. -/
def readNumber (t : Text) : Except ReadError (Json × Text) :=
  let (negative, body) := splitSign t
  let (whole, rest) := wholeDigits body
  if whole.isEmpty then .error ⟨.expectingValue, t⟩
  else
    let (fraction, rest) := fractionDigits rest
    let (exponent, rest) := exponent? rest
    if fraction.isEmpty && exponent.isNone then
      if digitLimit < whole.length then .error ⟨.tooManyDigits whole.length, t⟩
      else .ok (.int (if negative then -(toNat whole : Int) else toNat whole), rest)
    else
      .ok (.double (Binary64.ofDecimal negative (toNat (whole ++ fraction))
        (exponent.getD 0 - fraction.length)), rest)

/-- The words that stand for a value. -/
def constants : List (Text × Json) :=
  [("null".toList, .null), ("true".toList, .bool true), ("false".toList, .bool false),
   ("NaN".toList, .double .nan), ("Infinity".toList, .double (.infinite false)),
   ("-Infinity".toList, .double (.infinite true))]

/-- The word or number at the start of a text. The words are tried first; none of them starts like a
number. -/
def readAtom (t : Text) : Except ReadError (Json × Text) :=
  match constants.findSome? fun entry => (after? entry.1 t).map (entry.2, ·) with
  | some found => .ok found
  | none => readNumber t

mutual

/-- The value at the start of a text; `levels` lists and objects may be inside one another in it. -/
def readValue (levels : Nat) : Nat → Text → Except ReadError (Json × Text)
  | 0, t => .error ⟨.expectingValue, t⟩
  | budget + 1, t =>
    match t with
    | '"' :: _ => (readQuoted (budget + 1) t).map fun (inside, rest) => (.text inside, rest)
    | '[' :: rest =>
      if levels = 0 then .error ⟨.listTooDeep, t⟩
      else match skip rest with
        | ']' :: rest => .ok (.list [], rest)
        | rest =>
          (readItems (levels - 1) budget rest).map fun (items, rest) => (.list items, rest)
    | '{' :: rest =>
      if levels = 0 then .error ⟨.objectTooDeep, t⟩
      else match skip rest with
        | '}' :: rest => .ok (.object [], rest)
        | rest =>
          (readFields (levels - 1) budget [] rest).map fun (fields, rest) => (.object fields, rest)
    | _ => readAtom t

/-- The items of a list and its closing bracket. -/
def readItems (levels : Nat) : Nat → Text → Except ReadError (List Json × Text)
  | 0, t => .error ⟨.expectingValue, t⟩
  | budget + 1, t =>
    match readValue levels budget t with
    | .error e => .error e
    | .ok (item, rest) =>
      match skip rest with
      | ']' :: rest => .ok ([item], rest)
      | ',' :: rest =>
        (readItems levels budget (skip rest)).map fun (items, rest) => (item :: items, rest)
      | rest => .error ⟨.expectingComma, rest⟩

/-- The fields of an object and its closing brace, after the fields read before. -/
def readFields (levels : Nat) : Nat → Fields → Text → Except ReadError (Fields × Text)
  | 0, _, t => .error ⟨.expectingName, t⟩
  | budget + 1, before, t =>
    match t with
    | '"' :: _ =>
      match readQuoted (budget + 1) t with
      | .error e => .error e
      | .ok (name, rest) =>
        match skip rest with
        | ':' :: rest =>
          match readValue levels budget (skip rest) with
          | .error e => .error e
          | .ok (value, rest) =>
            match skip rest with
            | '}' :: rest => .ok (setField name value before, rest)
            | ',' :: rest => readFields levels budget (setField name value before) (skip rest)
            | rest => .error ⟨.expectingComma, rest⟩
        | rest => .error ⟨.expectingColon, rest⟩
    | _ => .error ⟨.expectingName, t⟩

end

/-- The value that a text writes; `levels` lists and objects may be inside one another in it. Blanks
may stand in front and behind, anything else behind the value is too much. -/
def read (levels : Nat) (t : Text) : Except ReadError Json :=
  let start := skip t
  -- Each item takes a call for the list and one for itself, and at least one character.
  match readValue levels (2 * start.length + 2) start with
  | .error e => .error e
  | .ok (value, rest) =>
    match skip rest with
    | [] => .ok value
    | rest => .error ⟨.extraData, rest⟩

end DesignCompiler.Json
