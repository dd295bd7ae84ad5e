import DesignCompiler.Json.Arithmetic
import DesignCompiler.Platform
import DesignCompiler.Text.Blank
import DesignCompiler.Text.UpperCase

/-!
# `DesignCompiler.FontWeight`: font weights and their words

A font weight is a whole number, a double or a name. Its *token* is the number rounded to a whole
one, or the name in upper case with an underscore for each run of blanks and hyphens. `rows` lists
the known tokens with the word of each target; every other weight is written as the regular one.
-/

set_option autoImplicit false

namespace DesignCompiler

/-- A font weight as a design gives it. A double keeps its fraction here, since rounding it can fail
and is done only where a word is asked for. -/
inductive FontWeight
  | whole (n : Int)
  | exact (x : Binary64)
  | named (name : Text)
  deriving DecidableEq

namespace FontWeight

open Text

/-- The weight that an unchecked value stands for: none for null and truth values; a value that is
neither number nor text is named by the way it is shown. -/
def ofValue? : Json → Option FontWeight
  | .null | .bool _ => none
  | .int n => some (.whole n)
  | .double x => some (.exact x)
  | value => some (.named value.shown)

/-- What separates the words of a weight's name. -/
def isSeparator (c : Char) : Bool := isBlank c || c = '-'

/-- The text with an underscore in place of each run of separators. -/
def underscored : Text → Text
  | [] => []
  | c :: rest =>
    if isSeparator c then
      -- The last separator of a run is the one that is written.
      match rest with
      | [] => ['_']
      | next :: _ => if isSeparator next then underscored rest else '_' :: underscored rest
    else c :: underscored rest

/-- Names that are written as one word and mean two. A spelling with a blank or a hyphen has its two
words already and needs no entry. -/
def oneWordNames : List (Text × Text) :=
  [("SEMIBOLD".toList, "SEMI_BOLD".toList),
   ("EXTRALIGHT".toList, "EXTRA_LIGHT".toList),
   ("EXTRABOLD".toList, "EXTRA_BOLD".toList)]

/-- The token of a name. -/
def nameToken (name : Text) : Text :=
  let token := upper (underscored (trim name))
  match oneWordNames.find? fun entry => entry.1 = token with
  | some (_, words) => words
  | none => token

/-- The token of a weight; an empty name has none. A double that is not finite has no token, and
this is the only way in which drawing a layer can fail. -/
def token? : FontWeight → Except Fault (Option Text)
  | .whole n => .ok (some (ofInt n))
  | .exact x =>
    match x.round with
    | .ok n => .ok (some (ofInt n))
    | .error e => .error (.ofNotFinite e)
  | .named name => .ok (if (nameToken name).isEmpty then none else some (nameToken name))

/-- A known token and its word in each target. Keeping the three words in one row shows where the
targets disagree about a token. -/
structure Row where
  token : Text
  swiftUI : Text
  compose : Text
  css : Text

/-- The known tokens: the nine numbers, then the names. The SwiftUI words of the names `THIN` and
`EXTRA_LIGHT` are those of the numbers 200 and 100; `Proofs/Render/FontWeight` says what follows
from that. -/
def rows : List Row :=
  [⟨"100".toList, ".ultraLight".toList, "FontWeight.Thin".toList, "100".toList⟩,
   ⟨"200".toList, ".thin".toList, "FontWeight.ExtraLight".toList, "200".toList⟩,
   ⟨"300".toList, ".light".toList, "FontWeight.Light".toList, "300".toList⟩,
   ⟨"400".toList, ".regular".toList, "FontWeight.Normal".toList, "400".toList⟩,
   ⟨"500".toList, ".medium".toList, "FontWeight.Medium".toList, "500".toList⟩,
   ⟨"600".toList, ".semibold".toList, "FontWeight.SemiBold".toList, "600".toList⟩,
   ⟨"700".toList, ".bold".toList, "FontWeight.Bold".toList, "700".toList⟩,
   ⟨"800".toList, ".heavy".toList, "FontWeight.ExtraBold".toList, "800".toList⟩,
   ⟨"900".toList, ".black".toList, "FontWeight.Black".toList, "900".toList⟩,
   ⟨"THIN".toList, ".thin".toList, "FontWeight.Thin".toList, "100".toList⟩,
   ⟨"EXTRA_LIGHT".toList, ".ultraLight".toList, "FontWeight.ExtraLight".toList, "200".toList⟩,
   ⟨"LIGHT".toList, ".light".toList, "FontWeight.Light".toList, "300".toList⟩,
   ⟨"NORMAL".toList, ".regular".toList, "FontWeight.Normal".toList, "400".toList⟩,
   ⟨"REGULAR".toList, ".regular".toList, "FontWeight.Normal".toList, "400".toList⟩,
   ⟨"MEDIUM".toList, ".medium".toList, "FontWeight.Medium".toList, "500".toList⟩,
   ⟨"SEMI_BOLD".toList, ".semibold".toList, "FontWeight.SemiBold".toList, "600".toList⟩,
   ⟨"BOLD".toList, ".bold".toList, "FontWeight.Bold".toList, "700".toList⟩,
   ⟨"EXTRA_BOLD".toList, ".heavy".toList, "FontWeight.ExtraBold".toList, "800".toList⟩,
   ⟨"BLACK".toList, ".black".toList, "FontWeight.Black".toList, "900".toList⟩]

/-- The word of a row in a target. -/
def Row.word (row : Row) : Platform → Text
  | .swiftUI => row.swiftUI
  | .compose => row.compose
  | .react => row.css

/-- The word of the regular weight. -/
def regularWord : Platform → Text
  | .swiftUI => ".regular".toList
  | .compose => "FontWeight.Normal".toList
  | .react => "400".toList

/-- The word of a token, that of the regular weight if the token is unknown or there is none. -/
def tokenWord (platform : Platform) (token : Option Text) : Text :=
  match token.bind fun t => rows.find? fun row => row.token = t with
  | some row => row.word platform
  | none => regularWord platform

/-- The word of a weight in a target. -/
def word (platform : Platform) (weight : FontWeight) : Except Fault Text :=
  weight.token?.map (tokenWord platform)

/-- The token of an unchecked value, none for a value that is no weight at all. -/
def valueToken? (value : Json) : Except Fault (Option Text) :=
  match ofValue? value with
  | none => .ok none
  | some weight => weight.token?

/-- The word of an unchecked value in a target. A value that is no weight is written as the regular
one. -/
def valueWord (platform : Platform) (value : Json) : Except Fault Text :=
  (valueToken? value).map (tokenWord platform)

end FontWeight

end DesignCompiler
