import DesignCompiler.Json.Inline
import DesignCompiler.Schema.Issue
import DesignCompiler.Text.Digit

/-!
# `DesignCompiler.Fault`: what can go wrong, and how it is told

Every failing operation of the library gives a `Fault`, which names the cause. `Fault.family` sorts
the causes as the messages of the service do; `Fault.message` is the wording of a cause, and
`Fault.titled` puts the word for its family in front.

A design file whose structure is wrong gives a `malformed` fault: what is wrong, the place of the
layer in the file, and the identifier of that layer as it stands there.
-/

set_option autoImplicit false

namespace DesignCompiler

/-- A place in a design file, as the faults and warnings name it. -/
inductive Place
  /-- The file itself. -/
  | file
  /-- The layer that the child positions lead to from the document root. -/
  | layer (positions : List Nat)
  deriving DecidableEq

/-- The place of a child. A child of the file itself does not occur in a walk; it is given the place
of a top-level layer. -/
def Place.child (place : Place) (index : Nat) : Place :=
  match place with
  | .file => .layer [index]
  | .layer positions => .layer (positions ++ [index])

/-- The written form of a place. Positions count from zero, and the document root is written without
one. -/
def Place.path : Place → Text
  | .file => "$".toList
  | .layer positions =>
    "document".toList
      ++ positions.flatMap fun i => "/children[".toList ++ Text.ofNat i ++ "]".toList

/-- What is wrong with the structure of a design file. A kind that was found is kept, since the
message names it. -/
inductive Malformation
  | fileNotObject (found : Json.Kind)
  | rootMissing
  /-- A field that has to hold an object. -/
  | notObject (name : Text) (found : Json.Kind)
  /-- The colour of the first paint in a list. -/
  | colorNotObject (paints : Text) (found : Json.Kind)
  | childrenNotList (found : Json.Kind)
  | childNotObject (found : Json.Kind)
  deriving DecidableEq

/-- The wording of a malformation. -/
def Malformation.message : Malformation → Text
  | .fileNotObject found => "Figma file must be an object, got ".toList ++ found.label
  | .rootMissing => "Missing 'document' root node".toList
  | .notObject name found =>
    "'".toList ++ name ++ "' must be an object, got ".toList ++ found.label
  | .colorNotObject paints found =>
    "'".toList ++ paints ++ "[0].color' must be an object, got ".toList ++ found.label
  | .childrenNotList found => "'children' must be a list, got ".toList ++ found.label
  | .childNotObject found => "Child node must be an object, got ".toList ++ found.label

/-- The models that values are checked against. A message about a failed check names its model. -/
inductive Model
  | node
  | padding
  | pages
  | extract
  | parse
  | generate
  | convert
  | codeRequest
  deriving DecidableEq

/-- The name of a model in messages. -/
def Model.title : Model → Text
  | .node => "IRNode".toList
  | .padding => "Padding".toList
  | .pages => "FigmaPagesInput".toList
  | .extract => "FigmaExtractInput".toList
  | .parse => "FigmaParseInput".toList
  | .generate => "FigmaGenerateCodeInput".toList
  | .convert => "FigmaConvertInput".toList
  | .codeRequest => "CodeGenRequest".toList

/-- The cause of a failure. Each constructor keeps what its message needs. -/
inductive Fault
  /-- A design file of the wrong structure, with the identifier found at the place. -/
  | malformed (problem : Malformation) (place : Place) (id : Json)
  /-- A platform that is none of the supported ones. -/
  | unsupportedPlatform (given : Json) (supported : List Text)
  /-- A value that does not fit a model. -/
  | invalid (model : Model) (issues : List Schema.Issue)
  /-- A field that a model does not have. -/
  | noSuchField (model : Model) (name : Text)
  /-- A name to set that is no text. -/
  | nameNotText (found : Json.Kind)
  /-- A name whose value can be looked at but not set. -/
  | readOnly (name : Text)
  /-- A value of a kind that a name never takes. -/
  | unfitFor (name : Text) (found : Json.Kind)
  /-- A layout tree of more levels than are written. -/
  | treeTooDeep
  /-- A layout tree of more levels than are compared. -/
  | comparedTooDeep
  /-- A difference of values that are not both numbers. -/
  | noDifference (left right : Json.Kind)
  /-- A value of a kind that is never a number. -/
  | notNumeric (found : Json.Kind)
  /-- A text that writes no number. -/
  | noNumberText (t : Text)
  /-- A whole number beyond the doubles. -/
  | wholeTooLarge
  | infiniteToWhole
  | nanToWhole
  | badHexColor (t : Text)
  /-- A value that has no members to go through. -/
  | notIterable (found : Json.Kind)
  /-- A value that cannot be asked for the operation. -/
  | noOperation (found : Json.Kind) (operation : Text)
  /-- A value of another kind where a text is needed. -/
  | textExpected (found : Json.Kind)
  | noFileKey
  | badTimeout (t : Text)
  | noToken
  /-- A reply of more bytes than the limit. -/
  | replyTooLarge (size : Nat) (limit : Int)
  /-- A reply whose body is no JSON, with the reader's message. -/
  | unreadableReply (message : Text)
  /-- A reply with more lists and objects inside one another than are read, with the reader's
  message. -/
  | replyTooDeep (message : Text)
  deriving Inhabited

/-- The families that faults are sorted into. The service tells some of them by their message and
the others by their family. -/
inductive Fault.Family
  | structural
  | platform
  | validation
  | value
  | type
  | attribute
  | overflow
  | depth
  deriving DecidableEq

/-- The word for a family in messages. -/
def Fault.Family.label : Fault.Family → Text
  | .structural => "FigmaParseError".toList
  | .platform => "UnsupportedPlatformError".toList
  | .validation => "ValidationError".toList
  | .value => "ValueError".toList
  | .type => "TypeError".toList
  | .attribute => "AttributeError".toList
  | .overflow => "OverflowError".toList
  | .depth => "RecursionError".toList

namespace Fault

/-- The family of a fault. The match names every cause, so a new one has to be sorted before it can
be used. -/
def family : Fault → Family
  | .malformed .. => .structural
  | .unsupportedPlatform .. => .platform
  | .invalid .. => .validation
  | .noDifference .. | .notNumeric _ | .notIterable _ | .textExpected _ | .nameNotText _
  | .unfitFor .. => .type
  | .noOperation .. | .readOnly _ => .attribute
  | .wholeTooLarge | .infiniteToWhole => .overflow
  | .replyTooDeep _ | .comparedTooDeep => .depth
  | .noSuchField .. | .noNumberText _ | .nanToWhole | .badHexColor _ | .noFileKey | .badTimeout _
  | .noToken | .replyTooLarge .. | .unreadableReply _ | .treeTooDeep => .value

/-- Whether a fault is told by its message alone, as a fault of the given values is. The other
families are told with the word for their family in front. -/
def isValueFault (fault : Fault) : Bool :=
  match fault.family with
  | .structural | .platform | .validation | .value => true
  | .type | .attribute | .overflow | .depth => false

/-- The number of complaints about a model. -/
def issuesText (model : Model) (count : Nat) : Text :=
  Text.ofNat count ++ (if count = 1 then " validation error for ".toList
    else " validation errors for ".toList) ++ model.title

/-- Bytes in whole megabytes, rounded down also below zero. -/
def megabytes (bytes : Int) : Text := Text.ofInt (Int.fdiv bytes (1024 * 1024))

/-- The wording of a fault. Values from the input are written as they are shown or quoted; they may
hold line feeds, and so may the message. -/
def message : Fault → Text
  | .malformed problem place id =>
    problem.message ++ " at ".toList ++ place.path
      ++ (if id.isBlank then [] else " (node ".toList ++ id.shown ++ ")".toList)
  | .unsupportedPlatform given supported =>
    "Unsupported platform: ".toList ++ given.inline ++ ". Supported platforms: ".toList
      ++ Text.joinWith ", ".toList supported
  | .invalid model issues => issuesText model issues.length
  | .noSuchField model name =>
    '"' :: model.title ++ "\" object has no field \"".toList ++ name ++ "\"".toList
  | .nameNotText found =>
    "attribute name must be string, not '".toList ++ found.label ++ "'".toList
  | .readOnly name => "attribute '".toList ++ name ++ "' is not writable".toList
  | .unfitFor name found =>
    "attribute '".toList ++ name ++ "' takes no value of the type '".toList ++ found.label
      ++ "'".toList
  | .treeTooDeep => "Maximum serialization depth exceeded".toList
  | .comparedTooDeep => "maximum recursion depth exceeded in comparison".toList
  | .noDifference left right =>
    "unsupported operand type(s) for -: '".toList ++ left.label ++ "' and '".toList ++ right.label
      ++ "'".toList
  | .notNumeric found =>
    "float() argument must be a string or a real number, not '".toList ++ found.label ++ "'".toList
  | .noNumberText t => "could not convert string to float: ".toList ++ Text.inline t
  | .wholeTooLarge => "int too large to convert to float".toList
  | .infiniteToWhole => "cannot convert float infinity to integer".toList
  | .nanToWhole => "cannot convert float NaN to integer".toList
  | .badHexColor t => "Invalid hex color: ".toList ++ Text.inline t
  | .notIterable found => "'".toList ++ found.label ++ "' object is not iterable".toList
  | .noOperation found operation =>
    "'".toList ++ found.label ++ "' object has no attribute '".toList ++ operation ++ "'".toList
  | .textExpected found =>
    "expected string or bytes-like object, got '".toList ++ found.label ++ "'".toList
  | .noFileKey => "Could not extract file key from Figma URL".toList
  | .badTimeout t => "FIGMA_TIMEOUT must be a number of seconds, got ".toList ++ Text.inline t
  | .noToken =>
    "Figma API token not found. Set FIGMA_ACCESS_TOKEN, FIGMA_TOKEN or FIGMA_OAUTH_TOKEN ".toList
      ++ "environment variable. Get your token from: ".toList
      ++ "https://www.figma.com/developers/api#access-tokens".toList
  | .replyTooLarge size limit =>
    "Figma file too large (".toList ++ megabytes size ++ " MB). Maximum supported size is ".toList
      ++ megabytes limit ++ " MB; select a single page.".toList
  | .unreadableReply message => message
  | .replyTooDeep message => message

/-- The wording of a fault behind the word for its family. -/
def titled (fault : Fault) : Text := fault.family.label ++ ": ".toList ++ fault.message

/-- The fault of a double that has no whole number beside it. -/
def ofNotFinite : Binary64.NotFinite → Fault
  | .nan => .nanToWhole
  | .infinite => .infiniteToWhole

end Fault

end DesignCompiler
