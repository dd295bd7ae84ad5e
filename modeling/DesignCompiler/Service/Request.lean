import DesignCompiler.Layout.Encoder
import DesignCompiler.Schema.Form
import DesignCompiler.Service.FileKey
import DesignCompiler.Service.PageId
import DesignCompiler.Text.Blank

/-!
# `DesignCompiler.Service.Request`: what the tools of the service take

Each tool has a type of request, and a form that checks it. Texts of a request are trimmed first: a
file key has to have from ten to two hundred characters then, and is replaced by the key it names; a
page identifier gets colons for hyphens. The words for platforms and reply formats are not trimmed,
and neither is anything inside a layout tree.

Requests can be changed field by field under the same checks, except a `CodeRequest`, whose fields
take any value once it has been read, and the parts of a layout tree, which cannot be changed.
-/

set_option autoImplicit false

namespace DesignCompiler

open Schema

/-- The format of a reply. -/
inductive ReplyFormat
  | markdown
  | json
  deriving DecidableEq

/-- The word for a format. -/
def ReplyFormat.token : ReplyFormat → Text
  | .markdown => "markdown".toList
  | .json => "json".toList

/-- The words for formats. -/
def ReplyFormat.tokens : List (Text × ReplyFormat) :=
  [.markdown, .json].map fun format => (format.token, format)

/-- Asks for the pages of a file. -/
structure PagesRequest where
  fileKey : Text
  format : ReplyFormat
  deriving DecidableEq

/-- Asks for the layout tree of a file. -/
structure ExtractRequest where
  fileKey : Text
  page : Option Text
  format : ReplyFormat
  deriving DecidableEq

/-- Asks for the layout tree of a file that comes with the request. -/
structure ParseRequest where
  file : Json.Fields
  page : Option Text
  format : ReplyFormat

/-- Asks for the code of layout trees that come with the request. -/
structure GenerateRequest where
  nodes : List Node
  platform : Platform
  extract : Bool
  format : ReplyFormat

/-- Asks for the code of a file. -/
structure ConvertRequest where
  fileKey : Text
  page : Option Text
  platform : Platform
  extract : Bool
  format : ReplyFormat
  deriving DecidableEq

/-- Asks for the code of layout trees; the values are those of its fields as they were set last.
They are kept unchecked because setting one does not check it. -/
structure CodeRequest where
  nodes : Json
  platform : Json
  extract : Json

namespace Request

/-! ### Fields -/

/-- The least number of characters of a file key. -/
def shortestKey : Nat := 10

/-- The greatest number of characters of a file key. -/
def longestKey : Nat := 200

/-- A text without white space at its ends. -/
def checkTrimmed (value : Json) : Checked Text :=
  (checkText value).map (Text.trimBy Text.isWhiteSpace)

/-- The file key that a text of allowed length names. The complaint about an address without a key
comes only after those about the length. -/
def checkKeyText (t : Text) : Checked Text :=
  -- The limits are for the text as it was given; the key inside an address may be shorter.
  if t.length < shortestKey then .refuse .tooShort
  else if longestKey < t.length then .refuse .tooLong
  else match FileKey.ofText t with
    | .ok key => .accepted key
    | .error fault => .refuse (.rule ("Value error, ".toList ++ fault.message))

/-- A file key, or an address that holds one. What is stored is the key and not the address. -/
def checkFileKey (value : Json) : Checked Text := (checkTrimmed value).andThen checkKeyText

/-- A page identifier, or null for the whole file. -/
def checkPage : Json → Checked (Option Text) :=
  nullable fun value => (checkTrimmed value).map PageId.ofText

/-- Fields with their names trimmed. Of equal names the first gives the place and the last the
value. -/
def trimNames (fields : Json.Fields) : Json.Fields :=
  fields.foldl
    (fun trimmed (name, value) =>
      Json.setField (Text.trimBy Text.isWhiteSpace name) value trimmed) []

/-- A design file. -/
def checkFile : Json → Checked Json.Fields
  | .object fields => .accepted (trimNames fields)
  | _ => .refuse .notObject

/-- How many nodes may be inside one another in a request, whose list of trees is a level too. -/
def nodeLevels : Nat := Node.levelLimit - 1

/-- Layout trees. -/
def checkNodes : Json → Checked (List Node)
  | .list items => Node.checkAll nodeLevels 0 items
  | _ => .refuse .notList

/-- A platform. -/
def checkPlatform : Json → Checked Platform := checkToken Platform.tokens

/-- A reply format. -/
def checkFormat : Json → Checked ReplyFormat := checkToken ReplyFormat.tokens

/-- The name of the field for a file key. -/
def fileKeyName : Text := "file_key".toList

/-- The name of the field for a page. -/
def pageName : Text := "page_id".toList

/-- The name of the field for a design file. -/
def fileName : Text := "document".toList

/-- The name of the field for layout trees. -/
def nodesName : Text := "ir".toList

/-- The name of the field for a platform. -/
def platformName : Text := "platform".toList

/-- The name of the field that asks for components. -/
def extractName : Text := "extract_components".toList

/-- The name of the field for a reply format. -/
def formatName : Text := "response_format".toList

/-- A field that has to be given. -/
def needed {α : Type} (fields : Json.Fields) (name : Text) (check : Json → Checked α) : Checked α :=
  required name check (given? fields [name])

/-- A field that may be left out. -/
def optional {α : Type} (fields : Json.Fields) (name : Text) (fallback : α)
    (check : Json → Checked α) : Checked α :=
  field fallback check (given? fields [name])

/-- A page as a value. -/
def pageValue (page : Option Text) : Json := (page.map .text).getD .null

end Request

open Request

/-! ### Forms -/

/-- The form for requests for pages. -/
def PagesRequest.form : Form PagesRequest :=
  .checked .pages
    (fun fields => PagesRequest.mk
      <$> needed fields fileKeyName checkFileKey
      <*> optional fields formatName .markdown checkFormat)
    [⟨fileKeyName, fun value r => (checkFileKey value).map fun key => { r with fileKey := key },
      fun r => .text r.fileKey⟩,
     ⟨formatName, fun value r => (checkFormat value).map fun format => { r with format },
      fun r => .text r.format.token⟩]

/-- The form for requests for the layout tree of a file. -/
def ExtractRequest.form : Form ExtractRequest :=
  .checked .extract
    (fun fields => ExtractRequest.mk
      <$> needed fields fileKeyName checkFileKey
      <*> optional fields pageName none checkPage
      <*> optional fields formatName .json checkFormat)
    [⟨fileKeyName, fun value r => (checkFileKey value).map fun key => { r with fileKey := key },
      fun r => .text r.fileKey⟩,
     ⟨pageName, fun value r => (checkPage value).map fun page => { r with page },
      fun r => pageValue r.page⟩,
     ⟨formatName, fun value r => (checkFormat value).map fun format => { r with format },
      fun r => .text r.format.token⟩]

/-- The form for requests that bring a file along. -/
def ParseRequest.form : Form ParseRequest :=
  .checked .parse
    (fun fields => ParseRequest.mk
      <$> needed fields fileName checkFile
      <*> optional fields pageName none checkPage
      <*> optional fields formatName .json checkFormat)
    [⟨fileName, fun value r => (checkFile value).map fun file => { r with file },
      fun r => .object r.file⟩,
     ⟨pageName, fun value r => (checkPage value).map fun page => { r with page },
      fun r => pageValue r.page⟩,
     ⟨formatName, fun value r => (checkFormat value).map fun format => { r with format },
      fun r => .text r.format.token⟩]

/-- The form for requests that bring layout trees along. -/
def GenerateRequest.form : Form GenerateRequest :=
  .checked .generate
    (fun fields => GenerateRequest.mk
      <$> optional fields nodesName [] checkNodes
      <*> needed fields platformName checkPlatform
      <*> optional fields extractName false checkBool
      <*> optional fields formatName .markdown checkFormat)
    [⟨nodesName, fun value r => (checkNodes value).map fun nodes => { r with nodes },
      fun r => .list (Node.toJsons r.nodes)⟩,
     ⟨platformName, fun value r => (checkPlatform value).map fun platform => { r with platform },
      fun r => .text r.platform.token⟩,
     ⟨extractName, fun value r => (checkBool value).map fun extract => { r with extract },
      fun r => .bool r.extract⟩,
     ⟨formatName, fun value r => (checkFormat value).map fun format => { r with format },
      fun r => .text r.format.token⟩]

/-- The form for requests for the code of a file. -/
def ConvertRequest.form : Form ConvertRequest :=
  .checked .convert
    (fun fields => ConvertRequest.mk
      <$> needed fields fileKeyName checkFileKey
      <*> optional fields pageName none checkPage
      <*> needed fields platformName checkPlatform
      <*> optional fields extractName false checkBool
      <*> optional fields formatName .markdown checkFormat)
    [⟨fileKeyName, fun value r => (checkFileKey value).map fun key => { r with fileKey := key },
      fun r => .text r.fileKey⟩,
     ⟨pageName, fun value r => (checkPage value).map fun page => { r with page },
      fun r => pageValue r.page⟩,
     ⟨platformName, fun value r => (checkPlatform value).map fun platform => { r with platform },
      fun r => .text r.platform.token⟩,
     ⟨extractName, fun value r => (checkBool value).map fun extract => { r with extract },
      fun r => .bool r.extract⟩,
     ⟨formatName, fun value r => (checkFormat value).map fun format => { r with format },
      fun r => .text r.format.token⟩]

/-- The code request of checked values. -/
def CodeRequest.ofChecked (nodes : List Node) (platform : Platform) (extract : Bool) :
    CodeRequest :=
  ⟨.list (Node.toJsons nodes), .text platform.token, .bool extract⟩

/-- The form for code requests. It is the one form here whose fields take any value after the first
check. -/
def CodeRequest.form : Form CodeRequest :=
  .unchecked .codeRequest
    (fun fields => CodeRequest.ofChecked
      <$> optional fields nodesName [] checkNodes
      <*> needed fields platformName checkPlatform
      <*> optional fields extractName false checkBool)
    [⟨nodesName, fun value r => .accepted { r with nodes := value }, fun r => r.nodes⟩,
     ⟨platformName, fun value r => .accepted { r with platform := value }, fun r => r.platform⟩,
     ⟨extractName, fun value r => .accepted { r with extract := value }, fun r => r.extract⟩]

/-- The form for layout trees. -/
def Node.form : Form Node :=
  .frozen .node (fun fields => Node.check Node.levelLimit (.object fields)) Node.toJson

/-- The form for paddings. -/
def Padding.form : Form Padding := .frozen .padding Padding.checkFields Padding.toJson

end DesignCompiler
