import DesignCompiler.Generate
import DesignCompiler.Json.Writer
import DesignCompiler.Service.Request
import DesignCompiler.Extraction

/-!
# `DesignCompiler.Service.Report`: results as replies

The result of a tool is told as JSON or as markdown. Markdown has a heading, the warnings as a
list, and the code in fences. `Report.cut` shortens a reply to `characterLimit` characters and says
so; the list of pages and generated code in JSON are never cut.
-/

set_option autoImplicit false

namespace DesignCompiler.Report

/-- The greatest number of characters of a reply that may be cut. -/
def characterLimit : Nat := 25000

/-- What stands at the end of a reply that has been cut. -/
def cutMark : Text := "\n\n... (truncated)".toList

/-- A reply, cut off at the limit. The mark comes on top, so a reply that was cut is longer than the
limit by the length of the mark. -/
def cut (reply : Text) : Text :=
  if characterLimit < reply.length then reply.take characterLimit ++ cutMark else reply

/-- The warnings as a section of markdown. -/
def warningLines (warnings : List Text) : List Text :=
  if warnings.isEmpty then []
  else "## Warnings".toList :: warnings.map (fun warning => "- ".toList ++ warning) ++ [[]]

/-- A fenced block of code. -/
def fenced (language code : Text) : List Text :=
  ["```".toList ++ language, code, "```".toList]

/-! ### Layout trees -/

/-- What an extraction tells in JSON; `trees` are its trees as they are written. -/
def extractionFields (t : Extraction) (trees : List Json) : Json.Fields :=
  [("ir".toList, .list trees),
   ("nodeCount".toList, .int t.count),
   ("truncated".toList, .bool t.isCut),
   ("warnings".toList, .list (t.messages.map .text)),
   ("pageId".toList, Request.pageValue t.page)]

/-- An extraction as JSON, with the size of the file if it was fetched and the time in
milliseconds. -/
def extractionJson (t : Extraction) (trees : List Json) (fileSize : Option Nat) (time : Int) :
    Json :=
  .object (extractionFields t trees
    ++ (fileSize.map fun size => ("fileSize".toList, Json.int size)).toList
    ++ [("processingTime".toList, .int time)])

/-- An extraction as lines of markdown. -/
def extractionLines (t : Extraction) (trees : List Json) (title : Text) (time : Int) :
    List Text :=
  ["# IR: ".toList ++ title,
   "**Nodes:** ".toList ++ Text.ofNat t.count,
   "**Processing time:** ".toList ++ Text.ofInt time ++ " ms".toList,
   []]
    ++ warningLines t.messages
    ++ fenced "json".toList (Json.list trees).indented

/-- The reply that tells an extraction with its trees as they are written. Both formats are cut, the
JSON as text: what is left of it need not be JSON any more. -/
def ofExtraction (t : Extraction) (trees : List Json) (title : Text) (fileSize : Option Nat)
    (time : Int) : ReplyFormat → Text
  | .json => cut (extractionJson t trees fileSize time).indented
  | .markdown => cut (Text.unlines (extractionLines t trees title time))

/-! ### Code -/

/-- Code without the line ends behind it. The fence after it starts on a line of its own in any
case. -/
def trimCode (code : Text) : Text := Text.trimEndBy (· = '\n') code

/-- Generated code as JSON. -/
def codeJson (g : Generated) (warnings : List Text) : Json :=
  .object (g.toFields
    ++ if warnings.isEmpty then [] else [("warnings".toList, .list (warnings.map .text))])

/-- A component as lines of markdown. -/
def componentLines (platform : Platform) (c : Component) : List Text :=
  [[], "## ".toList ++ c.name ++ ['.'] ++ c.fileExtension, []]
    ++ fenced platform.fence (trimCode c.code)

/-- Generated code as lines of markdown. -/
def codeLines (g : Generated) (warnings : List Text) : List Text :=
  ["# Generated Code".toList, "**Platform:** ".toList ++ g.platform.token, []]
    ++ warningLines warnings
    ++ fenced g.platform.fence (trimCode g.code)
    ++ (g.components.getD []).flatMap (componentLines g.platform)

/-- The reply that tells generated code. Only the markdown is cut. -/
def ofGenerated (g : Generated) (warnings : List Text) : ReplyFormat → Text
  | .json => (codeJson g warnings).indented
  | .markdown => cut (Text.unlines (codeLines g warnings))

/-! ### Pages -/

/-- What the list of pages tells of a page. -/
structure PageEntry where
  id : Json
  name : Json
  type : Json

/-- What is told of a page; what it does not say is empty. -/
def PageEntry.ofFields (page : Json.Fields) : PageEntry :=
  let told (name : Text) := (Json.field? page name).getD (.text [])
  ⟨told "id".toList, told "name".toList, told "type".toList⟩

/-- A page as JSON. -/
def PageEntry.toJson (p : PageEntry) : Json :=
  .object [("id".toList, p.id), ("name".toList, p.name), ("type".toList, p.type)]

/-- A page as a line of markdown. Name and identifier are written as they are shown, so the line is
one line only if they are. -/
def PageEntry.line (p : PageEntry) : Text :=
  "- **".toList ++ p.name.shown ++ "** (`".toList ++ p.id.shown ++ "`)".toList

/-- The pages of a file, under the title that the file gives or one of these two. Neither format is
cut. -/
def ofPages (title? : Option Json) (pages : List PageEntry) : ReplyFormat → Text
  | .json =>
    (Json.object
      [("fileName".toList, title?.getD (.text [])),
       ("pages".toList, .list (pages.map PageEntry.toJson))]).indented
  | .markdown =>
    Text.unlines
      (["# Pages: ".toList ++ (title?.getD (.text "Untitled".toList)).shown, []]
        ++ if pages.isEmpty then ["No pages found in this file.".toList]
          else pages.map PageEntry.line)

end DesignCompiler.Report
