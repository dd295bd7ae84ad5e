import DesignCompiler.Service.Exchange
import DesignCompiler.Service.Report

/-!
# `DesignCompiler.Service.Tool`: the tools of the service

Five tools: the pages of a file, the layout tree of a file, the layout tree of a file that comes
with the request, the code of layout trees that come with the request, and the code of a file. Each
takes a checked request and gives the calls it made with a text: the reply, or what went wrong. A
tool never fails.

The values of a fetched file are as unchecked as those of any other, so a file that is no object, or
whose pages are none, shows only when it is looked into.
-/

set_option autoImplicit false

namespace DesignCompiler

/-- What a tool did: the calls it made and what it says. -/
structure Answer where
  calls : List Call
  text : Text

namespace Tool

/-- The text of a result. -/
def textOf : Except Trouble Text → Text
  | .ok text => text
  | .error trouble => trouble.message

/-- A fault as the trouble of a tool. -/
def lift {α : Type} (result : Except Fault α) : Except Trouble α := result.mapError .fault

/-- The fields of a value that is asked for one. -/
def fieldsOf : Json → Except Fault Json.Fields
  | .object fields => .ok fields
  | value => .error (.noOperation value.kind "get".toList)

/-! ### Pages -/

/-- The pages of a design file. Each page has to be an object; nothing else about it is checked. -/
def pagesOf (file : Json.Fields) : Except Fault (List Report.PageEntry) := do
  -- A file without root has no pages, but a root that is there has to be an object.
  let root ← fieldsOf ((Json.field? file "document".toList).getD (.object []))
  let pages ← ((Json.field? root childrenName).getD (.list [])).members
  pages.mapM fun page => (fieldsOf page).map Report.PageEntry.ofFields

/-- The reply that lists the pages of a file. It is not cut, in either format. -/
def pagesReply (format : ReplyFormat) (file : Json) : Except Fault Text := do
  let fields ← fieldsOf file
  let pages ← pagesOf fields
  return Report.ofPages (Json.field? fields "name".toList) pages format

/-- Lists the pages of a file. Layers below the pages are not asked for. -/
def listPages (exchange : Exchange) (r : PagesRequest) : Answer :=
  let (calls, file) := exchange.fetch r.fileKey (.object [("depth".toList, .int 1)])
  ⟨calls, textOf (file.bind fun file => lift (pagesReply r.format file))⟩

/-! ### Layout trees -/

/-- The page of a request as a value. -/
def wantedPage (page : Option Text) : Json := Request.pageValue page

/-- The title of a design file. -/
def titleOf (file : Json) (fallback : Text) : Text :=
  match file with
  | .object fields => ((Json.field? fields "name".toList).getD (.text fallback)).shown
  | _ => fallback

/-- The reply that tells the layout tree of a fetched file, and that it took so many
milliseconds. -/
def extractReply (time : Int) (r : ExtractRequest) (file : Json) : Except Fault Text := do
  let extraction ← Extraction.ofFile file (wantedPage r.page) Extraction.usualLimit
  let trees ← Node.dumpAll Node.levelLimit extraction.roots
  return Report.ofExtraction extraction trees (titleOf file r.fileKey) (some file.compact.length)
    time r.format

/-- Fetches a file and tells its layout tree. -/
def extract (exchange : Exchange) (r : ExtractRequest) : Answer :=
  let (calls, file) := exchange.fetch r.fileKey .null
  ⟨calls, textOf (file.bind fun file => lift (extractReply exchange.elapsed r file))⟩

/-- The reply that tells the layout tree of a given file, and that it took so many milliseconds. -/
def parseReply (time : Int) (r : ParseRequest) : Except Fault Text := do
  let file := Json.object r.file
  let extraction ← Extraction.ofFile file (wantedPage r.page) Extraction.usualLimit
  let trees ← Node.dumpAll Node.levelLimit extraction.roots
  return Report.ofExtraction extraction trees (titleOf file "Document".toList) none time r.format

/-- Tells the layout tree of a file that comes with the request. No call is made; of the exchange
only the clock is looked at. -/
def parse (exchange : Exchange) (r : ParseRequest) : Answer :=
  ⟨[], textOf (lift (parseReply exchange.elapsed r))⟩

/-! ### Code -/

/-- The reply that tells the code of given layout trees. -/
def generateReply (r : GenerateRequest) : Except Fault Text :=
  (Generated.ofNodes r.platform r.extract r.nodes).map fun generated =>
    Report.ofGenerated generated [] r.format

/-- Tells the code of layout trees that come with the request. -/
def generate (r : GenerateRequest) : Answer := ⟨[], textOf (lift (generateReply r))⟩

/-- The reply that tells the code of a fetched file. -/
def convertReply (r : ConvertRequest) (file : Json) : Except Fault Text := do
  let extraction ← Extraction.ofFile file (wantedPage r.page) Extraction.usualLimit
  let generated ← Generated.ofNodes r.platform r.extract extraction.roots
  return Report.ofGenerated generated extraction.messages r.format

/-- Fetches a file and tells its code. -/
def convert (exchange : Exchange) (r : ConvertRequest) : Answer :=
  let (calls, file) := exchange.fetch r.fileKey .null
  ⟨calls, textOf (file.bind fun file => lift (convertReply r file))⟩

/-! ### All tools -/

/-- The name of a tool. -/
inductive Name
  | listPages
  | extract
  | parse
  | generate
  | convert
  deriving DecidableEq

/-- The tools with their names. -/
def Name.tokens : List (Text × Name) :=
  [("figma_list_pages".toList, .listPages), ("figma_extract_ir".toList, .extract),
   ("figma_parse_document".toList, .parse), ("figma_generate_code".toList, .generate),
   ("figma_convert_file".toList, .convert)]

/-- Checks the parameters for a tool and runs it. The only fault is one of the parameters; whatever
happens later is part of the answer. -/
def run (exchange : Exchange) (params : Json) : Name → Except Fault Answer
  | .listPages => (PagesRequest.form.create params).map (listPages exchange)
  | .extract => (ExtractRequest.form.create params).map (extract exchange)
  | .parse => (ParseRequest.form.create params).map (parse exchange)
  | .generate => (GenerateRequest.form.create params).map generate
  | .convert => (ConvertRequest.form.create params).map (convert exchange)

end Tool

end DesignCompiler
