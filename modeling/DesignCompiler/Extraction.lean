import DesignCompiler.Drawing.Walk

/-!
# `DesignCompiler.Extraction`: the layout tree of a design file

A layout tree is extracted from a whole design file, or from one of its pages, which are the
children of the document root. A page is chosen by its identifier, in which hyphens may stand for
colons. If no page has it, the first page takes its place and a warning says so; if there is no page
at all, there is no tree. At most `limit` layers are visited, and a warning says when layers were
left out.

Nothing is visited in a file whose root is missing, and the children of the root have to be a list
of objects before a page can be looked for.
-/

set_option autoImplicit false

namespace DesignCompiler

/-- What an extraction has to say although it went through. The names and identifiers in a warning
are those of the file, unchecked. -/
inductive Warning
  /-- There is no page, so there is no tree. -/
  | noPages (wanted : Text)
  /-- The first page stands in for the one that was wanted. -/
  | firstPage (wanted : Text) (name id : Json)
  /-- Layers beyond the limit are left out. -/
  | cut (limit : Int)

/-- The wording of a warning. Names and identifiers of the file are written as they are shown,
without a change; one that holds a line feed breaks the line. -/
def Warning.message : Warning → Text
  | .noPages wanted =>
    "Page '".toList ++ wanted
      ++ "' not found and the document has no pages; nothing was translated".toList
  | .firstPage wanted name id =>
    "Page '".toList ++ wanted ++ "' not found; fell back to first page '".toList ++ name.shown
      ++ "' (".toList ++ id.shown ++ ")".toList
  | .cut limit =>
    "Node limit of ".toList ++ Text.ofInt limit
      ++ " exceeded; output is partial (only the first ".toList ++ Text.ofInt limit
      ++ " nodes in depth-first order were translated)".toList

/-- A layer whose tree is to be extracted, with the place at which its faults are told. -/
structure Selection where
  drawing : Drawing
  place : Place
  /-- Whether the layer is a page, and not the document root. -/
  isPage : Bool

/-- What was extracted from a design file. The count is that of the visits, which is the number of
nodes of the tree. -/
structure Extraction where
  root : Option Node
  count : Nat
  isCut : Bool
  warnings : List Warning
  /-- The identifier of the page that the tree is from, if it is from one. -/
  page : Option Text

/-- The trees of an extraction: one, or none. -/
def Extraction.roots (t : Extraction) : List Node := t.root.toList

/-- The messages of the warnings, in order. -/
def Extraction.messages (t : Extraction) : List Text := t.warnings.map Warning.message

namespace Drawing

/-- The place of the document root. -/
def rootPlace : Place := .layer []

/-- The identifier or name of a page, empty if it has none. -/
def pageLabel (page : Drawing) (name : Text) : Json :=
  (Json.field? page.fields name).getD (.text [])

/-- The identifier of a page as text, as it is compared and reported. A page without one has the
empty text. -/
def pageId (page : Drawing) : Text := (page.pageLabel "id".toList).shown

/-- Whether a page has the wanted identifier, hyphens in that read as they are or as colons. Only
the wanted identifier is rewritten, never the one of the page. -/
def isPage (wanted : Text) (page : Drawing) : Bool :=
  page.pageId = wanted || page.pageId = Text.replaceChar '-' ':' wanted

/-- The page with the wanted identifier among some pages, else the first one. Only the second case
warns; without any page there is nothing to walk. -/
def selectPage (wanted : Text) (pages : List Drawing) : Option Selection × List Warning :=
  -- Of several pages with the wanted identifier the first one is taken.
  match pages.findIdx? (isPage wanted), pages with
  | some position, _ =>
    ((pages[position]?).map fun page => ⟨page, rootPlace.child position, true⟩, [])
  | none, [] => (none, [.noPages wanted])
  | none, first :: _ =>
    (some ⟨first, rootPlace.child 0, true⟩,
      [.firstPage wanted (first.pageLabel "name".toList) (first.pageLabel "id".toList)])

/-- The layer whose tree is to be extracted: the root unless a page is wanted. The children of the
root are looked at only in the second case, so a root with broken children can still fail later,
when it is visited. -/
def select (root : Drawing) (page : Json) : Except Fault (Option Selection × List Warning) :=
  if page.isBlank then .ok (some ⟨root, rootPlace, false⟩, [])
  else do
    let pages ← root.visitChildren rootPlace
    match page with
    | .text wanted => return selectPage wanted pages
    | _ => .error (.noOperation page.kind "replace".toList)

/-- The document root of a design file. The file itself has to be an object, and so has what stands
under the name of the root; both faults are told at the file. -/
def ofFile : Json → Except Fault Drawing
  | .object fields =>
    match Json.fieldOrNull fields "document".toList with
    | .object root => .ok (ofFields root)
    | _ => .error (.malformed .rootMissing .file .null)
  | file => .error (.malformed (.fileNotObject file.kind) .file .null)

end Drawing

namespace Extraction

/-- The number of layers that are visited if nobody asks for another. -/
def usualLimit : Int := 1000

/-- The extraction of a chosen layer, after the warnings of the choice. The walk comes first and the
tree is built from its visits, so a structural fault of any visited layer comes before an unfit
value of one. -/
def ofSelection (limit : Int) (warnings : List Warning) :
    Option Selection → Except Fault Extraction
  | none => .ok ⟨none, 0, false, warnings, none⟩
  | some selection => do
    -- A negative limit allows no visit, like zero; the warning still tells it as it was given.
    let walk ← Walk.run limit.toNat (Walk.start selection.drawing selection.place)
    let root ← walk.node?
    return {
      root
      count := walk.visits.size
      isCut := walk.isCut
      warnings := warnings ++ if walk.isCut then [.cut limit] else []
      page := if selection.isPage then some selection.drawing.pageId else none }

/-- The extraction of a document root or of one of its pages. -/
def ofDrawing (root : Drawing) (page : Json) (limit : Int) : Except Fault Extraction := do
  let (selection, warnings) ← root.select page
  ofSelection limit warnings selection

/-- The extraction of a design file or of one of its pages. -/
def ofFile (file page : Json) (limit : Int) : Except Fault Extraction := do
  let root ← Drawing.ofFile file
  ofDrawing root page limit

end Extraction

end DesignCompiler
