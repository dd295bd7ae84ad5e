import DesignCompiler.Proofs.Extraction.Choice
import DesignCompiler.Proofs.Json.Inline
import DesignCompiler.Proofs.Service.Limit

/-!
# `DesignCompiler.Proofs.Service.Listing`: names on lines of their own

Two texts are made line by line from names that somebody else has chosen: the warnings of an
extraction and the list of pages. The names stand in them as they are. So a line stays a line as
long as the names in it have no line feed (`Json.IsOneLine`), and no longer than that:
`Warning.unbroken_message` and `Report.PageEntry.unbroken_line` say so about one line,
`Extraction.unbroken_messages_iff` and `Report.lines_listing_iff` about all of them, and
`Tool.told_on_lines` puts the two together.

The names of layers in generated code are put on one line first (`Text.onOneLine_unbroken`). Nothing
of that kind happens here, and `Tool.draftPage_addsLine` is about a page that gets a second line.
-/

set_option autoImplicit false

namespace DesignCompiler

open Outcome Text

namespace Json

/-- A value that takes one line where it is shown. Only a text can take more: numbers, truth values
and whatever else is shown as JSON have no line feed. -/
def IsOneLine (value : Json) : Prop := ∀ t, value = .text t → Unbroken t

/-- A text takes one line if it has no line feed. -/
theorem isOneLine_text {t : Text} : (Json.text t).IsOneLine ↔ Unbroken t := by
  simp [IsOneLine]

/-- A value takes one line if what is shown for it has no line feed. This is how the values in a
message or a line are looked at below. -/
theorem isOneLine_iff_shown {value : Json} : value.IsOneLine ↔ Unbroken value.shown :=
  unbroken_shown_iff.symm

/-- Decided on what is shown, as the definition asks about all texts that the value could be. -/
instance (value : Json) : Decidable value.IsOneLine :=
  decidable_of_iff (Unbroken value.shown) unbroken_shown_iff

end Json

/-! ### Warnings -/

namespace Warning

/-- The values that a warning repeats. A warning about the limit repeats a number of the program's
own, which nobody else has chosen. -/
def quoted : Warning → List Json
  | .noPages wanted => [.text wanted]
  | .firstPage wanted name id => [.text wanted, name, id]
  | .cut _ => []

/-- A warning takes one line if what it repeats does. The texts are repeated as they are, so a line
feed in one of them is a line feed in the warning. -/
theorem unbroken_message {warning : Warning} :
    Unbroken warning.message ↔ ∀ value ∈ warning.quoted, value.IsOneLine := by
  -- The wording around the repeated values has no line feed, so only they are left to look at.
  cases warning with
  | noPages wanted =>
    have hfront : Unbroken "Page '".toList := of_literal (by decide +kernel)
    have hback : Unbroken
        "' not found and the document has no pages; nothing was translated".toList :=
      of_literal (by decide +kernel)
    dsimp only [message]
    simp only [quoted, unbroken_append, hfront, hback, List.forall_mem_singleton,
      Json.isOneLine_text, true_and, and_true]
  | firstPage wanted name id =>
    have hfront : Unbroken "Page '".toList := of_literal (by decide +kernel)
    have hname : Unbroken "' not found; fell back to first page '".toList :=
      of_literal (by decide +kernel)
    have hid : Unbroken "' (".toList := of_literal (by decide +kernel)
    have hback : Unbroken ")".toList := of_literal (by decide +kernel)
    dsimp only [message]
    simp only [quoted, unbroken_append, hfront, hname, hid, hback, List.forall_mem_cons,
      List.not_mem_nil, false_imp_iff, implies_true, Json.isOneLine_text,
      ← Json.isOneLine_iff_shown, true_and, and_true, and_assoc]
  | cut limit =>
    have hfront : Unbroken "Node limit of ".toList := of_literal (by decide +kernel)
    have hmiddle : Unbroken " exceeded; output is partial (only the first ".toList :=
      of_literal (by decide +kernel)
    have hback : Unbroken " nodes in depth-first order were translated)".toList :=
      of_literal (by decide +kernel)
    dsimp only [message]
    simp only [quoted, unbroken_append, hfront, hmiddle, hback, unbroken_ofInt,
      List.not_mem_nil, false_imp_iff, implies_true, and_self]

end Warning

namespace Drawing

/-- A document that has no page with the wanted identifier, in either spelling. An empty identifier
is not looked for, and a document without pages misses every other one. -/
structure Misses (root : Drawing) (page : Json) (wanted : Text) (pages : List Drawing) : Prop where
  page_eq : page = .text wanted
  wanted_ne_nil : wanted ≠ []
  children_eq : root.children = .ok pages
  not_hasId : ∀ other ∈ pages, ¬ other.HasId wanted

/-- What is repeated when no page has the wanted identifier: this identifier, and the name and the
identifier of the first page, if there is one. -/
def toldInstead (wanted : Text) (pages : List Drawing) : List Json :=
  .text wanted :: pages.head?.toList.flatMap fun first =>
    [first.pageLabel "name".toList, first.pageLabel "id".toList]

/-- Selecting has something to say only if no page has the wanted identifier, and then it repeats
what `toldInstead` lists, in one warning. -/
theorem Selects.quoted {root : Drawing} {wanted : Text} {choice : Option Selection}
    {said : List Warning} (h : root.Selects wanted choice said) :
    (said = [] ∧ ∀ pages, ¬ root.Misses (.text wanted) wanted pages)
      ∨ ∃ pages, root.Misses (.text wanted) wanted pages
        ∧ said.flatMap Warning.quoted = toldInstead wanted pages := by
  -- One case for each way to select: the root, a page that was found, the first page, and nothing.
  cases h with
  | root hnil => exact .inl ⟨rfl, fun pages hmisses => hmisses.wanted_ne_nil hnil⟩
  | found _ hpages hpage hid _ =>
    refine .inl ⟨rfl, fun pages hmisses => ?_⟩
    rw [hmisses.children_eq, Except.ok.injEq] at hpages
    subst hpages
    exact hmisses.not_hasId _ (List.mem_of_getElem? hpage) hid
  | @fallback first rest warning hne hpages hnone hwarning _ =>
    subst hwarning
    exact .inr ⟨first :: rest, ⟨rfl, hne, hpages, hnone⟩, by simp [Warning.quoted, toldInstead]⟩
  | nothing hne hpages =>
    exact .inr ⟨[], ⟨rfl, hne, hpages, nofun⟩, by simp [Warning.quoted, toldInstead]⟩

/-- The same for whatever is given as the identifier. Null asks for the whole document, and what is
neither a text nor null is a fault if it would be looked for. -/
theorem select_quoted {root : Drawing} {page : Json} {choice : Option Selection}
    {said : List Warning} (h : root.select page = .ok (choice, said)) :
    (said = [] ∧ ∀ wanted pages, ¬ root.Misses page wanted pages)
      ∨ ∃ wanted pages, root.Misses page wanted pages
        ∧ said.flatMap Warning.quoted = toldInstead wanted pages := by
  cases page with
  | text wanted =>
    have hselects : root.Selects wanted choice said :=
      (@select_eq_ok_iff root (some wanted) choice said).mp h
    rcases hselects.quoted with ⟨hsaid, hnone⟩ | ⟨pages, hmisses, hquoted⟩
    · refine .inl ⟨hsaid, fun other pages hmisses => ?_⟩
      obtain rfl := Json.text.inj hmisses.page_eq
      exact hnone pages hmisses
    · exact .inr ⟨wanted, pages, hmisses, hquoted⟩
  | null | bool b | int n | double x | list items | object fields =>
    -- Without an identifier the root is meant, and anything but a text is a fault.
    refine .inl ⟨?said, ?misses⟩
    case said =>
      rw [select] at h
      split at h
      · cases h
        rfl
      · obtain ⟨pages, -, h⟩ := bind_eq_ok.mp h
        cases h
    case misses =>
      intro wanted pages hmisses
      cases hmisses.page_eq

end Drawing

namespace Extraction

/-- The messages of an extraction take one line each if what is told instead of a missing page does.
There is one root and one list of pages in a file, so the statement is about the names and
identifiers in this file. -/
theorem unbroken_messages_iff {file page : Json} {limit : Int} {t : Extraction}
    (h : ofFile file page limit = .ok t) :
    (∀ message ∈ t.messages, Unbroken message)
      ↔ ∀ root wanted pages, Drawing.ofFile file = .ok root → root.Misses page wanted pages →
        ∀ value ∈ Drawing.toldInstead wanted pages, value.IsOneLine := by
  obtain ⟨root, hroot, h⟩ := bind_eq_ok.mp h
  obtain ⟨⟨choice, said⟩, hselect, h⟩ := bind_eq_ok.mp h
  -- The warning about the limit repeats a number only.
  have hmessages : (∀ message ∈ t.messages, Unbroken message)
      ↔ ∀ value ∈ said.flatMap Warning.quoted, value.IsOneLine := by
    have hcut : (if t.isCut then [Warning.cut limit] else []).flatMap Warning.quoted = [] := by
      split <;> rfl
    rw [← List.append_nil (said.flatMap Warning.quoted), ← hcut, ← List.flatMap_append,
      ← ofSelection_warnings h]
    simp only [messages, List.mem_map, List.mem_flatMap, Warning.unbroken_message,
      forall_exists_index, and_imp, forall_apply_eq_imp_iff₂]
    exact ⟨fun hall value warning hwarning => hall warning hwarning value,
      fun hall warning hwarning value => hall value warning hwarning⟩
  rw [hmessages]
  rcases Drawing.select_quoted hselect with ⟨rfl, hnone⟩ | ⟨wanted, pages, hmisses, hquoted⟩
  · refine iff_of_true (List.forall_mem_nil _) fun other wanted pages hother hmisses => ?_
    rw [hroot, Except.ok.injEq] at hother
    subst hother
    exact absurd hmisses (hnone wanted pages)
  · rw [hquoted]
    refine ⟨fun hall other wanted' pages' hother hmisses' => ?_,
      fun hall => hall root wanted pages hroot hmisses⟩
    -- There is one root, one identifier and one list of pages.
    rw [hroot, Except.ok.injEq] at hother
    subst hother
    obtain rfl := Json.text.inj (hmisses.page_eq.symm.trans hmisses'.page_eq)
    obtain rfl := Except.ok.inj (hmisses.children_eq.symm.trans hmisses'.children_eq)
    exact hall

end Extraction

/-! ### The list of pages -/

namespace Report

/-- The line of a page is one line if the page's name and identifier are. What stands around them is
fixed and has no line feed. -/
theorem PageEntry.unbroken_line {entry : PageEntry} :
    Unbroken entry.line ↔ entry.name.IsOneLine ∧ entry.id.IsOneLine := by
  have hfront : Unbroken "- **".toList := by decide
  have hmiddle : Unbroken "** (`".toList := by decide
  have hback : Unbroken "`)".toList := by decide
  dsimp only [line]
  simp only [unbroken_append, hfront, hmiddle, hback, Json.isOneLine_iff_shown, true_and, and_true]

/-- The line of a page names it: its name and its identifier stand in the line as they are, whatever
characters they have. -/
theorem PageEntry.infix_line (entry : PageEntry) :
    entry.name.shown <:+: entry.line ∧ entry.id.shown <:+: entry.line := by
  refine ⟨⟨"- **".toList, "** (`".toList ++ entry.id.shown ++ "`)".toList, ?_⟩,
    List.infix_append _ _ _⟩
  dsimp only [line]
  simp only [List.append_assoc]

/-- The title over the pages of a file: its name, whatever kind of value that is, or a word for a
file that has none. -/
def pagesTitle (file : Json.Fields) : Json :=
  (Json.field? file "name".toList).getD (.text "Untitled".toList)

/-- The lines of a list of pages: a title, an empty line, and one line for each page, or a line that
says that there is none. This is what a reader should find after cutting the reply into lines. -/
def listing (title : Json) (pages : List PageEntry) : List Text :=
  ("# Pages: ".toList ++ title.shown) :: [] ::
    if pages = [] then ["No pages found in this file.".toList] else pages.map PageEntry.line

/-- The list has these lines if the title and all names and identifiers are one line. If one of them
is not, there are other lines than these, and a reader cannot know which of them are pages. -/
theorem lines_listing_iff {title : Json} {pages : List PageEntry} :
    lines (unlines (listing title pages)) = listing title pages
      ↔ title.IsOneLine ∧ ∀ entry ∈ pages, entry.name.IsOneLine ∧ entry.id.IsOneLine := by
  -- Cutting gives back the lines exactly if they are lines.
  have hcut : lines (unlines (listing title pages)) = listing title pages
      ↔ ∀ line ∈ listing title pages, Unbroken line := by
    constructor
    · intro h line hline
      rw [← h] at hline
      exact unbroken_of_mem_lines hline
    · exact lines_unlines (List.cons_ne_nil _ _)
  have htitle : Unbroken ("# Pages: ".toList ++ title.shown) ↔ title.IsOneLine := by
    rw [unbroken_append, Json.isOneLine_iff_shown]
    exact and_iff_right (by decide)
  rw [hcut, listing, List.forall_mem_cons, List.forall_mem_cons, htitle, and_iff_right unbroken_nil]
  split
  · next hnone =>
    have hsays : Unbroken "No pages found in this file.".toList := of_literal (by decide +kernel)
    simp only [hnone, hsays, List.forall_mem_singleton, List.not_mem_nil, false_imp_iff,
      implies_true, and_true]
  · simp only [List.forall_mem_map, PageEntry.unbroken_line]

end Report

namespace Tool

/-- A file whose pages are objects. Without a root, or with a root without children, it has none. A
file with a page of another kind is refused and makes no list. -/
def HasPages (file : Json.Fields) (pages : List Json.Fields) : Prop :=
  ∃ root, (Json.field? file "document".toList).getD (.object []) = .object root
    ∧ (Json.field? root childrenName).getD (.list []) = .list (pages.map .object)

/-- All pages of a file are listed, in order, each as what its own fields say. -/
theorem pagesOf_eq {file : Json.Fields} {pages : List Json.Fields} (h : HasPages file pages) :
    pagesOf file = .ok (pages.map Report.PageEntry.ofFields) := by
  obtain ⟨root, hroot, hpages⟩ := h
  have hentries : ∀ pages : List Json.Fields, (pages.map Json.object).mapM
      (fun page => (fieldsOf page).map Report.PageEntry.ofFields)
        = .ok (pages.map Report.PageEntry.ofFields) := by
    intro pages
    induction pages with
    | nil => rfl
    | cons first rest ih =>
      rw [List.map_cons, List.mapM_cons, ih]
      rfl
  rw [pagesOf, hroot, fieldsOf, ok_bind, hpages, Json.members, ok_bind, hentries]

/-- The list of the pages of a fetched file, as markdown. It is not cut, so the text of the reply is
exactly the lines of `Report.listing`. -/
theorem text_listPages {file : Json.Fields} {pages : List Json.Fields} (h : HasPages file pages)
    {exchange : Exchange} {r : PagesRequest} (hformat : r.format = .markdown)
    (hfetch : (exchange.fetch r.fileKey (.object [("depth".toList, .int 1)])).2
      = .ok (.object file)) :
    (listPages exchange r).text
      = unlines (Report.listing (Report.pagesTitle file)
          (pages.map Report.PageEntry.ofFields)) := by
  have hreply : pagesReply r.format (.object file)
      = .ok (Report.ofPages (Json.field? file "name".toList)
          (pages.map Report.PageEntry.ofFields) .markdown) := by
    rw [pagesReply, fieldsOf, ok_bind, pagesOf_eq h, hformat]
    rfl
  -- The list is told as it is, without being cut.
  have htext : (listPages exchange r).text = textOf ((exchange.fetch r.fileKey
      (.object [("depth".toList, .int 1)])).2.bind fun file => lift (pagesReply r.format file)) :=
    rfl
  rw [htext, hfetch]
  show textOf (lift (pagesReply r.format (.object file))) = _
  rw [hreply]
  show Report.ofPages _ _ .markdown = _
  simp only [Report.ofPages, Report.listing, Report.pagesTitle, List.isEmpty_iff, List.cons_append,
    List.nil_append]

/-- The messages of an extraction, and the list of pages under its title, take one line each exactly
if the names and identifiers in them do. The line of a page names it, and the pages are listed in
order. -/
theorem told_on_lines (file page : Json) (limit : Int) (listed : Json.Fields)
    (pages : List Json.Fields) (exchange : Exchange) (r : PagesRequest) :
    (∀ t, Extraction.ofFile file page limit = .ok t →
      ((∀ message ∈ t.messages, Unbroken message)
        ↔ ∀ root wanted pages, Drawing.ofFile file = .ok root → root.Misses page wanted pages →
          ∀ value ∈ Drawing.toldInstead wanted pages, value.IsOneLine))
    ∧ (HasPages listed pages → r.format = .markdown →
      (exchange.fetch r.fileKey (.object [("depth".toList, .int 1)])).2 = .ok (.object listed) →
      ∃ entries, entries = pages.map Report.PageEntry.ofFields
        ∧ (lines (listPages exchange r).text = Report.listing (Report.pagesTitle listed) entries
          ↔ (Report.pagesTitle listed).IsOneLine
            ∧ ∀ entry ∈ entries, entry.name.IsOneLine ∧ entry.id.IsOneLine)
        ∧ ∀ entry ∈ entries,
          entry.name.shown <:+: entry.line ∧ entry.id.shown <:+: entry.line) := by
  refine ⟨fun t h => Extraction.unbroken_messages_iff h, ?_⟩
  intro hpages hformat hfetch
  refine ⟨_, rfl, ?_, fun entry _ => entry.infix_line⟩
  rw [text_listPages hpages hformat hfetch]
  exact Report.lines_listing_iff

/-- A file with one page, for the two runs below. Only the name of the page differs between them. -/
def singlePage (name : Text) : Json.Fields :=
  [("name".toList, .text "Demo".toList),
   ("document".toList, .object
    [("children".toList, .list [.object
      [("id".toList, .text "0:1".toList), ("name".toList, .text name)]])])]

/-- The host, when it has sent that file. -/
def singleHost (name : Text) : Exchange :=
  ⟨⟨some "t".toList, none, none, none⟩, .response 200 (Json.object (singlePage name)).compact,
    209715200, 0⟩

/-- The page of this file is an object, and it is the only one. -/
theorem hasPages_singlePage (name : Text) : HasPages (singlePage name)
    [[("id".toList, .text "0:1".toList), ("name".toList, .text name)]] := ⟨_, rfl, rfl⟩

/-- A name in more than one line: behind the line feed it looks like the line of another page. -/
def draftName : Text := "Cover\n- **Draft** (`0:2`)".toList

/-- The host's file is read, whichever of the two names its page has. Written compactly, a line feed
in a name is escaped, so reading gives the name back. -/
theorem fetch_singleHost {name : Text} (h : name ∈ ["Cover".toList, draftName]) :
    ((singleHost name).fetch "AbC123xyz789".toList (.object [("depth".toList, .int 1)])).2
      = .ok (.object (singlePage name)) := by
  have hreadable : (Json.object (singlePage name)).Readable := by
    simp [singlePage, Json.Readable, Json.ReadableAll, Json.ReadableFields]
  have hdepth : (Json.object (singlePage name)).depth ≤ Reply.levelLimit := by
    simp [singlePage, Json.depth, Json.depthAll, Json.depthFields, Reply.levelLimit]
  simp only [List.mem_cons, List.not_mem_nil, or_false] at h
  refine read_response ?_ ?_ (Json.read_write .compact hreadable hdepth)
  · rcases h with rfl | rfl <;> decide +kernel
  · rcases h with rfl | rfl <;> rfl

/-- With a page name in one line, both the warning about another page and the list are as they
should be. -/
theorem coverPage_told : ∃ t,
    Extraction.ofFile (.object (singlePage "Cover".toList)) (.text "9:9".toList)
      Extraction.usualLimit = .ok t
    ∧ t.messages ≠ [] ∧ (∀ message ∈ t.messages, Unbroken message)
    ∧ lines (listPages (singleHost "Cover".toList) ⟨"AbC123xyz789".toList, .markdown⟩).text
      = ["# Pages: Demo".toList, [], "- **Cover** (`0:1`)".toList] := by
  have hpages : ∀ root pages, Drawing.ofFile (.object (singlePage "Cover".toList)) = .ok root →
      root.children = .ok pages → pages.map Drawing.fields
        = [[("id".toList, .text "0:1".toList), ("name".toList, .text "Cover".toList)]] := by
    intro root pages hroot hchildren
    cases hroot
    cases hchildren
    rfl
  have hmessages : (Extraction.ofFile (.object (singlePage "Cover".toList)) (.text "9:9".toList)
      Extraction.usualLimit).toOption.map (fun t => t.messages.length) = some 1 := by
    decide +kernel
  obtain ⟨t, ht, hlength⟩ := Option.map_eq_some_iff.mp hmessages
  have h := toOption_eq_some.mp ht
  -- What the two halves of the statement ask about the file is computed.
  obtain ⟨htold, hlisted⟩ := told_on_lines (.object (singlePage "Cover".toList))
    (.text "9:9".toList) Extraction.usualLimit (singlePage "Cover".toList) _
    (singleHost "Cover".toList) ⟨"AbC123xyz789".toList, .markdown⟩
  obtain ⟨entries, rfl, hlines, -⟩ := hlisted (hasPages_singlePage "Cover".toList) rfl
    (fetch_singleHost List.mem_cons_self)
  refine ⟨t, h, ?_, (htold t h).mpr ?_, hlines.mpr ?_⟩
  · rintro hnil
    rw [hnil] at hlength
    cases hlength
  · intro root wanted pages hroot hmisses value hvalue
    obtain rfl := Json.text.inj hmisses.page_eq
    have hfields := hpages root pages hroot hmisses.children_eq
    obtain ⟨first, rest, rfl⟩ := List.exists_cons_of_ne_nil
      (fun hnil => by simp [hnil] at hfields : pages ≠ [])
    obtain ⟨hfirst, -⟩ := List.cons.inj hfields
    revert value
    simp only [Drawing.toldInstead, Drawing.pageLabel, List.head?_cons, Option.toList_some,
      List.flatMap_singleton, hfirst]
    decide +kernel
  · decide +kernel

/-- A page name of two lines. The warning about another page is broken, and a file with one page is
listed in four lines, of which the last one could be that of a page. -/
theorem draftPage_addsLine : ∃ t,
    Extraction.ofFile (.object (singlePage draftName)) (.text "9:9".toList)
      Extraction.usualLimit = .ok t
    ∧ (∃ message ∈ t.messages, ¬ Unbroken message)
    ∧ HasPages (singlePage draftName) [[("id".toList, .text "0:1".toList),
        ("name".toList, .text draftName)]]
    ∧ ((singleHost draftName).fetch "AbC123xyz789".toList
        (.object [("depth".toList, .int 1)])).2 = .ok (.object (singlePage draftName))
    ∧ lines (listPages (singleHost draftName) ⟨"AbC123xyz789".toList, .markdown⟩).text
      = ["# Pages: Demo".toList, [], "- **Cover".toList,
          "- **Draft** (`0:2`)** (`0:1`)".toList] := by
  have hbroken : (Extraction.ofFile (.object (singlePage draftName)) (.text "9:9".toList)
      Extraction.usualLimit).toOption.map
        (fun t => t.messages.any fun message => decide (¬ Unbroken message)) = some true := by
    decide +kernel
  obtain ⟨t, ht, hany⟩ := Option.map_eq_some_iff.mp hbroken
  obtain ⟨message, hmessage, hbroken⟩ := List.any_eq_true.mp hany
  have hfetch := @fetch_singleHost draftName (by simp)
  refine ⟨t, toOption_eq_some.mp ht, ⟨message, hmessage, of_decide_eq_true hbroken⟩,
    hasPages_singlePage draftName, hfetch, ?_⟩
  rw [text_listPages (hasPages_singlePage draftName) rfl hfetch]
  decide +kernel

end Tool

end DesignCompiler
