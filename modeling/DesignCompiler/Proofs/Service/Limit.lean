import DesignCompiler.Proofs.Service.Report
import DesignCompiler.Proofs.Text.Lines

/-!
# `DesignCompiler.Proofs.Service.Limit`: which replies keep to the limit

A tool finds something and tells it, and some of what is told is cut. `Tool.Found` is what is found;
`Found.whole` is all that could be told of it, and `Found.isCut` says whether the reply is cut:
layout trees always, code in markdown, pages never. `Tool.found` follows the tools up to that point,
and `Tool.run_eq_found` says that a run is what is found, told.

A reply keeps to the limit (`Report.IsLimited`) exactly if it is cut or if all of it fits
(`Tool.run_isLimited_iff`). What is not cut could keep to the limit by accident only, by ending as
a cut reply ends, and neither JSON nor a list of pages does. A page with a long name makes a list
that is too long (`Tool.longPage_overruns`).
-/

set_option autoImplicit false

namespace DesignCompiler

open Outcome Text

namespace Report

/-! ### Replies within the limit -/

/-- A reply keeps to the limit, where `whole` is all that there is to tell: it is as long as the
limit and the mark at most, what is longer than the limit is the start of the whole with the mark,
and there is nothing left to cut. The length alone would be too little to ask, since an empty reply
has it too. -/
structure IsLimited (whole reply : Text) : Prop where
  bound : reply.length ≤ characterLimit + cutMark.length
  taken : characterLimit < reply.length → reply = whole.take characterLimit ++ cutMark
  settled : cut reply = reply

/-- A reply that has been cut has the length of the limit and of the mark, so it is longer than the
limit by the mark. -/
theorem length_cut (whole : Text) (h : characterLimit < whole.length) :
    (cut whole).length = characterLimit + cutMark.length := by
  rw [cut_of_lt h, List.length_append, List.length_take, Nat.min_eq_left (Nat.le_of_lt h)]

/-- Cutting twice is cutting once. What was cut is longer than the limit because of the mark, and a
second cut takes this mark off and puts it back. -/
theorem cut_cut (whole : Text) : cut (cut whole) = cut whole := by
  by_cases h : characterLimit < whole.length
  · have hmark : 0 < cutMark.length := by decide
    have hlong : characterLimit < (cut whole).length := by
      rw [length_cut whole h]
      omega
    have htake : (whole.take characterLimit).length = characterLimit := by
      rw [List.length_take, Nat.min_eq_left (Nat.le_of_lt h)]
    rw [cut_of_lt hlong, cut_of_lt h, List.take_left' htake]
  · have hfits := cut_of_le (Nat.not_lt.mp h)
    rw [hfits, hfits]

/-- What is cut keeps to the limit, whether it was too long or not. -/
theorem isLimited_cut (whole : Text) : IsLimited whole (cut whole) := by
  by_cases h : characterLimit < whole.length
  · exact ⟨Nat.le_of_eq (length_cut whole h), fun _ => cut_of_lt h, cut_cut whole⟩
  · have hfits := cut_of_le (Nat.not_lt.mp h)
    refine ⟨?_, fun hlong => ?_, cut_cut whole⟩
    · rw [hfits]
      omega
    · rw [hfits] at hlong
      exact absurd hlong h

/-- What is told in full keeps to the limit only if it fits, unless it ends as a cut reply does.
Without that condition a text could be its own cut, with the mark where the limit is. -/
theorem isLimited_self_iff {whole : Text} (hend : ¬ cutMark <:+ whole) :
    IsLimited whole whole ↔ whole.length ≤ characterLimit := by
  constructor
  · intro h
    refine Nat.not_lt.mp fun hlong => hend ?_
    rw [h.taken hlong]
    exact List.suffix_append _ _
  · intro h
    have hlimited := isLimited_cut whole
    rwa [cut_of_le h] at hlimited

/-! ### How replies end -/

/-- A text with another end does not end as a cut reply. The last characters decide it, as soon as
they are no end of the mark. -/
theorem not_cutMark_suffix {ending t : Text} (h : ending <:+ t)
    (hlength : ending.length ≤ cutMark.length) (hne : ¬ ending <:+ cutMark) : ¬ cutMark <:+ t :=
  fun hmark => hne (List.suffix_of_suffix_length_le h hmark hlength)

/-- An object ends with a brace, with or without fields in it. So JSON is told apart from a reply
that has been cut by its last character. -/
theorem brace_suffix_indented (fields : Json.Fields) :
    ['\x7d'] <:+ (Json.object fields).indented := by
  cases fields with
  | nil => exact List.suffix_cons _ _
  | cons field fields =>
    obtain ⟨name, value⟩ := field
    have hfields := Json.writeFields_append .indented 1 fields
      (Json.Style.indented.breakBefore 0) ['\x7d']
    rw [Json.indented, Json.write, Json.writeBefore, hfields, Json.writeBefore_append]
    simp only [← List.append_assoc, ← List.cons_append]
    exact List.suffix_append _ _

/-- The last of several lines is the end of the text, whether or not there are lines before it. -/
theorem suffix_unlines_concat (ls : List Text) (l : Text) : l <:+ unlines (ls ++ [l]) := by
  by_cases hls : ls = []
  · rw [hls]
    exact List.suffix_refl l
  · rw [unlines_append hls (List.cons_ne_nil l []), unlines_singleton]
    exact (List.suffix_cons '\n' l).trans (List.suffix_append _ _)

/-- A list of pages does not end as a cut reply: JSON ends with a brace, a list with the bracket
behind an identifier, and a list without pages with a word. -/
theorem not_cutMark_suffix_ofPages (title? : Option Json) (pages : List PageEntry)
    (format : ReplyFormat) : ¬ cutMark <:+ ofPages title? pages format := by
  cases format with
  | json => exact not_cutMark_suffix (brace_suffix_indented _) (by decide) (by decide)
  | markdown =>
    by_cases hpages : pages = []
    · subst hpages
      have hlast := suffix_unlines_concat
        ["# Pages: ".toList ++ (title?.getD (.text "Untitled".toList)).shown, []]
        "No pages found in this file.".toList
      have hword : "file.".toList <:+ "No pages found in this file.".toList := by decide
      exact not_cutMark_suffix (hword.trans hlast) (by decide) (by decide)
    · -- The end of the list is the line of its last page.
      obtain ⟨init, last, rfl⟩ : ∃ init last, pages = init ++ [last] :=
        ⟨_, _, (List.dropLast_concat_getLast hpages).symm⟩
      have hlast := suffix_unlines_concat
        (["# Pages: ".toList ++ (title?.getD (.text "Untitled".toList)).shown, []]
          ++ init.map PageEntry.line) last.line
      have hbracket : "`)".toList <:+ last.line := List.suffix_append _ _
      have hend : "`)".toList <:+ ofPages title? (init ++ [last]) .markdown := by
        rw [ofPages]
        simpa using hbracket.trans hlast
      exact not_cutMark_suffix hend (by decide) (by decide)

end Report

namespace Tool

/-! ### What a tool finds -/

/-- What a tool found, before it is told. Each tool finds one kind of thing: one of them finds
pages, two find a layout tree and two find code. The title, the size and the time of a layout tree
are told with it. -/
inductive Found
  | pages (title? : Option Json) (entries : List Report.PageEntry)
  | layout (t : Extraction) (trees : List Json) (title : Text) (fileSize : Option Nat) (time : Int)
  | code (g : Generated) (warnings : List Text)

namespace Found

/-- All that there is to tell of what was found, in either format and as if there were no limit. -/
def whole : Found → ReplyFormat → Text
  | .pages title? entries, format => Report.ofPages title? entries format
  | .layout t trees _ fileSize time, .json =>
    (Report.extractionJson t trees fileSize time).indented
  | .layout t trees title _ time, .markdown => unlines (Report.extractionLines t trees title time)
  | .code g warnings, .json => (Report.codeJson g warnings).indented
  | .code g warnings, .markdown => unlines (Report.codeLines g warnings)

/-- Whether the reply is cut to the limit. Code is cut in markdown only, and a list of pages in
neither format, so these replies can be longer than the limit. -/
def isCut : Found → ReplyFormat → Bool
  | .pages .., _ => false
  | .layout .., _ => true
  | .code .., format => format = .markdown

/-- The reply to what was found: the whole, cut where `isCut` says so. -/
def reply (found : Found) (format : ReplyFormat) : Text :=
  if found.isCut format then Report.cut (found.whole format) else found.whole format

/-- What is not cut does not end as a cut reply, so `Report.isLimited_self_iff` is about it. -/
theorem not_cutMark_suffix_whole {found : Found} {format : ReplyFormat}
    (h : ¬ found.isCut format = true) : ¬ Report.cutMark <:+ found.whole format := by
  cases found with
  | pages title? entries => exact Report.not_cutMark_suffix_ofPages title? entries format
  | layout => exact absurd rfl h
  | code g warnings =>
    cases format with
    | json =>
      exact Report.not_cutMark_suffix (Report.brace_suffix_indented _) (by decide) (by decide)
    | markdown => exact absurd rfl h

/-- A reply keeps to the limit if and only if it is cut or all of it fits. Two kinds of reply are
left that do not: a long list of pages, and long code in JSON. -/
theorem isLimited_iff (found : Found) (format : ReplyFormat) :
    Report.IsLimited (found.whole format) (found.reply format)
      ↔ found.isCut format = true ∨ (found.whole format).length ≤ Report.characterLimit := by
  rw [reply]
  split
  · next hcut => exact ⟨fun _ => .inl hcut, fun _ => Report.isLimited_cut _⟩
  · next hcut =>
    rw [Report.isLimited_self_iff (not_cutMark_suffix_whole hcut)]
    exact ⟨.inr, fun h => h.resolve_left hcut⟩

end Found

/-- The pages that are found in a file. -/
def pagesFound (file : Json) : Except Fault Found := do
  let fields ← fieldsOf file
  let pages ← pagesOf fields
  return .pages (Json.field? fields "name".toList) pages

/-- The layout tree that is found in a file, after so many milliseconds. -/
def layoutFound (file : Json) (page : Option Text) (title : Text) (fileSize : Option Nat)
    (time : Int) : Except Fault Found := do
  let extraction ← Extraction.ofFile file (wantedPage page) Extraction.usualLimit
  let trees ← Node.dumpAll Node.levelLimit extraction.roots
  return .layout extraction trees title fileSize time

/-- The code of the layout tree that is found in a file. -/
def codeFound (file : Json) (page : Option Text) (platform : Platform) (extract : Bool) :
    Except Fault Found := do
  let extraction ← Extraction.ofFile file (wantedPage page) Extraction.usualLimit
  let generated ← Generated.ofNodes platform extract extraction.roots
  return .code generated extraction.messages

/-- What a tool finds for its parameters, and the format that it is to be told in. The parameters
are checked first, the file is fetched if the tool needs one, and a fault on the way is the trouble
that is told instead. -/
def found (exchange : Exchange) (params : Json) :
    Name → Except Fault (ReplyFormat × Except Trouble Found)
  | .listPages => (PagesRequest.form.create params).map fun r =>
    (r.format, (exchange.fetch r.fileKey (.object [("depth".toList, .int 1)])).2.bind fun file =>
      lift (pagesFound file))
  | .extract => (ExtractRequest.form.create params).map fun r =>
    (r.format, (exchange.fetch r.fileKey .null).2.bind fun file =>
      lift (layoutFound file r.page (titleOf file r.fileKey) (some file.compact.length)
        exchange.elapsed))
  | .parse => (ParseRequest.form.create params).map fun r =>
    (r.format, lift (layoutFound (.object r.file) r.page
      (titleOf (.object r.file) "Document".toList) none exchange.elapsed))
  | .generate => (GenerateRequest.form.create params).map fun r =>
    (r.format, lift ((Generated.ofNodes r.platform r.extract r.nodes).map fun g => .code g []))
  | .convert => (ConvertRequest.form.create params).map fun r =>
    (r.format, (exchange.fetch r.fileKey .null).2.bind fun file =>
      lift (codeFound file r.page r.platform r.extract))

/-! ### Runs -/

/-- What is found, or the trouble there was, as a text. Trouble is told in its own words, which the
limit is not for. -/
def told (format : ReplyFormat) (result : Except Trouble Found) : Text :=
  textOf (result.map (Found.reply · format))

/-- The reply of the tool that lists pages is what it finds, told. The same for each of the other
replies below; `run_eq_found` puts them together. -/
theorem pagesReply_eq_found (format : ReplyFormat) (file : Json) :
    pagesReply format file = (pagesFound file).map (Found.reply · format) := by
  simp only [pagesReply, pagesFound, map_bind]
  rfl

/-- The reply with a layout tree is what is found, told. Two tools tell one, after different titles
and with or without a size, so these are variables here. -/
theorem layoutReply_eq_found (file : Json) (page : Option Text) (title : Text)
    (fileSize : Option Nat) (time : Int) (format : ReplyFormat) :
    Extraction.ofFile file (wantedPage page) Extraction.usualLimit >>= (fun t =>
        Report.replyOf t title fileSize time format)
      = (layoutFound file page title fileSize time).map (Found.reply · format) := by
  simp only [layoutFound, Report.replyOf, map_bind]
  cases format <;> rfl

/-- The reply with the code of given trees is what is found, told. There is no extraction before it,
and so there are no warnings. -/
theorem generateReply_eq_found (r : GenerateRequest) :
    generateReply r = ((Generated.ofNodes r.platform r.extract r.nodes).map fun g =>
      Found.code g []).map (Found.reply · r.format) := by
  rw [generateReply, map_map]
  cases r.format <;> rfl

/-- The reply with the code of a file is what is found, told, with the warnings of the extraction.
-/
theorem convertReply_eq_found (r : ConvertRequest) (file : Json) :
    convertReply r file
      = (codeFound file r.page r.platform r.extract).map (Found.reply · r.format) := by
  simp only [convertReply, codeFound, map_bind]
  cases r.format <;> rfl

/-- What is told is what is found, told: if a reply is made from a finding, so is the text that is
sent, also when there was a fault. -/
theorem textOf_lift {reply : Except Fault Text} {find : Except Fault Found} {format : ReplyFormat}
    (h : reply = find.map (Found.reply · format)) :
    textOf (lift reply) = told format (lift find) := by
  rw [h]
  cases find <;> rfl

/-- The same for what is told of a file, if it could be fetched. If it could not, both sides tell
why. -/
theorem textOf_bind_lift {file : Except Trouble Json} {reply : Json → Except Fault Text}
    {find : Json → Except Fault Found} {format : ReplyFormat}
    (h : ∀ f, reply f = (find f).map (Found.reply · format)) :
    textOf (file.bind fun f => lift (reply f))
      = told format (file.bind fun f => lift (find f)) := by
  cases file with
  | error trouble => rfl
  | ok f => exact textOf_lift (h f)

/-- A run is what is found, told. Parameters that are refused make a fault on both sides, and it is
the same one. -/
theorem run_eq_found (exchange : Exchange) (params : Json) (name : Name) :
    (run exchange params name).map Answer.text
      = (found exchange params name).map fun (format, result) => told format result := by
  -- The parameters are read in the same way on both sides, so one request is left to compare.
  cases name with
  | listPages =>
    simp only [run, found, map_map]
    congr 1
    funext r
    exact textOf_bind_lift fun file => pagesReply_eq_found r.format file
  | extract =>
    simp only [run, found, map_map]
    congr 1
    funext r
    exact textOf_bind_lift fun file => (Report.extractReply_eq _ r file).trans
      (layoutReply_eq_found file r.page _ _ _ r.format)
  | parse =>
    simp only [run, found, map_map]
    congr 1
    funext r
    exact textOf_lift ((Report.parseReply_eq _ r).trans
      (layoutReply_eq_found (.object r.file) r.page _ _ _ r.format))
  | generate =>
    simp only [run, found, map_map]
    congr 1
    funext r
    exact textOf_lift (generateReply_eq_found r)
  | convert =>
    simp only [run, found, map_map]
    congr 1
    funext r
    exact textOf_bind_lift fun file => convertReply_eq_found r file

/-- A tool that accepts its parameters answers with the trouble there was or with a reply, and the
reply keeps to the limit if and only if it is cut or all of it fits. -/
theorem run_isLimited_iff {exchange : Exchange} {params : Json} {name : Name} {answer : Answer}
    (h : run exchange params name = .ok answer) :
    ∃ format result, found exchange params name = .ok (format, result)
      ∧ (∀ trouble, result = .error trouble → answer.text = trouble.message)
      ∧ ∀ what, result = .ok what →
        (Report.IsLimited (what.whole format) answer.text
          ↔ what.isCut format = true ∨ (what.whole format).length ≤ Report.characterLimit) := by
  have hrun := run_eq_found exchange params name
  rw [h, map_ok] at hrun
  obtain ⟨⟨format, result⟩, hfound, htext⟩ := map_eq_ok.mp hrun.symm
  refine ⟨format, result, hfound, fun trouble htrouble => ?_, fun what hwhat => ?_⟩
  · rw [← htext, htrouble]
    rfl
  · have hreply : answer.text = what.reply format := by
      rw [← htext, hwhat]
      rfl
    rw [hreply]
    exact what.isLimited_iff format

/-! ### A page with a long name -/

/-- A file with one page, whose name has so many letters. All of its other texts are short, so its
length is that of the name and a little more. -/
def pageFile (letters : Nat) : Json :=
  .object
    [("name".toList, .text "Demo".toList),
     ("document".toList, .object
      [("children".toList, .list [.object
        [("id".toList, .text "0:1".toList), ("name".toList, .text (List.replicate letters 'x')),
         ("type".toList, .text "CANVAS".toList)]])])]

/-- The file as the host sends it. It is worked out with the number of letters as a variable, as a
text of so many letters is too long to be computed with. -/
theorem compact_pageFile (letters : Nat) : (pageFile letters).compact
    = "\x7b\"name\":\"Demo\",\"document\":\x7b\"children\":[\x7b\"id\":\"0:1\",\"name\":\"".toList
      ++ (List.replicate letters 'x' ++ "\",\"type\":\"CANVAS\"\x7d]\x7d\x7d".toList) := by
  have hletters : ∀ rest, Quoted.ascii (List.replicate letters 'x') ++ rest
      = '"' :: (List.replicate letters 'x' ++ '"' :: rest) := by
    intro rest
    have hself : Quoted.asciiChar 'x' = ['x'] := by decide
    rw [Quoted.ascii, List.flatMap_replicate, hself]
    simp
  simp only [pageFile, Json.compact, Json.write, Json.writeBefore, Json.writeFields,
    Json.writeItems, hletters]
  rfl

/-- A character has four bytes at most. The size limit is on bytes, and the length of a text is in
characters. -/
theorem byteSize_le (t : Text) : Reply.byteSize t ≤ 4 * t.length := by
  induction t with
  | nil => exact Nat.le_refl 0
  | cons c t ih =>
    have hc := c.utf8Size_le_four
    have hsize : Reply.byteSize (c :: t) = c.utf8Size + Reply.byteSize t := rfl
    rw [hsize, List.length_cons]
    omega

/-- The host, when it has sent the file. -/
def pageHost (letters : Nat) : Exchange :=
  ⟨⟨some "t".toList, none, none, none⟩, .response 200 (pageFile letters).compact, 209715200, 0⟩

/-- Asks for the pages of a file. -/
def pageParams : Json := .object [(Request.fileKeyName, .text "AbC123xyz789".toList)]

/-- These parameters are accepted: the key is long enough and no address, and markdown is the format
where none is asked for. -/
theorem create_pageParams :
    PagesRequest.form.create pageParams = .ok ⟨"AbC123xyz789".toList, .markdown⟩ :=
  eq_of_toOption_eq (by decide +kernel) (by decide +kernel)

/-- A response within the size limit is read as its body is, by decoding it and then reading the
JSON. -/
theorem read_response {limit : Int} {body : Text} {file : Json}
    (hsize : (Reply.byteSize body : Int) ≤ limit) (hdecode : Encoding.decode body = .ok body)
    (hread : Json.read Reply.levelLimit body = .ok file) :
    (Reply.response 200 body).read limit = .ok file := by
  have hbody : (Reply.response 200 body).body = .ok body := rfl
  rw [Reply.read, hbody, ok_bind, if_neg (by omega), Reply.readBody, hdecode]
  dsimp only
  rw [hread]
  rfl

/-- The file is read, unless the name has millions of letters and the file is over the size limit.
-/
theorem read_pageFile {letters : Nat} (h : letters ≤ 1000000) :
    (pageHost letters).reply.read (pageHost letters).limit = .ok (pageFile letters) := by
  have hreadable : (pageFile letters).Readable := by
    simp [pageFile, Json.Readable, Json.ReadableAll, Json.ReadableFields]
  have hdepth : (pageFile letters).depth ≤ Reply.levelLimit := by
    simp [pageFile, Json.depth, Json.depthAll, Json.depthFields, Reply.levelLimit]
  have hlength : (pageFile letters).compact.length ≤ letters + 100 := by
    rw [compact_pageFile]
    simp
  have hbytes := byteSize_le (pageFile letters).compact
  refine read_response ?_ ?_ (Json.read_write .compact hreadable hdepth)
  · show (Reply.byteSize (pageFile letters).compact : Int) ≤ 209715200
    omega
  · rw [compact_pageFile]
    rfl

/-- What is found in the file. -/
def onePage (letters : Nat) : Found :=
  .pages (some (.text "Demo".toList))
    [⟨.text "0:1".toList, .text (List.replicate letters 'x'), .text "CANVAS".toList⟩]

/-- The tool finds the page, and its reply holds the name. -/
theorem found_pageHost {letters : Nat} (h : letters ≤ 1000000) :
    found (pageHost letters) pageParams .listPages = .ok (.markdown, .ok (onePage letters)) := by
  have hfetch : ((pageHost letters).fetch "AbC123xyz789".toList
      (.object [("depth".toList, .int 1)])).2
        = (pageHost letters).reply.read (pageHost letters).limit := rfl
  rw [found, create_pageParams, map_ok, hfetch, read_pageFile h]
  rfl

/-- The list is as long as the name and twenty-nine characters around it: the title of the file, and
the identifier and the marks of the line. -/
theorem length_whole_onePage (letters : Nat) :
    ((onePage letters).whole .markdown).length = letters + 29 := by
  have hline : ∀ page : Report.PageEntry, page.line = "- **".toList ++ page.name.shown
      ++ "** (`".toList ++ page.id.shown ++ "`)".toList := fun page => rfl
  simp [onePage, Found.whole, Report.ofPages, hline, Json.shown, unlines, joinWith]

/-- The page of a file is listed in a reply within the limit. -/
theorem shortPage_limited : ∃ answer, run (pageHost 5) pageParams .listPages = .ok answer
    ∧ Report.IsLimited ((onePage 5).whole .markdown) answer.text := by
  have hrun := run_eq_found (pageHost 5) pageParams .listPages
  rw [found_pageHost (by decide), map_ok] at hrun
  obtain ⟨answer, hanswer, -⟩ := map_eq_ok.mp hrun
  obtain ⟨format, result, hfound, -, hlimited⟩ := run_isLimited_iff hanswer
  rw [found_pageHost (by decide)] at hfound
  cases hfound
  refine ⟨answer, hanswer, (hlimited _ rfl).mpr (.inr ?_)⟩
  rw [length_whole_onePage]
  decide

/-- A page whose name has as many letters as the limit allows for the whole reply is listed in full,
in more characters than a reply may have. -/
theorem longPage_overruns : ∃ answer,
    run (pageHost 25000) pageParams .listPages = .ok answer
    ∧ found (pageHost 25000) pageParams .listPages = .ok (.markdown, .ok (onePage 25000))
    ∧ Report.characterLimit + Report.cutMark.length < answer.text.length
    ∧ ¬ Report.IsLimited ((onePage 25000).whole .markdown) answer.text := by
  have hletters : 25000 ≤ 1000000 := by decide
  have hfound := found_pageHost hletters
  have hrun := run_eq_found (pageHost 25000) pageParams .listPages
  rw [hfound, map_ok] at hrun
  obtain ⟨answer, hanswer, htext⟩ := map_eq_ok.mp hrun
  have hlength : answer.text.length = 25029 := by
    rw [htext]
    exact length_whole_onePage 25000
  have hlong : Report.characterLimit + Report.cutMark.length < answer.text.length := by
    rw [hlength]
    decide
  exact ⟨answer, hanswer, hfound, hlong, fun hlimited => Nat.not_lt.mpr hlimited.bound hlong⟩

end Tool

end DesignCompiler
