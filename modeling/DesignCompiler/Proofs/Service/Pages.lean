import DesignCompiler.Proofs.Extraction.Selection
import DesignCompiler.Proofs.Service.Request
import DesignCompiler.Service.Tool

/-!
# `DesignCompiler.Proofs.Service.Pages`: asking for a page that was listed

One tool lists the pages of a file, and two others take the identifier of a page. Whether these find
a listed page again is decided by what a request stores for the identifier (`Request.storedPage`):
white space at its ends is left out, and its hyphens become colons. `FileForm.listed_page` says that
an extraction is from the listed page exactly if the request stores the identifier as it is, which
is so for the identifiers without hyphens and without white space at their ends (`PageId.IsPlain`).

`FileForm.hyphenPage_missed` is about a page with a hyphen in its identifier. It is listed, and
another one is extracted when it is asked for.
-/

set_option autoImplicit false

namespace DesignCompiler

open Outcome Schema Text Request

/-! ### Identifiers -/

namespace PageId

/-- An identifier without hyphens, and without white space at its ends. Two numbers around a colon
are plain, but nothing keeps a file from having other identifiers. -/
def IsPlain (id : Text) : Prop := '-' ∉ id ∧ trimBy isWhiteSpace id = id

/-- Decided by trimming the identifier and looking for a hyphen. -/
instance (id : Text) : Decidable (IsPlain id) :=
  inferInstanceAs (Decidable ('-' ∉ id ∧ trimBy isWhiteSpace id = id))

end PageId

namespace Request

/-- What is stored for the identifier of a page: trimmed, and with colons for hyphens. -/
def storedPage (id : Text) : Text := PageId.ofText (trimBy isWhiteSpace id)

/-- An identifier is stored as it is if it is plain, and only then: what is stored has no hyphens
and nothing to trim. -/
theorem storedPage_eq_self_iff {id : Text} : storedPage id = id ↔ PageId.IsPlain id := by
  constructor
  · intro h
    refine ⟨h ▸ PageId.not_mem_ofText _, ?_⟩
    calc trimBy isWhiteSpace id = trimBy isWhiteSpace (storedPage id) := by rw [h]
      _ = storedPage id := by rw [storedPage, PageId.trimBy_ofText, trimBy_trimBy]
      _ = id := h
  · rintro ⟨hhyphen, htrimmed⟩
    rw [storedPage, htrimmed, PageId.ofText_eq_self hhyphen]

/-- A text is accepted for a page, even an empty one. What is stored for it may be another text. -/
theorem checkPage_text (id : Text) : checkPage (.text id) = .accepted (some (storedPage id)) :=
  checkPage_eq_accepted.mpr (.inr ⟨id, rfl, rfl⟩)

variable {α : Type} {name other : Text} {value : Json} {given : Json.Fields}

/-- A field in front does not change what is given for another name. -/
theorem given?_cons_of_ne (h : name ≠ other) :
    given? ((name, value) :: given) [other] = given? given [other] := by
  simp [given?, Json.field?, List.find?_cons, h]

/-- A field in front does not change a needed field with another name, whether this one is accepted,
refused or missing. -/
theorem needed_cons_of_ne (h : name ≠ other) (check : Json → Checked α) :
    needed ((name, value) :: given) other check = needed given other check := by
  rw [needed, given?_cons_of_ne h, needed]

/-- A field in front does not change an optional field with another name. So a page can be added to
a request that was accepted. -/
theorem optional_cons_of_ne (h : name ≠ other) (fallback : α) (check : Json → Checked α) :
    optional ((name, value) :: given) other fallback check
      = optional given other fallback check := by
  rw [optional, given?_cons_of_ne h, optional]

/-- A page that is given is accepted and stored, in a request of any form that may name one. -/
theorem optional_page {given : Json.Fields} {id : Text}
    (h : Json.field? given pageName = some (.text id)) :
    optional given pageName none checkPage = .accepted (some (storedPage id)) := by
  have haccepted : (checkPage (.text id)).under (.field pageName)
      = .accepted (some (storedPage id)) := under_eq_accepted.mpr (checkPage_text id)
  rw [optional, given?, List.findSome?_cons, h]
  exact haccepted

end Request

namespace FileForm

/-- The forms whose requests may name a page. -/
def paged : List FileForm := [extract, convert]

variable {f : FileForm}

/-- How a form goes about the identifier of a page: it is accepted next to whatever else is
accepted, and stored. The two forms have different other fields, and this is all that the statements
below need of them. -/
structure IsPaged (f : FileForm) : Prop where
  page_of_check : ∀ {given r}, f.form.check given = .accepted r →
    optional given pageName none checkPage = .accepted (f.page r)
  check_cons : ∀ {given old} (id : Text), f.form.check given = .accepted old →
    ∃ r, f.form.check ((pageName, .text id) :: given) = .accepted r
  assign : ∀ (old : f.Record) (id : Text), ∃ r,
    f.form.assign old (.text pageName) (.text id) = .ok r ∧ f.page r = some (storedPage id)

/-- Both forms go about the page alike: none of their other fields has the name of the page. -/
theorem isPaged (hf : f ∈ paged) : f.IsPaged := by
  simp only [paged, List.mem_cons, List.not_mem_nil, or_false] at hf
  rcases hf with rfl | rfl
  · -- The page is put in front of the other fields, and these are checked as before.
    refine ⟨fun h => (ExtractRequest.check_iff.mp h).2.1, fun {given old} id h => ?_,
      fun old id => ⟨ExtractRequest.mk _ _ _, rfl, rfl⟩⟩
    obtain ⟨hkey, -, hformat⟩ := ExtractRequest.check_iff.mp h
    exact ⟨ExtractRequest.mk _ (some (storedPage id)) _, ExtractRequest.check_iff.mpr
      ⟨(needed_cons_of_ne (by decide) _).trans hkey, optional_page rfl,
        (optional_cons_of_ne (by decide) _ _).trans hformat⟩⟩
  · refine ⟨fun h => (ConvertRequest.check_iff.mp h).2.1, fun {given old} id h => ?_,
      fun old id => ⟨ConvertRequest.mk _ _ _ _ _, rfl, rfl⟩⟩
    obtain ⟨hkey, -, hplatform, hextract, hformat⟩ := ConvertRequest.check_iff.mp h
    exact ⟨ConvertRequest.mk _ (some (storedPage id)) _ _ _, ConvertRequest.check_iff.mpr
      ⟨(needed_cons_of_ne (by decide) _).trans hkey, optional_page rfl,
        (needed_cons_of_ne (by decide) _).trans hplatform,
        (optional_cons_of_ne (by decide) _ _).trans hextract,
        (optional_cons_of_ne (by decide) _ _).trans hformat⟩⟩

/-- A request that was given an identifier for its page, when it was read or later. -/
inductive HasPage (f : FileForm) (id : Text) (r : f.Record) : Prop
  | read {given : Json.Fields} (hgiven : Json.field? given pageName = some (.text id))
      (h : f.form.create (.object given) = .ok r)
  | set {old : f.Record} (h : f.form.assign old (.text pageName) (.text id) = .ok r)

/-- However the identifier was given, this is what is stored. The given identifier itself is not
kept anywhere. -/
theorem HasPage.page_eq (hf : f ∈ paged) {id : Text} {r : f.Record} (h : f.HasPage id r) :
    f.page r = some (storedPage id) := by
  cases h with
  | read hgiven h =>
    have hpage := (isPaged hf).page_of_check (Form.create_object.mp h)
    rw [optional_page hgiven] at hpage
    exact (Checked.accepted.inj hpage).symm
  | set h =>
    obtain ⟨changed, hchanged, hpage⟩ := (isPaged hf).assign _ id
    rw [hchanged, Except.ok.injEq] at h
    exact h ▸ hpage

end FileForm

/-! ### Listed pages -/

/-- A field with another value than the one for a missing field is there. The file is read with a
default for what is missing, and this tells a root or children apart from the default. -/
theorem Json.field?_of_getD {fields : Json.Fields} {name : Text} {value missing : Json}
    (h : (field? fields name).getD missing = value) (hne : value ≠ missing) :
    field? fields name = some value := by
  cases hfield : field? fields name with
  | none =>
    rw [hfield] at h
    exact absurd h.symm hne
  | some found =>
    rw [hfield] at h
    exact congrArg some h

namespace Drawing

/-- The root of a file that is an object: what stands in its document field, which has to be an
object too. -/
theorem ofFile_object_eq_ok {file : Json.Fields} {root : Drawing} :
    ofFile (.object file) = .ok root
      ↔ ∃ inside, Json.fieldOrNull file "document".toList = .object inside
        ∧ ofFields inside = root := by
  rw [ofFile]
  cases Json.fieldOrNull file "document".toList <;> simp

/-- A list of objects can be read as layers, from whatever position on. Only what is no object makes
a fault, and that fault has the position. -/
theorem childrenFrom_map_object (position : Nat) (pages : List Json.Fields) :
    childrenFrom position (pages.map .object) = .ok (pages.map ofFields) := by
  induction pages generalizing position with
  | nil => rfl
  | cons first rest ih =>
    rw [List.map_cons, childrenFrom, ih, map_ok, List.map_cons, ofFields]

/-- A page has the identifier that is listed for it, as both are the same field of it. -/
theorem pageId_eq_of_listed {page : Drawing} {id : Text}
    (h : (Report.PageEntry.ofFields page.fields).id = .text id) : page.pageId = id :=
  congrArg Json.shown h

end Drawing

namespace Tool

/-- Only an object has fields. -/
theorem fieldsOf_eq_ok {value : Json} {fields : Json.Fields} :
    fieldsOf value = .ok fields ↔ value = .object fields := by
  cases value <;> simp [fieldsOf]

/-- The members of a value that has an object among them are the items of a list. The members of an
object are its names and those of a text are its characters, all of them texts. -/
theorem members_eq_list {value : Json} {members : List Json} (h : value.members = .ok members)
    {fields : Json.Fields} (hmem : .object fields ∈ members) : value = .list members := by
  cases value with
  | list items => rw [Json.members, Except.ok.injEq] at h; rw [h]
  | text t | object inside =>
    cases h
    obtain ⟨_, -, hobject⟩ := List.mem_map.mp hmem
    cases hobject
  | null | bool | int | double => cases h

/-- What is listed of the members of a value is what their fields say, and every member is an
object. By induction on the members, of which each is read by itself. -/
theorem mapM_entries {members : List Json} {entries : List Report.PageEntry}
    (h : members.mapM (fun page => (fieldsOf page).map Report.PageEntry.ofFields) = .ok entries) :
    ∃ pages : List Json.Fields, members = pages.map Json.object
      ∧ entries = pages.map Report.PageEntry.ofFields := by
  induction members generalizing entries with
  | nil =>
    cases h
    exact ⟨[], rfl, rfl⟩
  | cons first rest ih =>
    rw [List.mapM_cons] at h
    obtain ⟨entry, hentry, h⟩ := bind_eq_ok.mp h
    obtain ⟨others, hothers, h⟩ := bind_eq_ok.mp h
    cases h
    obtain ⟨fields, hfields, rfl⟩ := map_eq_ok.mp hentry
    obtain ⟨pages, rfl, rfl⟩ := ih hothers
    exact ⟨fields :: pages, by rw [fieldsOf_eq_ok.mp hfields]; rfl, rfl⟩

/-- The pages that are listed are the layers inside the document root. The list is made without
reading the root as a drawing, so this is where the two readings of a file meet. -/
theorem exists_page_of_listed {file : Json.Fields} {entries : List Report.PageEntry}
    (hlist : pagesOf file = .ok entries) {entry : Report.PageEntry} (hentry : entry ∈ entries)
    {root : Drawing} (hroot : Drawing.ofFile (.object file) = .ok root) :
    ∃ pages, root.children = .ok pages
      ∧ ∃ page ∈ pages, entry = Report.PageEntry.ofFields page.fields := by
  obtain ⟨inside, hinside, rfl⟩ := Drawing.ofFile_object_eq_ok.mp hroot
  simp only [pagesOf, bind_eq_ok] at hlist
  obtain ⟨listed, hlisted, members, hmembers, hentries⟩ := hlist
  -- The tool and the extraction look at the same root.
  have hdocument := Json.field?_of_getD hinside (by simp)
  rw [hdocument, Option.getD_some, fieldsOf, Except.ok.injEq] at hlisted
  subst hlisted
  obtain ⟨pages, rfl, rfl⟩ := mapM_entries hentries
  obtain ⟨fields, hmem, rfl⟩ := List.mem_map.mp hentry
  have hobject : Json.object fields ∈ pages.map Json.object := List.mem_map_of_mem hmem
  have hchildren : Json.fieldOrNull inside childrenName = .list (pages.map .object) := by
    have hfound := Json.field?_of_getD (members_eq_list hmembers hobject) fun hnil =>
      List.ne_nil_of_mem hobject (Json.list.inj hnil)
    rw [Json.fieldOrNull, hfound, Option.getD_some]
  refine ⟨pages.map Drawing.ofFields, ?_, Drawing.ofFields fields, List.mem_map_of_mem hmem, ?_⟩
  · rw [Drawing.ofFields, Drawing.children_ofChildren, Drawing.childrenIn_eq, hchildren,
      Drawing.childrenOf, Drawing.childrenFrom_map_object]
  · rw [Drawing.ofFields, Drawing.fields_ofChildren]

end Tool

namespace FileForm

variable {f : FileForm}

/-- What is extracted from a file for a request. The request decides about the page only. -/
def extraction (f : FileForm) (r : f.Record) (file : Json) (limit : Int) :
    Except Fault Extraction :=
  Extraction.ofFile file (Tool.wantedPage (f.page r)) limit

/-- What follows for a request that was given an identifier for its page: whether it finds the page,
and that it finds something. -/
structure Finds (f : FileForm) (file : Json) (id : Text) (r : f.Record) : Prop where
  /-- The extraction is from the page with this identifier if the identifier is plain. -/
  isFrom_iff : ∀ limit t, f.extraction r file limit = .ok t → (t.IsFrom id ↔ PageId.IsPlain id)
  /-- There is an extraction if the whole file goes through. The page has another position when it
  is extracted alone, which has to go through too unless the root starts at zero. -/
  exists_extraction : ∀ most whole, Extraction.ofFile file .null most = .ok whole →
    whole.isCut = false →
    (Drawing.StartsAtZero (Extraction.rootFields file) ∨ ∃ t, f.extraction r file 1 = .ok t) →
    ∀ limit, ∃ t, f.extraction r file limit = .ok t

/-- Every text is accepted for a page, and a request that is given the identifier of a listed page
finds this page again exactly if the identifier is plain.

The identifier may be given when the request is read or by setting the field later. An empty
identifier is left out, since it stands for no page in particular. -/
theorem listed_page (hf : f ∈ paged) {file : Json.Fields} {entries : List Report.PageEntry}
    (hlist : Tool.pagesOf file = .ok entries) {entry : Report.PageEntry} (hentry : entry ∈ entries)
    {id : Text} (hid : entry.id = .text id) (hne : id ≠ []) :
    (∀ given old, f.form.create (.object given) = .ok old →
        ∃ r, f.form.create (.object ((pageName, .text id) :: given)) = .ok r)
      ∧ (∀ old, ∃ r, f.form.assign old (.text pageName) (.text id) = .ok r)
      ∧ ∀ r, f.HasPage id r → f.Finds (.object file) id r := by
  refine ⟨fun given old h => ?_, fun old => ?_, fun r hr => ?_⟩
  · obtain ⟨r, hr⟩ := (isPaged hf).check_cons id (Form.create_object.mp h)
    exact ⟨r, Form.create_object.mpr hr⟩
  · obtain ⟨r, hr, -⟩ := (isPaged hf).assign old id
    exact ⟨r, hr⟩
  · have hwanted : Tool.wantedPage (f.page r) = .text (storedPage id) := by
      rw [hr.page_eq hf]
      rfl
    constructor
    · intro limit t h
      rw [extraction, hwanted] at h
      obtain ⟨root, hroot, -⟩ := bind_eq_ok.mp h
      rw [Extraction.isFrom_iff hroot (PageId.ofText_ofText _) h, ← storedPage_eq_self_iff]
      refine ⟨fun hfound => hfound.1,
        fun hstored => ⟨hstored, fun hnil => hne (hstored.symm.trans hnil), ?_⟩⟩
      -- The listed page is the one that has what is stored for its identifier.
      obtain ⟨pages, hpages, page, hmem, rfl⟩ := Tool.exists_page_of_listed hlist hentry hroot
      exact ⟨pages, hpages, page, hmem, Drawing.pageId_eq_of_listed hid⟩
    · intro most whole hwhole hcut hposition limit
      obtain ⟨root, hroot, -⟩ := bind_eq_ok.mp hwhole
      rw [← (Extraction.reports_root _).of_eq_ok hroot] at hposition
      simp only [extraction, hwanted] at hposition ⊢
      exact Extraction.exists_ofFile hroot hwhole hcut _ hposition limit

/-- A file with two pages, of which the second has the given identifier. -/
def withPage (id : Text) : Json.Fields :=
  let page (id : Text) : Json :=
    .object [("id".toList, .text id), ("type".toList, .text "CANVAS".toList)]
  [("document".toList, .object
    [("id".toList, .text "0:0".toList), ("children".toList, .list [page "0:1".toList, page id])])]

/-- A request for code of a file. -/
def codeFields : Json.Fields :=
  [(fileKeyName, .text "AbC123xyz789".toList), (platformName, .text "react".toList)]

/-- The page that is listed is found again: its identifier has a colon and no hyphen. -/
theorem withPage_found : ∃ entries entry r t,
    Tool.pagesOf (withPage "12:34".toList) = .ok entries
      ∧ entry ∈ entries ∧ entry.id = .text "12:34".toList
      ∧ convert.form.create (.object ((pageName, .text "12:34".toList) :: codeFields)) = .ok r
      ∧ convert.extraction r (.object (withPage "12:34".toList)) Extraction.usualLimit = .ok t
      ∧ t.IsFrom "12:34".toList := by
  obtain ⟨entries, hlist, entry, hentry, hid⟩ : ∃ entries,
      Tool.pagesOf (withPage "12:34".toList) = .ok entries
        ∧ ∃ entry ∈ entries, entry.id = .text "12:34".toList :=
    ⟨_, rfl, _, List.mem_cons_of_mem _ List.mem_cons_self, rfl⟩
  obtain ⟨haccepted, -, hfinds⟩ :=
    listed_page (f := convert) (by simp [paged]) hlist hentry hid (by decide)
  have hcreate : convert.form.create (.object codeFields)
      = .ok ⟨"AbC123xyz789".toList, none, .react, false, .markdown⟩ := by
    show ConvertRequest.form.create (.object codeFields) = _
    exact eq_of_toOption_eq (by decide +kernel) (by decide +kernel)
  obtain ⟨r, hr⟩ := haccepted codeFields _ hcreate
  obtain ⟨hfrom, hextraction⟩ := hfinds r (.read rfl hr)
  -- The whole file goes through, so an extraction of the page does.
  have huncut : (Extraction.ofFile (.object (withPage "12:34".toList)) .null
      Extraction.usualLimit).toOption.map Extraction.isCut = some false := by decide +kernel
  obtain ⟨whole, hwhole, hcut⟩ := Option.map_eq_some_iff.mp huncut
  obtain ⟨t, ht⟩ := hextraction _ whole (toOption_eq_some.mp hwhole) hcut (.inl nofun)
    Extraction.usualLimit
  exact ⟨entries, entry, r, t, hlist, hentry, hid, hr, ht, (hfrom _ t ht).mpr (by decide)⟩

/-- A page with a hyphen in its identifier is listed, and the file goes through, but the first page
is extracted in its place. -/
theorem hyphenPage_missed : ∃ entries entry whole r t,
    Tool.pagesOf (withPage "0-2".toList) = .ok entries
      ∧ entry ∈ entries ∧ entry.id = .text "0-2".toList
      ∧ Extraction.ofFile (.object (withPage "0-2".toList)) .null Extraction.usualLimit = .ok whole
      ∧ convert.form.create (.object ((pageName, .text "0-2".toList) :: codeFields)) = .ok r
      ∧ convert.extraction r (.object (withPage "0-2".toList)) Extraction.usualLimit = .ok t
      ∧ t.page = some "0:1".toList ∧ ∃ warning ∈ t.warnings, warning.missesPage = true := by
  have hwhole : (Extraction.ofFile (.object (withPage "0-2".toList)) .null
      Extraction.usualLimit).toOption.isSome = true := by decide +kernel
  obtain ⟨whole, hwhole⟩ := Option.isSome_iff_exists.mp hwhole
  have hcreate : convert.form.create (.object ((pageName, .text "0-2".toList) :: codeFields))
      = .ok ⟨"AbC123xyz789".toList, some "0:2".toList, .react, false, .markdown⟩ := by
    show ConvertRequest.form.create _ = _
    exact eq_of_toOption_eq (by decide +kernel) (by decide +kernel)
  -- What is stored has a colon for the hyphen, and no page has that identifier.
  have hmissed : (Extraction.ofFile (.object (withPage "0-2".toList)) (.text "0:2".toList)
      Extraction.usualLimit).toOption.map (fun t => (t.page, t.warnings.any Warning.missesPage))
        = some (some "0:1".toList, true) := by decide +kernel
  obtain ⟨t, ht, hsays⟩ := Option.map_eq_some_iff.mp hmissed
  obtain ⟨hpage, hwarning⟩ := Prod.mk.inj hsays
  exact ⟨_, _, whole, _, t, rfl, List.mem_cons_of_mem _ List.mem_cons_self, rfl,
    toOption_eq_some.mp hwhole, hcreate, toOption_eq_some.mp ht, hpage,
    List.any_eq_true.mp hwarning⟩

end FileForm

end DesignCompiler
