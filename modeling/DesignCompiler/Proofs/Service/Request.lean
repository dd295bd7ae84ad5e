import DesignCompiler.Proofs.Schema.Form
import DesignCompiler.Proofs.Service.FileKey
import DesignCompiler.Service.Request

/-!
# `DesignCompiler.Proofs.Service.Request`: what requests store

Three tools fetch a file, and the forms of their requests check its key in the same way
(`FileForm`). What a request stores has gone through the checks, when it was read and whenever a
field was set: the key and the page are such that the checks change nothing in them
(`FileForm.after_stored`).

The limits on the length of a key are for the text that was given. An address is longer than the
key in it, so a stored key may be too short to be given again (`FileForm.shortAddress_stored`). The
condition for it to be long enough is that the addresses that were given hold long enough keys.
-/

set_option autoImplicit false

namespace DesignCompiler

open Schema Text Request

/-! ### Page identifiers -/

namespace PageId

/-- An identifier that is stored has no hyphens. -/
theorem not_mem_ofText (t : Text) : '-' ∉ ofText t := not_mem_replaceChar (by decide) t

/-- An identifier without hyphens is stored with the characters that it has. -/
theorem ofText_eq_self {t : Text} (h : '-' ∉ t) : ofText t = t := replaceChar_eq_self ':' h

/-- Storing what is stored changes nothing, as there are no hyphens left to replace. -/
theorem ofText_ofText (t : Text) : ofText (ofText t) = ofText t :=
  ofText_eq_self (not_mem_ofText t)

/-- Neither hyphens nor colons are trimmed, so it makes no difference whether an identifier is
trimmed before or after. -/
theorem trimBy_ofText (t : Text) :
    trimBy isWhiteSpace (ofText t) = ofText (trimBy isWhiteSpace t) := by
  refine trimBy_map (fun c => ?_) t
  split
  · next hc =>
    rw [hc]
    decide
  · rfl

end PageId

namespace Request

/-! ### Checks -/

/-- A text is accepted as a key if it has an allowed length and names the key. The length is that of
the text, and nothing is asked of the length of the key. -/
theorem checkKeyText_eq_accepted {t key : Text} :
    checkKeyText t = .accepted key ↔
      shortestKey ≤ t.length ∧ t.length ≤ longestKey ∧ FileKey.ofText t = .ok key := by
  rw [checkKeyText]
  split
  · next hshort => simp [Checked.refuse, Nat.not_le.mpr hshort]
  · next hshort =>
    split
    · next hlong => simp [Checked.refuse, Nat.not_le.mpr hlong]
    · next hlong =>
      rw [and_iff_right (Nat.not_lt.mp hshort), and_iff_right (Nat.not_lt.mp hlong)]
      cases FileKey.ofText t <;> simp [Checked.refuse]

/-- A file key is accepted if the trimmed text has an allowed length and names it. Values other than
texts are all refused. -/
theorem checkFileKey_eq_accepted {value : Json} {key : Text} :
    checkFileKey value = .accepted key ↔
      ∃ t, value = .text t ∧ shortestKey ≤ (trimBy isWhiteSpace t).length
        ∧ (trimBy isWhiteSpace t).length ≤ longestKey
        ∧ FileKey.ofText (trimBy isWhiteSpace t) = .ok key := by
  cases value with
  | text t =>
    simp only [Json.text.injEq, exists_eq_left']
    exact checkKeyText_eq_accepted
  | null | bool _ | int _ | double _ | list _ | object _ =>
    simp [checkFileKey, checkTrimmed, checkText, Checked.refuse, Checked.map, Checked.andThen]

/-- A page is accepted if it is a text, whatever the text is, or null. So there is no complaint
about an identifier that no page can have. -/
theorem checkPage_eq_accepted {value : Json} {page : Option Text} :
    checkPage value = .accepted page ↔
      value = .null ∧ page = none
        ∨ ∃ t, value = .text t ∧ page = some (PageId.ofText (trimBy isWhiteSpace t)) := by
  cases value with
  | text t | null =>
    simp [checkPage, nullable, checkTrimmed, checkText, Checked.map, eq_comm]
  | bool _ | int _ | double _ | list _ | object _ =>
    simp [checkPage, nullable, checkTrimmed, checkText, Checked.refuse, Checked.map]

/-- A needed field is accepted if there is a value for it that the check takes. The name of the
field is put into the complaints and is not seen here. -/
theorem exists_of_needed {α : Type} {given : Json.Fields} {name : Text} {check : Json → Checked α}
    {a : α} (h : needed given name check = .accepted a) :
    ∃ value, Json.field? given name = some value ∧ check value = .accepted a := by
  rw [needed, given?, List.findSome?_cons, List.findSome?_nil] at h
  cases hvalue : Json.field? given name with
  | none =>
    rw [hvalue] at h
    cases h
  | some value =>
    rw [hvalue] at h
    exact ⟨value, rfl, under_eq_accepted.mp h⟩

/-- An optional field is its default or a value that the check takes. -/
theorem exists_of_optional {α : Type} {given : Json.Fields} {name : Text} {fallback : α}
    {check : Json → Checked α} {a : α} (h : optional given name fallback check = .accepted a) :
    a = fallback ∨ ∃ value, Json.field? given name = some value ∧ check value = .accepted a := by
  rw [optional, given?, List.findSome?_cons, List.findSome?_nil] at h
  cases hvalue : Json.field? given name with
  | none =>
    rw [hvalue] at h
    cases h
    exact .inl rfl
  | some value =>
    rw [hvalue] at h
    exact .inr ⟨value, rfl, under_eq_accepted.mp h⟩

/-! ### What is stored -/

/-- A key that the checks change nothing in: it has no white space to trim, and it names itself. It
may be too short to pass them, since only its greatest length is known. -/
structure IsStoredKey (key : Text) : Prop where
  length_le : key.length ≤ longestKey
  trimmed : trimBy isWhiteSpace key = key
  names_itself : FileKey.ofText key = .ok key

/-- A page that the checks change nothing in. There is nothing to say about a request without a
page. -/
def IsStoredPage (page : Option Text) : Prop :=
  ∀ id ∈ page, trimBy isWhiteSpace id = id ∧ PageId.ofText id = id

/-- An accepted key is stored so that the checks change nothing in it. The bound on its length is
the one on the text it was taken from. -/
theorem isStoredKey_of_accepted {value : Json} {key : Text}
    (h : checkFileKey value = .accepted key) : IsStoredKey key := by
  obtain ⟨t, -, -, hlong, hkey⟩ := checkFileKey_eq_accepted.mp h
  exact ⟨Nat.le_trans (FileKey.length_le_of_ofText hkey) hlong, FileKey.trimBy_of_ofText hkey,
    FileKey.ofText_of_ofText hkey⟩

/-- A stored key is accepted again if it is not too short. Of all that is checked, this is the only
condition that a stored key may fail. -/
theorem IsStoredKey.accepted_iff {key : Text} (h : IsStoredKey key) :
    checkFileKey (.text key) = .accepted key ↔ shortestKey ≤ key.length := by
  simp [checkFileKey_eq_accepted, h.trimmed, h.length_le, h.names_itself]

/-- A text that is a key, or an address that holds a key of sufficient length. For a key in its own
right nothing is asked here, as its length was checked. -/
def HoldsLongKey (t : Text) : Prop :=
  ∀ key ∈ FileKey.find? (trimBy isWhiteSpace t), shortestKey ≤ key.length

/-- There is at most one key to be looked at, the one that is found. The requests at the end of this
module have it decided. -/
instance (t : Text) : Decidable (HoldsLongKey t) :=
  inferInstanceAs
    (Decidable (∀ key ∈ FileKey.find? (trimBy isWhiteSpace t), shortestKey ≤ key.length))

/-- An accepted key is too short only if it was taken from an address. Any other key has the length
of the text that was checked. -/
theorem shortestKey_le_iff {t key : Text} (h : checkFileKey (.text t) = .accepted key) :
    shortestKey ≤ key.length ↔ HoldsLongKey t := by
  obtain ⟨_, ⟨rfl⟩, hshort, -, hkey⟩ := checkFileKey_eq_accepted.mp h
  rcases FileKey.ofText_eq_ok.mp hkey with hfound | ⟨hhost, rfl⟩
  · simp [HoldsLongKey, hfound]
  · refine iff_of_true hshort fun key hfound => ?_
    rw [(FileKey.find?_eq_some hfound).contains_host] at hhost
    cases hhost

/-- An accepted page is stored so that the checks change nothing in it: it is trimmed, and its
hyphens are colons. -/
theorem isStoredPage_of_accepted {value : Json} {page : Option Text}
    (h : checkPage value = .accepted page) : IsStoredPage page := by
  rcases checkPage_eq_accepted.mp h with ⟨-, rfl⟩ | ⟨t, -, rfl⟩
  · nofun
  · rintro id ⟨rfl⟩
    exact ⟨by rw [PageId.trimBy_ofText, trimBy_trimBy], PageId.ofText_ofText _⟩

/-- A stored page is accepted again, always. There is no limit on its length that it could fail. -/
theorem IsStoredPage.accepted {page : Option Text} (h : IsStoredPage page) :
    checkPage (pageValue page) = .accepted page := by
  cases page with
  | none => rfl
  | some id =>
    obtain ⟨htrimmed, hcolons⟩ := h id rfl
    exact checkPage_eq_accepted.mpr (.inr ⟨id, rfl, by rw [htrimmed, hcolons]⟩)

end Request

/-! ### Requests for a file -/

/-- A form of requests that name a file, with what they store of it. The three kinds of records have
no type in common, so a form carries its own. -/
structure FileForm where
  Record : Type
  form : Form Record
  fileKey : Record → Text
  /-- The page, if requests of this form may name one. -/
  page : Record → Option Text

namespace FileForm

open Request

/-- Requests for the pages of a file. -/
def pages : FileForm where
  Record := PagesRequest
  form := PagesRequest.form
  fileKey := PagesRequest.fileKey
  page _ := none

/-- Requests for the layout tree of a file. -/
def extract : FileForm where
  Record := ExtractRequest
  form := ExtractRequest.form
  fileKey := ExtractRequest.fileKey
  page := ExtractRequest.page

/-- Requests for the code of a file. -/
def convert : FileForm where
  Record := ConvertRequest
  form := ConvertRequest.form
  fileKey := ConvertRequest.fileKey
  page := ConvertRequest.page

/-- The forms of all requests that name a file. -/
def all : List FileForm := [pages, extract, convert]

/-- How a form goes about the key and the page: what a record is read from, what setting a field
does, and when a record can be read from what it shows. `isLawful` shows it for the three forms one
by one, and everything behind it is for all of them. -/
structure IsLawful (f : FileForm) : Prop where
  key_of_check : ∀ {given r}, f.form.check given = .accepted r →
    needed given fileKeyName checkFileKey = .accepted (f.fileKey r)
  page_of_check : ∀ {given r}, f.form.check given = .accepted r →
    f.page r = none ∨ optional given pageName none checkPage = .accepted (f.page r)
  assign : ∀ {r changed name value}, f.form.assign r name value = .ok changed →
    f.fileKey changed = f.fileKey r ∧ f.page changed = f.page r
      ∨ name = .text fileKeyName ∧ checkFileKey value = .accepted (f.fileKey changed)
        ∧ f.page changed = f.page r
      ∨ name = .text pageName ∧ checkPage value = .accepted (f.page changed)
        ∧ f.fileKey changed = f.fileKey r
  recreate_iff : ∀ {r}, checkPage (pageValue (f.page r)) = .accepted (f.page r) →
    (f.form.create (f.form.toJson r) = .ok r
      ↔ checkFileKey (.text (f.fileKey r)) = .accepted (f.fileKey r))

end FileForm

namespace PagesRequest

/-- A request for pages is accepted if its key and its format are. Lists are in markdown unless
another format is asked for. -/
theorem check_iff {given : Json.Fields} {r : PagesRequest} : form.check given = .accepted r ↔
    needed given fileKeyName checkFileKey = .accepted r.fileKey
      ∧ optional given formatName .markdown checkFormat = .accepted r.format := by
  show (PagesRequest.mk <$> _ <*> _) = _ ↔ _
  simp only [seq_eq_accepted, map_eq_accepted]
  constructor
  · rintro ⟨_, ⟨key, hkey, rfl⟩, format, hformat, rfl⟩
    exact ⟨hkey, hformat⟩
  · rintro ⟨hkey, hformat⟩
    exact ⟨_, ⟨_, hkey, rfl⟩, _, hformat, rfl⟩

/-- Setting a field leaves the key alone or sets it to an accepted one. -/
theorem assign_cases {r changed : PagesRequest} {name value : Json}
    (h : form.assign r name value = .ok changed) :
    changed.fileKey = r.fileKey
      ∨ name = .text fileKeyName ∧ checkFileKey value = .accepted changed.fileKey := by
  rcases Form.assign_checked h with rfl | ⟨field, hfield, rfl, hset⟩
  · exact .inl rfl
  · simp only [List.mem_cons, List.not_mem_nil, or_false] at hfield
    rcases hfield with rfl | rfl
    · obtain ⟨key, hkey, rfl⟩ := map_eq_accepted.mp hset
      exact .inr ⟨rfl, hkey⟩
    · obtain ⟨format, -, rfl⟩ := map_eq_accepted.mp hset
      exact .inl rfl

/-- A record is read from what it shows if its key is accepted. A format is shown as a word that is
always taken. -/
theorem create_toJson_iff {r : PagesRequest} : form.create (form.toJson r) = .ok r
    ↔ checkFileKey (.text r.fileKey) = .accepted r.fileKey := by
  have hformat : checkFormat (.text r.format.token) = .accepted r.format := by
    cases r.format <;> rfl
  refine (@Form.create_object _ form _ _).trans (check_iff.trans ?_)
  constructor
  · rintro ⟨hkey, -⟩
    exact under_eq_accepted.mp hkey
  · intro hkey
    exact ⟨under_eq_accepted.mpr hkey, under_eq_accepted.mpr hformat⟩

end PagesRequest

namespace ExtractRequest

/-- A request for a layout tree is accepted if its key, its page and its format are. Here the format
is JSON unless another one is asked for. -/
theorem check_iff {given : Json.Fields} {r : ExtractRequest} : form.check given = .accepted r ↔
    needed given fileKeyName checkFileKey = .accepted r.fileKey
      ∧ optional given pageName none checkPage = .accepted r.page
      ∧ optional given formatName .json checkFormat = .accepted r.format := by
  show (ExtractRequest.mk <$> _ <*> _ <*> _) = _ ↔ _
  simp only [seq_eq_accepted, map_eq_accepted]
  constructor
  · rintro ⟨_, ⟨_, ⟨key, hkey, rfl⟩, page, hpage, rfl⟩, format, hformat, rfl⟩
    exact ⟨hkey, hpage, hformat⟩
  · rintro ⟨hkey, hpage, hformat⟩
    exact ⟨_, ⟨_, ⟨_, hkey, rfl⟩, _, hpage, rfl⟩, _, hformat, rfl⟩

/-- Setting a field leaves the key and the page alone or sets one of them to an accepted one. -/
theorem assign_cases {r changed : ExtractRequest} {name value : Json}
    (h : form.assign r name value = .ok changed) :
    changed.fileKey = r.fileKey ∧ changed.page = r.page
      ∨ name = .text fileKeyName ∧ checkFileKey value = .accepted changed.fileKey
        ∧ changed.page = r.page
      ∨ name = .text pageName ∧ checkPage value = .accepted changed.page
        ∧ changed.fileKey = r.fileKey := by
  rcases Form.assign_checked h with rfl | ⟨field, hfield, rfl, hset⟩
  · exact .inl ⟨rfl, rfl⟩
  · simp only [List.mem_cons, List.not_mem_nil, or_false] at hfield
    rcases hfield with rfl | rfl | rfl
    · obtain ⟨key, hkey, rfl⟩ := map_eq_accepted.mp hset
      exact .inr (.inl ⟨rfl, hkey, rfl⟩)
    · obtain ⟨page, hpage, rfl⟩ := map_eq_accepted.mp hset
      exact .inr (.inr ⟨rfl, hpage, rfl⟩)
    · obtain ⟨format, -, rfl⟩ := map_eq_accepted.mp hset
      exact .inl ⟨rfl, rfl⟩

/-- A record is read from what it shows if its key and its page are accepted. -/
theorem create_toJson_iff {r : ExtractRequest}
    (hpage : checkPage (pageValue r.page) = .accepted r.page) :
    form.create (form.toJson r) = .ok r
      ↔ checkFileKey (.text r.fileKey) = .accepted r.fileKey := by
  have hformat : checkFormat (.text r.format.token) = .accepted r.format := by
    cases r.format <;> rfl
  refine (@Form.create_object _ form _ _).trans (check_iff.trans ?_)
  constructor
  · rintro ⟨hkey, -, -⟩
    exact under_eq_accepted.mp hkey
  · intro hkey
    exact ⟨under_eq_accepted.mpr hkey, under_eq_accepted.mpr hpage, under_eq_accepted.mpr hformat⟩

end ExtractRequest

namespace ConvertRequest

/-- A request for the code of a file is accepted if each of its five fields is. The platform has to
be given, and components are extracted only on demand. -/
theorem check_iff {given : Json.Fields} {r : ConvertRequest} : form.check given = .accepted r ↔
    needed given fileKeyName checkFileKey = .accepted r.fileKey
      ∧ optional given pageName none checkPage = .accepted r.page
      ∧ needed given platformName checkPlatform = .accepted r.platform
      ∧ optional given extractName false checkBool = .accepted r.extract
      ∧ optional given formatName .markdown checkFormat = .accepted r.format := by
  show (ConvertRequest.mk <$> _ <*> _ <*> _ <*> _ <*> _) = _ ↔ _
  simp only [seq_eq_accepted, map_eq_accepted]
  constructor
  · rintro ⟨_, ⟨_, ⟨_, ⟨_, ⟨key, hkey, rfl⟩, page, hpage, rfl⟩, platform, hplatform, rfl⟩, extract,
      hextract, rfl⟩, format, hformat, rfl⟩
    exact ⟨hkey, hpage, hplatform, hextract, hformat⟩
  · rintro ⟨hkey, hpage, hplatform, hextract, hformat⟩
    exact ⟨_, ⟨_, ⟨_, ⟨_, ⟨_, hkey, rfl⟩, _, hpage, rfl⟩, _, hplatform, rfl⟩, _, hextract, rfl⟩, _,
      hformat, rfl⟩

/-- Setting a field leaves the key and the page alone or sets one of them to an accepted one. -/
theorem assign_cases {r changed : ConvertRequest} {name value : Json}
    (h : form.assign r name value = .ok changed) :
    changed.fileKey = r.fileKey ∧ changed.page = r.page
      ∨ name = .text fileKeyName ∧ checkFileKey value = .accepted changed.fileKey
        ∧ changed.page = r.page
      ∨ name = .text pageName ∧ checkPage value = .accepted changed.page
        ∧ changed.fileKey = r.fileKey := by
  rcases Form.assign_checked h with rfl | ⟨field, hfield, rfl, hset⟩
  · exact .inl ⟨rfl, rfl⟩
  · simp only [List.mem_cons, List.not_mem_nil, or_false] at hfield
    -- The key and the page are the first two fields, and the other three touch neither.
    rcases hfield with rfl | rfl | rfl | rfl | rfl
    · obtain ⟨key, hkey, rfl⟩ := map_eq_accepted.mp hset
      exact .inr (.inl ⟨rfl, hkey, rfl⟩)
    · obtain ⟨page, hpage, rfl⟩ := map_eq_accepted.mp hset
      exact .inr (.inr ⟨rfl, hpage, rfl⟩)
    · obtain ⟨platform, -, rfl⟩ := map_eq_accepted.mp hset
      exact .inl ⟨rfl, rfl⟩
    · obtain ⟨extract, -, rfl⟩ := map_eq_accepted.mp hset
      exact .inl ⟨rfl, rfl⟩
    · obtain ⟨format, -, rfl⟩ := map_eq_accepted.mp hset
      exact .inl ⟨rfl, rfl⟩

/-- A record is read from what it shows if its key and its page are accepted. -/
theorem create_toJson_iff {r : ConvertRequest}
    (hpage : checkPage (pageValue r.page) = .accepted r.page) :
    form.create (form.toJson r) = .ok r
      ↔ checkFileKey (.text r.fileKey) = .accepted r.fileKey := by
  have hplatform : checkPlatform (.text r.platform.token) = .accepted r.platform := by
    cases r.platform <;> rfl
  have hformat : checkFormat (.text r.format.token) = .accepted r.format := by
    cases r.format <;> rfl
  refine (@Form.create_object _ form _ _).trans (check_iff.trans ?_)
  constructor
  · rintro ⟨hkey, -⟩
    exact under_eq_accepted.mp hkey
  · intro hkey
    exact ⟨under_eq_accepted.mpr hkey, under_eq_accepted.mpr hpage,
      under_eq_accepted.mpr hplatform, rfl, under_eq_accepted.mpr hformat⟩

end ConvertRequest

namespace FileForm

/-- Every form of requests for a file goes about key and page alike. The forms differ in their other
fields, and none of these has the name of the key or of the page. -/
theorem isLawful {f : FileForm} (hf : f ∈ all) : f.IsLawful := by
  simp only [all, List.mem_cons, List.not_mem_nil, or_false] at hf
  rcases hf with rfl | rfl | rfl
  · exact ⟨fun h => (PagesRequest.check_iff.mp h).1, fun _ => .inl rfl,
      fun h => (PagesRequest.assign_cases h).imp (⟨·, rfl⟩) fun ⟨hname, hkey⟩ =>
        .inl ⟨hname, hkey, rfl⟩,
      fun _ => PagesRequest.create_toJson_iff⟩
  · exact ⟨fun h => (ExtractRequest.check_iff.mp h).1,
      fun h => .inr (ExtractRequest.check_iff.mp h).2.1, ExtractRequest.assign_cases,
      ExtractRequest.create_toJson_iff⟩
  · exact ⟨fun h => (ConvertRequest.check_iff.mp h).1,
      fun h => .inr (ConvertRequest.check_iff.mp h).2.1, ConvertRequest.assign_cases,
      ConvertRequest.create_toJson_iff⟩

variable {f : FileForm}

/-- What a record stores of its file: the checks change nothing in it. This is the invariant of a
record, from when it is read and through all changes. -/
structure Stores (f : FileForm) (r : f.Record) : Prop where
  key : IsStoredKey (f.fileKey r)
  page : IsStoredPage (f.page r)

/-- A record that was read stores what was accepted, which the checks change nothing in. -/
theorem stores_of_create (hf : f ∈ all) {given : Json.Fields} {r : f.Record}
    (h : f.form.create (.object given) = .ok r) : f.Stores r := by
  have hchecked := Form.create_object.mp h
  constructor
  · obtain ⟨value, -, hkey⟩ := exists_of_needed ((isLawful hf).key_of_check hchecked)
    exact isStoredKey_of_accepted hkey
  · -- Where no page is named there is none to check.
    rcases (isLawful hf).page_of_check hchecked with hnone | hpage
    · rw [hnone]
      nofun
    · rcases exists_of_optional hpage with hnone | ⟨value, -, hvalue⟩
      · rw [hnone]
        nofun
      · exact isStoredPage_of_accepted hvalue

/-- Setting a field keeps what is stored fit to be checked again, whichever field it is. A change
that is refused leaves the record as it was and is not looked at here. -/
theorem Stores.assign (hf : f ∈ all) {r changed : f.Record} {name value : Json} (h : f.Stores r)
    (hassign : f.form.assign r name value = .ok changed) : f.Stores changed := by
  rcases (isLawful hf).assign hassign with
    ⟨hkey, hpage⟩ | ⟨-, hkey, hpage⟩ | ⟨-, hpage, hkey⟩
  -- What was set was accepted, and what was not is stored as before.
  · exact ⟨hkey ▸ h.key, hpage ▸ h.page⟩
  · exact ⟨isStoredKey_of_accepted hkey, hpage ▸ h.page⟩
  · exact ⟨hkey ▸ h.key, isStoredPage_of_accepted hpage⟩

/-- A stored key is long enough if that is so for every key that was given, with the first request
or with a change. The condition is more than is needed: only the key that was given last is stored.
-/
theorem shortestKey_le_after (hf : f ∈ all) {given : Json.Fields} {first : f.Record}
    (h : f.form.create (.object given) = .ok first) {changes : List (Json × Json)}
    (hlong : ∀ t, Json.field? given fileKeyName = some (.text t)
      ∨ (.text fileKeyName, .text t) ∈ changes → HoldsLongKey t) :
    shortestKey ≤ (f.fileKey (f.form.after first changes)).length := by
  -- Each key that is stored on the way was given, with the first request or with a change.
  refine Form.after_invariant (P := fun r => shortestKey ≤ (f.fileKey r).length) ?_ ?_
  · obtain ⟨value, hgiven, hkey⟩ :=
      exists_of_needed ((isLawful hf).key_of_check (Form.create_object.mp h))
    obtain ⟨t, rfl, -⟩ := checkFileKey_eq_accepted.mp hkey
    exact (shortestKey_le_iff hkey).mpr (hlong t (.inl hgiven))
  · intro r changed name value hmem hr hassign
    rcases (isLawful hf).assign hassign with ⟨hkey, -⟩ | ⟨rfl, hkey, -⟩ | ⟨-, -, hkey⟩
    · rwa [hkey]
    · obtain ⟨t, rfl, -⟩ := checkFileKey_eq_accepted.mp hkey
      exact (shortestKey_le_iff hkey).mpr (hlong t (.inr hmem))
    · rwa [hkey]

/-- However a record is read and changed, the checks change nothing in the key and the page that it
stores, and it can be read from what it shows exactly if its key is long enough. It is if every key
that was given, or that an address among them holds, is long enough.

The changes may be to any fields with any values. One that is refused does nothing, and the next one
is made to the same record. -/
theorem after_stored (hf : f ∈ all) {given : Json.Fields} {first : f.Record}
    (h : f.form.create (.object given) = .ok first) (changes : List (Json × Json)) :
    f.Stores (f.form.after first changes)
      ∧ (f.form.create (f.form.toJson (f.form.after first changes))
          = .ok (f.form.after first changes)
        ↔ shortestKey ≤ (f.fileKey (f.form.after first changes)).length)
      ∧ ((∀ t, Json.field? given fileKeyName = some (.text t)
          ∨ (.text fileKeyName, .text t) ∈ changes → HoldsLongKey t) →
        shortestKey ≤ (f.fileKey (f.form.after first changes)).length) := by
  have hstores : f.Stores (f.form.after first changes) :=
    Form.after_invariant (stores_of_create hf h)
      fun _ _ _ _ _ hr hassign => hr.assign hf hassign
  exact ⟨hstores, ((isLawful hf).recreate_iff hstores.page.accepted).trans hstores.key.accepted_iff,
    shortestKey_le_after hf h⟩

/-- A request for the code of a page, named by its address in the browser. -/
def pageFields : Json.Fields :=
  [(fileKeyName, .text " https://www.figma.com/design/AbC123xyz789/My-File ".toList),
   (pageName, .text "0-1".toList), (platformName, .text "react".toList)]

/-- Another page is asked for, then a key that is too short. -/
def pageChanges : List (Json × Json) :=
  [(.text pageName, .text "\t12-34".toList), (.text fileKeyName, .text "abc".toList)]

/-- The request ends with the key of the address and the other page. The key that is too short was
refused, so nothing came of it. -/
theorem pageFields_stored : ∃ first, convert.form.create (.object pageFields) = .ok first
    ∧ convert.form.after first pageChanges
      = ⟨"AbC123xyz789".toList, some "12:34".toList, .react, false, .markdown⟩
    ∧ convert.Stores (convert.form.after first pageChanges)
    ∧ convert.form.create (convert.form.toJson (convert.form.after first pageChanges))
      = .ok (convert.form.after first pageChanges) := by
  have hcreate : convert.form.create (.object pageFields)
      = .ok ⟨"AbC123xyz789".toList, some "0:1".toList, .react, false, .markdown⟩ := by
    show ConvertRequest.form.create (.object pageFields) = _
    exact Outcome.eq_of_toOption_eq (by decide +kernel) (by decide +kernel)
  have hafter : ConvertRequest.form.after
      ⟨"AbC123xyz789".toList, some "0:1".toList, .react, false, .markdown⟩ pageChanges
      = ⟨"AbC123xyz789".toList, some "12:34".toList, .react, false, .markdown⟩ := by
    decide +kernel
  obtain ⟨hstores, hrecreate, hlong⟩ :=
    after_stored (f := convert) (by simp [all]) hcreate pageChanges
  refine ⟨_, hcreate, hafter, hstores, hrecreate.mpr (hlong ?_)⟩
  -- Both keys that were given are fine as far as this goes: the address holds a long one, and the
  -- short one is no address.
  have haddress : HoldsLongKey " https://www.figma.com/design/AbC123xyz789/My-File ".toList := by
    decide +kernel
  have hshort : HoldsLongKey "abc".toList := by decide +kernel
  have hgiven : Json.field? pageFields fileKeyName
      = some (.text " https://www.figma.com/design/AbC123xyz789/My-File ".toList) := rfl
  rintro t (ht | ht)
  · rw [hgiven] at ht
    cases ht
    exact haddress
  · rcases List.mem_cons.mp ht with hname | ht
    · exact absurd (Json.text.inj (Prod.mk.inj hname).1) (by decide)
    · cases List.mem_singleton.mp ht
      exact hshort

/-- An address that is long enough and holds a key that is not. -/
def shortAddress : Text := "https://figma.com/file/abc".toList

/-- The key in it is accepted, although it is refused when it is given as it is. The record shows a
key that no request may have. -/
theorem shortAddress_stored :
    ∃ first, pages.form.create (.object [(fileKeyName, .text shortAddress)]) = .ok first
      ∧ (pages.fileKey first).length < shortestKey
      ∧ ∀ r, pages.form.create (pages.form.toJson first) ≠ .ok r := by
  have hcreate : PagesRequest.form.create (.object [(fileKeyName, .text shortAddress)])
      = .ok ⟨"abc".toList, .markdown⟩ :=
    Outcome.eq_of_toOption_eq (by decide +kernel) (by decide +kernel)
  have hrefused : (PagesRequest.form.create (PagesRequest.form.toJson
      ⟨"abc".toList, .markdown⟩)).isOk = false := by decide +kernel
  refine ⟨_, hcreate, by decide, fun r hr => ?_⟩
  exact Bool.false_ne_true (hrefused.symm.trans (congrArg Except.isOk hr))

end FileForm

end DesignCompiler
