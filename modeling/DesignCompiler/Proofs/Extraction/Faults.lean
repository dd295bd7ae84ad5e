import DesignCompiler.Proofs.Drawing.Reading
import DesignCompiler.Proofs.Extraction.Translation

/-!
# `DesignCompiler.Proofs.Extraction.Faults`: which files cannot be extracted, and why

`Extraction.flaws` lists what is wrong with the structure of a design file as far as an extraction
looks: first the file and its root, then the children of the root if a page is wanted, then the
layers in view (`Extraction.inView`), one after the other, each with its place. If the layers in
view have numbers where numbers are read, nothing else can go wrong: the extraction gives the first
flaw as its fault, and goes through if there is none (`reports_ofFile`).

`ofFile_faults` says the same in terms of the file (`Extraction.IsMalformed`).
-/

set_option autoImplicit false

namespace DesignCompiler

open Outcome

namespace Extraction

/-- The fields of the document root of a file, none if there is no root. What is no object has no
fields here, so the statements need no case for it. -/
def rootFields (file : Json) : Json.Fields :=
  (Json.fieldOrNull file.inside "document".toList).inside

/-- The layers that an extraction visits if nothing goes wrong, with their places, in order: the
first ones in pre-order of what is selected, as many as the limit allows. It is defined by the
selection and the pre-order, without the walk. -/
def inView (file page : Json) (limit : Int) : List (Place × Json.Fields) :=
  match Drawing.ofFile file >>= fun root => root.select page with
  | .ok (some selection, _) =>
    (Drawing.placed selection.place selection.drawing).take limit.toNat
  | _ => []

/-- The flaws of a file without an object for its root. There is at most one. -/
def fileFlaws (file : Json) : List Fault :=
  if file.kind ≠ .object then [.malformed (.fileNotObject file.kind) .file .null]
  else if (Json.fieldOrNull file.inside "document".toList).kind ≠ .object then
    [.malformed .rootMissing .file .null]
  else []

/-- The flaws among the pages, which count only if one is wanted: without that the children of the
root are told with the other layers, if the root is visited. -/
def pageFlaws (file page : Json) : List Fault :=
  if page.isBlank then [] else Drawing.childrenFlaws (rootFields file) Drawing.rootPlace

/-- What is wrong with the structure of a file as far as an extraction looks, in the order in which
it looks. -/
def flaws (file page : Json) (limit : Int) : List Fault :=
  fileFlaws file ++ (pageFlaws file page ++ Drawing.flawsOf (inView file page limit))

/-- Something is wrong with the structure of a file where an extraction looks. -/
inductive IsMalformed (file page : Json) (limit : Int) : Prop
  /-- The file is no object. -/
  | file : file.kind ≠ .object → IsMalformed file page limit
  /-- The root is no object. -/
  | root : (Json.fieldOrNull file.inside "document".toList).kind ≠ .object →
      IsMalformed file page limit
  /-- A page is wanted, and the children of the root are no list. -/
  | pages : page.isBlank = false →
      (Json.fieldOrNull (rootFields file) childrenName).kind ∉ [.null, .list] →
      IsMalformed file page limit
  /-- A page is wanted, and a child of the root is no object. -/
  | page {items : List Json} {item : Json} : page.isBlank = false →
      Json.fieldOrNull (rootFields file) childrenName = .list items → item ∈ items →
      item.kind ≠ .object → IsMalformed file page limit
  /-- A layer in view is defective. -/
  | layer {place : Place} {fields : Json.Fields} : (place, fields) ∈ inView file page limit →
      Drawing.IsDefective fields → IsMalformed file page limit

/-! ### Flaws and malformed files -/

/-- The file has such a flaw if it is no object or its root is none. -/
theorem fileFlaws_ne_nil_iff {file : Json} : fileFlaws file ≠ []
    ↔ file.kind ≠ .object
      ∨ (Json.fieldOrNull file.inside "document".toList).kind ≠ .object := by
  rw [fileFlaws]
  split
  · next hfile => exact iff_of_true nofun (.inl hfile)
  · next hfile =>
    split
    · next hroot => exact iff_of_true nofun (.inr hroot)
    · next hroot => exact iff_of_false (fun h => h rfl) (not_or.mpr ⟨hfile, hroot⟩)

/-- The pages have a flaw if one of them is wanted and the children of the root are no list of
objects. -/
theorem pageFlaws_ne_nil_iff {file page : Json} : pageFlaws file page ≠ []
    ↔ page.isBlank = false
      ∧ ((Json.fieldOrNull (rootFields file) childrenName).kind ∉ [.null, .list]
        ∨ ∃ items, Json.fieldOrNull (rootFields file) childrenName = .list items
          ∧ ∃ item ∈ items, item.kind ≠ .object) := by
  rw [pageFlaws, ← @Drawing.childrenFlaws_ne_nil_iff _ Drawing.rootPlace]
  split <;> simp_all

/-- A file has flaws if it is malformed, and only then. The list is what an extraction reports from,
and the property is what a reader of a file would check. -/
theorem flaws_ne_nil_iff {file page : Json} {limit : Int} :
    flaws file page limit ≠ [] ↔ IsMalformed file page limit := by
  have hlayers : Drawing.flawsOf (inView file page limit) ≠ []
      ↔ ∃ layer ∈ inView file page limit, Drawing.IsDefective layer.2 := by
    rw [Drawing.flawsOf, Ne, List.flatMap_eq_nil_iff]
    push Not
    exact exists_congr fun layer => and_congr_right fun _ => Drawing.flaws_ne_nil_iff
  rw [flaws, Ne, List.append_eq_nil_iff, List.append_eq_nil_iff, not_and_or, not_and_or, ← Ne, ← Ne,
    ← Ne, fileFlaws_ne_nil_iff, pageFlaws_ne_nil_iff, hlayers]
  -- The flaws of the file, of the page and of the layers are looked for one after the other.
  constructor
  · rintro ((hfile | hroot) | ⟨hpage, hpages | ⟨items, hitems, item, hitem, hkind⟩⟩
      | ⟨layer, hlayer, hdefect⟩)
    · exact .file hfile
    · exact .root hroot
    · exact .pages hpage hpages
    · exact .page hpage hitems hitem hkind
    · exact .layer hlayer hdefect
  · rintro (hfile | hroot | ⟨hpage, hpages⟩ | ⟨hpage, hitems, hitem, hkind⟩ | ⟨hlayer, hdefect⟩)
    · exact .inl (.inl hfile)
    · exact .inl (.inr hroot)
    · exact .inr (.inl ⟨hpage, .inl hpages⟩)
    · exact .inr (.inl ⟨hpage, .inr ⟨_, hitems, _, hitem, hkind⟩⟩)
    · exact .inr (.inr ⟨_, hlayer, hdefect⟩)

/-! ### Reading a file -/

/-- Reading the root of a file reports the flaws of the file, and gives a root with the fields that
the statements speak of. -/
theorem reports_root (file : Json) : Reports (fileFlaws file)
    (fun root => root.fields = rootFields file) (Drawing.ofFile file) := by
  cases file with
  | null | bool | int | double | text | list => exact .error _ [] _
  | object fields =>
    rw [Drawing.ofFile]
    cases hroot : Json.fieldOrNull fields "document".toList with
    | null | bool | int | double | text | list =>
      simp only [fileFlaws, rootFields, Json.inside, hroot, Json.kind]
      exact .error _ [] _
    | object inside =>
      simp only [fileFlaws, rootFields, Json.inside, hroot, Json.kind]
      exact .ok (Drawing.fields_ofChildren ..)

end Extraction

/-- A selection whose place leads to it from the fields of a root. It is what ties the places in
faults to the file. -/
structure Selection.IsInside (root : Json.Fields) (selection : Selection) : Prop where
  faithful : selection.drawing.Faithful
  leads : ∃ way, selection.place = .layer way
    ∧ Drawing.layerAt? root way = some selection.drawing.fields

namespace Drawing

/-- A selected page is one of the pages, and its place is that of a child of the root. This holds of
a page that was found and of the first one alike. -/
theorem selectPage_eq_some {wanted : Text} {pages : List Drawing} {selection : Selection}
    (h : (selectPage wanted pages).1 = some selection) : ∃ position : Nat,
      pages[position]? = some selection.drawing ∧ selection.place = rootPlace.child position := by
  unfold selectPage at h
  split at h
  · next position hfound =>
    obtain ⟨page, hpage, rfl⟩ := Option.map_eq_some_iff.mp h
    exact ⟨position, hpage, rfl⟩
  · cases h
  · cases h
    exact ⟨0, rfl, rfl⟩

/-- What is selected is inside the root, or is the root itself. Selecting among broken children
fails, so the root is sound where a page is selected. -/
theorem isInside_of_select {root : Drawing} (hroot : root.Faithful) {page : Json}
    {selection : Selection} {warnings : List Warning}
    (h : root.select page = .ok (some selection, warnings)) : selection.IsInside root.fields := by
  rw [select] at h
  split at h
  · cases h
    exact ⟨hroot, [], rfl, rfl⟩
  · obtain ⟨pages, hvisit, h⟩ := bind_eq_ok.mp h
    cases root with
    | broken fields obstacle => exact absurd hvisit (obstruct_ne_ok fields rootPlace obstacle pages)
    | sound fields layers =>
      cases hvisit
      rw [faithful_sound] at hroot
      cases page with
      | text wanted =>
        -- A page stands among the children of the root at the position of its place.
        have hchosen : (selectPage wanted pages).1 = some selection := by
          rw [Except.ok.inj h]
        obtain ⟨position, hpage, hplace⟩ := selectPage_eq_some hchosen
        refine ⟨faithfulAll_iff.mp hroot.2 _ (List.mem_of_getElem? hpage), [position], hplace, ?_⟩
        rw [layerAt?, Drawing.fields, childAt?_eq hroot.1 hpage]
        rfl
      | null | bool | int | double | list | object => cases h

/-- Selecting what is to be extracted reports the flaws among the children of the root if a page is
wanted. -/
theorem reports_select {root : Drawing} (hroot : root.Faithful) (page? : Option Text) :
    let page : Json := page?.elim .null .text
    Reports (if page.isBlank then [] else childrenFlaws root.fields rootPlace)
      (fun _ => True) (root.select page) := by
  intro page
  rw [select]
  split
  · exact .ok trivial
  · next hpage =>
    refine (reports_visitChildren hroot rootPlace).bind_clean ?_
    rintro - pages -
    cases page? with
    | none =>
      -- No page is a blank one, so the children are not looked at.
      exact absurd rfl hpage
    | some wanted => exact .ok trivial

end Drawing

namespace Extraction

/-- The place of every layer in view leads to it. -/
theorem layerAt?_of_mem_inView {file page : Json} {limit : Int} {layer : Place × Json.Fields}
    (h : layer ∈ inView file page limit) :
    ∃ way, layer.1 = .layer way ∧ Drawing.layerAt? (rootFields file) way = some layer.2 := by
  rw [inView] at h
  split at h
  · next selection warnings hselect =>
    obtain ⟨root, hroot, hselect⟩ := bind_eq_ok.mp hselect
    obtain ⟨hfaithful, base, hplace, hbase⟩ :=
      Drawing.isInside_of_select (Drawing.faithful_of_ofFile hroot) hselect
    rw [hplace] at h
    obtain ⟨way, hlayer, hway⟩ :=
      Drawing.layerAt?_of_mem_placed base layer _ hfaithful (List.mem_of_mem_take h)
    refine ⟨base ++ way, hlayer, ?_⟩
    rw [← (reports_root file).of_eq_ok hroot, Drawing.layerAt?_append, hbase]
    exact hway
  · cases h

/-- The extraction of a selected layer reports the flaws of the layers in view. The walk is replaced
by the sketch of the pruned tree, whose flaws are those of its layers in pre-order. -/
theorem reports_ofSelection (limit : Int) (warnings : List Warning) {selection : Selection}
    (hfaithful : selection.drawing.Faithful)
    (htyped : ∀ layer ∈ (Drawing.placed selection.place selection.drawing).take limit.toNat,
      Drawing.WellTyped layer.2) :
    Reports
      (Drawing.flawsOf ((Drawing.placed selection.place selection.drawing).take limit.toNat))
      (fun _ => True) (ofSelection limit warnings (some selection)) := by
  rw [ofSelection_some]
  cases hlimit : limit.toNat with
  | zero => exact .ok trivial
  | succ budget =>
    rw [hlimit] at htyped
    rw [Drawing.first?_succ]
    have hzero : Origin.zero.x.IsMeasure ∧ Origin.zero.y.IsMeasure := by decide
    refine (Drawing.reports_sketch_pruned selection.place .zero budget _ hfaithful hzero
      htyped).bind_clean ?_
    rintro - sketch ⟨node, hnode⟩
    rw [hnode]
    exact .ok trivial

/-- An extraction reports the flaws of the file, in the order in which it looks: the root, the
pages, the layers in view. Each step hands over what the next one needs to know. -/
theorem reports_ofFile (file : Json) (page? : Option Text) (limit : Int)
    (htyped : ∀ layer ∈ inView file (page?.elim .null .text) limit, Drawing.WellTyped layer.2) :
    Reports (flaws file (page?.elim .null .text) limit) (fun _ => True)
      (ofFile file (page?.elim .null .text) limit) := by
  refine (reports_root file).eq_ok.bind ?_
  intro _ root hroot
  have hfaithful := Drawing.faithful_of_ofFile hroot
  rw [pageFlaws, ← (reports_root file).of_eq_ok hroot]
  refine (Drawing.reports_select hfaithful page?).eq_ok.bind ?_
  rintro - ⟨choice, warnings⟩ hselect
  -- From here on it is known which layers are in view.
  rw [inView, hroot, ok_bind, hselect] at htyped ⊢
  cases choice with
  | none => exact .ok trivial
  | some selection =>
    exact reports_ofSelection limit warnings
      (Drawing.isInside_of_select hfaithful hselect).faithful htyped

/-- All flaws are flaws of the structure. They are made by three definitions, and each makes no
other fault. -/
theorem family_of_mem_flaws {file page : Json} {limit : Int} {fault : Fault}
    (h : fault ∈ flaws file page limit) : fault.family = .structural := by
  rw [flaws, List.mem_append, List.mem_append] at h
  -- No flaw of any of the three kinds is made by a value: all of them are about what stands where.
  rcases h with hfile | hpage | hlayers
  · rw [fileFlaws] at hfile
    split at hfile
    · rw [List.mem_singleton.mp hfile]
      rfl
    · split at hfile
      · rw [List.mem_singleton.mp hfile]
        rfl
      · cases hfile
  · rw [pageFlaws] at hpage
    split at hpage
    · cases hpage
    · rcases Drawing.exists_of_mem_childrenFlaws hpage with ⟨_, rfl⟩ | ⟨_, _, _, _, _, _, rfl⟩ <;>
        rfl
  · obtain ⟨layer, -, hlayer⟩ := List.mem_flatMap.mp hlayers
    rcases Drawing.exists_of_mem_flaws hlayer with ⟨_, rfl⟩ | ⟨_, _, _, _, _, _, rfl⟩ <;> rfl

/-- If the layers in view have numbers where numbers are read, an extraction fails for nothing but
the structure of the file, and exactly if the file is malformed. Its fault is the first flaw that it
comes across, and the places of the layers in view, at which flaws are told, lead to these layers
from the root. -/
theorem ofFile_faults (file : Json) (page? : Option Text) (limit : Int)
    (htyped : ∀ layer ∈ inView file (page?.elim .null .text) limit, Drawing.WellTyped layer.2) :
    let page : Json := page?.elim .null .text
    (∀ fault, ofFile file page limit = .error fault → fault.family = .structural)
    ∧ ((∃ fault, ofFile file page limit = .error fault) ↔ IsMalformed file page limit)
    ∧ (∀ fault, ofFile file page limit = .error fault
        ↔ (flaws file page limit).head? = some fault)
    ∧ ∀ layer ∈ inView file page limit, ∃ way, layer.1 = .layer way
        ∧ Drawing.layerAt? (rootFields file) way = some layer.2 := by
  intro page
  -- All four parts follow from one: the fault is the first flaw.
  have hfirst : ∀ fault, ofFile file page limit = .error fault
      ↔ (flaws file page limit).head? = some fault :=
    fun _ => (reports_ofFile file page? limit htyped).eq_error_iff
  refine ⟨?_, ?_, hfirst, fun _ => layerAt?_of_mem_inView⟩
  · intro fault h
    exact family_of_mem_flaws (List.mem_of_head? ((hfirst fault).mp h))
  · rw [← flaws_ne_nil_iff]
    simp only [hfirst]
    rw [← Option.isSome_iff_exists, List.isSome_head?]

/-- A file with one page, which holds a frame with the given box around a text and, in place of a
second layer, a number. -/
def halfPage (box : Json) : Json :=
  let layer (id : String) (more : Json.Fields) : Json :=
    .object (("id".toList, .text id.toList) :: more)
  let within (children : List Json) : Text × Json := (childrenName, .list children)
  .object [("document".toList, layer "0:0" [within [layer "1:0" [within [
    layer "1:1" [("absoluteBoundingBox".toList, box), within [layer "1:2" [], .int 7]]]]]])]

/-- The number is told at its own place with the identifier of the frame, but the box of the frame
before that if it is no object. -/
theorem halfPage_faults :
    (∀ box ∈ [Json.null, .bool true], ∀ layer ∈ inView (halfPage box) (.text "1-0".toList) 2,
      Drawing.WellTyped layer.2)
    ∧ (∀ fault, ofFile (halfPage .null) (.text "1-0".toList) 2 = .error fault
      ↔ fault = .malformed (.childNotObject .int) (.layer [0, 0, 1]) (.text "1:1".toList))
    ∧ ∀ fault, ofFile (halfPage (.bool true)) (.text "1-0".toList) 2 = .error fault
      ↔ fault = .malformed (.notObject "absoluteBoundingBox".toList .bool) (.layer [0, 0])
        (.text "1:1".toList) := by
  have htyped : ∀ box ∈ [Json.null, .bool true],
      ∀ layer ∈ inView (halfPage box) (.text "1-0".toList) 2, Drawing.WellTyped layer.2 := by
    decide +kernel
  have hfirst : ∀ box ∈ [Json.null, .bool true], ∀ fault,
      ofFile (halfPage box) (.text "1-0".toList) 2 = .error fault
        ↔ (flaws (halfPage box) (.text "1-0".toList) 2).head? = some fault :=
    fun box hbox => (ofFile_faults (halfPage box) (some "1-0".toList) 2 (htyped box hbox)).2.2.1
  refine ⟨htyped, fun fault => ?_, fun fault => ?_⟩
  · rw [hfirst .null (by simp), eq_comm]
    exact Option.some_inj
  · rw [hfirst (.bool true) (by simp), eq_comm]
    exact Option.some_inj

end Extraction

end DesignCompiler
