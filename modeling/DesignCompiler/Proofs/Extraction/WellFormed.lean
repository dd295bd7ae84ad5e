import DesignCompiler.Proofs.Extraction.Colors
import DesignCompiler.Proofs.Extraction.Faults
import DesignCompiler.Proofs.Extraction.Positions
import DesignCompiler.Proofs.Number.Shortest

/-!
# `DesignCompiler.Proofs.Extraction.WellFormed`: how the optional fields of a layer hang together

The optional fields of a layer are not independent of one another when the layer comes from a design
file. `Layer.IsWellFormed` lists what holds between them: a border has a colour and a width, a style
needs a text, a padding needs a layout and keeps some space. A layout tree that arrives as JSON need
not be like that.

The fields go through three hands. A draft is well formed because of the way in which the fields of
the file are sorted (`Draft.isWellFormed_of_ofFields`), the checks leave presence and value of each
field alone (`Draft.IsWellFormed.of_check`), and every layer of an extraction is a checked draft,
whichever page was selected and wherever the tree was cut off (`Extraction.ofFile_wellFormed`). The
only thing to ask of the file is that widths of strokes and radii of corners are numbers, if they
are anything: a text such as `"0"` is present in a file and zero in a tree.
-/

set_option autoImplicit false

namespace DesignCompiler

open Outcome Schema

/-- What holds between the optional fields of a layer that was extracted. A field that is not
mentioned may be there or not, whatever the others are. -/
structure Layer.IsWellFormed (l : Layer) : Prop where
  colors : ∀ c ∈ l.colors, Color.IsWritten c
  border : l.borderWidth.isSome = l.borderColor.isSome
  borderWidth : ∀ x ∈ l.borderWidth, x.isZero = false
  borderRadius : ∀ x ∈ l.borderRadius, x.isZero = false
  text : ∀ t ∈ l.text, t ≠ [] ∧ l.type = "TEXT".toList
  style : l.text = none → l.fontSize = none ∧ l.fontWeight = none ∧ l.textColor = none
  textColor : ∀ c ∈ l.textColor, l.backgroundColor = some c
  spacing : l.spacing.isSome = l.layout.isSome
  padding : ∀ p ∈ l.padding,
    l.layout.isSome = true ∧ ∃ side ∈ [p.top, p.right, p.bottom, p.left], side.isZero = false

/-! ### Numbers that are not zero -/

/-- The double nearest to a whole number other than zero is not zero. A whole number is at least a
whole one away from zero, which is more than a unit. -/
theorem Binary64.isZero_of_ofInt? {n : Int} {x : Binary64} (h : ofInt? n = some x) (hne : n ≠ 0) :
    x.isZero = false := by
  rw [ofInt?, ofUnits] at h
  split at h
  · cases h
    have hone : 2 ^ 0 ≤ n.natAbs * unitsPerOne / 1 := by
      rw [Nat.div_one]
      exact Nat.mul_pos (Int.natAbs_pos.mpr hne) unitsPerOne_pos
    have hpositive := two_pow_le_nearestUnits hone
    rw [isZero, decide_eq_false_iff_not]
    omega
  · cases h

namespace Json

/-- A number other than zero. A text that writes a number is none here: it is not blank and may be
zero after the checks. -/
def IsNonzero (value : Json) : Prop := value.kind ∈ [.int, .double] ∧ value.isBlank = false

/-- A number, null, or nothing at all. -/
def IsNumberOrNull (value : Json) : Prop := value.kind ∈ [.null, .int, .double]

/-- It is looked up in a list of kinds. -/
instance (value : Json) : Decidable value.IsNumberOrNull :=
  inferInstanceAs (Decidable (value.kind ∈ [Kind.null, .int, .double]))

variable {value : Json}

/-- A number that is not blank is not zero. It is how the tests of a draft, which ask for blank
values, become statements about numbers. -/
theorem IsNumberOrNull.isNonzero (h : value.IsNumberOrNull) (hblank : value.isBlank = false) :
    value.IsNonzero := by
  refine ⟨?_, hblank⟩
  cases value with
  | null => cases hblank
  | int | double => simp [kind]
  | bool | text | list | object => simp [IsNumberOrNull, kind] at h

/-- A number other than zero is not null, so an optional field that holds one is there after the
check. -/
theorem IsNonzero.ne_null (h : value.IsNonzero) : value ≠ .null := by
  rintro rfl
  cases h.2

/-- A number other than zero is checked to be one. For a whole number the double is the nearest one,
which is not zero either. -/
theorem IsNonzero.isZero_of_check (h : value.IsNonzero) {x : Binary64}
    (hx : checkNumber value = .accepted x) : x.isZero = false := by
  obtain ⟨hkind, hblank⟩ := h
  cases value with
  | null | bool | text | list | object => simp [kind] at hkind
  | double y =>
    cases hx
    exact hblank
  | int n =>
    -- A whole number that is not zero is not rounded to zero.
    have hne : n ≠ 0 := by simpa [isBlank] using hblank
    rw [checkNumber] at hx
    cases hint : Binary64.ofInt? n with
    | none =>
      rw [hint] at hx
      cases hx
    | some y =>
      rw [hint] at hx
      cases hx
      exact Binary64.isZero_of_ofInt? hint hne

/-- A default other than null leaves no null. -/
theorem orIfBlank_ne_null {fallback : Json} (h : fallback ≠ .null) :
    value.orIfBlank fallback ≠ .null := by
  rw [orIfBlank]
  split
  · exact h
  · next hfilled =>
    rintro rfl
    exact hfilled rfl

end Json

/-! ### Drafts -/

/-- The width of the stroke and the radius of the corners are numbers, if they are there. Only these
two are tested for zero before they are checked. -/
def Drawing.HasMeasures (fields : Json.Fields) : Prop :=
  ∀ name ∈ ["strokeWeight".toList, "cornerRadius".toList],
    (Json.fieldOrNull fields name).IsNumberOrNull

/-- The two fields are looked at one by one. -/
instance (fields : Json.Fields) : Decidable (Drawing.HasMeasures fields) :=
  inferInstanceAs (Decidable (∀ name ∈ ["strokeWeight".toList, "cornerRadius".toList],
    (Json.fieldOrNull fields name).IsNumberOrNull))

/-- A text that is there, in a layer that is a text, and has the colour of the layer if any. -/
structure Writing.IsWellFormed (d : Draft) (w : Writing) : Prop where
  content : w.content.isBlank = false
  type : d.type = "TEXT".toList
  color : ∀ c ∈ w.color, d.background = some c

/-- What holds between the parts of a draft. It is less than holds of a layer: that a width comes
with a colour is part of what a draft is. -/
structure Draft.IsWellFormed (d : Draft) : Prop where
  colors : ∀ c ∈ d.colors, Color.IsWritten c
  border : ∀ border ∈ d.border, border.width.IsNonzero
  radius : ∀ radius ∈ d.radius, radius.IsNonzero
  writing : ∀ writing ∈ d.writing, writing.IsWellFormed d
  spacing : ∀ flow ∈ d.flow, flow.spacing ≠ .null
  padding : ∀ flow ∈ d.flow, ∀ padding ∈ flow.padding, Drawing.keepsSpace padding = true

namespace Drawing

variable {fields : Json.Fields} {place : Place}

/-- The stroke of a layer has a width other than zero. -/
theorem isNonzero_of_borderAt (h : HasMeasures fields) {border : Border}
    (hborder : borderAt fields place = .ok (some border)) : border.width.IsNonzero := by
  obtain ⟨color?, -, hsome⟩ := map_eq_ok.mp hborder
  obtain ⟨color, -, rfl⟩ := Option.map_eq_some_iff.mp hsome
  show (Json.orIfBlank _ (.int 1)).IsNonzero
  rw [Json.orIfBlank]
  split
  · -- A stroke that does not say how wide it is, or says zero, is one wide.
    exact ⟨by simp [Json.kind], rfl⟩
  · next hfilled =>
    exact (h "strokeWeight".toList (by simp)).isNonzero (Bool.not_eq_true _ ▸ hfilled)

/-- A corner radius is kept if it is not blank. -/
theorem isNonzero_of_filledAt? (h : HasMeasures fields) {radius : Json}
    (hradius : filledAt? fields "cornerRadius".toList = some radius) : radius.IsNonzero := by
  obtain ⟨hfield, hfilled⟩ := Option.filter_eq_some_iff.mp hradius
  have hnumber := h "cornerRadius".toList (by simp)
  rw [Json.fieldOrNull, hfield, Option.getD_some] at hnumber
  exact hnumber.isNonzero (by simpa using hfilled)

/-- Only a layer that is a text has a content, and only one that is not blank. The type is compared
as it stands, so no other spelling has one. -/
theorem of_content? {content : Json} (h : content? fields = some content) :
    content.isBlank = false ∧ labelAt fields "type".toList = "TEXT".toList := by
  rw [content?] at h
  split at h
  · next htype =>
    refine ⟨?_, ?_⟩
    · obtain ⟨-, hfilled⟩ := Option.filter_eq_some_iff.mp h
      simpa using hfilled
    · rw [labelAt]
      -- The type was compared as a value and is named as a text.
      generalize Json.fieldOrNull fields "type".toList = type at htype ⊢
      cases type with
      | text t =>
        rw [Json.isText, decide_eq_true_eq] at htype
        subst htype
        rfl
      | null | bool | int | double | list | object => cases htype
  · cases h

/-- The colour of a text is that of the fills of its layer. -/
theorem color_of_writingAt {writing : Writing} (h : writingAt fields place = .ok (some writing)) :
    content? fields = some writing.content
      ∧ ∀ c ∈ writing.color, fillColor fields place = .ok (some c) := by
  rw [writingAt] at h
  cases hcontent : content? fields with
  | none =>
    rw [hcontent] at h
    cases h
  | some content =>
    simp only [hcontent, bind_eq_ok, pure_eq, Except.ok.injEq, Option.some.injEq] at h
    obtain ⟨style, -, found, hfound, rfl⟩ := h
    rw [writingOf] at hfound
    split at hfound
    · -- A text without a style has no colour.
      cases hfound
      refine ⟨rfl, fun c hc => ?_⟩
      cases hc
    · obtain ⟨color, hcolor, rfl⟩ := map_eq_ok.mp hfound
      refine ⟨rfl, fun c hc => ?_⟩
      rw [hcolor]
      exact congrArg Except.ok hc

/-- The spacing of a layout is a value, and its padding keeps some space. -/
theorem of_flowAt {flow : Flow} (h : flowAt fields = .ok (some flow)) :
    flow.spacing ≠ .null ∧ ∀ padding ∈ flow.padding, keepsSpace padding = true := by
  rw [flowAt] at h
  split at h
  · cases h
  · obtain ⟨padding, -, hflow⟩ := map_eq_ok.mp h
    cases hflow
    have hzero : Json.int 0 ≠ .null := by
      intro hnull
      cases hnull
    refine ⟨Json.orIfBlank_ne_null hzero, fun kept hkept => ?_⟩
    -- A padding without space was dropped when the layout was read.
    change (if keepsSpace padding then some padding else none) = some kept at hkept
    split at hkept
    · next hkeeps =>
      cases hkept
      exact hkeeps
    · cases hkept

end Drawing

namespace Draft

/-- A draft is well formed if its layer has numbers for the two measures. Each clause is about one
part, and each part is read by a definition of its own. -/
theorem isWellFormed_of_ofFields {place : Place} {origin : Origin} {fields : Json.Fields}
    {d : Draft} (h : ofFields place origin fields = .ok d)
    (hmeasures : Drawing.HasMeasures fields) : d.IsWellFormed := by
  have hcolors := isWritten_of_ofFields h
  simp only [ofFields, bind_eq_ok, pure_eq, Except.ok.injEq] at h
  obtain ⟨box, -, x, -, y, -, background, hbackground, border, hborder, writing, hwriting, flow,
    hflow, rfl⟩ := h
  constructor
  case colors => exact hcolors
  case border =>
    rintro stroke ⟨⟩
    exact Drawing.isNonzero_of_borderAt hmeasures hborder
  case radius =>
    intro radius hradius
    exact Drawing.isNonzero_of_filledAt? hmeasures hradius
  case writing =>
    rintro text ⟨⟩
    obtain ⟨hcontent, hcolor⟩ := Drawing.color_of_writingAt hwriting
    obtain ⟨hfilled, htype⟩ := Drawing.of_content? hcontent
    refine ⟨hfilled, htype, fun c hc => ?_⟩
    -- The text takes its colour from the paint that made the background.
    exact Except.ok.inj (hbackground.symm.trans (hcolor c hc))
  case spacing =>
    rintro flow ⟨⟩
    exact (Drawing.of_flowAt hflow).1
  case padding =>
    rintro flow ⟨⟩
    exact (Drawing.of_flowAt hflow).2

/-- A field that is given without a value of its own is not there after the check either: the
default of an optional field is `none`. -/
theorem eq_none_of_field {α : Type} {check : Json → Checked α} {d : Draft} {property : Property}
    {kept : Option α} (h : field none (nullable check) (d.given property) = .accepted kept)
    (hvalue : d.value? property = none) : kept = none := by
  rw [given, hvalue] at h
  cases h
  rfl

/-! ### From a draft to its layer

The checks of a layer look at one field at a time. Each of the next lemmas carries one clause of
`Draft.IsWellFormed` through the checks of the fields that it is about; `IsWellFormed.of_check` puts
the clauses of the layer together. -/

section

variable {d : Draft} {l : Layer}

/-- The type of a draft is a text already, and no check changes it. -/
theorem type_of_check (h : d.check = .ok l) : l.type = d.type := by
  have haccepted := isAccepted_of_check h
  have hgiven : Checked.accepted d.type = .accepted l.type := haccepted.type
  exact (Checked.accepted.inj hgiven).symm

/-- A layer has an automatic layout exactly if its draft has a flow. The direction of a flow is
never null, so the check, which takes null for nothing, does not drop it. -/
theorem isSome_layout_of_check (h : d.check = .ok l) : l.layout.isSome = d.flow.isSome := by
  have haccepted := isAccepted_of_check h
  rw [(of_field_nullable haccepted.layout).2, value?, Option.isSome_map]
  intro value hvalue
  obtain ⟨flow, -, rfl⟩ := Option.map_eq_some_iff.mp hvalue
  intro hnull
  cases hnull

namespace IsWellFormed

variable (hd : d.IsWellFormed) (h : d.check = .ok l)

include hd h

/-- A border of a layer has a width exactly if it has a colour: both come from the one border of the
draft, and a width other than zero is not null. -/
theorem isSome_borderWidth : l.borderWidth.isSome = l.borderColor.isSome := by
  obtain ⟨-, hborderColor, -⟩ := layerColors_of_check h
  have haccepted := isAccepted_of_check h
  rw [hborderColor, Option.isSome_map, (of_field_nullable haccepted.borderWidth).2, value?,
    Option.isSome_map]
  intro value hvalue
  obtain ⟨border, hborder, rfl⟩ := Option.map_eq_some_iff.mp hvalue
  exact (hd.border border hborder).ne_null

/-- The width of a border is not zero: it is the double nearest to a number of the draft that is not
zero either. -/
theorem borderWidth_ne_zero : ∀ x ∈ l.borderWidth, x.isZero = false := by
  have haccepted := isAccepted_of_check h
  intro x hx
  obtain ⟨value, hvalue, hcheck⟩ := (of_field_nullable haccepted.borderWidth).1 x hx
  obtain ⟨border, hborder, rfl⟩ := Option.map_eq_some_iff.mp hvalue
  exact (hd.border border hborder).isZero_of_check hcheck

/-- Nor is the radius of the corners. -/
theorem borderRadius_ne_zero : ∀ x ∈ l.borderRadius, x.isZero = false := by
  have haccepted := isAccepted_of_check h
  intro x hx
  obtain ⟨value, hvalue, hcheck⟩ := (of_field_nullable haccepted.borderRadius).1 x hx
  exact (hd.radius value hvalue).isZero_of_check hcheck

/-- A text of a layer holds something, and the layer is a text. -/
theorem text_filled : ∀ t ∈ l.text, t ≠ [] ∧ l.type = "TEXT".toList := by
  have haccepted := isAccepted_of_check h
  intro t ht
  obtain ⟨value, hvalue, hcheck⟩ := (of_field_nullable haccepted.text).1 t ht
  obtain ⟨writing, hwriting, rfl⟩ := Option.map_eq_some_iff.mp hvalue
  obtain ⟨hfilled, hkind, -⟩ := hd.writing writing hwriting
  refine ⟨?_, (type_of_check h).trans hkind⟩
  rintro rfl
  -- A text is accepted only as such, and an empty one is blank.
  cases hcontent : writing.content <;> rw [hcontent] at hcheck hfilled <;> cases hcheck
  cases hfilled

/-- A layer without a text comes from a draft without a writing. A writing has a content that is not
blank, so it is not null, and its text is kept. -/
theorem writing_eq_none (hnone : l.text = none) : d.writing = none := by
  have haccepted := isAccepted_of_check h
  -- A text that was read has content, which is kept.
  by_contra hsome
  obtain ⟨writing, hwriting⟩ := Option.ne_none_iff_exists'.mp hsome
  have hfilled := (hd.writing writing hwriting).content
  have hisSome : l.text.isSome = true := by
    rw [(of_field_nullable haccepted.text).2, value?, hwriting]
    · rfl
    · rintro value hvalue rfl
      obtain ⟨other, hother, hnull⟩ := Option.map_eq_some_iff.mp hvalue
      cases hwriting.symm.trans hother
      rw [hnull] at hfilled
      cases hfilled
  rw [hnone] at hisSome
  cases hisSome

/-- Without a text there is no style: size, weight and colour of the letters are parts of the
writing. -/
theorem style_eq_none (hnone : l.text = none) :
    l.fontSize = none ∧ l.fontWeight = none ∧ l.textColor = none := by
  obtain ⟨-, -, htextColor⟩ := layerColors_of_check h
  have haccepted := isAccepted_of_check h
  have hwriting := hd.writing_eq_none h hnone
  refine ⟨eq_none_of_field haccepted.fontSize ?_, eq_none_of_field haccepted.fontWeight ?_, ?_⟩
  · rw [value?, hwriting, Option.bind_none]
  · rw [value?, hwriting, Option.bind_none]
  · rw [htextColor, hwriting, Option.bind_none]

/-- A text is written in the colour that fills its layer. -/
theorem textColor_eq_background : ∀ c ∈ l.textColor, l.backgroundColor = some c := by
  obtain ⟨hbackground, -, htextColor⟩ := layerColors_of_check h
  intro c hc
  rw [htextColor] at hc
  obtain ⟨writing, hwriting, hcolor⟩ := Option.bind_eq_some_iff.mp hc
  rw [hbackground]
  exact (hd.writing writing hwriting).color c hcolor

/-- There is a spacing exactly if there is an automatic layout. -/
theorem isSome_spacing : l.spacing.isSome = l.layout.isSome := by
  have haccepted := isAccepted_of_check h
  rw [isSome_layout_of_check h, (of_field_nullable haccepted.spacing).2, value?, Option.isSome_map]
  intro value hvalue
  obtain ⟨flow, hflow, rfl⟩ := Option.map_eq_some_iff.mp hvalue
  exact hd.spacing flow hflow

/-- A padding belongs to an automatic layout and keeps some space. -/
theorem padding_keepsSpace : ∀ p ∈ l.padding, l.layout.isSome = true
    ∧ ∃ side ∈ [p.top, p.right, p.bottom, p.left], side.isZero = false := by
  have haccepted := isAccepted_of_check h
  intro p hp
  obtain ⟨value, hvalue, hcheck⟩ := (of_field_nullable haccepted.padding).1 p hp
  obtain ⟨flow, hflow, hkept⟩ := Option.bind_eq_some_iff.mp hvalue
  obtain ⟨padding, hkeeps, rfl⟩ := Option.map_eq_some_iff.mp hkept
  -- The draft holds the padding as it is written, and what is written is read back.
  rw [Padding.restores.accepted padding] at hcheck
  cases hcheck
  refine ⟨by rw [isSome_layout_of_check h, hflow]; rfl, ?_⟩
  have hspace := hd.padding flow hflow _ hkeeps
  by_contra hzero
  simp [Drawing.keepsSpace] at hspace hzero
  simp [hzero] at hspace

/-- Where no number is zero or missing, a layer that was accepted has what the draft has: the checks
leave presence and value of each field alone. -/
theorem of_check : l.IsWellFormed where
  colors := by
    rw [colors_of_check h]
    exact hd.colors
  border := hd.isSome_borderWidth h
  borderWidth := hd.borderWidth_ne_zero h
  borderRadius := hd.borderRadius_ne_zero h
  text := hd.text_filled h
  style := hd.style_eq_none h
  textColor := hd.textColor_eq_background h
  spacing := hd.isSome_spacing h
  padding := hd.padding_keepsSpace h

end IsWellFormed

end

end Draft

/-! ### Extractions -/

namespace Drawing

mutual

/-- How deep a drawing stands has no part in which layers it has. A page stands one level deeper in
its file than where an extraction begins with it. -/
theorem map_snd_preorder (depth other : Nat) : ∀ drawing : Drawing,
    (drawing.preorder depth).map Prod.snd = (drawing.preorder other).map Prod.snd
  | .sound fields children => by
    rw [preorder, preorder, List.map_cons, List.map_cons,
      map_snd_preorderAll (depth + 1) (other + 1) children]
  | .broken fields obstacle => by
    rw [preorder, preorder, List.map_singleton, List.map_singleton]

/-- The same for a list of drawings. -/
theorem map_snd_preorderAll (depth other : Nat) : ∀ drawings : List Drawing,
    (preorderAll depth drawings).map Prod.snd = (preorderAll other drawings).map Prod.snd
  | [] => rfl
  | drawing :: rest => by
    rw [preorderAll, preorderAll, List.map_append, List.map_append,
      map_snd_preorder depth other drawing, map_snd_preorderAll depth other rest]

end

/-- What is selected has no layers but those of the root. A condition on the layers of the root is
therefore one on those of any page. -/
theorem mem_preorder_of_select {root : Drawing} {page : Json} {choice : Option Selection}
    {warnings : List Warning} (h : root.select page = .ok (choice, warnings))
    {layer : Nat × Json.Fields} (hlayer : layer ∈ Selection.layers choice) :
    ∃ depth, (depth, layer.2) ∈ root.preorder 0 := by
  cases choice with
  | none => cases hlayer
  | some selection =>
    have hlayer : layer ∈ selection.drawing.preorder 0 := hlayer
    rw [select] at h
    split at h
    · cases h
      exact ⟨layer.1, hlayer⟩
    · obtain ⟨pages, hvisit, h⟩ := bind_eq_ok.mp h
      cases root with
      | broken fields obstacle =>
        exact absurd hvisit (obstruct_ne_ok fields rootPlace obstacle pages)
      | sound fields children =>
        cases hvisit
        cases page with
        | null | bool | int | double | list | object => cases h
        | text wanted =>
          have hchosen : (selectPage wanted pages).1 = some selection := by rw [Except.ok.inj h]
          obtain ⟨position, hpage, -⟩ := selectPage_eq_some hchosen
          -- The page is a child of the root, so its layers are one level further down there.
          have hdeeper : layer.2 ∈ (selection.drawing.preorder 1).map Prod.snd := by
            rw [map_snd_preorder 1 0]
            exact List.mem_map_of_mem hlayer
          obtain ⟨found, hfound, hfields⟩ := List.mem_map.mp hdeeper
          refine ⟨found.1, ?_⟩
          rw [preorder, ← hfields]
          exact List.mem_cons_of_mem _
            (mem_preorderAll (List.mem_of_getElem? hpage) hfound)

end Drawing

namespace Extraction

/-- Every layer of an extraction is well formed, whatever page was wanted and whatever the limit, if
the strokes and corners of the file are measured in numbers. -/
theorem ofFile_wellFormed {file page : Json} {limit : Int} {root : Drawing} {t : Extraction}
    (hroot : Drawing.ofFile file = .ok root)
    (hmeasures : ∀ layer ∈ root.preorder 0, Drawing.HasMeasures layer.2)
    (h : ofFile file page limit = .ok t) :
    ∀ layer ∈ Node.preorderAll 0 t.roots, layer.2.IsWellFormed := by
  obtain ⟨other, choice, warnings, hother, hselect, htranslation⟩ := ofFile_isTranslation h
  cases hroot.symm.trans hother
  intro layer hlayer
  -- The layer was read from the layer at the same position of what was selected.
  obtain ⟨position, hposition, rfl⟩ := List.mem_iff_getElem.mp hlayer
  have hlength := htranslation.layers_eq.length_eq
  have hread := htranslation.layers_eq.get (hlength ▸ hposition) hposition
  have hsource := List.mem_of_mem_take (List.getElem_mem (hlength ▸ hposition))
  obtain ⟨depth, hmem⟩ := Drawing.mem_preorder_of_select hselect hsource
  obtain ⟨-, place, origin, hlayer⟩ := hread
  obtain ⟨draft, hdraft, hcheck⟩ := bind_eq_ok.mp hlayer
  exact (Draft.isWellFormed_of_ofFields hdraft (hmeasures (depth, _) hmem)).of_check hcheck

/-- A document with one page, on which a frame with a stroke, round corners and an automatic layout
stands around a red text and a shape. -/
def framedText : Json.Fields :=
  let red : Json := .list [.object [("type".toList, .text "SOLID".toList),
    ("color".toList, .object [("r".toList, .int 1)])]]
  let text : Json := .object [("type".toList, .text "TEXT".toList),
    ("characters".toList, .text "Hi".toList), ("fills".toList, red),
    ("style".toList, .object [("fontSize".toList, .int 12)])]
  let frame : Json := .object [("type".toList, .text "FRAME".toList), ("strokes".toList, red),
    ("strokeWeight".toList, .int 0), ("cornerRadius".toList, .double .half),
    ("layoutMode".toList, .text "HORIZONTAL".toList), ("paddingLeft".toList, .int 4),
    ("children".toList, .list [text, .object [("type".toList, .text "ELLIPSE".toList)]])]
  [("children".toList, .list [.object [("id".toList, .text "1:0".toList),
    ("children".toList, .list [frame])]])]

/-- A page that is not there, so that the first one is walked, cut behind the text. -/
theorem framedText_wellFormed : ∃ t,
    Drawing.ofFile (.object [("document".toList, .object framedText)])
        = .ok (Drawing.ofFields framedText)
      ∧ (∀ layer ∈ (Drawing.ofFields framedText).preorder 0, Drawing.HasMeasures layer.2)
      ∧ ofFile (.object [("document".toList, .object framedText)]) (.text "9:9".toList) 3 = .ok t
      ∧ t.isCut = true ∧ t.count = 3
      ∧ ∀ layer ∈ Node.preorderAll 0 t.roots, layer.2.IsWellFormed := by
  have hroot : Drawing.ofFile (.object [("document".toList, .object framedText)])
      = .ok (Drawing.ofFields framedText) := rfl
  have hmeasures : ∀ layer ∈ (Drawing.ofFields framedText).preorder 0,
      Drawing.HasMeasures layer.2 := by decide +kernel
  have hok : ((ofFile (.object [("document".toList, .object framedText)])
      (.text "9:9".toList) 3).map fun t => (t.isCut, t.count)).toOption = some (true, 3) := by
    decide +kernel
  obtain ⟨t, ht, htells⟩ := map_eq_ok.mp (toOption_eq_some.mp hok)
  obtain ⟨hcut, hcount⟩ := Prod.mk.inj htells
  exact ⟨t, hroot, hmeasures, ht, hcut, hcount, ofFile_wellFormed hroot hmeasures ht⟩

end Extraction

end DesignCompiler
