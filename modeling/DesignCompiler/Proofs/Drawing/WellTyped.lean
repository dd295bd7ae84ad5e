import DesignCompiler.Proofs.Drawing.Flaws
import DesignCompiler.Proofs.Layout.Layer
import DesignCompiler.Proofs.Number.Measure
import DesignCompiler.Proofs.Outcome

/-!
# `DesignCompiler.Proofs.Drawing.WellTyped`: layers whose numbers are numbers

A layer of a design file is `WellTyped` if there is a number wherever one is read, a text where text
is, and a number or text for a font weight; null and nothing will do as well. About the structure of
the layer that says nothing: what should be an object or a list may be anything.

Of the values of such a layer none can go wrong. Colours are written, paddings are accepted, and a
draft that is made of them is fit for a layout tree (`Draft.IsFit`), so checking it gives a layer
(`Draft.IsFit.exists_check`).
-/

set_option autoImplicit false

namespace DesignCompiler

open Outcome Schema

namespace Json

/-- The fields of an object, none of another value. -/
def inside : Json → Fields
  | .object fields => fields
  | _ => []

/-- A measure, or null, which a missing field counts as. -/
def IsMeasureOrNull (value : Json) : Prop := value.kind = .null ∨ value.IsMeasure

/-- Decided by the kind of the value. -/
instance (value : Json) : Decidable value.IsMeasureOrNull :=
  inferInstanceAs (Decidable (value.kind = .null ∨ value.IsMeasure))

variable {value fallback : Json}

/-- Null is blank, so the default takes its place. Zero and empty values are blank as well, and the
default is what stands for them. -/
theorem IsMeasureOrNull.orIfBlank (h : value.IsMeasureOrNull) (hfallback : fallback.IsMeasure) :
    (value.orIfBlank fallback).IsMeasure := by
  rw [Json.orIfBlank]
  split
  · exact hfallback
  · next hblank =>
    rcases h with hnull | hmeasure
    · cases value <;> first | exact absurd rfl hblank | cases hnull
    · exact hmeasure

/-- What is there and not blank is no null. -/
theorem IsMeasureOrNull.of_filled (h : value.IsMeasureOrNull) (hfilled : value.isBlank = false) :
    value.IsMeasure := by
  have hmeasure := h.orIfBlank (show (Json.int 0).IsMeasure by decide)
  rwa [Json.orIfBlank, if_neg (by simp [hfilled])] at hmeasure

end Json

namespace Drawing

/-- The numbers of a box. -/
def boxNames : List Text := ["x".toList, "y".toList, "width".toList, "height".toList]

/-- The numbers of a layer itself. -/
def measureNames : List Text :=
  ["strokeWeight".toList, "cornerRadius".toList, "itemSpacing".toList, "paddingTop".toList,
   "paddingRight".toList, "paddingBottom".toList, "paddingLeft".toList]

/-- A colour whose channels are numbers, where there are any. Only the last one may be null; a null
in another place is not a missing channel. -/
def HasChannels (color : Json.Fields) : Prop :=
  (∀ name ∈ ["r".toList, "g".toList, "b".toList],
      ∀ value ∈ Json.field? color name, value.IsMeasure)
    ∧ (Json.fieldOrNull color "a".toList).IsMeasureOrNull

/-- Decided channel by channel, for colours that are written out. -/
instance (color : Json.Fields) : Decidable (HasChannels color) :=
  inferInstanceAs (Decidable (_ ∧ _))

/-- A layer with numbers where numbers are read, and texts where texts are. Values that nobody reads
are free: the font size of a shape may be a list. -/
structure WellTyped (fields : Json.Fields) : Prop where
  box : ∀ name ∈ boxNames, (Json.fieldOrNull
    (Json.fieldOrNull fields "absoluteBoundingBox".toList).inside name).IsMeasureOrNull
  measures : ∀ name ∈ measureNames, (Json.fieldOrNull fields name).IsMeasureOrNull
  paints : ∀ name ∈ paintNames, ∀ paint ∈ solidPaint? fields name,
    HasChannels (Json.fieldOrNull paint "color".toList).inside
  content : (Json.fieldOrNull fields "characters".toList).kind ∈ [.null, .text]
  size : (Json.fieldOrNull
    (Json.fieldOrNull fields "style".toList).inside "fontSize".toList).IsMeasureOrNull
  weight : (Json.fieldOrNull
    (Json.fieldOrNull fields "style".toList).inside "fontWeight".toList).kind
      ∈ [.null, .int, .double, .text]

/-- Decided field by field, for the layers of the examples in this library. -/
instance (fields : Json.Fields) : Decidable (WellTyped fields) :=
  decidable_of_iff (_ ∧ _ ∧ _ ∧ _ ∧ _ ∧ _)
    ⟨fun ⟨a, b, c, d, e, f⟩ => ⟨a, b, c, d, e, f⟩, fun ⟨a, b, c, d, e, f⟩ => ⟨a, b, c, d, e, f⟩⟩

/-- The number under a name is one even if nothing is there. -/
theorem isMeasure_numberAt {fields : Json.Fields} {name : Text}
    (h : (Json.fieldOrNull fields name).IsMeasureOrNull) : (numberAt fields name).IsMeasure :=
  h.orIfBlank (by decide)

/-- A colour with channels can be written. -/
theorem HasChannels.exists_encodeFields {color : Json.Fields} (h : HasChannels color) :
    ∃ t, Color.encodeFields color = .ok t := by
  have hchannel : ∀ name ∈ ["r".toList, "g".toList, "b".toList],
      ∃ t, Color.valueHex ((Json.field? color name).getD (.int 0)) = .ok t := by
    intro name hname
    have hvalue := h.1 name hname
    -- A channel that is missing counts as zero.
    cases hfield : Json.field? color name with
    | none => exact Json.IsMeasure.exists_valueHex (by decide)
    | some value => exact (hvalue value hfield).exists_valueHex
  have halpha : ∃ t, Color.valueHex (Color.alphaOf color) = .ok t := by
    unfold Color.alphaOf
    split
    · exact Json.IsMeasure.exists_valueHex (by decide)
    · next hnull =>
      -- An opacity that is there and not null is a measure.
      refine Json.IsMeasure.exists_valueHex (h.2.resolve_left ?_)
      intro hkind
      cases hvalue : Json.fieldOrNull color "a".toList <;> rw [hvalue] at hkind <;>
        first | exact hnull hvalue | cases hkind
  obtain ⟨red, hred⟩ := hchannel "r".toList (by decide)
  obtain ⟨green, hgreen⟩ := hchannel "g".toList (by decide)
  obtain ⟨blue, hblue⟩ := hchannel "b".toList (by decide)
  obtain ⟨alpha, halpha⟩ := halpha
  exact ⟨_, by rw [Color.encodeFields, hred, hgreen, hblue, halpha]; rfl⟩

/-- The padding of a well-typed layer is accepted. -/
theorem WellTyped.exists_padding {fields : Json.Fields} (h : WellTyped fields) :
    ∃ padding, Padding.ofJson (sidesAt fields) = .ok padding := by
  have hside : ∀ name ∈ measureNames, IsNumber (numberAt fields name) :=
    fun name hname => (isMeasure_numberAt (h.measures name hname)).isNumber
  obtain ⟨top, htop⟩ := hside "paddingTop".toList (by decide)
  obtain ⟨right, hright⟩ := hside "paddingRight".toList (by decide)
  obtain ⟨bottom, hbottom⟩ := hside "paddingBottom".toList (by decide)
  obtain ⟨left, hleft⟩ := hside "paddingLeft".toList (by decide)
  -- The four sides are checked one by one, and each is a number.
  have hcheck : Padding.check (sidesAt fields) = .accepted ⟨top, right, bottom, left⟩ := by
    simp only [sidesAt, Padding.check, Padding.checkFields, seq_eq_accepted, map_eq_accepted]
    refine ⟨_, ⟨_, ⟨_, ⟨top, ?_, rfl⟩, right, ?_, rfl⟩, bottom, ?_, rfl⟩, left, ?_, rfl⟩ <;>
      refine under_eq_accepted.mpr ?_
    · exact htop
    · exact hright
    · exact hbottom
    · exact hleft
  exact ⟨_, by rw [Padding.ofJson, hcheck]⟩

end Drawing

/-! ### Drafts that are fit for a layout tree -/

/-- A text with a style whose values are accepted. -/
structure Writing.IsFit (w : Writing) : Prop where
  content : ∃ t, w.content = .text t
  size : ∀ value ∈ w.size, IsNumber value
  weight : ∀ value ∈ w.weight, ∃ weight, FontWeight.check value = .accepted weight

/-- A draft whose values are accepted. Its identifier, type and name are texts by their types
already, and so are colours. -/
structure Draft.IsFit (d : Draft) : Prop where
  x : IsNumber d.x
  y : IsNumber d.y
  width : IsNumber d.width
  height : IsNumber d.height
  border : ∀ border ∈ d.border, IsNumber border.width
  radius : ∀ value ∈ d.radius, IsNumber value
  writing : ∀ writing ∈ d.writing, writing.IsFit
  flow : ∀ flow ∈ d.flow, IsNumber flow.spacing

namespace Draft.IsFit

variable {d : Draft}

/-- The numbers of a fit draft are numbers, whichever field of a layer they go to. -/
theorem isNumber (h : d.IsFit) {p : Property} (hp : p ∈ [Property.x, .y, .width, .height,
    .borderWidth, .borderRadius, .fontSize, .spacing]) : ∀ value ∈ d.value? p, IsNumber value := by
  intro value hv
  simp only [List.mem_cons, List.not_mem_nil, or_false] at hp
  -- The first four are always there, and each of the others only in some layers.
  rcases hp with rfl | rfl | rfl | rfl | rfl | rfl | rfl | rfl
  · cases hv
    exact h.x
  · cases hv
    exact h.y
  · cases hv
    exact h.width
  · cases hv
    exact h.height
  · obtain ⟨border, hborder, rfl⟩ := Option.map_eq_some_iff.mp hv
    exact h.border border hborder
  · exact h.radius value hv
  · obtain ⟨writing, hwriting, hsize⟩ := Option.bind_eq_some_iff.mp hv
    exact (h.writing writing hwriting).size value hsize
  · obtain ⟨flow, hflow, rfl⟩ := Option.map_eq_some_iff.mp hv
    exact h.flow flow hflow

/-- The texts of a fit draft are texts. -/
theorem exists_text (h : d.IsFit) {p : Property} (hp : p ∈ [Property.backgroundColor, .borderColor,
    .text, .textColor]) : ∀ value ∈ d.value? p, ∃ t, checkText value = .accepted t := by
  intro value hv
  simp only [List.mem_cons, List.not_mem_nil, or_false] at hp
  rcases hp with rfl | rfl | rfl | rfl
  · obtain ⟨color, -, rfl⟩ := Option.map_eq_some_iff.mp hv
    exact ⟨color, rfl⟩
  · obtain ⟨border, -, rfl⟩ := Option.map_eq_some_iff.mp hv
    exact ⟨border.color, rfl⟩
  · obtain ⟨writing, hwriting, rfl⟩ := Option.map_eq_some_iff.mp hv
    obtain ⟨t, ht⟩ := (h.writing writing hwriting).content
    exact ⟨t, by rw [ht]; rfl⟩
  · obtain ⟨writing, -, hcolor⟩ := Option.bind_eq_some_iff.mp hv
    obtain ⟨color, -, rfl⟩ := Option.map_eq_some_iff.mp hcolor
    exact ⟨color, rfl⟩

/-- The font weight of a fit draft is one. -/
theorem exists_weight (h : d.IsFit) :
    ∀ value ∈ d.value? .fontWeight, ∃ weight, FontWeight.check value = .accepted weight := by
  intro value hv
  obtain ⟨writing, hwriting, hweight⟩ := Option.bind_eq_some_iff.mp hv
  exact (h.writing writing hwriting).weight value hweight

/-- Directions are written as what they are. -/
theorem exists_direction (d : Draft) :
    ∀ value ∈ d.value? .layout, ∃ direction, Direction.check value = .accepted direction := by
  intro value hv
  obtain ⟨flow, -, rfl⟩ := Option.map_eq_some_iff.mp hv
  exact ⟨flow.direction, Direction.restores.accepted flow.direction⟩

/-- Paddings have been accepted before. -/
theorem exists_padding (d : Draft) :
    ∀ value ∈ d.value? .padding, ∃ padding, Padding.check value = .accepted padding := by
  intro value hv
  obtain ⟨flow, -, hpadding⟩ := Option.bind_eq_some_iff.mp hv
  obtain ⟨padding, -, rfl⟩ := Option.map_eq_some_iff.mp hpadding
  exact ⟨padding, Padding.restores.accepted padding⟩

/-- A fit draft describes a layer. Every field of the layer is accepted by itself, and
`Layer.check_eq_accepted` puts them together. -/
theorem exists_check (h : d.IsFit) : ∃ layer, d.check = .ok layer := by
  have hposition : ∀ p ∈ [Property.x, .y, .width, .height],
      ∃ x, field (.zero false) checkNumber (d.given p) = .accepted x :=
    fun p hp => exists_field _ p.plainName (h.isNumber (by revert p; decide))
  have hnumber : ∀ p ∈ [Property.borderWidth, .borderRadius, .fontSize, .spacing],
      ∃ x, field none (nullable checkNumber) (d.given p) = .accepted x :=
    fun p hp => exists_field_nullable p.plainName (h.isNumber (by revert p; decide))
  have hwritten : ∀ p ∈ [Property.backgroundColor, .borderColor, .text, .textColor],
      ∃ t, field none (nullable checkText) (d.given p) = .accepted t :=
    fun p hp => exists_field_nullable p.plainName (h.exists_text hp)
  obtain ⟨x, hx⟩ := hposition .x (by decide)
  obtain ⟨y, hy⟩ := hposition .y (by decide)
  obtain ⟨width, hwidth⟩ := hposition .width (by decide)
  obtain ⟨height, hheight⟩ := hposition .height (by decide)
  obtain ⟨background, hbackground⟩ := hwritten .backgroundColor (by decide)
  obtain ⟨borderColor, hborderColor⟩ := hwritten .borderColor (by decide)
  obtain ⟨borderWidth, hborderWidth⟩ := hnumber .borderWidth (by decide)
  obtain ⟨radius, hradius⟩ := hnumber .borderRadius (by decide)
  obtain ⟨text, htext⟩ := hwritten .text (by decide)
  obtain ⟨textColor, htextColor⟩ := hwritten .textColor (by decide)
  obtain ⟨fontSize, hfontSize⟩ := hnumber .fontSize (by decide)
  obtain ⟨spacing, hspacing⟩ := hnumber .spacing (by decide)
  obtain ⟨fontWeight, hfontWeight⟩ :=
    exists_field_nullable Property.fontWeight.plainName h.exists_weight
  obtain ⟨layout, hlayout⟩ :=
    exists_field_nullable Property.layout.plainName (exists_direction d)
  obtain ⟨padding, hpadding⟩ :=
    exists_field_nullable Property.padding.plainName (exists_padding d)
  have hlayer : Layer.check d.given = .accepted
      ⟨d.id, d.type, d.name, x, y, width, height, background, borderColor, borderWidth, radius,
        text, textColor, fontSize, fontWeight, layout, spacing, padding⟩ :=
    Layer.check_eq_accepted.mpr ⟨rfl, rfl, rfl, hx, hy, hwidth, hheight, hbackground, hborderColor,
      hborderWidth, hradius, htext, htextColor, hfontSize, hfontWeight, hlayout, hspacing, hpadding⟩
  unfold Draft.check
  -- What `Layer.check` gives is known, so it need not be opened.
  generalize Layer.check d.given = checked at hlayer ⊢
  subst hlayer
  exact ⟨_, rfl⟩

end Draft.IsFit

end DesignCompiler
