import DesignCompiler.Proofs.Color.Hexadecimal
import DesignCompiler.Proofs.Extraction.Translation
import DesignCompiler.Proofs.Layout.Layer
import DesignCompiler.Proofs.Render.Attribute

/-!
# `DesignCompiler.Proofs.Extraction.Colors`: which colours an extraction writes

Colours of a layout tree are texts, and nobody checks what they hold. Those of an extraction are
written from the channels of paints, so they are a `#` with eight hexadecimal digits
(`Extraction.isWritten_of_readFrom`), and the checks in between leave them as they are. What matters
for generated code is that they have no other characters (`Extraction.isColorText_of_ofFile`).
-/

set_option autoImplicit false

namespace DesignCompiler

open Outcome Schema Text

/-- A text of `#` and ASCII letters and digits. It is less than a written colour is, and all that a
literal of generated code needs of one. -/
def Color.IsColorText (t : Text) : Prop := ∀ c ∈ t, c = '#' ∨ isAlphanumeric c = true

/-- The characters are looked at one by one. -/
instance (t : Text) : Decidable (Color.IsColorText t) :=
  List.decidableBAll (fun c => c = '#' ∨ isAlphanumeric c = true) t

/-- A written colour is a colour text: its digits are letters and digits. -/
theorem Color.IsWritten.isColorText {t : Text} (h : IsWritten t) : IsColorText t := by
  obtain ⟨hhead, -, hdigits⟩ := h
  have hall : lowerCase.all isAlphanumeric = true := by decide
  intro c hc
  rw [List.eq_cons_of_mem_head? hhead] at hc
  rcases List.mem_cons.mp hc with hc | hc
  · exact .inl hc
  · exact .inr (List.all_eq_true.mp hall c (hdigits c hc))

namespace Drawing

/-- The colour of a list of paints is a written one, if there is one. A colour that is missing is
written as well, with all channels missing. -/
theorem isWritten_of_paintColor {fields : Json.Fields} {place : Place} {name : Text} {t : Text}
    (h : paintColor fields place name = .ok (some t)) : Color.IsWritten t := by
  have hencode : ∀ {color : Json.Fields},
      (Color.encodeFields color).map some = .ok (some t) → Color.IsWritten t := by
    intro color hcolor
    obtain ⟨_, hok, hsome⟩ := map_eq_ok.mp hcolor
    cases hsome
    exact Color.isWritten_of_encodeFields hok
  rw [paintColor] at h
  split at h
  · cases h
  · split at h
    · exact hencode h
    · exact hencode h
    · cases h

/-- The colour of a text is that of its fills, if the text has a style. -/
theorem isWritten_of_writingAt {fields : Json.Fields} {place : Place} {writing : Writing}
    (h : writingAt fields place = .ok (some writing)) {t : Text} (ht : writing.color = some t) :
    Color.IsWritten t := by
  rw [writingAt] at h
  cases hcontent : content? fields with
  | none =>
    rw [hcontent] at h
    cases h
  | some content =>
    simp only [hcontent, bind_eq_ok, pure_eq, Except.ok.injEq, Option.some.injEq] at h
    obtain ⟨style, -, found, hfound, rfl⟩ := h
    rw [writingOf] at hfound
    -- A style that is null leaves the text without a colour.
    split at hfound
    · cases hfound
      cases ht
    · obtain ⟨color, hcolor, rfl⟩ := map_eq_ok.mp hfound
      rw [show color = some t from ht] at hcolor
      exact isWritten_of_paintColor hcolor

end Drawing

namespace Draft

/-- The colours of a draft, those that are there, in the order background, border, text. -/
def colors (d : Draft) : List Text :=
  d.background.toList ++ (d.border.map (·.color)).toList ++ (d.writing.bind (·.color)).toList

/-- The colours of a draft are those of its paints, and these are written. -/
theorem isWritten_of_ofFields {place : Place} {origin : Origin} {fields : Json.Fields}
    {d : Draft} (h : ofFields place origin fields = .ok d) :
    ∀ t ∈ d.colors, Color.IsWritten t := by
  simp only [ofFields, bind_eq_ok, pure_eq, Except.ok.injEq] at h
  obtain ⟨box, -, x, -, y, -, background, hbackground, border, hborder, writing, hwriting, flow, -,
    rfl⟩ := h
  intro t ht
  simp only [colors, List.mem_append, Option.mem_toList] at ht
  -- A draft has colours in three places, each written where the paint was read.
  rcases ht with (ht | ht) | ht
  · rw [ht] at hbackground
    exact Drawing.isWritten_of_paintColor hbackground
  · obtain ⟨stroke, hstroke, rfl⟩ := Option.map_eq_some_iff.mp ht
    obtain ⟨color, hcolor, hsome⟩ := map_eq_ok.mp hborder
    rw [hstroke] at hsome
    obtain ⟨found, hfound, rfl⟩ := Option.map_eq_some_iff.mp hsome
    rw [hfound] at hcolor
    exact Drawing.isWritten_of_paintColor hcolor
  · obtain ⟨text, htext, hcolor⟩ := Option.bind_eq_some_iff.mp ht
    rw [htext] at hwriting
    exact Drawing.isWritten_of_writingAt hwriting hcolor

/-- A layer that comes out of the checks has in each field what is accepted of the draft's value for
it. All that is known of a layer of an extraction is read off its draft through this. -/
theorem isAccepted_of_check {d : Draft} {l : Layer} (h : d.check = .ok l) :
    l.IsAccepted d.given := by
  apply Layer.check_eq_accepted.mp
  unfold check at h
  generalize Layer.check d.given = checked at h ⊢
  cases checked with
  | rejected issues => cases h
  | accepted layer =>
    cases h
    rfl

/-- A colour that is given as a text is accepted as it is. It holds of each of the three colour
fields, with the draft's value for it. -/
theorem color_of_field {d : Draft} {property : Property} {color kept : Option Text}
    (hvalue : d.value? property = color.map .text)
    (h : field none (nullable checkText) (d.given property) = .accepted kept) : kept = color := by
  rw [given, hvalue, field_nullable restores_text] at h
  cases h
  rfl

/-- A layer has the background, the border colour and the text colour of its draft. The checks of
the three fields are one and the same. -/
theorem layerColors_of_check {d : Draft} {l : Layer} (h : d.check = .ok l) :
    l.backgroundColor = d.background ∧ l.borderColor = d.border.map (·.color)
      ∧ l.textColor = d.writing.bind (·.color) := by
  have haccepted := isAccepted_of_check h
  refine ⟨color_of_field rfl haccepted.backgroundColor, color_of_field ?_ haccepted.borderColor,
    color_of_field ?_ haccepted.textColor⟩
  · rw [value?, Option.map_map]
    rfl
  · rw [value?, Option.map_bind]
    rfl

/-- A layer has the colours of its draft. -/
theorem colors_of_check {d : Draft} {l : Layer} (h : d.check = .ok l) : l.colors = d.colors := by
  obtain ⟨hbackground, hborder, htext⟩ := layerColors_of_check h
  rw [Layer.colors, colors, hbackground, hborder, htext]

end Draft

namespace Node

mutual

/-- The colours of a tree are those of its layers. The induction is on the tree and on the list of
its children at once. -/
theorem mem_colors {c : Text} (depth : Nat) : ∀ node : Node,
    c ∈ node.colors → ∃ found ∈ node.preorder depth, c ∈ found.2.colors
  | .mk l children, hc => by
    rw [preorder]
    rcases mem_colors_mk.mp hc with hc | hc
    · exact ⟨(depth, l), List.mem_cons_self, hc⟩
    · obtain ⟨found, hfound, hc⟩ := mem_colorsAll_preorder (depth + 1) children hc
      exact ⟨found, List.mem_cons_of_mem _ hfound, hc⟩

/-- The colours of the trees of a list are those of their layers. -/
theorem mem_colorsAll_preorder {c : Text} (depth : Nat) : ∀ nodes : List Node,
    c ∈ colorsAll nodes → ∃ found ∈ preorderAll depth nodes, c ∈ found.2.colors
  | [], hc => by cases hc
  | node :: rest, hc => by
    rw [preorderAll]
    rcases mem_colorsAll_cons.mp hc with hc | hc
    · obtain ⟨found, hfound, hc⟩ := mem_colors depth node hc
      exact ⟨found, List.mem_append_left _ hfound, hc⟩
    · obtain ⟨found, hfound, hc⟩ := mem_colorsAll_preorder depth rest hc
      exact ⟨found, List.mem_append_right _ hfound, hc⟩

end

end Node

namespace Extraction

/-- The colours of a layer that was read from fields are written ones, whatever the fields are:
reading them would have failed otherwise. -/
theorem isWritten_of_readFrom {source : Nat × Json.Fields} {found : Nat × Layer}
    (h : Drawing.ReadFrom source found) : ∀ c ∈ found.2.colors, Color.IsWritten c := by
  obtain ⟨-, place, origin, hlayer⟩ := h
  obtain ⟨draft, hdraft, hcheck⟩ := bind_eq_ok.mp hlayer
  rw [Draft.colors_of_check hcheck]
  exact Draft.isWritten_of_ofFields hdraft

/-- Every colour of an extraction is a colour text. -/
theorem isColorText_of_ofFile {file page : Json} {limit : Int} {t : Extraction}
    (h : ofFile file page limit = .ok t) : ∀ c ∈ Node.colorsAll t.roots, Color.IsColorText c := by
  obtain ⟨_, choice, _, -, -, htranslation⟩ := ofFile_isTranslation h
  intro c hc
  obtain ⟨found, hfound, hcolor⟩ := Node.mem_colorsAll_preorder 0 t.roots hc
  -- A layer of the tree was read from the layer at the same position of the drawing.
  obtain ⟨position, hposition, rfl⟩ := List.mem_iff_getElem.mp hfound
  have hread := htranslation.layers_eq.get
    (htranslation.layers_eq.length_eq ▸ hposition) hposition
  exact (isWritten_of_readFrom hread c hcolor).isColorText

end Extraction

end DesignCompiler
