import DesignCompiler.Layout.Encoder
import DesignCompiler.Proofs.Schema.Checked

/-!
# `DesignCompiler.Proofs.Layout.Layer`: which layers are accepted

A layer is accepted if each of its fields is, and then its fields are what was accepted
(`Layer.check_eq_accepted`). Whoever gives a field as it would be written gets it back; here this is
said of the single values that a layer holds.
-/

set_option autoImplicit false

namespace DesignCompiler

open Schema

/-- A font weight comes back from what is written of it: each of the three forms is read as itself.
-/
theorem FontWeight.restores : Restores FontWeight.check FontWeight.toJson where
  accepted weight := by cases weight <;> rfl
  ne_null weight := by cases weight <;> nofun

/-- A direction comes back from its word. -/
theorem Direction.restores : Restores Direction.check fun direction => .text direction.token where
  accepted direction := by cases direction <;> rfl
  ne_null direction := nofun

/-- A padding comes back from the object of its sides, which are all written. -/
theorem Padding.restores : Restores Padding.check Padding.toJson where
  accepted padding := by rfl
  ne_null padding := nofun

/-- Every field of a layer is what was accepted for it. The clauses are named after the fields, so a
proof about one field takes its clause and leaves the others alone. -/
structure Layer.IsAccepted (given : Given) (l : Layer) : Prop where
  id : field [] checkText (given .id) = .accepted l.id
  type : field [] checkText (given .type) = .accepted l.type
  name : field [] checkText (given .name) = .accepted l.name
  x : field (.zero false) checkNumber (given .x) = .accepted l.x
  y : field (.zero false) checkNumber (given .y) = .accepted l.y
  width : field (.zero false) checkNumber (given .width) = .accepted l.width
  height : field (.zero false) checkNumber (given .height) = .accepted l.height
  backgroundColor :
    field none (nullable checkText) (given .backgroundColor) = .accepted l.backgroundColor
  borderColor : field none (nullable checkText) (given .borderColor) = .accepted l.borderColor
  borderWidth : field none (nullable checkNumber) (given .borderWidth) = .accepted l.borderWidth
  borderRadius :
    field none (nullable checkNumber) (given .borderRadius) = .accepted l.borderRadius
  text : field none (nullable checkText) (given .text) = .accepted l.text
  textColor : field none (nullable checkText) (given .textColor) = .accepted l.textColor
  fontSize : field none (nullable checkNumber) (given .fontSize) = .accepted l.fontSize
  fontWeight :
    field none (nullable FontWeight.check) (given .fontWeight) = .accepted l.fontWeight
  layout : field none (nullable Direction.check) (given .layout) = .accepted l.layout
  spacing : field none (nullable checkNumber) (given .spacing) = .accepted l.spacing
  padding : field none (nullable Padding.check) (given .padding) = .accepted l.padding

/-- A layer is accepted if each of its fields is, and only then. It is the one place where the chain
of checks is taken apart; later proofs look at `Layer.IsAccepted`. -/
theorem Layer.check_eq_accepted {given : Given} {l : Layer} :
    Layer.check given = .accepted l ↔ l.IsAccepted given := by
  constructor
  · intro h
    simp only [Layer.check, seq_eq_accepted, map_eq_accepted] at h
    -- The fields come off from the last to the first.
    obtain ⟨_, h, padding, hpadding, rfl⟩ := h
    obtain ⟨_, h, spacing, hspacing, rfl⟩ := h
    obtain ⟨_, h, layout, hlayout, rfl⟩ := h
    obtain ⟨_, h, fontWeight, hfontWeight, rfl⟩ := h
    obtain ⟨_, h, fontSize, hfontSize, rfl⟩ := h
    obtain ⟨_, h, textColor, htextColor, rfl⟩ := h
    obtain ⟨_, h, text, htext, rfl⟩ := h
    obtain ⟨_, h, borderRadius, hborderRadius, rfl⟩ := h
    obtain ⟨_, h, borderWidth, hborderWidth, rfl⟩ := h
    obtain ⟨_, h, borderColor, hborderColor, rfl⟩ := h
    obtain ⟨_, h, backgroundColor, hbackgroundColor, rfl⟩ := h
    obtain ⟨_, h, height, hheight, rfl⟩ := h
    obtain ⟨_, h, width, hwidth, rfl⟩ := h
    obtain ⟨_, h, y, hy, rfl⟩ := h
    obtain ⟨_, h, x, hx, rfl⟩ := h
    obtain ⟨_, h, name, hname, rfl⟩ := h
    obtain ⟨_, ⟨id, hid, rfl⟩, type, htype, rfl⟩ := h
    exact ⟨hid, htype, hname, hx, hy, hwidth, hheight, hbackgroundColor, hborderColor,
      hborderWidth, hborderRadius, htext, htextColor, hfontSize, hfontWeight, hlayout, hspacing,
      hpadding⟩
  · intro h
    rw [Layer.check, h.id, h.type, h.name, h.x, h.y, h.width, h.height, h.backgroundColor,
      h.borderColor, h.borderWidth, h.borderRadius, h.text, h.textColor, h.fontSize, h.fontWeight,
      h.layout, h.spacing, h.padding]
    rfl

end DesignCompiler
