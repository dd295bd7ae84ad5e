import DesignCompiler.Extraction

/-!
# `DesignCompiler.Proofs.Drawing.Faithful`: a drawing is what its fields say

A `Drawing` keeps the fields of each layer and, next to them, the layers that were read from those
fields. Nothing in the type ties the two together. `Drawing.Faithful` does, at every layer, and
`faithful_ofFields` says that the drawings of design files are like that. So what a design file has
under `children` can be told from the drawing, and the other way round.
-/

set_option autoImplicit false

namespace DesignCompiler.Drawing

mutual

/-- The layers inside each layer of a drawing are those that its fields hold. For a broken layer it
is the obstacle that the fields give. -/
def Faithful : Drawing → Prop
  | .sound fields children => childrenIn fields = .ok children ∧ FaithfulAll children
  | .broken fields obstacle => childrenIn fields = .error obstacle

/-- The same for the drawings of a list. -/
def FaithfulAll : List Drawing → Prop
  | [] => True
  | drawing :: rest => Faithful drawing ∧ FaithfulAll rest

end

/-- A layer with children is faithful if these are what its fields hold, and are faithful
themselves. -/
@[simp] theorem faithful_sound {fields : Json.Fields} {children : List Drawing} :
    (sound fields children).Faithful ↔ childrenIn fields = .ok children ∧ FaithfulAll children := by
  rw [Faithful]

/-- A broken layer is faithful if its fields give the same obstacle. -/
@[simp] theorem faithful_broken {fields : Json.Fields} {obstacle : Obstacle} :
    (broken fields obstacle).Faithful ↔ childrenIn fields = .error obstacle := by
  rw [Faithful]

/-- No drawings are faithful. -/
@[simp] theorem faithfulAll_nil : FaithfulAll [] := by rw [FaithfulAll]; trivial

/-- The first drawing and the others. -/
@[simp] theorem faithfulAll_cons {drawing : Drawing} {rest : List Drawing} :
    FaithfulAll (drawing :: rest) ↔ drawing.Faithful ∧ FaithfulAll rest := by
  rw [FaithfulAll]

/-- Each drawing of a list, as a statement about membership. -/
theorem faithfulAll_iff {drawings : List Drawing} :
    FaithfulAll drawings ↔ ∀ drawing ∈ drawings, drawing.Faithful := by
  induction drawings with
  | nil => simp
  | cons drawing rest ih => simp [ih]

/-- A faithful drawing has the layers inside that its fields hold. -/
theorem Faithful.childrenIn_fields {drawing : Drawing} (h : drawing.Faithful) :
    childrenIn drawing.fields = drawing.children := by
  cases drawing with
  | sound fields children => exact (faithful_sound.mp h).1
  | broken fields obstacle => exact faithful_broken.mp h

/-- A drawing of fields is faithful if what they hold as children is. -/
theorem faithful_ofChildren {fields : Json.Fields}
    (h : ∀ children, childrenIn fields = .ok children → FaithfulAll children) :
    (ofChildren fields (childrenIn fields)).Faithful := by
  cases hinside : childrenIn fields with
  | error obstacle => exact faithful_broken.mpr hinside
  | ok children => exact faithful_sound.mpr ⟨hinside, h children hinside⟩

mutual

/-- What some fields hold as children is faithful. The three statements follow the recursion of
`childrenIn` over the nested fields, values and lists. -/
theorem faithfulAll_childrenIn : ∀ (fields : Json.Fields) {children : List Drawing},
    childrenIn fields = .ok children → FaithfulAll children
  | [], children => by
    intro h
    rw [childrenIn, Except.ok.injEq] at h
    subst h
    exact faithfulAll_nil
  | (name, value) :: rest, children => by
    rw [childrenIn]
    split
    · exact faithfulAll_childrenOf value
    · exact faithfulAll_childrenIn rest

/-- What a value holds as children is faithful. -/
theorem faithfulAll_childrenOf : ∀ (value : Json) {children : List Drawing},
    childrenOf value = .ok children → FaithfulAll children
  | .null, children => by
    intro h
    rw [childrenOf, Except.ok.injEq] at h
    subst h
    exact faithfulAll_nil
  | .list items, children => by
    rw [childrenOf]
    exact faithfulAll_childrenFrom 0 items
  | .bool _, _ | .int _, _ | .double _, _ | .text _, _ | .object _, _ => by simp [childrenOf]

/-- What the items of a list are as children is faithful. -/
theorem faithfulAll_childrenFrom (position : Nat) : ∀ (items : List Json) {children : List Drawing},
    childrenFrom position items = .ok children → FaithfulAll children
  | [], children => by
    intro h
    rw [childrenFrom, Except.ok.injEq] at h
    subst h
    exact faithfulAll_nil
  | .object fields :: rest, children => by
    rw [childrenFrom]
    -- The children are there only if those behind this one are.
    cases hrest : childrenFrom (position + 1) rest with
    | error obstacle => exact nofun
    | ok others =>
      intro h
      cases h
      exact faithfulAll_cons.mpr
        ⟨faithful_ofChildren fun _ => faithfulAll_childrenIn fields,
          faithfulAll_childrenFrom (position + 1) rest hrest⟩
  | .null :: _, _ | .bool _ :: _, _ | .int _ :: _, _ | .double _ :: _, _ | .text _ :: _, _
  | .list _ :: _, _ => by simp [childrenFrom]

end

/-- The drawing of an object is faithful, whatever the object holds. -/
theorem faithful_ofFields (fields : Json.Fields) : (ofFields fields).Faithful :=
  faithful_ofChildren fun _ => faithfulAll_childrenIn fields

/-- The document root of a file is faithful. The statements about extractions get their hypothesis
from here. -/
theorem faithful_of_ofFile {file : Json} {root : Drawing} (h : ofFile file = .ok root) :
    root.Faithful := by
  cases file with
  | object fields =>
    rw [ofFile] at h
    split at h
    · cases h
      exact faithful_ofFields _
    · cases h
  | null | bool | int | double | text | list => cases h

/-- The layers among some fields are those of the value under the name for children. Reading goes
through the fields once, without looking the name up first. -/
theorem childrenIn_eq (fields : Json.Fields) :
    childrenIn fields = childrenOf (Json.fieldOrNull fields childrenName) := by
  induction fields with
  | nil => rw [childrenIn, Json.fieldOrNull, Json.field?, List.find?_nil, Option.map_none,
      Option.getD_none, childrenOf]
  | cons entry rest ih =>
    obtain ⟨name, value⟩ := entry
    rw [childrenIn]
    split
    · next hname => simp [Json.fieldOrNull, Json.field?, hname]
    · next hname => rw [ih]; simp [Json.fieldOrNull, Json.field?, hname]

end DesignCompiler.Drawing
