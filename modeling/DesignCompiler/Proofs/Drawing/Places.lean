import DesignCompiler.Proofs.Drawing.Faithful
import DesignCompiler.Proofs.Drawing.Pruning
import DesignCompiler.Proofs.Outcome

/-!
# `DesignCompiler.Proofs.Drawing.Places`: where the layers of a drawing are

`Drawing.placed` lists the layers of a drawing with their places, in the order in which a walk
visits them (`Drawing.map_snd_placed`). The positions of a place are a way through the fields of a
design file: `Drawing.layerAt?` goes it, from list of children to list of children. In a faithful
drawing every place leads back to the layer that it was given (`Drawing.layerAt?_of_mem_placed`).
-/

set_option autoImplicit false

namespace DesignCompiler.Drawing

mutual

/-- The layers of a drawing with their places, each before those inside it; the outermost one has
the given place. A fault tells the place of its layer, so the flaws of a drawing are listed along
this. -/
def placed (place : Place) : Drawing → List (Place × Json.Fields)
  | .sound fields children => (place, fields) :: placedAll place 0 children
  | .broken fields _ => [(place, fields)]

/-- The layers of the children of the layer at a place, the first of which has the given
position. -/
def placedAll (place : Place) (position : Nat) : List Drawing → List (Place × Json.Fields)
  | [] => []
  | drawing :: rest => placed (place.child position) drawing ++ placedAll place (position + 1) rest

end

mutual

/-- The layers with their places are those with their depths, in the same order. -/
theorem map_snd_placed (place : Place) (depth : Nat) : ∀ drawing : Drawing,
    (placed place drawing).map Prod.snd = (drawing.preorder depth).map Prod.snd
  | .sound fields children => by
    rw [placed, preorder, List.map_cons, List.map_cons, map_snd_placedAll place 0 _ children]
  | .broken fields obstacle => by rw [placed, preorder, List.map_singleton, List.map_singleton]

/-- The same for a list of drawings. -/
theorem map_snd_placedAll (place : Place) (position depth : Nat) : ∀ drawings : List Drawing,
    (placedAll place position drawings).map Prod.snd = (preorderAll depth drawings).map Prod.snd
  | [] => by rw [placedAll, preorderAll, List.map_nil, List.map_nil]
  | drawing :: rest => by
    rw [placedAll, preorderAll, List.map_append, List.map_append, map_snd_placed _ depth drawing,
      map_snd_placedAll place (position + 1) depth rest]

end

/-- The list of the layers is as long as the drawing has layers. -/
theorem length_placed (place : Place) (drawing : Drawing) :
    (placed place drawing).length = drawing.size := by
  have hlength := congrArg List.length (map_snd_placed place 0 drawing)
  rwa [List.length_map, List.length_map, length_preorder] at hlength

/-! ### The way to a layer -/

/-- The fields of the child at a position, if there is an object. It looks at the file itself and
not at a drawing. -/
def childAt? (fields : Json.Fields) (position : Nat) : Option Json.Fields :=
  match Json.fieldOrNull fields childrenName with
  | .list items =>
    match items[position]? with
    | some (.object inside) => some inside
    | _ => none
  | _ => none

/-- The fields that the child positions lead to. The path in a fault is a list of such positions. -/
def layerAt? (fields : Json.Fields) : List Nat → Option Json.Fields
  | [] => some fields
  | position :: rest => (childAt? fields position).bind fun inside => layerAt? inside rest

/-- A way in two parts is gone one after the other. -/
theorem layerAt?_append (fields : Json.Fields) (front back : List Nat) :
    layerAt? fields (front ++ back)
      = (layerAt? fields front).bind fun inside => layerAt? inside back := by
  induction front generalizing fields with
  | nil => rfl
  | cons position rest ih =>
    rw [List.cons_append, layerAt?, layerAt?, Option.bind_assoc]
    exact congrArg _ (funext ih)

/-- Children that can be read are objects, one after the other. So the position in the list of
children is that in the file. -/
theorem eq_map_object_of_childrenFrom {position : Nat} {items : List Json}
    {children : List Drawing} (h : childrenFrom position items = .ok children) :
    items = children.map fun child => .object child.fields := by
  induction items generalizing position children with
  | nil =>
    rw [childrenFrom, Except.ok.injEq] at h
    subst h
    rfl
  | cons item rest ih =>
    cases item with
    | object inside =>
      rw [childrenFrom] at h
      obtain ⟨others, hothers, rfl⟩ := Outcome.map_eq_ok.mp h
      rw [List.map_cons, fields_ofChildren, ← ih hothers]
    | null | bool | int | double | text | list => simp [childrenFrom] at h

/-- The fields at a position are those of the child that was read from there. -/
theorem childAt?_eq {fields : Json.Fields} {children : List Drawing}
    (h : childrenIn fields = .ok children) {position : Nat} {child : Drawing}
    (hchild : children[position]? = some child) : childAt? fields position = some child.fields := by
  rw [childrenIn_eq] at h
  rw [childAt?]
  cases hvalue : Json.fieldOrNull fields childrenName with
  | null =>
    rw [hvalue, childrenOf, Except.ok.injEq] at h
    subst h
    cases hchild
  | list items =>
    rw [hvalue, childrenOf] at h
    simp [eq_map_object_of_childrenFrom h, hchild]
  | bool | int | double | text | object => simp [hvalue, childrenOf] at h

mutual

/-- The place of a layer leads to it, from the place of the whole drawing on. `base` is the way to
the drawing, and `way` the one inside it. -/
theorem layerAt?_of_mem_placed (base : List Nat) (layer : Place × Json.Fields) :
    ∀ drawing : Drawing, drawing.Faithful → layer ∈ placed (.layer base) drawing →
      ∃ way, layer.1 = .layer (base ++ way) ∧ layerAt? drawing.fields way = some layer.2
  | .sound fields children => by
    intro hfaithful hmem
    rw [faithful_sound] at hfaithful
    rw [placed, List.mem_cons] at hmem
    rcases hmem with rfl | hinside
    · exact ⟨[], by rw [List.append_nil], rfl⟩
    · exact layerAt?_of_mem_placedAll base 0 fields layer children hfaithful.2
        (fun position child hchild => by
          rw [Nat.zero_add]
          exact childAt?_eq hfaithful.1 hchild) hinside
  | .broken fields obstacle => by
    intro _ hmem
    rw [placed, List.mem_singleton] at hmem
    subst hmem
    exact ⟨[], by rw [List.append_nil], rfl⟩

/-- The same for the children of some fields from a position on. -/
theorem layerAt?_of_mem_placedAll (base : List Nat) (position : Nat) (fields : Json.Fields)
    (layer : Place × Json.Fields) : ∀ drawings : List Drawing, FaithfulAll drawings →
      (∀ (offset : Nat) (child : Drawing), drawings[offset]? = some child →
        childAt? fields (position + offset) = some child.fields) →
      layer ∈ placedAll (.layer base) position drawings →
      ∃ way, layer.1 = .layer (base ++ way) ∧ layerAt? fields way = some layer.2
  | [] => by
    intro _ _ hmem
    cases hmem
  | drawing :: rest => by
    intro hfaithful hchildren hmem
    rw [faithfulAll_cons] at hfaithful
    rw [placedAll, List.mem_append] at hmem
    rcases hmem with hfirst | hrest
    · obtain ⟨way, hplace, hway⟩ :=
        layerAt?_of_mem_placed (base ++ [position]) layer drawing hfaithful.1 hfirst
      -- The way goes through this child first.
      refine ⟨position :: way, by rw [hplace, List.append_assoc]; rfl, ?_⟩
      have hchild : childAt? fields position = some drawing.fields := hchildren 0 drawing rfl
      rw [layerAt?, hchild]
      exact hway
    · refine layerAt?_of_mem_placedAll base (position + 1) fields layer rest hfaithful.2 ?_ hrest
      intro offset child hchild
      rw [Nat.add_assoc, Nat.add_comm 1]
      exact hchildren (offset + 1) child hchild

end

end DesignCompiler.Drawing
