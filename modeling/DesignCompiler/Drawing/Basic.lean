import DesignCompiler.Fault
import DesignCompiler.Layout.Decoder

/-!
# `DesignCompiler.Drawing.Basic`: the layers of a design file

A `Drawing` is a layer as a design file holds it, an object of unchecked fields, with the layers
inside it. What stands under `children` may be no list of objects; such a layer is `broken`. That is
no fault yet: a layer that nobody visits may be as broken as it likes.

`Drawing.ofFields` sorts the layers of a whole file in this way. It never fails.
-/

set_option autoImplicit false

namespace DesignCompiler

/-- Why the layers inside a layer cannot be read. It is found before any walk and told only if the
layer is visited. -/
inductive Obstacle
  | notList (found : Json.Kind)
  /-- The first item of the list that is no object. -/
  | notObject (position : Nat) (found : Json.Kind)
  deriving DecidableEq

/-- A layer of a design file with the layers inside it. The fields stay unchecked; what a broken
layer holds inside is not kept. -/
inductive Drawing
  | sound (fields : Json.Fields) (children : List Drawing)
  | broken (fields : Json.Fields) (obstacle : Obstacle)

namespace Drawing

/-- The fields of the outermost layer, the children included as they stand in the file. -/
def fields : Drawing → Json.Fields
  | .sound fields _ => fields
  | .broken fields _ => fields

/-- The layers inside the outermost one, if they can be read. -/
def children : Drawing → Except Obstacle (List Drawing)
  | .sound _ children => .ok children
  | .broken _ obstacle => .error obstacle

/-- The drawing of an object whose children have been read, or cannot be. -/
def ofChildren (fields : Json.Fields) : Except Obstacle (List Drawing) → Drawing
  | .ok children => .sound fields children
  | .error obstacle => .broken fields obstacle

mutual

/-- The layers under the name for children among some fields. -/
def childrenIn : Json.Fields → Except Obstacle (List Drawing)
  | [] => .ok []
  | (name, value) :: rest => if name = childrenName then childrenOf value else childrenIn rest

/-- The layers that a value holds: none for null, else those of a list. -/
def childrenOf : Json → Except Obstacle (List Drawing)
  | .null => .ok []
  | .list items => childrenFrom 0 items
  | value => .error (.notList value.kind)

/-- The layers of a list whose first item has the given position. The position is counted for the
obstacle alone: it says which item is no object. -/
def childrenFrom (position : Nat) : List Json → Except Obstacle (List Drawing)
  | [] => .ok []
  | item :: rest =>
    match item with
    | .object fields =>
      let child := ofChildren fields (childrenIn fields)
      (childrenFrom (position + 1) rest).map (child :: ·)
    | value => .error (.notObject position value.kind)

end

/-- The drawing of an object. It never fails, since a wrong structure becomes part of the drawing.
-/
def ofFields (fields : Json.Fields) : Drawing := ofChildren fields (childrenIn fields)

/-- A layer keeps its fields, whether its children could be read or not. -/
@[simp] theorem fields_ofChildren (fs : Json.Fields) (cs : Except Obstacle (List Drawing)) :
    (ofChildren fs cs).fields = fs := by
  cases cs <;> rfl

/-- A layer has the children, or the obstacle, that it was made from. With `fields_ofChildren` the
two constructors need no case split in later proofs. -/
@[simp] theorem children_ofChildren (fs : Json.Fields) (cs : Except Obstacle (List Drawing)) :
    (ofChildren fs cs).children = cs := by
  cases cs <;> rfl

/-- The fault for a layer of the wrong structure at a place. -/
def malformed {α : Type} (fields : Json.Fields) (place : Place) (problem : Malformation) :
    Except Fault α :=
  .error (.malformed problem place (Json.fieldOrNull fields "id".toList))

/-- The fault for an obstacle met at the layer of a place. A child that is no object is told at the
child's place, with the identifier of the layer around it, since the child itself has none. -/
def obstruct {α : Type} (fields : Json.Fields) (place : Place) : Obstacle → Except Fault α
  | .notList found => malformed fields place (.childrenNotList found)
  | .notObject position found => malformed fields (place.child position) (.childNotObject found)

/-- The layers inside a layer that is visited at a place. -/
def visitChildren (drawing : Drawing) (place : Place) : Except Fault (List Drawing) :=
  match drawing.children with
  | .ok children => .ok children
  | .error obstacle => obstruct drawing.fields place obstacle

/-- The fields of an object under a name; nothing there means no fields, and so does null. Any other
value that is no object is malformed. -/
def objectAt (fields : Json.Fields) (place : Place) (name : Text) : Except Fault Json.Fields :=
  match Json.fieldOrNull fields name with
  | .null => .ok []
  | .object inside => .ok inside
  | value => malformed fields place (.notObject name value.kind)

end Drawing

end DesignCompiler
