import DesignCompiler.FontWeight
import DesignCompiler.Primitive

/-!
# `DesignCompiler.Layout.Node`: layout trees

The layout tree is what is extracted from a design and what code is generated from. A `Node` is a
`Layer`, the fields of one node, with the nodes inside it. Positions are relative to the parent's
origin, colours are written as text, and all numbers but the font weight are doubles.

`Node.levels` counts the levels of a tree, where a padding is one more level inside its node. A tree
of more than `Node.levelLimit` levels is not written.
-/

set_option autoImplicit false

namespace DesignCompiler

/-- The direction of an automatic layout. -/
inductive Direction
  | horizontal
  | vertical
  deriving DecidableEq

/-- The word for a direction. -/
def Direction.token : Direction → Text
  | .horizontal => "horizontal".toList
  | .vertical => "vertical".toList

/-- The space kept free along the four sides. The sides may be anything, negative or no number; what
is written of them is decided by each target. -/
structure Padding where
  top : Binary64
  right : Binary64
  bottom : Binary64
  left : Binary64
  deriving DecidableEq

/-- The fields of a node, without its children. Everything that a target draws of a node is a
function of its layer, save what the children add and whether there are any. -/
structure Layer where
  id : Text
  type : Text
  name : Text
  x : Binary64
  y : Binary64
  width : Binary64
  height : Binary64
  backgroundColor : Option Text
  borderColor : Option Text
  borderWidth : Option Binary64
  borderRadius : Option Binary64
  text : Option Text
  textColor : Option Text
  fontSize : Option Binary64
  fontWeight : Option FontWeight
  layout : Option Direction
  spacing : Option Binary64
  padding : Option Padding
  deriving DecidableEq

/-- A layout tree. It is a list of nodes under a layer, so a proof about all trees is an induction
on a tree and on a list of trees at once. -/
inductive Node
  | mk (layer : Layer) (children : List Node)

namespace Node

/-- How many levels of a tree are read and written. -/
def levelLimit : Nat := 255

/-- The fields of the root. -/
def layer : Node → Layer
  | .mk layer _ => layer

/-- The nodes inside the root. -/
def children : Node → List Node
  | .mk _ children => children

/-- The layer of a node that was just put together. -/
@[simp] theorem layer_mk (l : Layer) (cs : List Node) : (Node.mk l cs).layer = l := rfl

/-- The children of a node that was just put together. -/
@[simp] theorem children_mk (l : Layer) (cs : List Node) : (Node.mk l cs).children = cs := rfl

mutual

/-- The layers of a tree with their depths, each before those inside it; the root has the given
depth. It is the order in which a drawing is walked. -/
def preorder (depth : Nat) : Node → List (Nat × Layer)
  | .mk layer children => (depth, layer) :: preorderAll (depth + 1) children

/-- The layers of the trees of a list with their depths. -/
def preorderAll (depth : Nat) : List Node → List (Nat × Layer)
  | [] => []
  | node :: rest => preorder depth node ++ preorderAll depth rest

end

mutual

/-- How many levels a tree has: nodes inside one another, and a padding in the innermost. -/
def levels : Node → Nat
  | .mk layer children => 1 + max layer.padding.toList.length (levelsAll children)

/-- How many levels the deepest tree of a list has. -/
def levelsAll : List Node → Nat
  | [] => 0
  | node :: rest => max (levels node) (levelsAll rest)

end

end Node

/-! ### Equality -/

mutual

/-- Whether two trees are equal. The instance is written out because none is derived for a type that
holds lists of itself. -/
def Node.decEq : (a b : Node) → Decidable (a = b)
  | .mk a as, .mk b bs =>
    if hl : a = b then
      match Node.decEqAll as bs with
      | isTrue hc => isTrue (by rw [hl, hc])
      | isFalse hc => isFalse fun h => hc (Node.mk.inj h).2
    else isFalse fun h => hl (Node.mk.inj h).1

/-- Whether two lists of trees are equal. -/
def Node.decEqAll : (as bs : List Node) → Decidable (as = bs)
  | [], [] => isTrue rfl
  | [], _ :: _ => isFalse nofun
  | _ :: _, [] => isFalse nofun
  | a :: as, b :: bs =>
    match Node.decEq a b with
    | isTrue ha =>
      match Node.decEqAll as bs with
      | isTrue hs => isTrue (by rw [ha, hs])
      | isFalse hs => isFalse fun h => hs (List.cons.inj h).2
    | isFalse ha => isFalse fun h => ha (List.cons.inj h).1

end

/-- Equality of trees is decided layer by layer. -/
instance : DecidableEq Node := Node.decEq

end DesignCompiler
