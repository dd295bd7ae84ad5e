import DesignCompiler.Render.Compose
import DesignCompiler.Render.React
import DesignCompiler.Render.SwiftUI

/-!
# `DesignCompiler.Render.Tree`: layout trees as code

One walk for all targets. The row of the primitive table decides how a node is drawn; a shape or
image with children is drawn as a vertical frame, so that the children are kept. A text has no
children to draw: what stands inside it is left out.

Drawing fails only for a text whose font weight is a double without a whole number beside it.
-/

set_option autoImplicit false

namespace DesignCompiler

/-- The vocabulary of a platform. -/
def Platform.target : Platform → Target
  | .swiftUI => SwiftUI.target
  | .compose => Compose.target
  | .react => React.target

/-- The content of a text without one. -/
def sampleText : Text := "Sample Text".toList

/-- The row of the primitive table that draws a layer, which has children or not. A shape or image
with children becomes a container, a text does not; what stands inside a text is therefore not
drawn. -/
def Layer.kind (l : Layer) (hasChildren : Bool) : Kind :=
  let kind := Kind.resolve l.type (l.layout = some .horizontal)
  if hasChildren && (kind.role = .shape || kind.role = .image) then Kind.fallback else kind

/-- The row of the primitive table that draws a node. -/
def Node.kind (node : Node) : Kind := node.layer.kind (!node.children.isEmpty)

mutual

/-- A tree as code of a platform. The attributes are spelled before the children are drawn, so a
fault of a layer comes before those inside it. -/
def Node.render (platform : Platform) : Node → Except Fault Block
  | .mk layer children => do
    let target := platform.target
    let kind := layer.kind (!children.isEmpty)
    let attributes ← Attribute.spell platform (Attribute.collect layer kind.role (some kind.axis))
    let primitive := kind.primitive? platform
    match kind.role with
    | .text =>
      return target.text (primitive.getD []) ((Attribute.filled? layer.text).getD sampleText)
        attributes
    | .shape => return target.shape (primitive.getD []) attributes
    | .image => return target.image (primitive.getD []) layer.name attributes
    | .container | .custom =>
      let pieces ← Node.renderAll platform children
      match primitive with
      | some name => return target.container name kind.axis attributes pieces
      | none => return target.custom layer kind.axis attributes pieces

/-- The trees of a list as code of a platform. -/
def Node.renderAll (platform : Platform) : List Node → Except Fault (List Block)
  | [] => .ok []
  | node :: rest => do
    let piece ← Node.render platform node
    let pieces ← Node.renderAll platform rest
    return piece :: pieces

end

/-- A tree as text of a platform at a depth. The depth enters only after the piece is complete;
`Node.renderFrom_eq_renderAt` proves this equal to the renderers that take it along. -/
def Node.renderAt (platform : Platform) (depth : Int) (node : Node) : Except Fault Text :=
  (Node.render platform node).map (Block.layOut platform.target.unit depth)

end DesignCompiler
