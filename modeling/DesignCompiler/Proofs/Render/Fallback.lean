import DesignCompiler.Proofs.Outcome
import DesignCompiler.Render.Tree

/-!
# `DesignCompiler.Proofs.Render.Fallback`: what is drawn as a frame

Two sorts of nodes have no row of their own in the table of primitives: those of an unknown type,
and shapes and images with nodes inside. Both are drawn by the row `Kind.fallback`
(`Layer.kind_of_isFallback`), which is the vertical frame.

So a node like that can be turned into a frame and nobody sees it in the code. The frame has to be
upright, though: the fallback is vertical whatever its layout says, and a frame is turned by a
horizontal one. `Node.renderAt_upright` is the statement for whole trees, faults included;
`tilted_ne` shows a node that is drawn in another way once it is a frame that keeps its layout.
-/

set_option autoImplicit false

namespace DesignCompiler

namespace Layer

/-- Whether a layer that has children or not has no row of its own: its type is unknown, or it has
children and its type is that of a shape or image. -/
def isFallback (l : Layer) (hasChildren : Bool) : Bool :=
  let role := (Kind.resolve l.type (l.layout = some .horizontal)).role
  (Kind.ofName? (Text.upper l.type)).isNone || hasChildren && (role = .shape || role = .image)

/-- A layer of a type, with nothing else to say. The examples of this and other modules are put
together from it. -/
def plain (type : Text) : Layer :=
  { id := [], type, name := [], x := .zero false, y := .zero false, width := .zero false,
    height := .zero false, backgroundColor := none, borderColor := none, borderWidth := none,
    borderRadius := none, text := none, textColor := none, fontSize := none, fontWeight := none,
    layout := none, spacing := none, padding := none }

/-- The layer as a frame, everything else as it was. -/
def asFrame (l : Layer) : Layer := { l with type := Kind.frame.name }

/-- The layer as a frame without a horizontal layout. With one, the frame would be drawn as a row.
-/
def asUprightFrame (l : Layer) : Layer :=
  { l.asFrame with layout := if l.layout = some .horizontal then none else l.layout }

/-- A layer without a row of its own is drawn by the row of unknown types, whatever its layout says.
-/
theorem kind_of_isFallback {l : Layer} {hasChildren : Bool} (h : l.isFallback hasChildren = true) :
    l.kind hasChildren = .fallback := by
  rw [isFallback, Bool.or_eq_true] at h
  rw [kind]
  rcases h with hunknown | hleaf
  · have hresolve : Kind.resolve l.type (l.layout = some .horizontal) = .fallback := by
      rw [Kind.resolve, Option.isNone_iff_eq_none.mp hunknown]
    rw [hresolve, ite_self]
  · exact if_pos hleaf

/-- An upright frame is drawn by the row of unknown types, with children or without. Frames have a
row of their own, which is the same. -/
theorem kind_asUprightFrame (l : Layer) (hasChildren : Bool) :
    l.asUprightFrame.kind hasChildren = .fallback := by
  have hvertical : l.asUprightFrame.layout ≠ some .horizontal := by
    simp only [asUprightFrame]
    split
    · exact nofun
    · assumption
  have hname : Kind.ofName? (Text.upper l.asUprightFrame.type) = some .frame := by
    show Kind.ofName? (Text.upper Kind.frame.name) = some .frame
    decide +kernel
  have hresolve : Kind.resolve l.asUprightFrame.type (l.asUprightFrame.layout = some .horizontal)
      = .frame := by
    simp [Kind.resolve, hname, hvertical]
  rw [kind, hresolve]
  cases hasChildren <;> rfl

end Layer

namespace Node

mutual

/-- A tree with another layer for each node without a row of its own. Whether a node has children is
asked of the tree as it was; the new one has as many. -/
def mapFallbacks (f : Layer → Layer) : Node → Node
  | .mk l children =>
    .mk (if l.isFallback (!children.isEmpty) then f l else l) (mapFallbacksAll f children)

/-- The trees of a list with another layer for each node without a row of its own. -/
def mapFallbacksAll (f : Layer → Layer) : List Node → List Node
  | [] => []
  | node :: rest => mapFallbacks f node :: mapFallbacksAll f rest

end

/-- There are as many trees as before. -/
@[simp] theorem isEmpty_mapFallbacksAll (f : Layer → Layer) (nodes : List Node) :
    (mapFallbacksAll f nodes).isEmpty = nodes.isEmpty := by
  cases nodes <;> simp [mapFallbacksAll]

/-- A node that is drawn by the row of unknown types is a vertical container, with its attributes
spelled first and then its children drawn. -/
theorem render_of_kind_fallback {platform : Platform} {l : Layer} {children : List Node}
    (h : l.kind (!children.isEmpty) = .fallback) :
    Node.render platform (.mk l children) = (do
      let attributes ← Attribute.spell platform (Attribute.collect l .container (some .vertical))
      let pieces ← renderAll platform children
      return platform.target.container ((Kind.fallback.primitive? platform).getD []) .vertical
        attributes pieces) := by
  rw [Node.render]
  simp only [h]
  cases platform <;> rfl

mutual

/-- Making upright frames of the nodes without a row of their own leaves the code of a tree as it
is, faults included, since both sides are the same computation. -/
theorem render_upright (platform : Platform) : ∀ node : Node,
    (node.mapFallbacks Layer.asUprightFrame).render platform = node.render platform
  | .mk l children => by
    have hchildren := renderAll_upright platform children
    have hempty := isEmpty_mapFallbacksAll Layer.asUprightFrame children
    rw [mapFallbacks]
    split
    · next hfallback =>
      -- Both layers have the same attributes, for none of them comes from type or layout.
      have hupright := l.kind_asUprightFrame
        (!(mapFallbacksAll Layer.asUprightFrame children).isEmpty)
      rw [render_of_kind_fallback (Layer.kind_of_isFallback hfallback),
        render_of_kind_fallback hupright, hchildren]
      rfl
    · rw [Node.render, Node.render, hchildren, hempty]

/-- The same for the trees of a list. -/
theorem renderAll_upright (platform : Platform) : ∀ nodes : List Node,
    renderAll platform (mapFallbacksAll Layer.asUprightFrame nodes) = renderAll platform nodes
  | [] => by rw [mapFallbacksAll]
  | node :: rest => by
    rw [mapFallbacksAll, renderAll, renderAll, render_upright platform node,
      renderAll_upright platform rest]

end

/-- A tree is drawn in the same way once every node of unknown type, and every shape or image with
nodes inside, is a frame without a horizontal layout. -/
theorem renderAt_upright (platform : Platform) (depth : Int) (node : Node) :
    (node.mapFallbacks Layer.asUprightFrame).renderAt platform depth
      = node.renderAt platform depth := by
  rw [renderAt, renderAt, render_upright]

/-- A node of unknown type with a horizontal layout. -/
def tilted : Node :=
  .mk { Layer.plain "UNKNOWN_SHAPE".toList with layout := some .horizontal } []

/-- As a frame that keeps its layout it is a row of things, and before it was a column. -/
theorem tilted_ne :
    (tilted.mapFallbacks Layer.asFrame).renderAt .swiftUI 0 ≠ tilted.renderAt .swiftUI 0 := by
  have hcode : ((tilted.mapFallbacks Layer.asFrame).renderAt .swiftUI 0).toOption
      = some "HStack(alignment: .top) \x7b\x7d".toList := by decide +kernel
  have hplain : (tilted.renderAt .swiftUI 0).toOption
      = some "VStack(alignment: .leading) \x7b\x7d".toList := by decide +kernel
  intro h
  rw [h, hplain] at hcode
  exact absurd hcode (by decide)

end Node

end DesignCompiler
