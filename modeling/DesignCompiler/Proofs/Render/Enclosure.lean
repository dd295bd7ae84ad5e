import DesignCompiler.Proofs.Render.Depth
import DesignCompiler.Proofs.Render.Fallback
import Mathlib.Data.List.Basic

/-!
# `DesignCompiler.Proofs.Render.Enclosure`: the code of the nodes inside a node

What a node is drawn with stands in its code as it is: the pieces of the children follow one another
in order, one level deeper, with nothing between them (`Layer.encloses_draw`). So the code of a node
holds the code of its children as whole lines (`Node.exists_children_code`), and by induction the
code of every node further in (`Node.Draws.holdsLines`).

The way in may not pass a text. A shape or an image with nodes inside is drawn as a container so
that they are kept; a text is not, and what stands inside it has no code (`Node.caption_drops`).
-/

set_option autoImplicit false

namespace DesignCompiler

open Text

/-- The parts stand in the text as whole lines, one right after the other. A part that stands in the
middle of a line, or with something between its lines, is not held. -/
def Text.HoldsLines (t : Text) (parts : List Text) : Prop := parts.flatMap lines <:+: lines t

/-- Decided by cutting the text into lines and looking for the parts among them. -/
instance (t : Text) (parts : List Text) : Decidable (t.HoldsLines parts) :=
  inferInstanceAs (Decidable (parts.flatMap lines <:+: lines t))

namespace Text.HoldsLines

/-- A text holds itself. -/
theorem refl (t : Text) : t.HoldsLines [t] := by simp [HoldsLines]

/-- A text holds no parts at all. -/
theorem nil (t : Text) : t.HoldsLines [] := List.nil_infix

/-- What is held by a part is held by the text. This is the step from one level of a tree to the
next. -/
theorem trans {t u : Text} {parts : List Text} (ht : t.HoldsLines [u]) (hu : u.HoldsLines parts) :
    t.HoldsLines parts := by
  rw [HoldsLines, List.flatMap_singleton] at ht
  exact List.IsInfix.trans hu ht

/-- Each of several parts is a part. -/
theorem of_mem {t u : Text} {parts : List Text} (h : t.HoldsLines parts) (hu : u ∈ parts) :
    t.HoldsLines [u] := by
  obtain ⟨before, after, rfl⟩ := List.append_of_mem hu
  rw [HoldsLines, List.flatMap_append, List.flatMap_cons, ← List.append_assoc] at h
  rw [HoldsLines, List.flatMap_singleton]
  exact List.IsInfix.trans (List.infix_append _ _ _) h

end Text.HoldsLines

namespace Block

variable {unit : Text} {block : Block} {pieces : List Block}

/-- The pieces stand in the piece of code one level deeper, one right after the other. It is
`Text.HoldsLines` before the lines are laid out. -/
def Encloses (block : Block) (pieces : List Block) : Prop := innerAll pieces <:+: block

/-- No pieces are enclosed by every piece. -/
theorem encloses_nil (block : Block) : block.Encloses [] := List.nil_infix

/-- Pieces between a first and a last line. -/
theorem encloses_around (first : Line) (pieces : List Block) (last : Block) :
    Encloses (first :: innerAll pieces ++ last) pieces :=
  List.infix_append [first] (innerAll pieces) last

/-- A line more in front does not matter. -/
theorem Encloses.cons (h : block.Encloses pieces) (line : Line) :
    Encloses (line :: block) pieces := List.infix_cons h

/-- Nor does a piece in front, as the arguments of a call are. -/
theorem Encloses.append_left (h : block.Encloses pieces) (front : Block) :
    Encloses (front ++ block) pieces :=
  List.IsInfix.trans h (List.suffix_append front block).isInfix

/-- Nor does a piece behind, as the modifiers of a view are. -/
theorem Encloses.append_right (h : block.Encloses pieces) (back : Block) :
    Encloses (block ++ back) pieces :=
  List.IsInfix.trans h (List.prefix_append block back).isInfix

end Block

/-! ### Where a target puts the children -/

/-- A stack of SwiftUI has its children between the braces. -/
theorem SwiftUI.encloses_stack (name : Text) (axis : Axis) (role : Role)
    (attributes : List (Attribute Text)) (children : List Block) :
    Block.Encloses (stack name axis role attributes children) children := by
  obtain ⟨spacing, -, hstack⟩ := exists_stack_eq name axis role attributes children
  rw [hstack]
  refine Block.Encloses.append_right ?_ (modifierLines role attributes)
  split
  · next hempty =>
    rw [List.isEmpty_iff.mp hempty]
    exact Block.encloses_nil _
  · exact Block.encloses_around _ children _

/-- A lambda of Compose has its children between the braces. -/
theorem Compose.encloses_closeWith (line : Text) (children : List Block) :
    Block.Encloses (closeWith line (.lambda children)) children := by
  rw [closeWith]
  split
  · next hempty =>
    rw [List.isEmpty_iff.mp hempty]
    exact Block.encloses_nil _
  · exact Block.encloses_around _ children _

/-- A call of Compose has its children in the lambda at its end. -/
theorem Compose.encloses_call (name : Text) (arguments : List Argument) (children : List Block) :
    Block.Encloses (call name arguments (.lambda children)) children := by
  unfold call
  split
  · exact encloses_closeWith name children
  · exact (encloses_closeWith ")".toList children).append_left _

/-- An element of React has its children between the tags. -/
theorem React.encloses_element (tag : Text) (properties : List (Option Text))
    (children : List Block) : Block.Encloses (element tag properties children) children := by
  rw [element]
  split
  · next hempty =>
    rw [List.isEmpty_iff.mp hempty]
    exact Block.encloses_nil _
  · exact Block.encloses_around _ children _

/-- A container of every target encloses its children. -/
theorem Platform.encloses_container (platform : Platform) (name : Text) (axis : Axis)
    (attributes : List (Attribute Text)) (pieces : List Block) :
    Block.Encloses (platform.target.container name axis attributes pieces) pieces := by
  cases platform with
  | swiftUI => exact SwiftUI.encloses_stack name axis .container attributes pieces
  | compose => exact Compose.encloses_call name _ pieces
  | react => exact React.encloses_element name _ pieces

/-- So does a node without a primitive, under its comment or in its element. -/
theorem Platform.encloses_custom (platform : Platform) (l : Layer) (axis : Axis)
    (attributes : List (Attribute Text)) (pieces : List Block) :
    Block.Encloses (platform.target.custom l axis attributes pieces) pieces := by
  cases platform with
  | swiftUI => exact (SwiftUI.encloses_stack _ axis .custom attributes pieces).cons _
  | compose => exact (Compose.encloses_call (Compose.customName axis) _ pieces).cons _
  | react => exact React.encloses_element "div".toList _ pieces

/-- A node encloses its children if its role has room for them. The other roles are drawn without
their children, so nothing could be said of these. -/
theorem Layer.encloses_draw {platform : Platform} {l : Layer} {hasChildren : Bool}
    (h : (l.kind hasChildren).role.hasRoom = true) (attributes : List (Attribute Text))
    (pieces : List Block) : (l.draw platform hasChildren attributes pieces).Encloses pieces := by
  simp only [draw]
  cases hrole : (l.kind hasChildren).role with
  | text | shape | image =>
    rw [hrole] at h
    cases h
  | container | custom =>
    cases (l.kind hasChildren).primitive? platform with
    | some name => exact platform.encloses_container name _ attributes pieces
    | none => exact platform.encloses_custom l _ attributes pieces

/-! ### From lines at levels to lines of text -/

namespace Block

variable {unit : Text} {block : Block} {pieces : List Block}

/-- Pieces that are put inside another stand at the next depth: a level of the line is as good as a
level of depth. -/
theorem map_layOutLine_innerAll (unit : Text) (depth : Int) (pieces : List Block) :
    (innerAll pieces).map (layOutLine unit depth)
      = pieces.flatMap fun piece => piece.map (layOutLine unit (depth + 1)) := by
  -- A line one level deeper is the line of a piece one level deeper.
  have hline : ∀ line : Line,
      layOutLine unit depth { line with level := line.level + 1 }
        = layOutLine unit (depth + 1) line := by
    intro line
    have hlevel : (depth + ((line.level + 1 : Nat) : Int)).toNat
        = (depth + 1 + (line.level : Int)).toNat := by omega
    rw [layOutLine, layOutLine, hlevel]
  induction pieces with
  | nil => rfl
  | cons piece rest ih =>
    rw [innerAll, List.map_cons, List.flatten_cons, List.map_append, List.flatMap_cons, ← ih, inner,
      List.map_map]
    congr 1
    exact List.map_congr_left fun line _ => hline line

/-- The lines of a laid-out piece are its lines, laid out. This needs that no line breaks. -/
theorem lines_layOut (hunit : Unbroken unit) (hblock : block.IsLined) (depth : Int) :
    lines (layOut unit depth block) = block.map (layOutLine unit depth) := by
  refine lines_unlines (by simpa using hblock.1) ?_
  intro l hl
  obtain ⟨line, hline, rfl⟩ := List.mem_map.mp hl
  exact unbroken_append.mpr ⟨hunit.times _, hblock.2 line hline⟩

/-- What is enclosed at a depth is held at the next one. From here on the proofs are about texts. -/
theorem Encloses.holdsLines_layOut (h : block.Encloses pieces) (hunit : Unbroken unit)
    (hblock : block.IsLined) (hpieces : ∀ piece ∈ pieces, piece.IsLined) (depth : Int) :
    (layOut unit depth block).HoldsLines (pieces.map (layOut unit (depth + 1))) := by
  have hparts : (pieces.map (layOut unit (depth + 1))).flatMap lines
      = (innerAll pieces).map (layOutLine unit depth) := by
    rw [map_layOutLine_innerAll, List.flatMap_map]
    exact List.flatMap_congr fun piece hpiece => lines_layOut hunit (hpieces piece hpiece) _
  rw [Text.HoldsLines, hparts, lines_layOut hunit hblock]
  exact List.IsInfix.map _ h

end Block

/-! ### Trees -/

namespace Node

variable {platform : Platform} {depth : Int}

/-- The first node is drawn with the second, which is as many levels further in: no node on the way,
the first one included, plays the role of a text. -/
inductive Draws : Node → Nat → Node → Prop
  /-- A node is drawn with itself. -/
  | self (node : Node) : Draws node 0 node
  /-- A node that is not a text is drawn with what its children are drawn with. -/
  | inside {outer child node : Node} {levels : Nat} : outer.kind.role ≠ .text →
      child ∈ outer.children → Draws child levels node → Draws outer (levels + 1) node

/-- The trees of a list are drawn one by one: all of them are drawn, and the pieces come in their
order. -/
theorem map_render_of_renderAll {nodes : List Node} {pieces : List Block}
    (h : renderAll platform nodes = .ok pieces) :
    nodes.map (render platform) = pieces.map .ok := by
  induction nodes generalizing pieces with
  | nil =>
    cases h
    rfl
  | cons node rest ih =>
    rw [renderAll] at h
    obtain ⟨piece, hpiece, h⟩ := Outcome.bind_eq_ok.mp h
    obtain ⟨others, hothers, h⟩ := Outcome.bind_eq_ok.mp h
    cases h
    rw [List.map_cons, List.map_cons, hpiece, ih hothers]

/-- The colours of a child are colours of the node. -/
theorem mem_colors_of_mem_children {node child : Node} (hchild : child ∈ node.children) {t : Text}
    (ht : t ∈ child.colors) : t ∈ node.colors := by
  obtain ⟨l, children⟩ := node
  rw [children_mk] at hchild
  exact mem_colors_mk.mpr (.inr (mem_colorsAll.mpr ⟨child, hchild, ht⟩))

/-- A role other than that of a text has room for the children, if there are any. A shape or an
image with children is drawn as a frame, and the fallback has room. -/
theorem hasRoom_of_ne_text {l : Layer} {hasChildren : Bool}
    (hrole : (l.kind hasChildren).role ≠ .text) :
    (l.kind hasChildren).role.hasRoom = true ∨ hasChildren = false := by
  cases hasChildren with
  | false => exact .inr rfl
  | true =>
    left
    revert hrole
    simp only [Layer.kind, Bool.true_and]
    -- A leaf with children is taken for a container, unless it is a text.
    split
    · exact fun _ => rfl
    · next hleaf =>
      simp only [Bool.or_eq_true, decide_eq_true_eq, not_or] at hleaf
      intro hrole
      cases hkind : (Kind.resolve l.type (l.layout = some .horizontal)).role with
      | container | custom => rfl
      | text => exact absurd hkind hrole
      | shape => exact absurd hkind hleaf.1
      | image => exact absurd hkind hleaf.2

/-- The colours of what a node is drawn with are colours of the node. -/
theorem Draws.mem_colors {outer node : Node} {levels : Nat} (h : outer.Draws levels node) {t : Text}
    (ht : t ∈ node.colors) : t ∈ outer.colors := by
  induction h with
  | self => exact ht
  | inside _ hchild _ ih => exact mem_colors_of_mem_children hchild (ih ht)

/-- The code of a node that is not a text holds that of its children, in order. Each child has the
code that it has by itself at the next depth. -/
theorem exists_children_code {node : Node} (hcolors : ∀ c ∈ node.colors, Unbroken c)
    (hrole : node.kind.role ≠ .text) {t : Text} (h : node.renderAt platform depth = .ok t) :
    ∃ parts, node.children.map (renderAt platform (depth + 1)) = parts.map .ok
      ∧ t.HoldsLines parts := by
  obtain ⟨l, children⟩ := node
  obtain ⟨block, hblock, rfl⟩ := Outcome.map_eq_ok.mp h
  have hlined := Block.isLined_of_render hcolors hblock
  obtain ⟨attributes, pieces, -, hpieces, rfl⟩ := render_mk_eq_ok hblock
  split at hpieces
  · next hroom =>
    have hinside : ∀ c ∈ colorsAll children, Unbroken c :=
      fun c hc => hcolors c (mem_colors_mk.mpr (.inr hc))
    refine ⟨pieces.map (Block.layOut platform.target.unit (depth + 1)), ?_, ?_⟩
    · calc children.map (renderAt platform (depth + 1))
          = (children.map (render platform)).map
              (Except.map (Block.layOut platform.target.unit (depth + 1))) := by
            rw [List.map_map]
            rfl
        _ = (pieces.map (Block.layOut platform.target.unit (depth + 1))).map .ok := by
            rw [map_render_of_renderAll hpieces, List.map_map, List.map_map]
            rfl
    · have hinner := Block.isLined_of_renderAll hinside hpieces
      exact (Layer.encloses_draw hroom attributes pieces).holdsLines_layOut platform.unbroken_unit
        hlined hinner depth
  · next hroom =>
    -- A shape or image that is drawn as such has no children.
    have hnone := (hasRoom_of_ne_text hrole).resolve_left hroom
    have hchildren : children = [] := by simpa using hnone
    subst hchildren
    exact ⟨[], rfl, .nil _⟩

/-- What a node is drawn with has code, and that stands in the node's as whole lines, laid out as
many levels deeper. The induction goes down the way from the one to the other. -/
theorem Draws.exists_code {outer node : Node} {levels : Nat} (hdraws : outer.Draws levels node)
    (hcolors : ∀ c ∈ outer.colors, Unbroken c) {t : Text}
    (h : outer.renderAt platform depth = .ok t) :
    ∃ u, node.renderAt platform (depth + levels) = .ok u ∧ t.HoldsLines [u] := by
  induction hdraws generalizing depth t with
  | self node => exact ⟨t, by simpa using h, .refl t⟩
  | @inside outer child node levels hrole hchild hdraws ih =>
    obtain ⟨parts, hparts, hholds⟩ := exists_children_code hcolors hrole h
    have hmem : child.renderAt platform (depth + 1) ∈ parts.map Except.ok :=
      hparts ▸ List.mem_map_of_mem hchild
    obtain ⟨part, hmem, hpart⟩ := List.mem_map.mp hmem
    obtain ⟨u, hu, hinner⟩ :=
      ih (fun c hc => hcolors c (mem_colors_of_mem_children hchild hc)) hpart.symm
    have hdepth : depth + 1 + (levels : Int) = depth + ((levels + 1 : Nat) : Int) := by omega
    rw [hdepth] at hu
    exact ⟨u, hu, (hholds.of_mem hmem).trans hinner⟩

/-- Nothing that a node is drawn with is dropped from its code: it stands there as whole lines, laid
out as many levels deeper, and so do its children, in order and with nothing in common. -/
theorem Draws.holdsLines {outer node : Node} {levels : Nat} (hdraws : outer.Draws levels node)
    (hcolors : ∀ c ∈ outer.colors, Unbroken c) {t : Text}
    (h : outer.renderAt platform depth = .ok t) :
    ∃ u, node.renderAt platform (depth + levels) = .ok u ∧ t.HoldsLines [u]
      ∧ (node.kind.role ≠ .text →
        ∃ parts, node.children.map (renderAt platform (depth + levels + 1)) = parts.map .ok
          ∧ u.HoldsLines parts) := by
  obtain ⟨u, hu, hholds⟩ := hdraws.exists_code hcolors h
  refine ⟨u, hu, hholds, ?_⟩
  intro hrole
  exact exists_children_code (fun c hc => hcolors c (hdraws.mem_colors hc)) hrole hu

/-- A rectangle with a text on it. -/
def badge : Node := .mk (Layer.plain "RECTANGLE".toList) [.mk (Layer.plain "TEXT".toList) []]

/-- A frame with a badge and a dot. -/
def shelf : Node :=
  .mk (Layer.plain "FRAME".toList) [badge, .mk (Layer.plain "ELLIPSE".toList) []]

/-- The code of a shelf holds the code of its badge, and that the code of the text. -/
theorem shelf_holdsLines : ∃ t u, shelf.renderAt .react 2 = .ok t
    ∧ badge.renderAt .react (2 + (1 : Nat)) = .ok u ∧ t.HoldsLines [u]
    ∧ ∃ parts, badge.children.map (renderAt .react (2 + (1 : Nat) + 1)) = parts.map .ok
      ∧ u.HoldsLines parts := by
  have hok : (shelf.renderAt .react 2).isOk = true := by decide +kernel
  have hdraws : shelf.Draws 1 badge := .inside (by decide +kernel) (.head _) (.self badge)
  have hcolors : ∀ c ∈ shelf.colors, Unbroken c := by decide +kernel
  cases ht : shelf.renderAt .react 2 with
  | error fault =>
    rw [ht] at hok
    cases hok
  | ok t =>
    obtain ⟨u, hu, hholds, hchildren⟩ := hdraws.holdsLines hcolors ht
    exact ⟨t, u, rfl, hu, hholds, hchildren (by decide +kernel)⟩

/-- A dot. -/
def dot : Node := .mk { Layer.plain "RECTANGLE".toList with name := "Dot".toList } []

/-- A text with a dot inside. -/
def caption : Node :=
  .mk { Layer.plain "TEXT".toList with name := "Label".toList, text := some "Hi".toList } [dot]

/-- A text has no code for what stands inside it. -/
theorem caption_drops : dot ∈ caption.children ∧ (∀ c ∈ caption.colors, Unbroken c)
    ∧ ∃ t u, caption.renderAt .swiftUI 0 = .ok t ∧ dot.renderAt .swiftUI (0 + 1) = .ok u
      ∧ ¬ t.HoldsLines [u] := by
  have hcaption : (caption.renderAt .swiftUI 0).toOption = some "Text(\"Hi\")".toList := by
    decide +kernel
  have hdot : (dot.renderAt .swiftUI (0 + 1)).toOption = some "    Rectangle()".toList := by
    decide +kernel
  refine ⟨List.mem_singleton_self dot, by decide +kernel, _, _,
    Outcome.toOption_eq_some.mp hcaption, Outcome.toOption_eq_some.mp hdot, by decide +kernel⟩

end Node

end DesignCompiler
