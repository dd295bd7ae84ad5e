import DesignCompiler.Proofs.Extraction.Colors
import DesignCompiler.Proofs.Render.Fallback
import DesignCompiler.Proofs.Trace.Compose
import DesignCompiler.Proofs.Trace.React
import DesignCompiler.Proofs.Trace.SwiftUI

/-!
# `DesignCompiler.Proofs.Trace.Tree`: no target loses an attribute

A node is drawn by one of the five shapes of its target, and each target shows the kinds of the
attributes in each of them (`Platform.showsKinds`). So two nodes that have everything in common but
their attributes have different code as soon as these are of different kinds
(`Attribute.canonical_and_shown`), whatever their children are and at whatever depth they stand.
-/

set_option autoImplicit false

namespace DesignCompiler

open Text

/-- Every target shows the kinds of attributes. Each has a module of its own, as what a target
writes for an attribute is its own affair. -/
theorem Platform.showsKinds (platform : Platform) : platform.target.ShowsKinds := by
  cases platform with
  | swiftUI => exact SwiftUI.showsKinds
  | compose => exact Compose.showsKinds
  | react => exact React.showsKinds

/-- Only nodes with room for children have an axis. The table of kinds is finite, so this is decided
row by row. -/
theorem Kind.axis_of_hasRoom {kind : Kind} (h : kind.role.hasRoom = false) : kind.axis = .none := by
  revert h
  cases kind <;> decide

/-- Components have no primitive, so a node with a primitive is drawn by its role. -/
theorem Kind.role_of_primitive?_some {kind : Kind} {platform : Platform} {name : Text}
    (h : kind.primitive? platform = some name) : kind.role ≠ .custom := by
  intro hcustom
  have hnone : kind.primitive? platform = none := by
    revert hcustom
    cases kind <;> cases platform <;> decide
  rw [hnone] at h
  cases h

/-- The attributes of a layer can be drawn, once they are spelled. Colours and words of a weight are
spelled with letters, digits, points and `#`, none of which is a comma or a line feed. -/
theorem Attribute.drawable_of_spell {platform : Platform} {l : Layer} {role : Role} {axis : Axis}
    {attributes : List (Attribute Text)} (hcolors : ∀ t ∈ l.colors, Color.IsColorText t)
    (h : spell platform (collect l role (some axis)) = .ok attributes) :
    Drawable role axis attributes := by
  -- Neither a line feed nor a comma is among the characters that texts are spelled with.
  have hkept : ∀ {c : Char}, c = '#' ∨ isAlphanumeric c || c = '.' → c ≠ '\n' ∧ c ≠ ',' := by
    intro c hc
    constructor
    all_goals
      rintro rfl
      exact absurd hc (by decide)
  constructor
  case canonical =>
    rw [map_kind_of_spell h]
    exact isCanonical_collect l role (some axis)
  case texts =>
    refine textsIn_of_spell (fun c hc => hkept (.inr hc)) ?_ h
    intro t ht c hc
    refine hkept ((hcolors t ht c hc).imp_right fun halphanumeric => ?_)
    rw [halphanumeric, Bool.true_or]

/-- Nodes that are drawn alike have attributes of the same kinds. The two layers agree on the row of
the table and on all that is drawn besides attributes, so they are drawn by the same shape. -/
theorem Target.ShowsKinds.draw {platform : Platform} (shows : platform.target.ShowsKinds)
    {l l' : Layer} {hasChildren : Bool} (hkind : l.kind hasChildren = l'.kind hasChildren)
    (htype : l.type = l'.type) (hname : l.name = l'.name) (htext : l.text = l'.text)
    {as bs : List (Attribute Text)} {pieces : List Block} {depth : Int}
    (ha : Attribute.Drawable (l.kind hasChildren).role (l.kind hasChildren).axis as)
    (hb : Attribute.Drawable (l.kind hasChildren).role (l.kind hasChildren).axis bs)
    (h : Block.layOut platform.target.unit depth (l.draw platform hasChildren as pieces)
      = Block.layOut platform.target.unit depth (l'.draw platform hasChildren bs pieces)) :
    as.map Attribute.kind = bs.map Attribute.kind := by
  have hword := (l.kind hasChildren).isWord_primitive platform
  simp only [Layer.draw, ← hkind, ← htext, ← hname] at h
  generalize l.kind hasChildren = kind at ha hb h hword
  -- One case for each shape of the target.
  cases hrole : kind.role with
  | text =>
    rw [hrole, Kind.axis_of_hasRoom (by rw [hrole]; rfl)] at ha hb
    simp only [hrole] at h
    exact shows.text hword ha hb h
  | shape =>
    rw [hrole, Kind.axis_of_hasRoom (by rw [hrole]; rfl)] at ha hb
    simp only [hrole] at h
    exact shows.shape hword ha hb h
  | image =>
    rw [hrole, Kind.axis_of_hasRoom (by rw [hrole]; rfl)] at ha hb
    simp only [hrole] at h
    exact shows.image hword ha hb h
  | container =>
    rw [hrole] at ha hb
    simp only [hrole] at h
    cases hprimitive : kind.primitive? platform with
    | some name =>
      rw [hprimitive] at hword
      simp only [hprimitive] at h
      exact shows.container hword ha hb h
    | none =>
      have hcustom := Kind.role_of_primitive?_none hprimitive
      rw [hrole] at hcustom
      cases hcustom
  | custom =>
    rw [hrole] at ha hb
    simp only [hrole] at h
    cases hprimitive : kind.primitive? platform with
    | some name => exact absurd hrole (Kind.role_of_primitive?_some hprimitive)
    | none =>
      simp only [hprimitive] at h
      exact shows.custom htype hname ha hb h

namespace Node

/-- The kinds of attributes that are collected for a node, in the order in which they are written.
-/
def attributeKinds (node : Node) : List AttributeKind :=
  (Attribute.collect node.layer node.kind.role (some node.kind.axis)).map Attribute.kind

/-- A node that is rendered at a depth: its attributes could be spelled, the code of its children is
there if it has room for them, and its own code is drawn from these. -/
theorem exists_of_renderAt {platform : Platform} {depth : Int} {node : Node} {t : Text}
    (hcolors : ∀ c ∈ node.layer.colors, Color.IsColorText c)
    (h : node.renderAt platform depth = .ok t) :
    ∃ attributes pieces,
      Attribute.Drawable node.kind.role node.kind.axis attributes
      ∧ attributes.map Attribute.kind = node.attributeKinds
      ∧ (if node.kind.role.hasRoom then renderAll platform node.children = .ok pieces
        else pieces = [])
      ∧ t = Block.layOut platform.target.unit depth
        (node.layer.draw platform (!node.children.isEmpty) attributes pieces) := by
  obtain ⟨l, children⟩ := node
  obtain ⟨block, hblock, rfl⟩ := Outcome.map_eq_ok.mp h
  obtain ⟨attributes, pieces, hspell, hpieces, rfl⟩ := render_mk_eq_ok hblock
  exact ⟨attributes, pieces, Attribute.drawable_of_spell hcolors hspell,
    Attribute.map_kind_of_spell hspell, hpieces, rfl⟩

/-- Nodes that have everything in common but their attributes, and are rendered alike, have
attributes of the same kinds. No induction on the trees is needed: the children are the same, so
their code is. -/
theorem attributeKinds_eq_of_renderAt {platform : Platform} {depth : Int} {a b : Node} {t : Text}
    (hcolors : ∀ c ∈ a.layer.colors ++ b.layer.colors, Color.IsColorText c)
    (hkind : a.kind = b.kind) (htype : a.layer.type = b.layer.type)
    (hname : a.layer.name = b.layer.name) (htext : a.layer.text = b.layer.text)
    (hchildren : a.children = b.children) (ha : a.renderAt platform depth = .ok t)
    (hb : b.renderAt platform depth = .ok t) : a.attributeKinds = b.attributeKinds := by
  obtain ⟨hcolorsA, hcolorsB⟩ := List.forall_mem_append.mp hcolors
  obtain ⟨as, pieces, hdrawA, hkindsA, hpieces, htA⟩ := exists_of_renderAt hcolorsA ha
  obtain ⟨bs, others, hdrawB, hkindsB, hothers, htB⟩ := exists_of_renderAt hcolorsB hb
  -- The children are the same, and so is their code.
  have hsame : pieces = others := by
    rw [hchildren, hkind] at hpieces
    split at hpieces
    · next hroom =>
      rw [if_pos hroom, hpieces] at hothers
      exact Except.ok.inj hothers
    · next hroom =>
      rw [if_neg hroom] at hothers
      rw [hpieces, hothers]
  rw [← hkind] at hdrawB
  rw [htA, ← hsame, ← hchildren] at htB
  have hkind' : a.layer.kind (!a.children.isEmpty) = b.layer.kind (!a.children.isEmpty) := by
    rw [hchildren]
    rw [kind, kind, hchildren] at hkind
    exact hkind
  rw [← hkindsA, ← hkindsB]
  exact (platform.showsKinds).draw hkind' htype hname htext hdrawA hdrawB htB

end Node

/-- The attributes of a layer are of kinds that increase in the declared order, never a border and a
radius of corners of its own, without a spacing where there is no axis and with attributes of texts
only for texts. And each kind can be seen: nodes that are drawn by the same row and have the same
type, name, text and children, but attributes of other kinds, are written differently on every
platform and at every depth, if their colours are written with letters, digits and `#`. -/
theorem Attribute.canonical_and_shown :
    (∀ (l : Layer) (role : Role) (axis : Option Axis),
      AttributeKind.IsCanonical role axis ((collect l role axis).map kind))
    ∧ ∀ (platform : Platform) (a b : Node),
      (∀ c ∈ a.layer.colors ++ b.layer.colors, Color.IsColorText c) → a.kind = b.kind →
        a.layer.type = b.layer.type → a.layer.name = b.layer.name → a.layer.text = b.layer.text →
          a.children = b.children → a.attributeKinds ≠ b.attributeKinds →
            ∀ (depth : Int) (ta tb : Text), a.renderAt platform depth = .ok ta →
              b.renderAt platform depth = .ok tb → ta ≠ tb := by
  refine ⟨isCanonical_collect, ?_⟩
  intro platform a b hcolors hkind htype hname htext hchildren hne depth ta tb ha hb heq
  rw [← heq] at hb
  exact hne (Node.attributeKinds_eq_of_renderAt hcolors hkind htype hname htext hchildren ha hb)

/-- A frame with round corners at a place that is not a number, around a text. -/
def Node.adrift : Node :=
  .mk { Layer.plain "FRAME".toList with x := .nan, borderRadius := some (.ofQuotient 4 1) }
    [.mk (Layer.plain "TEXT".toList) []]

/-- The frame with a border around its round corners, and in its place. -/
def Node.bordered : Node :=
  .mk { Layer.plain "FRAME".toList with borderColor := some "#ff0000ff".toList,
                                        borderWidth := some (.ofQuotient 1 1),
                                        borderRadius := some (.ofQuotient 4 1) }
    [.mk (Layer.plain "TEXT".toList) []]

/-- Both frames are positioned and have round corners, and still can be told apart: one is clipped
at its corners and the other has a border. -/
theorem Attribute.adrift_shown : Node.adrift.attributeKinds = [.cornerRadius, .offset]
    ∧ Node.bordered.attributeKinds = [.border]
    ∧ ∃ ta tb, Node.adrift.renderAt .react 1 = .ok ta
      ∧ Node.bordered.renderAt .react 1 = .ok tb ∧ ta ≠ tb := by
  have hadrift : (Node.adrift.renderAt .react 1).toOption.isSome = true := by decide +kernel
  have hbordered : (Node.bordered.renderAt .react 1).toOption.isSome = true := by decide +kernel
  obtain ⟨ta, hta⟩ := Option.isSome_iff_exists.mp hadrift
  obtain ⟨tb, htb⟩ := Option.isSome_iff_exists.mp hbordered
  rw [Outcome.toOption_eq_some] at hta htb
  have hkinds : Node.adrift.attributeKinds = [.cornerRadius, .offset] := by decide +kernel
  have hothers : Node.bordered.attributeKinds = [.border] := by decide +kernel
  have hne : Node.adrift.attributeKinds ≠ Node.bordered.attributeKinds := by
    rw [hkinds, hothers]
    decide
  refine ⟨hkinds, hothers, ta, tb, hta, htb, ?_⟩
  exact canonical_and_shown.2 .react Node.adrift Node.bordered (by decide +kernel)
    (by decide +kernel) rfl rfl rfl rfl hne 1 ta tb hta htb

end DesignCompiler
