import Mathlib.Data.List.Forall2
import DesignCompiler.Generate
import DesignCompiler.Proofs.Outcome
import DesignCompiler.Proofs.Render.Fallback
import DesignCompiler.Proofs.Render.Tree

/-!
# `DesignCompiler.Proofs.Generate.Relevance`: fields that code does not depend on

Not all fields of a layer are read when it is drawn. Identifiers never are. The content of a text,
with its colour, size and weight, is read only where the layer plays the role of a text, the spacing
only where the children have an axis, the width of a border only where the border has a colour, and
the name only where it is written down: over a component, and with an image.

`Layer.Alike` says that two layers agree on everything else. Trees of the same shape whose layers
are alike have the same code, or fail with the same fault (`Node.Alike.render_eq`). When components
are extracted, the names of the roots with children count too, since the components are named after
them; otherwise nothing changes (`Generated.ofNodes_congr`).
-/

set_option autoImplicit false

namespace DesignCompiler

/-! ### Layers -/

/-- Two layers, both with children or both without, that agree on the fields that are read when they
are drawn. The later clauses ask for a field only where the role or the axis of the first layer has
it read, and the second has the same role and axis. -/
structure Layer.Alike (hasChildren : Bool) (a b : Layer) : Prop where
  type : a.type = b.type
  layout : a.layout = b.layout
  x : a.x = b.x
  y : a.y = b.y
  width : a.width = b.width
  height : a.height = b.height
  backgroundColor : a.backgroundColor = b.backgroundColor
  borderColor : a.borderColor = b.borderColor
  borderRadius : a.borderRadius = b.borderRadius
  padding : a.padding = b.padding
  /-- A border without a colour may have any width. -/
  borderWidth : Attribute.filled? a.borderColor ≠ none → a.borderWidth = b.borderWidth
  spacing : (a.kind hasChildren).axis ≠ .none → a.spacing = b.spacing
  text : (a.kind hasChildren).role = .text → a.text = b.text
  textColor : (a.kind hasChildren).role = .text → a.textColor = b.textColor
  fontSize : (a.kind hasChildren).role = .text → a.fontSize = b.fontSize
  fontWeight : (a.kind hasChildren).role = .text → a.fontWeight = b.fontWeight
  name : (a.kind hasChildren).role = .custom ∨ (a.kind hasChildren).role = .image →
    a.name = b.name

namespace Layer.Alike

variable {hasChildren : Bool} {a b : Layer}

/-- Layers that are alike are drawn by the same row, since a row depends on type and layout only. -/
theorem kind_eq (h : a.Alike hasChildren b) : a.kind hasChildren = b.kind hasChildren := by
  rw [kind, kind, h.type, h.layout]

/-- Layers that are alike have the same border, or both have none. -/
theorem borderOf_eq {ω : Type} (h : a.Alike hasChildren b) :
    (Attribute.borderOf a : Option (Attribute ω)) = Attribute.borderOf b := by
  rw [Attribute.borderOf, Attribute.borderOf, ← h.borderColor, ← h.borderRadius]
  cases hcolor : Attribute.filled? a.borderColor with
  | none => rfl
  | some color =>
    -- The width is read only behind a colour.
    rw [h.borderWidth]
    rw [hcolor]
    exact Option.some_ne_none color

/-- Layers that are alike have the same attributes. The parts that are always read agree by the
clauses without a condition; the other two are looked at apart. -/
theorem collect_eq (h : a.Alike hasChildren b) :
    Attribute.collect a (a.kind hasChildren).role (some (a.kind hasChildren).axis)
      = Attribute.collect b (b.kind hasChildren).role (some (b.kind hasChildren).axis) := by
  have hedge : (Attribute.edge a : List (Attribute FontWeight)) = Attribute.edge b := by
    rw [Attribute.edge, Attribute.edge, h.borderOf_eq, h.borderRadius]
  -- The two conditional parts: in the other case both layers give nothing.
  have hspacing : (if some (a.kind hasChildren).axis = some .none then []
        else ((Attribute.nonzero? a.spacing).map Attribute.spacing).toList
          : List (Attribute FontWeight))
      = if some (a.kind hasChildren).axis = some .none then []
        else ((Attribute.nonzero? b.spacing).map Attribute.spacing).toList := by
    split
    · rfl
    · next haxis => rw [h.spacing fun hnone => haxis (congrArg some hnone)]
  have htext : (if (a.kind hasChildren).role = .text then Attribute.ofText a else [])
      = if (a.kind hasChildren).role = .text then Attribute.ofText b else [] := by
    split
    · next hrole =>
      rw [Attribute.ofText, Attribute.ofText, h.textColor hrole, h.fontSize hrole,
        h.fontWeight hrole]
    · rfl
  rw [← h.kind_eq, Attribute.collect, Attribute.collect, hspacing, htext, hedge, h.width, h.height,
    h.backgroundColor, h.padding, h.x, h.y]

/-- A component is drawn from the type and the name of its layer. React does not even read the type.
-/
theorem custom_eq (platform : Platform) (htype : a.type = b.type) (hname : a.name = b.name) :
    platform.target.custom a = platform.target.custom b := by
  have hcomment : customComment a = customComment b := by
    rw [customComment, customComment, htype, hname]
  cases platform with
  | swiftUI => simp only [Platform.target, SwiftUI.target, hcomment]
  | compose => simp only [Platform.target, Compose.target, hcomment]
  | react => simp only [Platform.target, React.target, hname]

end Layer.Alike

/-! ### Trees -/

mutual

/-- Two trees of the same shape whose layers are alike. -/
def Node.Alike : Node → Node → Prop
  | .mk a as, .mk b bs => a.Alike (!as.isEmpty) b ∧ Node.AlikeAll as bs

/-- Two lists of as many trees, each like the one at its position in the other list. -/
def Node.AlikeAll : List Node → List Node → Prop
  | [], [] => True
  | a :: as, b :: bs => Node.Alike a b ∧ Node.AlikeAll as bs
  | _, _ => False

end

namespace Node

/-- Trees are alike by their layers and the trees inside. -/
@[simp] theorem alike_mk {a b : Layer} {as bs : List Node} :
    (Node.mk a as).Alike (.mk b bs) ↔ a.Alike (!as.isEmpty) b ∧ AlikeAll as bs := by
  rw [Alike]

/-- Two empty lists are alike. -/
@[simp] theorem alikeAll_nil : AlikeAll [] [] := by
  rw [AlikeAll]
  trivial

/-- Lists are alike tree by tree. -/
@[simp] theorem alikeAll_cons {a b : Node} {as bs : List Node} :
    AlikeAll (a :: as) (b :: bs) ↔ a.Alike b ∧ AlikeAll as bs := by
  rw [AlikeAll]

/-- A list is like no list of another length. -/
theorem AlikeAll.isEmpty_eq {as bs : List Node} (h : AlikeAll as bs) :
    as.isEmpty = bs.isEmpty := by
  cases as with
  | nil =>
    cases bs with
    | nil => rfl
    | cons b bs => simp [AlikeAll] at h
  | cons a as =>
    cases bs with
    | nil => simp [AlikeAll] at h
    | cons b bs => rfl

mutual

/-- Trees that are alike have the same code, or fail with the same fault. The induction is on both
trees at once, as they have the same shape. -/
theorem Alike.render_eq (platform : Platform) : ∀ {a b : Node}, a.Alike b →
    a.render platform = b.render platform
  | .mk a as, .mk b bs, h => by
    obtain ⟨hlayer, hinside⟩ := alike_mk.mp h
    have hpieces := AlikeAll.renderAll_eq platform hinside
    have hkind := hlayer.kind_eq
    rw [Node.render, Node.render, ← hinside.isEmpty_eq, ← hkind, hlayer.collect_eq, ← hkind,
      hpieces]
    -- Beyond attributes and children a layer is read by three roles only.
    congr 1
    funext attributes
    cases hrole : (a.kind (!as.isEmpty)).role with
    | text => rw [hlayer.text hrole]
    | shape => rfl
    | image => rw [hlayer.name (.inr hrole)]
    | container | custom =>
      cases hprimitive : (a.kind (!as.isEmpty)).primitive? platform with
      | some name => rfl
      | none =>
        have hcustom := Kind.role_of_primitive?_none hprimitive
        simp only [Layer.Alike.custom_eq platform hlayer.type (hlayer.name (.inl hcustom))]

/-- The same for lists of trees. -/
theorem AlikeAll.renderAll_eq (platform : Platform) : ∀ {as bs : List Node}, AlikeAll as bs →
    renderAll platform as = renderAll platform bs
  | [], [], _ => rfl
  | a :: as, b :: bs, h => by
    obtain ⟨hnode, hrest⟩ := alikeAll_cons.mp h
    rw [renderAll, renderAll, hnode.render_eq platform, hrest.renderAll_eq platform]

end

end Node

/-! ### Forests -/

namespace Forest

/-- Roots with children that stand at the same position have the same name. -/
def SameNames (as bs : List Node) : Prop :=
  List.Forall₂ (fun a b : Node => a.children ≠ [] → a.layer.name = b.layer.name) as bs

/-- Forests that are alike, with the same names for their components, give the same extraction. The
names that were seen are the same on both sides at every root. -/
theorem extract_congr (platform : Platform) {as bs : List Node} (hnames : SameNames as bs)
    (h : Node.AlikeAll as bs) (seen : List Text) :
    extract platform seen as = extract platform seen bs := by
  induction hnames generalizing seen with
  | nil => rfl
  | @cons a b as bs hname _ ih =>
    obtain ⟨hnode, hrest⟩ := Node.alikeAll_cons.mp h
    have hchildren : a.children.isEmpty = b.children.isEmpty := by
      cases a
      cases b
      exact (Node.alike_mk.mp hnode).2.isEmpty_eq
    rw [extract, extract, ← hchildren, hnode.render_eq platform]
    simp only [ih hrest]
    -- A name is read from the roots with children only, as that of a component.
    split
    · rfl
    · next hleaf => rw [hname (by simpa using hleaf)]

end Forest

namespace Generated

/-- Code depends on nothing but the fields in which layers that are alike agree, and on the names of
the roots with children if components are extracted. Faults are included: one forest fails exactly
if the other does, with the same fault. -/
theorem ofNodes_congr (platform : Platform) (extracting : Bool) {as bs : List Node}
    (h : Node.AlikeAll as bs) (hnames : extracting = true → Forest.SameNames as bs) :
    ofNodes platform extracting as = ofNodes platform extracting bs := by
  rw [ofNodes, ofNodes]
  cases extracting with
  | true =>
    rw [if_pos rfl, if_pos rfl, Forest.extracted, Forest.extracted, h.isEmpty_eq,
      Forest.extract_congr platform (hnames rfl) h []]
  | false =>
    rw [if_neg Bool.false_ne_true, if_neg Bool.false_ne_true, Forest.inlined, Forest.inlined,
      h.isEmpty_eq, h.renderAll_eq platform]

/-- A shape with all that only a text, a container or a border with a colour would show. -/
def tag (note : Text) (measure : Binary64) (weight : FontWeight) : Layer :=
  { Layer.plain "RECTANGLE".toList with
    id := note, name := note, text := some note, textColor := some note, fontSize := some measure,
    fontWeight := some weight, spacing := some measure, borderWidth := some measure }

/-- A frame around a shape. -/
def parcel (id : Text) (inside : Layer) : Node :=
  .mk { Layer.plain "FRAME".toList with id, name := "Parcel".toList } [.mk inside []]

/-- Tags are alike, whatever they hold: a shape without children reads none of the fields in which
they differ. -/
theorem alike_tag (m n : Text) (x y : Binary64) (v w : FontWeight) :
    (tag m x v).Alike false (tag n y w) := by
  have hkind : (tag m x v).kind false = .rectangle := by
    show (Layer.plain "RECTANGLE".toList).kind false = .rectangle
    decide +kernel
  -- The width is asked for behind a colour only, and a tag has none; the other conditions are about
  -- roles.
  constructor
  case borderWidth => exact fun hcolor => absurd rfl hcolor
  all_goals first
    | rfl
    | (rw [hkind]; exact fun h => absurd h (by decide))

/-- Parcels are alike if what is inside is. -/
theorem alikeAll_parcel (m n : Text) {a b : Layer} (h : a.Alike false b) :
    Node.AlikeAll [parcel m a] [parcel n b] := by
  simp only [parcel, Node.alikeAll_cons, Node.alike_mk, Node.alikeAll_nil, and_true]
  refine ⟨?_, h⟩
  constructor
  all_goals first
    | rfl
    | exact fun _ => rfl

/-- The code of a parcel shows nothing of the tag inside but that it is a shape, even if its weight
would be a fault in a text. -/
theorem parcel_congr :
    let brown : Node := parcel "1:1".toList (tag "brown".toList (.zero false) (.whole 400))
    let odd : Node := parcel "1:2".toList (tag "odd".toList .nan (.exact .nan))
    Node.AlikeAll [brown] [odd] ∧ Forest.SameNames [brown] [odd] ∧ brown.layer.id ≠ odd.layer.id
      ∧ ofNodes .react true [brown] = ofNodes .react true [odd] := by
  intro brown odd
  have hall : Node.AlikeAll [brown] [odd] := alikeAll_parcel _ _ (alike_tag _ _ _ _ _ _)
  have hname : ∀ id inside, (parcel id inside).layer.name = "Parcel".toList := fun _ _ => rfl
  have hnames : Forest.SameNames [brown] [odd] :=
    .cons (fun _ => (hname _ _).trans (hname _ _).symm) .nil
  exact ⟨hall, hnames, by decide, ofNodes_congr .react true hall fun _ => hnames⟩

end Generated

end DesignCompiler
