import DesignCompiler.Layout.Node

/-!
# `DesignCompiler.Render.Attribute`: what a layer asks of its primitive

The attributes of a layer are collected once, in a fixed order, and are the same for every target.
A border takes the corner radius with it; a radius without a border is an attribute of its own.
Spacing is left out where the children have no axis, and only texts have attributes of text. A value
that is blank (an empty colour, a zero) is no attribute; not a number is one.

`Attribute` leaves open how a font weight is given, so that the same list can carry the weights of a
design and the words of a target: `spell` goes from one to the other.
-/

set_option autoImplicit false

namespace DesignCompiler

/-- The kinds of attributes in the order in which they are collected. -/
inductive AttributeKind
  | size
  | background
  | border
  | cornerRadius
  | padding
  | spacing
  | offset
  | textColor
  | fontSize
  | fontWeight
  deriving DecidableEq

/-- An attribute, with font weights of the type `ω`. Before spelling that is the weight of the
design, afterwards the word of a target; all other attributes are the same on both sides. -/
inductive Attribute (ω : Type)
  | size (width height : Binary64)
  | background (color : Text)
  | border (color : Text) (width radius : Binary64)
  | cornerRadius (radius : Binary64)
  | padding (sides : Padding)
  | spacing (gap : Binary64)
  | offset (x y : Binary64)
  | textColor (color : Text)
  | fontSize (size : Binary64)
  | fontWeight (weight : ω)

/-- The kinds of attributes with their words. -/
def AttributeKind.tokens : List (Text × AttributeKind) :=
  [("size".toList, .size), ("background".toList, .background), ("border".toList, .border),
   ("corner_radius".toList, .cornerRadius), ("padding".toList, .padding),
   ("spacing".toList, .spacing), ("offset".toList, .offset), ("text_color".toList, .textColor),
   ("font_size".toList, .fontSize), ("font_weight".toList, .fontWeight)]

namespace Attribute

variable {ω : Type}

/-- The kind of an attribute. -/
def kind : Attribute ω → AttributeKind
  | .size .. => .size
  | .background _ => .background
  | .border .. => .border
  | .cornerRadius _ => .cornerRadius
  | .padding _ => .padding
  | .spacing _ => .spacing
  | .offset .. => .offset
  | .textColor _ => .textColor
  | .fontSize _ => .fontSize
  | .fontWeight _ => .fontWeight

/-- The first attribute of a kind. -/
def find? (attributes : List (Attribute ω)) (kind : AttributeKind) : Option (Attribute ω) :=
  attributes.find? fun a => a.kind = kind

/-- The spacing among some attributes. -/
def spacing? (attributes : List (Attribute ω)) : Option Binary64 :=
  attributes.findSome? fun
    | .spacing gap => some gap
    | _ => none

/-- A text that is there and not empty. -/
def filled? (t : Option Text) : Option Text := t.filter (!·.isEmpty)

/-- A number that is there and not zero. -/
def nonzero? (x : Option Binary64) : Option Binary64 := x.filter (!·.isZero)

/-- The border of a layer: it needs a colour and a width. Its radius is zero if the layer has none,
so a target can ask for it in any case. -/
def borderOf (l : Layer) : Option (Attribute ω) :=
  match filled? l.borderColor, nonzero? l.borderWidth with
  | some color, some width =>
    some (.border color width ((nonzero? l.borderRadius).getD (.zero false)))
  | _, _ => none

/-- The border of a layer, or the radius of its corners if it has no border. The two exclude each
other, and a layer has at most one of them. -/
def edge (l : Layer) : List (Attribute ω) :=
  match borderOf l with
  | some found => [found]
  | none => ((nonzero? l.borderRadius).map .cornerRadius).toList

/-- The attributes of a text. -/
def ofText (l : Layer) : List (Attribute FontWeight) :=
  ((filled? l.textColor).map .textColor).toList
    ++ ((nonzero? l.fontSize).map .fontSize).toList
    ++ (l.fontWeight.map .fontWeight).toList

/-- The attributes of a layer that plays a role, in the order of `AttributeKind`. The spacing is
left out only if the axis is known to be none. -/
def collect (l : Layer) (role : Role) (axis : Option Axis) : List (Attribute FontWeight) :=
  (if l.width.isPositive && l.height.isPositive then [.size l.width l.height] else [])
    ++ ((filled? l.backgroundColor).map .background).toList
    ++ edge l
    ++ (l.padding.map .padding).toList
    -- An axis that nobody knows keeps the spacing.
    ++ (if axis = some .none then [] else ((nonzero? l.spacing).map .spacing).toList)
    ++ (if l.x.isZero && l.y.isZero then [] else [.offset l.x l.y])
    ++ (if role = .text then ofText l else [])

/-- An attribute with its font weight spelled in a target. Only a font weight can fail here. -/
def spellOne (platform : Platform) : Attribute FontWeight → Except Fault (Attribute Text)
  | .size w h => .ok (.size w h)
  | .background c => .ok (.background c)
  | .border c w r => .ok (.border c w r)
  | .cornerRadius r => .ok (.cornerRadius r)
  | .padding p => .ok (.padding p)
  | .spacing g => .ok (.spacing g)
  | .offset x y => .ok (.offset x y)
  | .textColor c => .ok (.textColor c)
  | .fontSize s => .ok (.fontSize s)
  | .fontWeight w => (w.word platform).map .fontWeight

/-- Attributes with their font weights spelled in a target. The first weight that has no word gives
the fault. -/
def spell (platform : Platform) : List (Attribute FontWeight) → Except Fault (List (Attribute Text))
  | [] => .ok []
  | first :: rest => do
    let spelled ← spellOne platform first
    let others ← spell platform rest
    return spelled :: others

end Attribute

end DesignCompiler
