import DesignCompiler.Drawing.Paint
import DesignCompiler.Json.Arithmetic
import DesignCompiler.Layout.Encoder

/-!
# `DesignCompiler.Drawing.Draft`: one layer read, before its values are checked

A draft holds what a layer of a design file says about itself, sorted by what belongs together: a
border is a colour with a width, only a text has content and a text style, and spacing and padding
come with an automatic layout. Positions are relative to the origin of the layer around it.

The values are still those of the file. `Draft.check` checks them as the fields of a layout tree's
layer, under their names with underscores; `Draft.ofFields` looks at them in the order in which the
parts of a draft are listed and reports the first that is malformed.
-/

set_option autoImplicit false

namespace DesignCompiler

/-- The absolute position of a layer, unchecked. It is kept as the file gives it: a layer that
nobody stands inside is never asked for its number. -/
structure Origin where
  x : Json
  y : Json

/-- The origin of the whole file. -/
def Origin.zero : Origin := ⟨.int 0, .int 0⟩

/-- The stroke around a layer. A width without a colour does not occur, so the two are one part. -/
structure Border where
  color : Text
  width : Json

/-- The content of a text with its style. A layer has all of it or none: without characters there is
no style either. -/
structure Writing where
  content : Json
  size : Option Json
  weight : Option Json
  color : Option Text

/-- The automatic layout of a layer's children. Spacing and padding come with a direction only. -/
structure Flow where
  direction : Direction
  spacing : Json
  padding : Option Padding

/-- What a layer says about itself, with positions already relative to the layer around it. Values
that only the layout tree checks are still those of the file. -/
structure Draft where
  id : Text
  type : Text
  name : Text
  x : Json
  y : Json
  width : Json
  height : Json
  background : Option Text
  border : Option Border
  radius : Option Json
  writing : Option Writing
  flow : Option Flow

namespace Drawing

/-- The value under a name, zero if it is blank. -/
def numberAt (fields : Json.Fields) (name : Text) : Json :=
  (Json.fieldOrNull fields name).orIfBlank (.int 0)

/-- The value under a name as text, empty if it is blank. -/
def labelAt (fields : Json.Fields) (name : Text) : Text :=
  ((Json.fieldOrNull fields name).orIfBlank (.text [])).shown

/-- The value under a name, if there is one other than null. -/
def presentAt? (fields : Json.Fields) (name : Text) : Option Json :=
  match Json.fieldOrNull fields name with
  | .null => none
  | value => some value

/-- The value under a name, if it is not blank. -/
def filledAt? (fields : Json.Fields) (name : Text) : Option Json :=
  (Json.field? fields name).filter (!·.isBlank)

/-- The fields of the box around a layer. -/
def boxAt (fields : Json.Fields) (place : Place) : Except Fault Json.Fields :=
  objectAt fields place "absoluteBoundingBox".toList

/-- The absolute position that a box gives. -/
def boxOrigin (box : Json.Fields) : Origin := ⟨numberAt box "x".toList, numberAt box "y".toList⟩

/-- The absolute position of a layer. -/
def originAt (fields : Json.Fields) (place : Place) : Except Fault Origin :=
  (boxAt fields place).map boxOrigin

/-- The stroke around a layer: one wide unless it says otherwise, a width of zero included among
those that say nothing. -/
def borderAt (fields : Json.Fields) (place : Place) : Except Fault (Option Border) :=
  (strokeColor fields place).map fun color? =>
    color?.map fun color =>
      ⟨color, (Json.fieldOrNull fields "strokeWeight".toList).orIfBlank (.int 1)⟩

/-- The style of a text; a text without style has no colour either. -/
def writingOf (fields : Json.Fields) (place : Place) (content : Json) (style : Json.Fields) :
    Except Fault Writing :=
  if style.isEmpty then .ok ⟨content, none, none, none⟩
  else (fillColor fields place).map fun color =>
    ⟨content, presentAt? style "fontSize".toList, presentAt? style "fontWeight".toList, color⟩

/-- The content of a layer that is a text with characters. -/
def content? (fields : Json.Fields) : Option Json :=
  if (Json.fieldOrNull fields "type".toList).isText "TEXT".toList then
    filledAt? fields "characters".toList
  else none

/-- The content and style of a layer that is a text with characters. The style is looked at for such
layers only, so the style of another layer may be anything. -/
def writingAt (fields : Json.Fields) (place : Place) : Except Fault (Option Writing) :=
  match content? fields with
  | none => .ok none
  | some content => do
    let style ← objectAt fields place "style".toList
    let writing ← writingOf fields place content style
    return some writing

/-- The four sides of the padding, zero where the layer gives none. -/
def sidesAt (fields : Json.Fields) : Json :=
  .object
    [("top".toList, numberAt fields "paddingTop".toList),
     ("right".toList, numberAt fields "paddingRight".toList),
     ("bottom".toList, numberAt fields "paddingBottom".toList),
     ("left".toList, numberAt fields "paddingLeft".toList)]

/-- Whether a padding keeps any space free. -/
def keepsSpace (p : Padding) : Bool :=
  !(p.top.isZero && p.right.isZero && p.bottom.isZero && p.left.isZero)

/-- The direction of a layout mode: every mode but the horizontal one is vertical. -/
def directionOf (mode : Json) : Direction :=
  if mode.isText "HORIZONTAL".toList then .horizontal else .vertical

/-- The automatic layout of a layer that has a layout mode, whatever that is. A padding without any
space is left out, but it is checked like any other. -/
def flowAt (fields : Json.Fields) : Except Fault (Option Flow) :=
  match Json.field? fields "layoutMode".toList with
  | none => .ok none
  | some mode =>
    -- The padding is checked at once, before anything else of the layer is.
    (Padding.ofJson (sidesAt fields)).map fun padding =>
      some ⟨directionOf mode, numberAt fields "itemSpacing".toList,
        if keepsSpace padding then some padding else none⟩

end Drawing

namespace Draft

open Drawing

/-- What a layer at a place says about itself, inside a layer with the given origin. The order of
the steps is the order in which faults are told: the box, the two differences, the fills, the
strokes, the text and the layout. -/
def ofFields (place : Place) (origin : Origin) (fields : Json.Fields) : Except Fault Draft := do
  let box ← boxAt fields place
  let x ← (boxOrigin box).x.sub origin.x
  let y ← (boxOrigin box).y.sub origin.y
  let background ← fillColor fields place
  let border ← borderAt fields place
  let writing ← writingAt fields place
  let flow ← flowAt fields
  return {
    id := labelAt fields "id".toList
    type := labelAt fields "type".toList
    name := labelAt fields "name".toList
    x, y
    width := numberAt box "width".toList
    height := numberAt box "height".toList
    background, border
    radius := filledAt? fields "cornerRadius".toList
    writing, flow }

/-- The value that a draft gives for a field of a layer, none where the field is left to its
default. -/
def value? (d : Draft) : Property → Option Json
  | .id => some (.text d.id)
  | .type => some (.text d.type)
  | .name => some (.text d.name)
  | .x => some d.x
  | .y => some d.y
  | .width => some d.width
  | .height => some d.height
  | .backgroundColor => d.background.map .text
  | .borderColor => d.border.map fun border => .text border.color
  | .borderWidth => d.border.map fun border => border.width
  | .borderRadius => d.radius
  | .text => d.writing.map fun writing => writing.content
  | .textColor => d.writing.bind fun writing => writing.color.map .text
  | .fontSize => d.writing.bind fun writing => writing.size
  | .fontWeight => d.writing.bind fun writing => writing.weight
  | .layout => d.flow.map fun flow => .text flow.direction.token
  | .spacing => d.flow.map fun flow => flow.spacing
  | .padding => d.flow.bind fun flow => flow.padding.map Padding.toJson

/-- The values of a draft as the fields of a layer. -/
def given (d : Draft) : Given := fun property => (d.value? property).map (property.plainName, ·)

/-- The layer that a draft describes, if its values are fit for one. All complaints about a layer
are told together, as those of a node that is read. -/
def check (d : Draft) : Except Fault Layer :=
  match Layer.check d.given with
  | .accepted layer => .ok layer
  | .rejected issues => .error (.invalid .node issues)

end Draft

end DesignCompiler
