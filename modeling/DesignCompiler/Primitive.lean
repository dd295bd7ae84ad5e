import DesignCompiler.Platform
import DesignCompiler.Text.Ascii
import DesignCompiler.Text.UpperCase

/-!
# `DesignCompiler.Primitive`: which primitive draws a layer

The table behind all targets. A `Kind` is one of its rows: a layer type together with the direction
that its layout may force on it. The row says which role the layer plays, along which axis its
children are laid out, and the view, composable or element that draws it. Components and their
instances have no primitive of their own.

`Kind.resolve` finds the row of a layer: its type in upper case, turned by a horizontal layout if it
is a frame, component or instance. An unknown type is a vertical frame whatever its layout.
-/

set_option autoImplicit false

namespace DesignCompiler

/-- The axis along which a container lays out its children. A layout hint can turn it, where the
type allows that. -/
inductive Axis
  | vertical
  | horizontal
  /-- The children lie on top of each other. -/
  | none
  deriving DecidableEq

/-- How a layer is drawn. The renderers choose the form of a layer by its role. -/
inductive Role
  | container
  | text
  | shape
  | image
  | custom
  deriving DecidableEq

/-- A row of the table. A type that a horizontal layout turns has two rows, so a row alone says
everything about how a layer is drawn. -/
inductive Kind
  | frame
  | frameHorizontal
  | group
  | canvasSection
  | component
  | componentHorizontal
  | componentInstance
  | componentInstanceHorizontal
  | rectangle
  | ellipse
  | line
  | vector
  | polygon
  | regularPolygon
  | star
  | text
  | image
  deriving DecidableEq

/-- The word for an axis. -/
def Axis.token : Axis → Text
  | .vertical => "vertical".toList
  | .horizontal => "horizontal".toList
  | .none => "none".toList

/-- The word for a role. -/
def Role.token : Role → Text
  | .container => "container".toList
  | .text => "text".toList
  | .shape => "shape".toList
  | .image => "image".toList
  | .custom => "custom".toList

namespace Kind

/-- The rows of the table in the order in which they are listed. -/
def all : List Kind :=
  [.frame, .frameHorizontal, .group, .canvasSection, .component, .componentHorizontal,
   .componentInstance, .componentInstanceHorizontal, .rectangle, .ellipse, .line, .vector,
   .polygon, .regularPolygon, .star, .text, .image]

/-- The name of a row. -/
def name : Kind → Text
  | .frame => "FRAME".toList
  | .frameHorizontal => "FRAME_HORIZONTAL".toList
  | .group => "GROUP".toList
  | .canvasSection => "SECTION".toList
  | .component => "COMPONENT".toList
  | .componentHorizontal => "COMPONENT_HORIZONTAL".toList
  | .componentInstance => "INSTANCE".toList
  | .componentInstanceHorizontal => "INSTANCE_HORIZONTAL".toList
  | .rectangle => "RECTANGLE".toList
  | .ellipse => "ELLIPSE".toList
  | .line => "LINE".toList
  | .vector => "VECTOR".toList
  | .polygon => "POLYGON".toList
  | .regularPolygon => "REGULAR_POLYGON".toList
  | .star => "STAR".toList
  | .text => "TEXT".toList
  | .image => "IMAGE".toList

/-- The role of a row. -/
def role : Kind → Role
  | .frame | .frameHorizontal | .group | .canvasSection => .container
  | .component | .componentHorizontal | .componentInstance | .componentInstanceHorizontal => .custom
  | .rectangle | .ellipse | .line | .vector | .polygon | .regularPolygon | .star => .shape
  | .text => .text
  | .image => .image

/-- The axis of a row. Only the rows of frames, components and instances have one: everything else
lays its children on top of each other or has none. -/
def axis : Kind → Axis
  | .frame | .component | .componentInstance => .vertical
  | .frameHorizontal | .componentHorizontal | .componentInstanceHorizontal => .horizontal
  | _ => .none

/-- The name of the view that draws a row in SwiftUI. -/
def swiftUI? : Kind → Option Text
  | .frame => some "VStack".toList
  | .frameHorizontal => some "HStack".toList
  | .group | .canvasSection => some "ZStack".toList
  | .component | .componentHorizontal | .componentInstance | .componentInstanceHorizontal => none
  | .rectangle | .line => some "Rectangle".toList
  | .ellipse => some "Ellipse".toList
  | .vector | .polygon | .regularPolygon | .star => some "Path".toList
  | .text => some "Text".toList
  | .image => some "Image".toList

/-- The name of the composable that draws a row in Jetpack Compose. -/
def compose? : Kind → Option Text
  | .frame => some "Column".toList
  | .frameHorizontal => some "Row".toList
  | .group | .canvasSection => some "Box".toList
  | .component | .componentHorizontal | .componentInstance | .componentInstanceHorizontal => none
  | .rectangle | .ellipse | .line => some "Box".toList
  | .vector | .polygon | .regularPolygon | .star => some "Canvas".toList
  | .text => some "Text".toList
  | .image => some "Image".toList

/-- The name of the element that draws a row in React. -/
def react? : Kind → Option Text
  | .frame | .frameHorizontal | .group => some "div".toList
  | .canvasSection => some "section".toList
  | .component | .componentHorizontal | .componentInstance | .componentInstanceHorizontal => none
  | .rectangle | .ellipse | .line => some "div".toList
  | .vector | .polygon | .regularPolygon | .star => some "svg".toList
  | .text => some "p".toList
  | .image => some "img".toList

/-- The primitive that draws a row in a target, none for components and their instances, which are
drawn by their own unit. -/
def primitive? (kind : Kind) : Platform → Option Text
  | .swiftUI => kind.swiftUI?
  | .compose => kind.compose?
  | .react => kind.react?

/-- A row in words. -/
def description : Kind → Text
  | .frame => "Frame container, vertical stack".toList
  | .frameHorizontal => "Frame container with horizontal auto-layout".toList
  | .group => "Group of overlapping layers".toList
  | .canvasSection => "Canvas section".toList
  | .component => "Main component".toList
  | .componentHorizontal => "Main component with horizontal auto-layout".toList
  | .componentInstance => "Component instance".toList
  | .componentInstanceHorizontal => "Component instance with horizontal auto-layout".toList
  | .rectangle => "Rectangle shape".toList
  | .ellipse => "Ellipse shape".toList
  | .line => "Line, drawn as a thin rectangle".toList
  | .vector => "Vector path (geometry not translated)".toList
  | .polygon => "Polygon (geometry not translated)".toList
  | .regularPolygon => "Regular polygon (geometry not translated)".toList
  | .star => "Star (geometry not translated)".toList
  | .text => "Text layer".toList
  | .image => "Image placeholder".toList

/-- The row of an unknown type: the vertical frame, whatever the layout says. -/
def fallback : Kind := .frame

/-- The row with a name. -/
def ofName? (t : Text) : Option Kind := all.find? fun kind => kind.name = t

/-- The row that a horizontal layout turns a row into. Only frames, components and instances
turn. -/
def turned : Kind → Kind
  | .frame => .frameHorizontal
  | .component => .componentHorizontal
  | .componentInstance => .componentInstanceHorizontal
  | kind => kind

/-- Whether a horizontal layout turns a row. -/
def turns (kind : Kind) : Bool := kind.turned != kind

/-- The row of a layer type under a layout that is horizontal or not. The layout is looked at only
after the type is known, so an unknown type is a vertical frame even under a horizontal layout. -/
def resolve (type : Text) (horizontal : Bool) : Kind :=
  match ofName? (Text.upper type) with
  | some kind => if horizontal then kind.turned else kind
  | none => fallback

/-- Whether an unchecked layout is horizontal, in any case of letters. A blank layout is not; any
other value that is no text fails. -/
def isHorizontal (layout : Json) : Except Fault Bool :=
  if layout.isBlank then .ok false
  else match layout with
    | .text t => .ok (t.map Text.lowerAscii = Axis.horizontal.token)
    | _ => .error (.noOperation layout.kind "lower".toList)

/-- The row of an unchecked type and layout. The layout is looked at only for rows that turn. -/
def resolveValues (type layout : Json) : Except Fault Kind :=
  if type.isBlank then .ok fallback
  else match type with
    | .text t =>
      match ofName? (Text.upper t) with
      | some kind =>
        if kind.turns then
          (isHorizontal layout).map fun horizontal => if horizontal then kind.turned else kind
        else .ok kind
      | none => .ok fallback
    | _ => .error (.noOperation type.kind "upper".toList)

end Kind

end DesignCompiler
