import DesignCompiler.Layout.Decoder

/-!
# `DesignCompiler.Layout.Encoder`: layout trees as JSON

The written tree has camel-case names in the order of the fields. Fields without a value are left
out; `children` is always there. Numbers are written as doubles, a font weight as what it is.

`Node.toJson` writes every tree; `Node.dump` is for replies, which hold no tree of too many levels.
A dumped tree can be read again, because reading counts nodes only and not the padding.
-/

set_option autoImplicit false

namespace DesignCompiler

/-- A font weight as it is: whole numbers stay whole, so that reading gives the same weight back. -/
def FontWeight.toJson : FontWeight → Json
  | .whole n => .int n
  | .exact x => .double x
  | .named t => .text t

/-- The four sides. -/
def Padding.toJson (p : Padding) : Json :=
  .object
    [("top".toList, .double p.top), ("right".toList, .double p.right),
     ("bottom".toList, .double p.bottom), ("left".toList, .double p.left)]

/-- The value of a field, if it is written. Only the optional fields can be left out; the others are
written with their defaults too. -/
def Layer.value? (l : Layer) : Property → Option Json
  | .id => some (.text l.id)
  | .type => some (.text l.type)
  | .name => some (.text l.name)
  | .x => some (.double l.x)
  | .y => some (.double l.y)
  | .width => some (.double l.width)
  | .height => some (.double l.height)
  | .backgroundColor => l.backgroundColor.map .text
  | .borderColor => l.borderColor.map .text
  | .borderWidth => l.borderWidth.map .double
  | .borderRadius => l.borderRadius.map .double
  | .text => l.text.map .text
  | .textColor => l.textColor.map .text
  | .fontSize => l.fontSize.map .double
  | .fontWeight => l.fontWeight.map FontWeight.toJson
  | .layout => l.layout.map fun direction => .text direction.token
  | .spacing => l.spacing.map .double
  | .padding => l.padding.map Padding.toJson

/-- The fields of a layer in the order in which they are written. It is the order of the fields of
`Layer.check`. -/
def Property.all : List Property :=
  [.id, .type, .name, .x, .y, .width, .height, .backgroundColor, .borderColor, .borderWidth,
   .borderRadius, .text, .textColor, .fontSize, .fontWeight, .layout, .spacing, .padding]

/-- The written fields of a layer. -/
def Layer.toFields (l : Layer) : Json.Fields :=
  Property.all.filterMap fun property => (l.value? property).map (property.camelName, ·)

mutual

/-- A tree as JSON. -/
def Node.toJson : Node → Json
  | .mk layer children =>
    .object (layer.toFields ++ [(childrenName, .list (Node.toJsons children))])

/-- The trees of a list as JSON. -/
def Node.toJsons : List Node → List Json
  | [] => []
  | node :: rest => Node.toJson node :: Node.toJsons rest

end

/-- A tree as JSON, if it has at most the given number of levels. The count includes a padding, as
that is one more object inside its node. -/
def Node.dump (levels : Nat) (node : Node) : Except Fault Json :=
  if node.levels ≤ levels then .ok node.toJson else .error .treeTooDeep

/-- Trees as JSON, if each has at most the given number of levels. -/
def Node.dumpAll (levels : Nat) (nodes : List Node) : Except Fault (List Json) :=
  nodes.mapM (Node.dump levels)

end DesignCompiler
