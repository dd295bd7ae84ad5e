import DesignCompiler.Layout.Node
import DesignCompiler.Schema.Leaf

/-!
# `DesignCompiler.Layout.Decoder`: JSON checked as a layout tree

A node is an object whose fields have two names each, one in camel case and one with underscores;
the first wins where both are given. Fields without a value have defaults, other fields are ignored.
The result is the tree or all complaints: those of a layer in the order of its fields, then those of
its children, in order.

The fields of a layer are looked up through a function from `Property`, so that a layer whose fields
come from elsewhere is checked by the same rules.

`levels` is the number of nodes that may still be inside one another. Where none is left, nothing
else is said about a value.
-/

set_option autoImplicit false

namespace DesignCompiler

open Schema

/-- The fields of a node, children aside. Names, order, check and written value are functions of
this one type, so a field is listed once. -/
inductive Property
  | id
  | type
  | name
  | x
  | y
  | width
  | height
  | backgroundColor
  | borderColor
  | borderWidth
  | borderRadius
  | text
  | textColor
  | fontSize
  | fontWeight
  | layout
  | spacing
  | padding
  deriving DecidableEq

namespace Property

/-- The name of a field with underscores. -/
def plainName : Property → Text
  | .id => "id".toList
  | .type => "type".toList
  | .name => "name".toList
  | .x => "x".toList
  | .y => "y".toList
  | .width => "width".toList
  | .height => "height".toList
  | .backgroundColor => "background_color".toList
  | .borderColor => "border_color".toList
  | .borderWidth => "border_width".toList
  | .borderRadius => "border_radius".toList
  | .text => "text".toList
  | .textColor => "text_color".toList
  | .fontSize => "font_size".toList
  | .fontWeight => "font_weight".toList
  | .layout => "layout".toList
  | .spacing => "spacing".toList
  | .padding => "padding".toList

/-- The name of a field in camel case, which written trees use. -/
def camelName : Property → Text
  | .backgroundColor => "backgroundColor".toList
  | .borderColor => "borderColor".toList
  | .borderWidth => "borderWidth".toList
  | .borderRadius => "borderRadius".toList
  | .textColor => "textColor".toList
  | .fontSize => "fontSize".toList
  | .fontWeight => "fontWeight".toList
  | property => property.plainName

end Property

/-- The name of the field that holds the children. -/
def childrenName : Text := "children".toList

/-- Where the fields of a layer come from: the value of each, with the name it was given under. The
name is part of it because a complaint names the field as it was given. -/
abbrev Given := Property → Option (Text × Json)

/-- The fields of an object, in camel case before underscores. -/
def givenBy (fields : Json.Fields) : Given := fun property =>
  Schema.given? fields [property.camelName, property.plainName]

/-- A font weight: a number or text as it is, a truth value as zero or one. Anything else is refused
by all three alternatives, and each complains. -/
def FontWeight.check : Json → Checked FontWeight
  | .int n => .accepted (.whole n)
  | .double x => .accepted (.exact x)
  | .text t => .accepted (.named t)
  | .bool b => .accepted (.whole b.toNat)
  | _ => .rejected
      [⟨.notInt, [.field "int".toList]⟩, ⟨.notNumber, [.field "float".toList]⟩,
       ⟨.notText, [.field "str".toList]⟩]

/-- The direction of a layout. -/
def Direction.check : Json → Checked Direction
  | .text t =>
    if t = Direction.horizontal.token then .accepted .horizontal
    else if t = Direction.vertical.token then .accepted .vertical
    else .refuse .notWord
  | _ => .refuse .notWord

/-- A side of a padding, zero if it is not given. All four sides are this check under their names.
-/
def Padding.side (name : Text) (fields : Json.Fields) : Checked Binary64 :=
  field (.zero false) checkNumber (Schema.given? fields [name])

/-- The sides of a padding. -/
def Padding.checkFields (fields : Json.Fields) : Checked Padding :=
  Padding.mk <$> side "top".toList fields <*> side "right".toList fields
    <*> side "bottom".toList fields <*> side "left".toList fields

/-- A padding. -/
def Padding.check : Json → Checked Padding
  | .object fields => checkFields fields
  | _ => .refuse .notModel

/-- The fields of a layer, with their defaults. The complaints come in the order of the fields, and
one unfit field does not hide another. -/
def Layer.check (given : Given) : Checked Layer :=
  Layer.mk
    <$> field [] checkText (given .id)
    <*> field [] checkText (given .type)
    <*> field [] checkText (given .name)
    <*> field (.zero false) checkNumber (given .x)
    <*> field (.zero false) checkNumber (given .y)
    <*> field (.zero false) checkNumber (given .width)
    <*> field (.zero false) checkNumber (given .height)
    <*> field none (nullable checkText) (given .backgroundColor)
    <*> field none (nullable checkText) (given .borderColor)
    <*> field none (nullable checkNumber) (given .borderWidth)
    <*> field none (nullable checkNumber) (given .borderRadius)
    <*> field none (nullable checkText) (given .text)
    <*> field none (nullable checkText) (given .textColor)
    <*> field none (nullable checkNumber) (given .fontSize)
    <*> field none (nullable FontWeight.check) (given .fontWeight)
    <*> field none (nullable Direction.check) (given .layout)
    <*> field none (nullable checkNumber) (given .spacing)
    <*> field none (nullable Padding.check) (given .padding)

mutual

/-- A node: the fields of its layer, then its children. The first argument counts the nodes that may
still be inside one another, this one included. -/
def Node.check : Nat → Json → Checked Node
  | 0, _ => .refuse .tooDeep
  | levels + 1, .object fields =>
    Node.mk <$> Layer.check (givenBy fields) <*> Node.checkChildrenIn levels fields
  | _ + 1, _ => .refuse .notModel

/-- The children among the fields of an object, none if there is no such field. -/
def Node.checkChildrenIn (levels : Nat) : Json.Fields → Checked (List Node)
  | [] => .accepted []
  | (name, value) :: rest =>
    -- Names occur once, so the first field with the name is the only one.
    if name = childrenName then (Node.checkChildren levels value).under (.field childrenName)
    else Node.checkChildrenIn levels rest

/-- The children of a node, a list of nodes. -/
def Node.checkChildren (levels : Nat) : Json → Checked (List Node)
  | .list items => Node.checkAll levels 0 items
  | _ => .refuse .notTuple

/-- The nodes of a list whose first item has the given position. Every item is checked, also behind
one with complaints. -/
def Node.checkAll (levels position : Nat) : List Json → Checked (List Node)
  | [] => .accepted []
  | item :: rest =>
    List.cons <$> (Node.check levels item).under (.position position)
      <*> Node.checkAll levels (position + 1) rest

end

/-- A value as a layout tree with at most the given number of nodes inside one another. -/
def Node.ofJson (levels : Nat) (value : Json) : Except Fault Node :=
  match Node.check levels value with
  | .accepted node => .ok node
  | .rejected issues => .error (.invalid .node issues)

/-- A value as a padding. -/
def Padding.ofJson (value : Json) : Except Fault Padding :=
  match Padding.check value with
  | .accepted padding => .ok padding
  | .rejected issues => .error (.invalid .padding issues)

/-- The members of a value that is gone through: the items of a list, the characters of a text, the
names of an object. The last two hold no layout tree, but going through them is no fault of its own.
-/
def Json.members : Json → Except Fault (List Json)
  | .list items => .ok items
  | .text t => .ok (t.map fun c => .text [c])
  | .object fields => .ok (fields.map fun entry => .text entry.1)
  | value => .error (.notIterable value.kind)

/-- The layout trees among the members of a value, each with at most the given number of nodes
inside one another. The first that is none is reported, and no later one is looked at. -/
def Node.forest (levels : Nat) (value : Json) : Except Fault (List Node) :=
  value.members.bind fun members => members.mapM (Node.ofJson levels)

end DesignCompiler
