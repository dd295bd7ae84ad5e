import DesignCompiler.Number.Dimension
import DesignCompiler.Render.Literal
import DesignCompiler.Render.Target

/-!
# `DesignCompiler.Render.React`: React elements

Nodes are elements whose attributes are entries of one inline style. The axis of a container comes
first; where an entry's key is there already, its literal replaces the old one in place, so that a
style has one entry for each key. Texts are string expressions and need no escapes of markup.
-/

set_option autoImplicit false

namespace DesignCompiler.React

/-- A key of a style and its literal. -/
abbrev Entry := Text × Text

/-- A text in single quotes. -/
def quoted (t : Text) : Text := "'".toList ++ t ++ "'".toList

/-- A length in pixels. -/
def px (x : Binary64) : Text := Dimension.write x ++ "px".toList

/-- The entries for the axis of a container. They come before those of the attributes, so an offset
replaces the position in its place. -/
def axisEntries : Axis → List Entry
  | .vertical =>
    [("display".toList, "'flex'".toList), ("flexDirection".toList, "'column'".toList),
     ("position".toList, "'relative'".toList)]
  | .horizontal =>
    [("display".toList, "'flex'".toList), ("flexDirection".toList, "'row'".toList),
     ("position".toList, "'relative'".toList)]
  | .none => [("position".toList, "'relative'".toList)]

/-- The entries for an attribute. -/
def entries : Attribute Text → List Entry
  | .size width height =>
    [("width".toList, quoted (px width)), ("height".toList, quoted (px height))]
  | .background c => [("backgroundColor".toList, quoted c)]
  | .border c width radius =>
    ("border".toList, quoted (px width ++ " solid ".toList ++ c))
      :: (if radius.isZero then [] else [("borderRadius".toList, quoted (px radius))])
  | .cornerRadius radius =>
    [("borderRadius".toList, quoted (px radius)), ("overflow".toList, "'hidden'".toList)]
  | .padding sides =>
    [("padding".toList, quoted (Text.joinWith [' ']
      [px sides.top, px sides.right, px sides.bottom, px sides.left]))]
  | .spacing gap => [("gap".toList, quoted (px gap))]
  | .offset x y =>
    [("position".toList, "'absolute'".toList), ("left".toList, quoted (px x)),
     ("top".toList, quoted (px y))]
  | .textColor c => [("color".toList, quoted c)]
  | .fontSize size => [("fontSize".toList, quoted (px size))]
  | .fontWeight word => [("fontWeight".toList, word)]

/-- Sets the literal of a key: in its place if the key is there already, else at the end. A style
built with it has each key once. -/
def setEntry (entry : Entry) : List Entry → List Entry
  | [] => [entry]
  | (key, literal) :: rest =>
    if key = entry.1 then entry :: rest else (key, literal) :: setEntry entry rest

/-- One entry for each key, later literals in the place of earlier ones. -/
def merge (all : List Entry) : List Entry := all.foldl (fun style entry => setEntry entry style) []

/-- The style of an element, if it has entries. An element without entries has no style property at
all. -/
def style? (all : List Entry) : Option Text :=
  if all.isEmpty then none
  else some ("style=\x7b\x7b ".toList
    ++ Text.joinWith ", ".toList ((merge all).map fun entry => entry.1 ++ ": ".toList ++ entry.2)
    ++ " \x7d\x7d".toList)

/-- A string expression. -/
def expression (t : Text) : Text := "\x7b".toList ++ Literal.javaScript t ++ "\x7d".toList

/-- A tag with its properties, those that are there. -/
def opening (tag : Text) (properties : List (Option Text)) : Text :=
  Text.joinWith [' '] (tag :: properties.filterMap id)

/-- The tag that ends an element. -/
def closing (tag : Text) : Text := "</".toList ++ tag ++ ">".toList

/-- An element around its children. Without children it closes itself on one line. -/
def element (tag : Text) (properties : List (Option Text)) (children : List Block) : Block :=
  if children.isEmpty then [.outer ("<".toList ++ opening tag properties ++ " />".toList)]
  else
    Line.outer ("<".toList ++ opening tag properties ++ ">".toList) :: Block.innerAll children
      ++ [.outer (closing tag)]

/-- An element around a text. -/
def textElement (tag : Text) (style : Option Text) (content : Text) : Block :=
  [.outer ("<".toList ++ opening tag [style] ++ ">".toList ++ expression content ++ closing tag)]

/-- The style of a container. -/
def containerStyle (axis : Axis) (attributes : List (Attribute Text)) : Option Text :=
  style? (axisEntries axis ++ attributes.flatMap entries)

/-- The style of a text, shape or image. -/
def leafStyle (attributes : List (Attribute Text)) : Option Text :=
  style? (attributes.flatMap entries)

/-- The name of the main component. -/
def componentName : Text := "GeneratedComponent".toList

/-- The line that imports React. -/
def reactImport : Text := "import React from 'react';".toList

/-- The main file. -/
def document (body : Text) (components : List Text) : Text :=
  Text.unlines
    (reactImport
      :: components.map (fun name =>
        "import ".toList ++ name ++ " from './".toList ++ name ++ "';".toList)
      ++ [[],
       "const ".toList ++ componentName ++ ": React.FC = () => \x7b".toList,
       "  return (".toList,
       "    <div className=\"figma-container\">".toList,
       body,
       "    </div>".toList,
       "  );".toList,
       "\x7d;".toList,
       [],
       "export default ".toList ++ componentName ++ ";".toList,
       []])

/-- The file of a component. -/
def component (name body : Text) : Text :=
  Text.unlines
    [reactImport,
     [],
     "const ".toList ++ name ++ ": React.FC = () => \x7b".toList,
     "  return (".toList,
     body,
     "  );".toList,
     "\x7d;".toList,
     [],
     "export default ".toList ++ name ++ ";".toList,
     []]

/-- The vocabulary of React. -/
def target : Target where
  platform := .react
  unit := "  ".toList
  bodyDepth := 3
  componentDepth := 2
  container primitive axis attributes children :=
    element primitive [containerStyle axis attributes] children
  custom layer axis attributes children :=
    element "div".toList
      [some ("data-figma-component=".toList ++ expression (Text.onOneLine layer.name)),
       containerStyle axis attributes] children
  text primitive content attributes := textElement primitive (leafStyle attributes) content
  shape primitive attributes := element primitive [leafStyle attributes] []
  image primitive name attributes :=
    element primitive [some ("alt=".toList ++ expression name), leafStyle attributes] []
  reference name := [.outer ("<".toList ++ name ++ " />".toList)]
  document := document
  component := component

end DesignCompiler.React
