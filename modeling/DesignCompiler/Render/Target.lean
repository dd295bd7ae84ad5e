import DesignCompiler.Render.Attribute
import DesignCompiler.Render.Block
import DesignCompiler.Text.Blank

/-!
# `DesignCompiler.Render.Target`: what a target has to spell

A `Target` is the vocabulary of one platform: how each role is written, given the name of the
primitive, the attributes with their font weights spelled, and the pieces of the children; how an
extracted component is called; and how a whole file looks. The walk over the tree is the same for
all targets.
-/

set_option autoImplicit false

namespace DesignCompiler

/-- The vocabulary of a platform. Three values of this type are all that the targets differ in; the
walk over the tree takes one of them. -/
structure Target where
  platform : Platform
  /-- The blanks of one level. -/
  unit : Text
  /-- The depth of the nodes in the main file. -/
  bodyDepth : Nat
  /-- The depth of the node in a component's file. -/
  componentDepth : Nat
  /-- A container with the pieces of its children. -/
  container : (primitive : Text) → Axis → List (Attribute Text) → List Block → Block
  /-- A node without a primitive, with the pieces of its children. -/
  custom : Layer → Axis → List (Attribute Text) → List Block → Block
  /-- A text with its content. -/
  text : (primitive content : Text) → List (Attribute Text) → Block
  shape : (primitive : Text) → List (Attribute Text) → Block
  image : (primitive name : Text) → List (Attribute Text) → Block
  /-- The call of an extracted component. -/
  reference : (name : Text) → Block
  /-- The main file around the code of its nodes, with the names of the components it calls. -/
  document : (body : Text) → (components : List Text) → Text
  /-- The file of a component around the code of its node. -/
  component : (name body : Text) → Text

/-- A word in which each run of letters begins with a capital, the rest being small; `inside` tells
whether a letter came just before. Only the underscore separates runs. -/
def titleFrom (inside : Bool) : Text → Text
  | [] => []
  | c :: rest =>
    (if inside then [Text.lowerAscii c] else Text.upperChar c) ++ titleFrom (c ≠ '_') rest

/-- The comment over a node without a primitive: its type and its name on one line. The type is one
of four words written with ASCII letters and letters whose upper case is ASCII. The name is put on
one line first, since a line feed in it would end the comment. -/
def customComment (l : Layer) : Text :=
  "// ".toList ++ titleFrom false l.type ++ ": ".toList ++ Text.onOneLine l.name

end DesignCompiler
