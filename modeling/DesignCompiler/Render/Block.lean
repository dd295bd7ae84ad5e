import DesignCompiler.Text.Basic

/-!
# `DesignCompiler.Render.Block`: code as lines at levels

A piece of generated code is a list of lines, each with its level relative to the piece. Only
`Block.layOut` turns levels into blanks, for a depth at which the piece is to stand; a depth below
zero leaves no blanks in front of the lines it makes negative. Putting one piece inside another is
`Block.inner`, which raises the levels by one.
-/

set_option autoImplicit false

namespace DesignCompiler

/-- A line of code and its level. The text should hold no line feed of its own;
`Proofs/Render/OneLine` proves that no rendered one does. -/
structure Line where
  level : Nat
  text : Text
  deriving DecidableEq

/-- A piece of code. It does not know the depth at which it will stand, so the same piece serves the
main file and a component. -/
abbrev Block := List Line

/-- A line at the outer level of a piece. -/
def Line.outer (text : Text) : Line := ⟨0, text⟩

namespace Block

/-- A text inside a piece: each of its lines one level deep. -/
def insideText (text : Text) : Block := (Text.lines text).map fun line => ⟨1, line⟩

/-- A piece one level deeper. -/
def inner (block : Block) : Block := block.map fun line => { line with level := line.level + 1 }

/-- Pieces one after the other, all one level deeper. -/
def innerAll (blocks : List Block) : Block := (blocks.map inner).flatten

/-- A line with the blanks of its level at a depth. An empty line gets them like any other. -/
def layOutLine (unit : Text) (depth : Int) (line : Line) : Text :=
  unit.times (depth + line.level).toNat ++ line.text

/-- A piece as text at a depth. It is the only place where levels become blanks; the renderers that
hand the depth down from node to node are in `Proofs/Render/Threaded`, where they are proved to give
the same text. -/
def layOut (unit : Text) (depth : Int) (block : Block) : Text :=
  Text.unlines (block.map (layOutLine unit depth))

end Block

end DesignCompiler
