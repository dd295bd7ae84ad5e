import DesignCompiler.Number.Dimension
import DesignCompiler.Render.Literal
import DesignCompiler.Render.Target

/-!
# `DesignCompiler.Render.Compose`: Jetpack Compose functions

Every node is a call with named arguments, one per line, and, where it takes children, a trailing
lambda. Most attributes are links of one `Modifier` chain; the spacing is an arrangement, and the
attributes of a text are arguments of their own.
-/

set_option autoImplicit false

namespace DesignCompiler.Compose

/-- A named argument and its literal, which may have several lines. -/
structure Argument where
  name : Text
  literal : Text

/-- The blanks of one level. -/
def unit : Text := "    ".toList

/-- A length. -/
def dp (x : Binary64) : Text := Dimension.write x ++ ".dp".toList

/-- A colour. -/
def color (c : Text) : Text := "Color.fromHex(\"".toList ++ c ++ "\")".toList

/-- A shape with rounded corners. -/
def rounded (radius : Binary64) : Text :=
  "RoundedCornerShape(".toList ++ dp radius ++ ")".toList

/-- The radius that a background is drawn with: that of the border, or else that of the corners. -/
def shapeRadius (attributes : List (Attribute Text)) : Binary64 :=
  (attributes.findSome? fun
    | .border _ _ radius => some radius
    | .cornerRadius radius => some radius
    | _ => none).getD (.zero false)

/-- The links of the modifier chain for an attribute, given the radius of the background. Attributes
that are arguments of their own have no link. -/
def links (radius : Binary64) : Attribute Text → List Text
  | .size width height =>
    [".width(".toList ++ dp width ++ ")".toList, ".height(".toList ++ dp height ++ ")".toList]
  | .background c =>
    [".background(".toList ++ color c
      ++ (if radius.isZero then [] else ", ".toList ++ rounded radius) ++ ")".toList]
  | .border c width corner =>
    if corner.isZero then [".border(".toList ++ dp width ++ ", ".toList ++ color c ++ ")".toList]
    else
      [".clip(".toList ++ rounded corner ++ ")".toList,
       ".border(".toList ++ dp width ++ ", ".toList ++ color c ++ ", ".toList ++ rounded corner
         ++ ")".toList]
  | .cornerRadius corner => [".clip(".toList ++ rounded corner ++ ")".toList]
  | .padding sides =>
    [".padding(start = ".toList ++ dp sides.left ++ ", top = ".toList ++ dp sides.top
      ++ ", end = ".toList ++ dp sides.right ++ ", bottom = ".toList ++ dp sides.bottom
      ++ ")".toList]
  | .offset x y => [".offset(x = ".toList ++ dp x ++ ", y = ".toList ++ dp y ++ ")".toList]
  | .spacing _ | .textColor _ | .fontSize _ | .fontWeight _ => []

/-- The argument for a text's attribute. -/
def textArgument? : Attribute Text → Option Argument
  | .textColor c => some ⟨"color".toList, color c⟩
  | .fontSize size => some ⟨"fontSize".toList, Dimension.write size ++ ".sp".toList⟩
  | .fontWeight word => some ⟨"fontWeight".toList, word⟩
  | _ => none

/-- The argument with the modifier chain. Without links it is left out unless `needed`, as for a
canvas. -/
def modifierArgument (attributes : List (Attribute Text)) (needed : Bool) : List Argument :=
  -- A background is drawn in the shape of the border, which comes later in the chain.
  let chain := attributes.flatMap (links (shapeRadius attributes))
  if chain.isEmpty then (if needed then [⟨"modifier".toList, "Modifier".toList⟩] else [])
  else [⟨"modifier".toList, Text.unlines ("Modifier".toList :: chain.map (unit ++ ·))⟩]

/-- The text of an argument: name and literal. -/
def Argument.text (a : Argument) : Text := a.name ++ " = ".toList ++ a.literal

/-- The lines of arguments, one level inside the call, with a comma between each two. A literal of
several lines keeps them, and the comma follows the last. -/
def argumentLines : List Argument → Block
  | [] => []
  | [last] => Block.insideText last.text
  | next :: rest => Block.insideText (next.text ++ [',']) ++ argumentLines rest

/-- What stands after the arguments of a call. -/
inductive Content
  /-- Nothing. -/
  | absent
  /-- A lambda around the pieces of the children. -/
  | lambda (children : List Block)

/-- A line with the start of the lambda, the children and its end. A lambda without children stands
on one line. -/
def closeWith (line : Text) : Content → Block
  | .absent => [.outer line]
  | .lambda children =>
    if children.isEmpty then [.outer (line ++ " \x7b\x7d".toList)]
    else Line.outer (line ++ " \x7b".toList) :: Block.innerAll children ++ [.outer "\x7d".toList]

/-- A call. Parentheses are left out if there are no arguments but a lambda. -/
def call (name : Text) (arguments : List Argument) (content : Content) : Block :=
  if arguments.isEmpty then
    match content with
    | .absent => [.outer (name ++ "()".toList)]
    | content => closeWith name content
  else
    Line.outer (name ++ "(".toList) :: argumentLines arguments ++ closeWith ")".toList content

/-- The composable that draws a node without a primitive. -/
def customName : Axis → Text
  | .vertical => "Column".toList
  | .horizontal => "Row".toList
  | .none => "Box".toList

/-- The argument that takes the spacing, if children have an axis. -/
def arrangement? : Axis → Option Text
  | .vertical => some "verticalArrangement".toList
  | .horizontal => some "horizontalArrangement".toList
  | .none => none

/-- The argument for the spacing. It needs both a gap and an axis to lay it along. -/
def spacingArgument (axis : Axis) (attributes : List (Attribute Text)) : List Argument :=
  match Attribute.spacing? attributes, arrangement? axis with
  | some gap, some name => [⟨name, "Arrangement.spacedBy(".toList ++ dp gap ++ ")".toList⟩]
  | _, _ => []

/-- A container with its children. -/
def layout (name : Text) (axis : Axis) (attributes : List (Attribute Text))
    (children : List Block) : Block :=
  call name (modifierArgument attributes false ++ spacingArgument axis attributes)
    (.lambda children)

/-- A shape. A canvas needs a modifier and a lambda to draw in. -/
def shape (primitive : Text) (attributes : List (Attribute Text)) : Block :=
  if primitive = "Canvas".toList then
    call primitive (modifierArgument attributes true) (.lambda [])
  else call primitive (modifierArgument attributes false) .absent

/-- What every file imports, sorted, up to the place of the preview. -/
def importsBefore : List Text :=
  ["androidx.compose.foundation.Canvas".toList,
   "androidx.compose.foundation.Image".toList,
   "androidx.compose.foundation.background".toList,
   "androidx.compose.foundation.border".toList,
   "androidx.compose.foundation.layout.Arrangement".toList,
   "androidx.compose.foundation.layout.Box".toList,
   "androidx.compose.foundation.layout.Column".toList,
   "androidx.compose.foundation.layout.Row".toList,
   "androidx.compose.foundation.layout.height".toList,
   "androidx.compose.foundation.layout.offset".toList,
   "androidx.compose.foundation.layout.padding".toList,
   "androidx.compose.foundation.layout.width".toList,
   "androidx.compose.foundation.shape.RoundedCornerShape".toList,
   "androidx.compose.material3.Text".toList,
   "androidx.compose.runtime.Composable".toList,
   "androidx.compose.ui.Modifier".toList,
   "androidx.compose.ui.draw.clip".toList,
   "androidx.compose.ui.graphics.Color".toList,
   "androidx.compose.ui.graphics.painter.ColorPainter".toList,
   "androidx.compose.ui.text.font.FontWeight".toList]

/-- What every file imports, sorted, after the place of the preview. -/
def importsAfter : List Text :=
  ["androidx.compose.ui.unit.dp".toList, "androidx.compose.ui.unit.sp".toList]

/-- What only the main file imports. -/
def previewImport : Text := "androidx.compose.ui.tooling.preview.Preview".toList

/-- The package and the imports of a file. -/
def preamble (imports : List Text) : List Text :=
  ["package com.example.generated".toList, []] ++ imports.map ("import ".toList ++ ·)

/-- The name of the main function. -/
def screenName : Text := "GeneratedScreen".toList

/-- The function that reads colours. -/
def colorReader : List Text :=
  ["fun Color.Companion.fromHex(hex: String): Color \x7b".toList,
   "    val digits = hex.removePrefix(\"#\")".toList,
   "    val value = digits.toLong(16)".toList,
   "    return when (digits.length) \x7b".toList,
   "        8 -> Color(".toList,
   "            red = ((value shr 24) and 0xFF).toInt(),".toList,
   "            green = ((value shr 16) and 0xFF).toInt(),".toList,
   "            blue = ((value shr 8) and 0xFF).toInt(),".toList,
   "            alpha = (value and 0xFF).toInt()".toList,
   "        )".toList,
   "        else -> Color(".toList,
   "            red = ((value shr 16) and 0xFF).toInt(),".toList,
   "            green = ((value shr 8) and 0xFF).toInt(),".toList,
   "            blue = (value and 0xFF).toInt()".toList,
   "        )".toList,
   "    \x7d".toList,
   "\x7d".toList]

/-- A composable function around its body, which is indented already. -/
def function (name body : Text) : List Text :=
  ["@Composable".toList, "fun ".toList ++ name ++ "() \x7b".toList, body, "\x7d".toList]

/-- The main file. -/
def document (body : Text) : Text :=
  Text.unlines
    (preamble (importsBefore ++ [previewImport] ++ importsAfter) ++ [[]]
      ++ function screenName body
      ++ [[], "@Preview(showBackground = true)".toList]
      ++ function (screenName ++ "Preview".toList) (unit ++ screenName ++ "()".toList)
      ++ [[]] ++ colorReader ++ [[]])

/-- The file of a component. -/
def component (name body : Text) : Text :=
  Text.unlines (preamble (importsBefore ++ importsAfter) ++ [[]] ++ function name body ++ [[]])

/-- The vocabulary of Jetpack Compose. -/
def target : Target where
  platform := .compose
  unit := unit
  bodyDepth := 1
  componentDepth := 1
  container primitive axis attributes children := layout primitive axis attributes children
  custom layer axis attributes children :=
    Line.outer (customComment layer) :: layout (customName axis) axis attributes children
  text primitive content attributes :=
    call primitive
      (⟨"text".toList, Literal.kotlin content⟩ :: modifierArgument attributes false
        ++ attributes.filterMap textArgument?) .absent
  shape := shape
  image primitive name attributes :=
    call primitive
      (⟨"painter".toList, "ColorPainter(Color.LightGray)".toList⟩
        :: ⟨"contentDescription".toList, Literal.kotlin name⟩ :: modifierArgument attributes false)
      .absent
  reference name := [.outer (name ++ "()".toList)]
  document body _ := document body
  component := component

end DesignCompiler.Compose
