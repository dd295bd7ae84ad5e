import DesignCompiler.Number.Dimension
import DesignCompiler.Render.Literal
import DesignCompiler.Render.Target

/-!
# `DesignCompiler.Render.SwiftUI`: SwiftUI views

Containers are stacks with an alignment and the spacing as their arguments. All other attributes are
modifiers, one per line, one level below the view. The main file ends with an initialiser that reads
the colours as they are written here.
-/

set_option autoImplicit false

namespace DesignCompiler.SwiftUI

/-- The stack that draws a node without a primitive. -/
def stackName : Axis → Text
  | .vertical => "VStack".toList
  | .horizontal => "HStack".toList
  | .none => "ZStack".toList

/-- The alignment of a stack. -/
def alignment : Axis → Text
  | .vertical => ".leading".toList
  | .horizontal => ".top".toList
  | .none => ".topLeading".toList

/-- A colour. -/
def color (c : Text) : Text := "Color(hex: \"".toList ++ c ++ "\")".toList

/-- A dimension. -/
def number (x : Binary64) : Text := Dimension.write x

/-- A rectangle with rounded corners. -/
def rounded (radius : Binary64) : Text :=
  "RoundedRectangle(cornerRadius: ".toList ++ number radius ++ ")".toList

/-- The modifiers for a border: the clipping of its corners, if they are round, and the border drawn
over the view. -/
def borderModifiers (c : Text) (width radius : Binary64) : List Text :=
  -- The overlay follows the shape that the view is clipped to.
  let shape := if radius.isZero then "Rectangle()".toList else rounded radius
  let overlay := Text.unlines
    [".overlay(".toList,
     "    ".toList ++ shape,
     "        .stroke(".toList ++ color c ++ ", lineWidth: ".toList ++ number width ++ ")".toList,
     ")".toList]
  (if radius.isZero then [] else [".clipShape(".toList ++ shape ++ ")".toList]) ++ [overlay]

/-- The modifiers for an attribute of a node that plays a role. Shapes are filled where other views
get a background; the spacing is an argument of the stack. -/
def modifiers (role : Role) : Attribute Text → List Text
  | .size width height =>
    [".frame(width: ".toList ++ number width ++ ", height: ".toList ++ number height ++ ")".toList]
  | .background c =>
    [(if role = .shape then ".foregroundColor(".toList else ".background(".toList)
      ++ color c ++ ")".toList]
  | .border c width radius => borderModifiers c width radius
  | .cornerRadius radius => [".clipShape(".toList ++ rounded radius ++ ")".toList]
  | .padding sides =>
    [".padding(EdgeInsets(top: ".toList ++ number sides.top ++ ", leading: ".toList
      ++ number sides.left ++ ", bottom: ".toList ++ number sides.bottom ++ ", trailing: ".toList
      ++ number sides.right ++ "))".toList]
  | .spacing _ => []
  | .offset x y => [".offset(x: ".toList ++ number x ++ ", y: ".toList ++ number y ++ ")".toList]
  | .textColor c => [".foregroundColor(".toList ++ color c ++ ")".toList]
  | .fontSize size => [".font(.system(size: ".toList ++ number size ++ "))".toList]
  | .fontWeight word => [".fontWeight(".toList ++ word ++ ")".toList]

/-- The lines of all modifiers, one level below the view. A modifier may have several lines; each of
them becomes a line of its own here. -/
def modifierLines (role : Role) (attributes : List (Attribute Text)) : Block :=
  (attributes.flatMap (modifiers role)).flatMap Block.insideText

/-- A stack with its children. -/
def stack (name : Text) (axis : Axis) (role : Role) (attributes : List (Attribute Text))
    (children : List Block) : Block :=
  let spacing := match Attribute.spacing? attributes with
    | some gap => ", spacing: ".toList ++ number gap
    | none => []
  let head := name ++ "(alignment: ".toList ++ alignment axis ++ spacing ++ ")".toList
  (if children.isEmpty then [.outer (head ++ " \x7b\x7d".toList)]
   else Line.outer (head ++ " \x7b".toList) :: Block.innerAll children ++ [.outer "\x7d".toList])
    ++ modifierLines role attributes

/-- A file with one view around its body. -/
def view (name body : Text) : Text :=
  Text.unlines
    ["import SwiftUI".toList,
     [],
     "struct ".toList ++ name ++ ": View \x7b".toList,
     "    var body: some View \x7b".toList,
     body,
     "    \x7d".toList,
     "\x7d".toList,
     [],
     "#Preview \x7b".toList,
     "    ".toList ++ name ++ "()".toList,
     "\x7d".toList]

/-- The initialiser that reads colours. -/
def colorInitialiser : Text :=
  Text.unlines
    ["extension Color \x7b".toList,
     "    init(hex: String) \x7b".toList,
     "        let hex = hex.trimmingCharacters(in: CharacterSet.alphanumerics.inverted)".toList,
     "        var int: UInt64 = 0".toList,
     "        Scanner(string: hex).scanHexInt64(&int)".toList,
     "        let r, g, b, a: UInt64".toList,
     "        switch hex.count \x7b".toList,
     "        case 6:".toList,
     "            (r, g, b, a) = (int >> 16, int >> 8 & 0xFF, int & 0xFF, 255)".toList,
     "        case 8:".toList,
     "            (r, g, b, a) = (int >> 24, int >> 16 & 0xFF, int >> 8 & 0xFF, int & 0xFF)".toList,
     "        default:".toList,
     "            (r, g, b, a) = (0, 0, 0, 255)".toList,
     "        \x7d".toList,
     "        self.init(".toList,
     "            .sRGB,".toList,
     "            red: Double(r) / 255,".toList,
     "            green: Double(g) / 255,".toList,
     "            blue: Double(b) / 255,".toList,
     "            opacity: Double(a) / 255".toList,
     "        )".toList,
     "    \x7d".toList,
     "\x7d".toList]

/-- The name of the main view. -/
def viewName : Text := "GeneratedView".toList

/-- The vocabulary of SwiftUI. -/
def target : Target where
  platform := .swiftUI
  unit := "    ".toList
  bodyDepth := 2
  componentDepth := 2
  container primitive axis attributes children :=
    stack primitive axis .container attributes children
  custom layer axis attributes children :=
    Line.outer (customComment layer) :: stack (stackName axis) axis .custom attributes children
  text primitive content attributes :=
    Line.outer (primitive ++ "(".toList ++ Literal.swift content ++ ")".toList)
      :: modifierLines .text attributes
  shape primitive attributes :=
    Line.outer (primitive ++ "()".toList) :: modifierLines .shape attributes
  image primitive _ attributes :=
    Line.outer (primitive ++ "(systemName: \"photo\")".toList)
      :: Line.outer "    .resizable()".toList :: modifierLines .image attributes
  reference name := [.outer (name ++ "()".toList)]
  document body _ := view viewName body ++ "\n\n".toList ++ colorInitialiser ++ "\n".toList
  component name body := view name body ++ "\n".toList

end DesignCompiler.SwiftUI
