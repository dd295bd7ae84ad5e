import DesignCompiler.Color
import DesignCompiler.Drawing.Basic

/-!
# `DesignCompiler.Drawing.Paint`: the colour of a list of paints

Fills and strokes are lists of paints. Only the first paint counts, and only if it is a solid that
is not marked invisible. Everything else gives no colour and is no fault, except a colour that is
there and is no object.
-/

set_option autoImplicit false

namespace DesignCompiler.Drawing

/-- The first paint of a list, if it is an object. -/
def firstPaint? : Json → Option Json.Fields
  | .list (.object paint :: _) => some paint
  | _ => none

/-- Whether a paint is a solid that can be seen. -/
def isVisibleSolid (paint : Json.Fields) : Bool :=
  (Json.fieldOrNull paint "type".toList).isText "SOLID".toList
    && match Json.fieldOrNull paint "visible".toList with
      | .bool false => false
      | _ => true

/-- The paint that gives a list of paints its colour. -/
def solidPaint? (fields : Json.Fields) (name : Text) : Option Json.Fields :=
  (firstPaint? (Json.fieldOrNull fields name)).filter isVisibleSolid

/-- The colour of the paints under a name. -/
def paintColor (fields : Json.Fields) (place : Place) (name : Text) :
    Except Fault (Option Text) :=
  match solidPaint? fields name with
  | none => .ok none
  | some paint =>
    match Json.fieldOrNull paint "color".toList with
    | .null => (Color.encodeFields []).map some
    | .object color => (Color.encodeFields color).map some
    | value => malformed fields place (.colorNotObject name value.kind)

/-- The colour of the fills. -/
def fillColor (fields : Json.Fields) (place : Place) : Except Fault (Option Text) :=
  paintColor fields place "fills".toList

/-- The colour of the strokes. -/
def strokeColor (fields : Json.Fields) (place : Place) : Except Fault (Option Text) :=
  paintColor fields place "strokes".toList

end DesignCompiler.Drawing
