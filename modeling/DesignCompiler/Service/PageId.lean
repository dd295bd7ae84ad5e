import DesignCompiler.Fault

/-!
# `DesignCompiler.Service.PageId`: identifiers of pages

The identifiers in a design file have colons where those in an address have hyphens.
-/

set_option autoImplicit false

namespace DesignCompiler.PageId

/-- An identifier with colons in place of hyphens. Every hyphen is replaced, also one that belongs
to the identifier itself. -/
def ofText (t : Text) : Text := Text.replaceChar '-' ':' t

/-- An unchecked identifier with colons in place of hyphens; a blank value stays as it is. -/
def ofValue (value : Json) : Except Fault Json :=
  if value.isBlank then .ok value
  else match value with
    | .text t => .ok (.text (ofText t))
    | _ => .error (.noOperation value.kind "replace".toList)

end DesignCompiler.PageId
