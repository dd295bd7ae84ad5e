import DesignCompiler.Fault
import DesignCompiler.Text.Ascii

/-!
# `DesignCompiler.Service.FileKey`: the key of a design file

A file is named by its key, or by an address that holds it. A text without the host name is a key
as it stands. In any other the key is the longest run of ASCII letters and digits behind the first
place where the host name, one of the two known paths, and a letter or digit follow each other.
-/

set_option autoImplicit false

namespace DesignCompiler.FileKey

open Text

/-- The host name that makes a text an address. -/
def host : Text := "figma.com".toList

/-- The host name with the paths that lead to a file. -/
def starts : List Text := ["figma.com/design/".toList, "figma.com/file/".toList]

/-- The key of an address that starts with host name and path. The run of letters and digits has to
be non-empty and ends at the first other character. -/
def keyAt? (t : Text) : Option Text :=
  (starts.findSome? fun start => after? start t).bind fun rest =>
    let key := rest.takeWhile isAlphanumeric
    if key.isEmpty then none else some key

/-- The key of the first address inside a text. The search goes on behind a host name that is not
followed by a path and a key. -/
def find? : Text → Option Text
  | [] => none
  | c :: rest =>
    match keyAt? (c :: rest) with
    | some key => some key
    | none => find? rest

/-- The key that a text names. Only a text that holds the host name is searched, so a key that was
found is a key as it stands. -/
def ofText (t : Text) : Except Fault Text :=
  if contains host t then
    match find? t with
    | some key => .ok key
    | none => .error .noFileKey
  else .ok t

/-- The key that an unchecked value names. A list or object that does not hold the host name as a
member is taken for a key. -/
def ofValue : Json → Except Fault Json
  | .text t => (ofText t).map .text
  | .list items =>
    if items.any (·.isText host) then .error (.textExpected .list) else .ok (.list items)
  | .object fields =>
    if fields.any fun entry => entry.1 = host then .error (.textExpected .object)
    else .ok (.object fields)
  | value => .error (.notIterable value.kind)

end DesignCompiler.FileKey
