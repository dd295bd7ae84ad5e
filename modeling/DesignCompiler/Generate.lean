import DesignCompiler.ComponentName
import DesignCompiler.Layout.Encoder
import DesignCompiler.Render.Tree

/-!
# `DesignCompiler.Generate`: files of generated code

`Forest.inlined` draws all trees in one file. `Forest.extracted` gives each tree that has children a
file of its own, named after its layer, and calls it from the main file; of trees with the same name
the first one gets the file and the others only call it. Without trees the file is a placeholder.

`Generated.forAll` does this for every platform; a failure of one leaves the others alone.
-/

set_option autoImplicit false

namespace DesignCompiler

/-- The file of an extracted component: the name that the main file calls it by, its code, and the
extension of its target. -/
structure Component where
  name : Text
  code : Text
  fileExtension : Text
  deriving DecidableEq

/-- The result of generating code for a platform; components only if they were asked for. -/
structure Generated where
  code : Text
  platform : Platform
  components : Option (List Component)
  deriving DecidableEq

namespace Forest

/-- The file for no trees. -/
def placeholder : Text := "// No design elements found".toList

/-- The main file around some pieces. -/
def mainFile (target : Target) (pieces : List Block) (components : List Text) : Text :=
  target.document (Block.layOut target.unit target.bodyDepth pieces.flatten) components

/-- The file of a component around its piece. -/
def componentFile (target : Target) (name : Text) (piece : Block) : Component :=
  ⟨name, target.component name (Block.layOut target.unit target.componentDepth piece),
   target.platform.fileExtension⟩

/-- The pieces of the main file and the extracted components; `seen` holds the names that have a
file already.

A tree without children is drawn where it stands. Of a tree with children the main file gets the
call, and its piece goes into a component unless the name is taken. The order of the calls is that
of the trees, and the order of the components is that of the first occurrences of their names. -/
def extract (platform : Platform) (seen : List Text) :
    List Node → Except Fault (List Block × List Component)
  | [] => .ok ([], [])
  | node :: rest => do
    if node.children.isEmpty then
      let piece ← node.render platform
      let (pieces, components) ← extract platform seen rest
      return (piece :: pieces, components)
    else
      let name := ComponentName.ofName node.layer.name
      let call := platform.target.reference name
      if name ∈ seen then
        -- The tree is not drawn at all, so it cannot fail either.
        let (pieces, components) ← extract platform seen rest
        return (call :: pieces, components)
      else
        let piece ← node.render platform
        let (pieces, components) ← extract platform (name :: seen) rest
        return (call :: pieces, componentFile platform.target name piece :: components)

/-- All trees in one file. Every tree is drawn here, repeated names or not, so this can fail where
the extracted form does not. -/
def inlined (platform : Platform) (nodes : List Node) : Except Fault Text :=
  if nodes.isEmpty then .ok placeholder
  else (Node.renderAll platform nodes).map fun pieces => mainFile platform.target pieces []

/-- The main file, and a file for each tree that has children. -/
def extracted (platform : Platform) (nodes : List Node) : Except Fault (Text × List Component) :=
  if nodes.isEmpty then .ok (placeholder, [])
  else (extract platform [] nodes).map fun (pieces, components) =>
    (mainFile platform.target pieces (components.map (·.name)), components)

end Forest

namespace Generated

/-- The code of some trees for a platform. -/
def ofNodes (platform : Platform) (extract : Bool) (nodes : List Node) : Except Fault Generated :=
  if extract then
    (Forest.extracted platform nodes).map fun (code, components) =>
      ⟨code, platform, some components⟩
  else (Forest.inlined platform nodes).map fun code => ⟨code, platform, none⟩

/-- The code of unchecked trees, each with at most the given number of nodes inside one another, for
an unchecked platform. The platform is looked at first, so a wrong one is told even if the trees are
wrong too. -/
def ofValues (levels : Nat) (platform : Json) (extract : Bool) (nodes : Json) :
    Except Fault Generated := do
  let platform ← Platform.resolve platform
  let nodes ← Node.forest levels nodes
  ofNodes platform extract nodes

/-- The code of some trees for every platform. Each result stands for itself: a fault of one
platform is kept beside the code of the others. -/
def forAll (extract : Bool) (nodes : List Node) : List (Platform × Except Fault Generated) :=
  Platform.all.map fun platform => (platform, ofNodes platform extract nodes)

/-- The message logged for a platform whose code could not be generated. -/
def failureMessage (platform : Platform) : Text :=
  "Code generation failed for ".toList ++ platform.token

/-- The messages logged for the platforms whose code could not be generated. -/
def logged (results : List (Platform × Except Fault Generated)) : List Text :=
  results.filterMap fun (platform, result) =>
    match result with
    | .ok _ => none
    | .error _ => some (failureMessage platform)

end Generated

/-- A component's file as JSON. -/
def Component.toJson (c : Component) : Json :=
  .object [("name".toList, .text c.name), ("code".toList, .text c.code),
    ("fileExtension".toList, .text c.fileExtension)]

/-- Generated code as JSON fields. -/
def Generated.toFields (g : Generated) : Json.Fields :=
  [("code".toList, .text g.code), ("platform".toList, .text g.platform.token)]
    ++ (g.components.map fun components =>
      ("componentFiles".toList, Json.list (components.map Component.toJson))).toList

end DesignCompiler
