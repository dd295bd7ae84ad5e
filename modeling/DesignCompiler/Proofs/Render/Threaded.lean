import DesignCompiler.Proofs.Render.Enclosure

/-!
# `DesignCompiler.Proofs.Render.Threaded`: the depth handed down the tree

`Node.render` gives lines at levels, and only `Block.layOut` puts blanks in front of them. A
generator of code is more often written the other way: each function is told the depth at which it
writes, puts the blanks of that depth in front of its own lines, and takes the code of the children
as texts that stand one level deeper already. `Node.renderFrom` is that generator. It never sees a
`Block`: it joins texts, and a text of several lines is cut where it has to be indented.

Both give the same text, for every tree and at every depth, and both fail with the same fault
(`Node.renderFrom_eq_renderAt`). So what is proved of `Node.renderAt` is proved of a generator that
threads the depth, and the levels of a `Block` are only a way to reason about it.

The induction over the tree needs one thing from each target, `Renderer.Writes`: what the renderer
writes around the texts of the children is what the target draws around their pieces, laid out. A
piece without lines would be a text with one, an empty one, so the pieces have to have lines. All
code has (`Platform.keeps_ne_nil`), whatever stands in it.
-/

set_option autoImplicit false

namespace DesignCompiler

open Text

/-! ### Writing at a depth -/

/-- The blanks in front of a line at a depth; a depth below zero leaves none. -/
def Target.margin (target : Target) (depth : Int) : Text := target.unit.times depth.toNat

/-- The vocabulary of a platform with the depth as a parameter. The code of the children is text,
written for the next depth. -/
structure Renderer where
  /-- A container around the code of its children. -/
  container : (primitive : Text) → Axis → List (Attribute Text) → (children : List Text) →
    (depth : Int) → Text
  /-- A node without a primitive, around the code of its children. -/
  custom : Layer → Axis → List (Attribute Text) → (children : List Text) → (depth : Int) → Text
  /-- A text with its content. -/
  text : (primitive content : Text) → List (Attribute Text) → (depth : Int) → Text
  shape : (primitive : Text) → List (Attribute Text) → (depth : Int) → Text
  image : (primitive name : Text) → List (Attribute Text) → (depth : Int) → Text

namespace SwiftUI

/-- The parameters of a stack: its alignment, and its spacing if it has one. -/
def parameters (axis : Axis) (attributes : List (Attribute Text)) : List Text :=
  ("alignment: ".toList ++ alignment axis) :: match Attribute.spacing? attributes with
    | some gap => ["spacing: ".toList ++ number gap]
    | none => []

/-- The lines of a view and of its modifiers. A modifier may have several lines, and each of them is
put one level below the view. -/
def modifiedAt (view : List Text) (role : Role) (attributes : List (Attribute Text))
    (depth : Int) : Text :=
  unlines (view ++ (attributes.flatMap (modifiers role)).flatMap fun modifier =>
    (lines modifier).map (target.margin (depth + 1) ++ ·))

/-- A stack at a depth, with the code of its children between the braces. -/
def stackAt (name : Text) (axis : Axis) (role : Role) (attributes : List (Attribute Text))
    (children : List Text) (depth : Int) : Text :=
  let start := target.margin depth
  let head := start ++ name ++ "(".toList ++ joinWith ", ".toList (parameters axis attributes)
    ++ ")".toList
  modifiedAt
    (if children.isEmpty then [head ++ " \x7b\x7d".toList]
      else (head ++ " \x7b".toList) :: children ++ [start ++ "\x7d".toList])
    role attributes depth

/-- The renderer of SwiftUI. -/
def renderer : Renderer where
  container primitive axis attributes children depth :=
    stackAt primitive axis .container attributes children depth
  custom layer axis attributes children depth :=
    target.margin depth ++ customComment layer ++ "\n".toList
      ++ stackAt (stackName axis) axis .custom attributes children depth
  text primitive content attributes depth :=
    modifiedAt [target.margin depth ++ primitive ++ "(".toList ++ Literal.swift content
      ++ ")".toList] .text attributes depth
  shape primitive attributes depth :=
    modifiedAt [target.margin depth ++ primitive ++ "()".toList] .shape attributes depth
  image primitive _ attributes depth :=
    let start := target.margin depth
    modifiedAt [start ++ primitive ++ "(systemName: \"photo\")".toList,
      start ++ "    .resizable()".toList] .image attributes depth

end SwiftUI

namespace Compose

/-- An argument at a depth: its name stands in front of the first line of the literal, and the other
lines are indented like the first. -/
def argumentAt (depth : Int) (a : Argument) : Text :=
  let start := target.margin depth
  unlines ((start ++ a.name ++ " = ".toList ++ (lines a.literal).headD [])
    :: (lines a.literal).tail.map (start ++ ·))

/-- The lambda behind a call, with the code of the children between the braces. -/
def lambdaAt (children : List Text) (depth : Int) : Text :=
  if children.isEmpty then " \x7b\x7d".toList
  else " \x7b\n".toList ++ unlines children ++ "\n".toList ++ target.margin depth ++ "\x7d".toList

/-- A call at a depth; where there is no content, there is no lambda. -/
def callAt (name : Text) (arguments : List Argument) (content : Option (List Text))
    (depth : Int) : Text :=
  let start := target.margin depth
  let head :=
    if arguments.isEmpty then start ++ name
    else start ++ name ++ "(\n".toList
      ++ joinWith ",\n".toList (arguments.map (argumentAt (depth + 1)))
      ++ "\n".toList ++ start ++ ")".toList
  match content with
  | some children => head ++ lambdaAt children depth
  | none => if arguments.isEmpty then head ++ "()".toList else head

/-- The renderer of Jetpack Compose. -/
def renderer : Renderer where
  container primitive axis attributes children depth :=
    callAt primitive (modifierArgument attributes false ++ spacingArgument axis attributes)
      (some children) depth
  custom layer axis attributes children depth :=
    target.margin depth ++ customComment layer ++ "\n".toList
      ++ callAt (customName axis)
        (modifierArgument attributes false ++ spacingArgument axis attributes) (some children) depth
  text primitive content attributes depth :=
    callAt primitive
      (⟨"text".toList, Literal.kotlin content⟩ :: modifierArgument attributes false
        ++ attributes.filterMap textArgument?) none depth
  shape primitive attributes depth :=
    if primitive = "Canvas".toList then
      callAt primitive (modifierArgument attributes true) (some []) depth
    else callAt primitive (modifierArgument attributes false) none depth
  image primitive name attributes depth :=
    callAt primitive
      (⟨"painter".toList, "ColorPainter(Color.LightGray)".toList⟩
        :: ⟨"contentDescription".toList, Literal.kotlin name⟩ :: modifierArgument attributes false)
      none depth

end Compose

namespace React

/-- An element at a depth, with the code of its children between the tags. -/
def elementAt (tag : Text) (properties : List (Option Text)) (children : List Text)
    (depth : Int) : Text :=
  let start := target.margin depth
  if children.isEmpty then start ++ "<".toList ++ opening tag properties ++ " />".toList
  else start ++ "<".toList ++ opening tag properties ++ ">\n".toList ++ unlines children
    ++ "\n".toList ++ start ++ closing tag

/-- The renderer of React. -/
def renderer : Renderer where
  container primitive axis attributes children depth :=
    elementAt primitive [containerStyle axis attributes] children depth
  custom layer axis attributes children depth :=
    elementAt "div".toList
      [some ("data-figma-component=".toList ++ expression (Text.onOneLine layer.name)),
       containerStyle axis attributes] children depth
  text primitive content attributes depth :=
    target.margin depth ++ "<".toList ++ opening primitive [leafStyle attributes] ++ ">".toList
      ++ expression content ++ closing primitive
  shape primitive attributes depth := elementAt primitive [leafStyle attributes] [] depth
  image primitive name attributes depth :=
    elementAt primitive [some ("alt=".toList ++ expression name), leafStyle attributes] [] depth

end React

/-- The renderer of a platform. -/
def Platform.renderer : Platform → Renderer
  | .swiftUI => SwiftUI.renderer
  | .compose => Compose.renderer
  | .react => React.renderer

mutual

/-- A tree as text at a depth. The children are written at the next one, and the renderer is told
the depth of the node. -/
def Node.renderFrom (platform : Platform) (depth : Int) : Node → Except Fault Text
  | .mk layer children => do
    let renderer := platform.renderer
    let kind := layer.kind (!children.isEmpty)
    let attributes ← Attribute.spell platform (Attribute.collect layer kind.role (some kind.axis))
    let primitive := kind.primitive? platform
    match kind.role with
    | .text =>
      return renderer.text (primitive.getD []) ((Attribute.filled? layer.text).getD sampleText)
        attributes depth
    | .shape => return renderer.shape (primitive.getD []) attributes depth
    | .image => return renderer.image (primitive.getD []) layer.name attributes depth
    | .container | .custom =>
      let codes ← Node.renderAllFrom platform (depth + 1) children
      match primitive with
      | some name => return renderer.container name kind.axis attributes codes depth
      | none => return renderer.custom layer kind.axis attributes codes depth

/-- The trees of a list as texts at a depth. -/
def Node.renderAllFrom (platform : Platform) (depth : Int) :
    List Node → Except Fault (List Text)
  | [] => .ok []
  | node :: rest => do
    let code ← Node.renderFrom platform depth node
    let codes ← Node.renderAllFrom platform depth rest
    return code :: codes

end

/-! ### Pieces have lines -/

namespace SwiftUI

/-- A stack has a line with its name. -/
theorem stack_ne_nil (name : Text) (axis : Axis) (role : Role) (attributes : List (Attribute Text))
    (children : List Block) : stack name axis role attributes children ≠ [] := by
  obtain ⟨spacing, -, hstack⟩ := exists_stack_eq name axis role attributes children
  rw [hstack]
  split <;> simp

/-- Every piece of SwiftUI has a line, that of its view or of the comment over it. -/
theorem keeps_ne_nil : target.Keeps (fun _ => True) (· ≠ []) where
  container _ _ _ := stack_ne_nil _ _ _ _ _
  custom _ _ _ := List.cons_ne_nil _ _
  text _ _ := List.cons_ne_nil _ _
  shape _ _ := List.cons_ne_nil _ _
  image _ _ := List.cons_ne_nil _ _

end SwiftUI

namespace Compose

/-- The end of a call has a line. -/
theorem closeWith_ne_nil (line : Text) (content : Content) : closeWith line content ≠ [] := by
  cases content with
  | absent => exact List.cons_ne_nil _ _
  | lambda children =>
    rw [closeWith]
    split <;> simp

/-- A call has a line with its name. -/
theorem call_ne_nil (name : Text) (arguments : List Argument) (content : Content) :
    call name arguments content ≠ [] := by
  unfold call
  split
  · split
    · exact List.cons_ne_nil _ _
    · exact closeWith_ne_nil name content
  · simp

/-- Every piece of Compose has a line, that of its call or of the comment over it. -/
theorem keeps_ne_nil : target.Keeps (fun _ => True) (· ≠ []) where
  container _ _ _ := call_ne_nil _ _ _
  custom _ _ _ := List.cons_ne_nil _ _
  text _ _ := by
    simp only [target]
    exact call_ne_nil _ _ _
  shape {name attributes} _ _ := by
    show shape name attributes ≠ []
    rw [shape]
    split
    · exact call_ne_nil _ _ _
    · exact call_ne_nil _ _ _
  image _ _ := by
    simp only [target]
    exact call_ne_nil _ _ _

end Compose

namespace React

/-- An element has a line with its tag. -/
theorem element_ne_nil (tag : Text) (properties : List (Option Text)) (children : List Block) :
    element tag properties children ≠ [] := by
  rw [element]
  split <;> simp

/-- Every piece of React has a line, that of its tag. -/
theorem keeps_ne_nil : target.Keeps (fun _ => True) (· ≠ []) where
  container _ _ _ := element_ne_nil _ _ _
  custom _ _ _ := element_ne_nil _ _ _
  text _ _ := List.cons_ne_nil _ _
  shape _ _ := element_ne_nil _ _ []
  image _ _ := element_ne_nil _ _ []

end React

/-- Every piece of code has a line, on every platform and whatever stands in it: a property that
every target keeps, with nothing to ask of the characters that are taken over. -/
theorem Platform.keeps_ne_nil (platform : Platform) :
    platform.target.Keeps (fun _ => True) (· ≠ []) := by
  cases platform with
  | swiftUI => exact SwiftUI.keeps_ne_nil
  | compose => exact Compose.keeps_ne_nil
  | react => exact React.keeps_ne_nil

/-- The pieces of trees have lines. No condition on the colours is needed for that. -/
theorem Node.ne_nil_of_renderAll {platform : Platform} {nodes : List Node} {pieces : List Block}
    (h : renderAll platform nodes = .ok pieces) : ∀ piece ∈ pieces, piece ≠ [] :=
  platform.keeps_ne_nil.renderAll (fun _ _ => trivial) (fun _ _ _ _ => trivial) h

/-! ### Laying out around pieces -/

namespace Block

/-- A line of the piece itself has the blanks of the depth in front, and no more. -/
theorem layOutLine_outer (target : Target) (depth : Int) (t : Text) :
    layOutLine target.unit depth (.outer t) = target.margin depth ++ t := by
  rw [layOutLine, Line.outer, Target.margin]
  simp

/-- A text put inside a piece has each of its lines at the next depth. -/
theorem map_layOutLine_insideText (target : Target) (depth : Int) (t : Text) :
    (insideText t).map (layOutLine target.unit depth)
      = (lines t).map (target.margin (depth + 1) ++ ·) := by
  rw [insideText, List.map_map]
  rfl

/-- Pieces between lines are laid out one by one, at the next depth: joining the lines of the pieces
is joining the pieces that are laid out. -/
theorem layOut_innerAll_between (unit : Text) (front : Block) {pieces : List Block}
    (hpieces : ∀ piece ∈ pieces, piece ≠ []) (back : Block) (depth : Int) :
    layOut unit depth (front ++ innerAll pieces ++ back)
      = unlines (front.map (layOutLine unit depth) ++ pieces.map (layOut unit (depth + 1))
        ++ back.map (layOutLine unit depth)) := by
  -- A line of the block is a part of one line, and a piece is a part of several.
  let single (block : Block) : List (List Text) :=
    block.map fun line => [layOutLine unit depth line]
  let parts := single front ++ pieces.map (List.map (layOutLine unit (depth + 1))) ++ single back
  have hsingle : ∀ block, (single block).flatten = block.map (layOutLine unit depth) := by
    intro block
    rw [List.map_eq_flatMap, List.flatMap_def]
  have hunlines : ∀ block, (single block).map unlines = block.map (layOutLine unit depth) := by
    intro block
    rw [List.map_map]
    rfl
  have hne : ∀ part ∈ parts, part ≠ [] := by
    intro part hpart
    rcases List.mem_append.mp hpart with hpart | hpart
    · rcases List.mem_append.mp hpart with hpart | hpart
      · obtain ⟨line, -, rfl⟩ := List.mem_map.mp hpart
        exact List.cons_ne_nil _ _
      · obtain ⟨piece, hpiece, rfl⟩ := List.mem_map.mp hpart
        simpa using hpieces piece hpiece
    · obtain ⟨line, -, rfl⟩ := List.mem_map.mp hpart
      exact List.cons_ne_nil _ _
  calc layOut unit depth (front ++ innerAll pieces ++ back)
      = unlines parts.flatten := by
        rw [layOut, List.map_append, List.map_append, map_layOutLine_innerAll, List.flatten_append,
          List.flatten_append, hsingle, hsingle, List.flatMap_def]
    _ = unlines (parts.map unlines) := unlines_flatten hne
    _ = _ := by
        rw [List.map_append, List.map_append, hunlines, hunlines, List.map_map]
        rfl

/-- Two pieces one after the other, laid out. Each has a line, or there would be no line feed
between them. -/
theorem layOut_append (unit : Text) {front back : Block} (hfront : front ≠ []) (hback : back ≠ [])
    (depth : Int) : layOut unit depth (front ++ back)
      = layOut unit depth front ++ "\n".toList ++ layOut unit depth back := by
  rw [layOut, List.map_append, unlines_append (by simpa using hfront) (by simpa using hback),
    List.append_assoc]
  rfl

/-- A piece of one such line is this line. -/
theorem layOut_outer (target : Target) (depth : Int) (t : Text) :
    layOut target.unit depth [.outer t] = target.margin depth ++ t := by
  rw [layOut, List.map_singleton, layOutLine_outer, unlines_singleton]

/-- Pieces between a first and a last line, laid out: a lambda or an element around its children. -/
theorem layOut_around (target : Target) (first last : Text) {pieces : List Block}
    (hne : pieces ≠ []) (hpieces : ∀ piece ∈ pieces, piece ≠ []) (depth : Int) :
    layOut target.unit depth (Line.outer first :: innerAll pieces ++ [.outer last])
      = target.margin depth ++ first ++ "\n".toList
        ++ unlines (pieces.map (layOut target.unit (depth + 1))) ++ "\n".toList
        ++ (target.margin depth ++ last) := by
  have hcodes : pieces.map (layOut target.unit (depth + 1)) ≠ [] := by simpa using hne
  rw [← List.singleton_append, layOut_innerAll_between _ _ hpieces, List.map_singleton,
    List.map_singleton, layOutLine_outer, layOutLine_outer, unlines_append (by simp) (by simp),
    unlines_append (by simp) hcodes, unlines_singleton, unlines_singleton]
  simp only [List.append_assoc]
  rfl

end Block

/-- A renderer writes what a target draws: around the codes of the children it puts what the target
puts around their pieces, laid out at the depth. -/
structure Renderer.Writes (renderer : Renderer) (target : Target) : Prop where
  container : ∀ (name : Text) (axis : Axis) (attributes : List (Attribute Text))
    {pieces : List Block} (depth : Int), (∀ piece ∈ pieces, piece ≠ []) →
      renderer.container name axis attributes (pieces.map (Block.layOut target.unit (depth + 1)))
          depth
        = Block.layOut target.unit depth (target.container name axis attributes pieces)
  custom : ∀ (l : Layer) (axis : Axis) (attributes : List (Attribute Text))
    {pieces : List Block} (depth : Int), (∀ piece ∈ pieces, piece ≠ []) →
      renderer.custom l axis attributes (pieces.map (Block.layOut target.unit (depth + 1))) depth
        = Block.layOut target.unit depth (target.custom l axis attributes pieces)
  text : ∀ (name content : Text) (attributes : List (Attribute Text)) (depth : Int),
    renderer.text name content attributes depth
      = Block.layOut target.unit depth (target.text name content attributes)
  shape : ∀ (name : Text) (attributes : List (Attribute Text)) (depth : Int),
    renderer.shape name attributes depth
      = Block.layOut target.unit depth (target.shape name attributes)
  image : ∀ (name title : Text) (attributes : List (Attribute Text)) (depth : Int),
    renderer.image name title attributes depth
      = Block.layOut target.unit depth (target.image name title attributes)

/-! ### SwiftUI -/

namespace SwiftUI

/-- The lines of the modifiers, laid out: each modifier is cut into lines, and these stand one level
below the view. -/
theorem map_layOutLine_modifierLines (role : Role) (attributes : List (Attribute Text))
    (depth : Int) : (modifierLines role attributes).map (Block.layOutLine target.unit depth)
      = (attributes.flatMap (modifiers role)).flatMap fun modifier =>
        (lines modifier).map (target.margin (depth + 1) ++ ·) := by
  rw [modifierLines, List.map_flatMap]
  simp only [Block.map_layOutLine_insideText]

/-- A view of a few lines of its own, with its modifiers behind them. -/
theorem modifiedAt_eq (view : Block) (role : Role) (attributes : List (Attribute Text))
    (depth : Int) : modifiedAt (view.map (Block.layOutLine target.unit depth)) role attributes depth
      = Block.layOut target.unit depth (view ++ modifierLines role attributes) := by
  rw [Block.layOut, List.map_append, map_layOutLine_modifierLines, modifiedAt]

/-- What stands in front of the braces of a stack is its name with the parameters in brackets. -/
theorem stack_eq (name : Text) (axis : Axis) (role : Role) (attributes : List (Attribute Text))
    (children : List Block) :
    stack name axis role attributes children
      = (if children.isEmpty then
          [.outer (name ++ "(".toList ++ joinWith ", ".toList (parameters axis attributes)
            ++ ")".toList ++ " \x7b\x7d".toList)]
        else
          Line.outer (name ++ "(".toList ++ joinWith ", ".toList (parameters axis attributes)
            ++ ")".toList ++ " \x7b".toList) :: Block.innerAll children ++ [.outer "\x7d".toList])
        ++ modifierLines role attributes := by
  have hopen : "(alignment: ".toList = "(".toList ++ "alignment: ".toList := rfl
  have hgap : ", spacing: ".toList = ", ".toList ++ "spacing: ".toList := rfl
  unfold stack parameters
  cases Attribute.spacing? attributes with
  | none => simp only [joinWith, hopen, List.append_assoc, List.append_nil]
  | some gap => simp only [joinWith, hopen, hgap, List.append_assoc]

/-- A stack is written as it is drawn. Its modifiers stand behind the brace, so the children are in
the middle of the lines. -/
theorem stackAt_eq (name : Text) (axis : Axis) (role : Role) (attributes : List (Attribute Text))
    {pieces : List Block} (depth : Int) (hpieces : ∀ piece ∈ pieces, piece ≠ []) :
    stackAt name axis role attributes (pieces.map (Block.layOut target.unit (depth + 1))) depth
      = Block.layOut target.unit depth (stack name axis role attributes pieces) := by
  rw [stack_eq, stackAt]
  -- Without children the braces are closed on the line of the name.
  cases pieces with
  | nil =>
    refine Eq.trans ?_ (modifiedAt_eq [.outer _] role attributes depth)
    rw [List.map_singleton, Block.layOutLine_outer]
    simp only [List.map_nil, List.isEmpty_nil, if_true, List.append_assoc]
  | cons piece rest =>
    have hbetween := Block.layOut_innerAll_between target.unit
      [.outer (name ++ "(".toList ++ joinWith ", ".toList (parameters axis attributes)
        ++ ")".toList ++ " \x7b".toList)] hpieces
      (.outer "\x7d".toList :: modifierLines role attributes) depth
    rw [List.map_singleton, @List.map_cons _ _ _ (Line.outer _), Block.layOutLine_outer,
      Block.layOutLine_outer, map_layOutLine_modifierLines] at hbetween
    rw [if_neg (by simp), if_neg (by simp), modifiedAt]
    simpa only [List.append_assoc, List.cons_append, List.nil_append] using hbetween.symm

/-- The renderer of SwiftUI writes what the target draws. -/
theorem writes : renderer.Writes target where
  container name axis attributes _ depth hpieces :=
    stackAt_eq name axis .container attributes depth hpieces
  custom l axis attributes pieces depth hpieces := by
    -- The comment is a line of its own over the stack.
    have hstack := stack_ne_nil (stackName axis) axis .custom attributes pieces
    refine Eq.trans ?_ (Block.layOut_append target.unit (List.cons_ne_nil _ []) hstack depth).symm
    rw [Block.layOut_outer, ← stackAt_eq _ _ _ _ _ hpieces]
    rfl
  text name content attributes depth := by
    refine Eq.trans ?_ (modifiedAt_eq [.outer _] .text attributes depth)
    rw [List.map_singleton, Block.layOutLine_outer]
    simp only [renderer, List.append_assoc]
  shape name attributes depth := by
    refine Eq.trans ?_ (modifiedAt_eq [.outer _] .shape attributes depth)
    rw [List.map_singleton, Block.layOutLine_outer]
    simp only [renderer, List.append_assoc]
  image name title attributes depth := by
    refine Eq.trans ?_ (modifiedAt_eq [.outer _, .outer _] .image attributes depth)
    rw [List.map_cons, List.map_singleton, Block.layOutLine_outer, Block.layOutLine_outer]
    simp only [renderer, List.append_assoc]

end SwiftUI

/-! ### Compose -/

namespace Compose

/-- An argument whose name is on one line is its text with each line indented. The name goes in
front of the first line of the literal, which is cut apart from the others for that. -/
theorem argumentAt_eq {a : Argument} (hname : Unbroken a.name) (depth : Int) :
    argumentAt depth a = indented (target.margin depth) a.text := by
  have hfront : Unbroken (a.name ++ " = ".toList) := unbroken_append.mpr ⟨hname, by decide⟩
  rw [indented, Argument.text, lines_unbroken_append hfront, List.map_cons, argumentAt]
  simp only [List.append_assoc]

/-- What stands behind the last line of a text is not indented. -/
theorem indented_append_unbroken (indent t : Text) {b : Text} (hb : Unbroken b) :
    indented indent (t ++ b) = indented indent t ++ b := by
  obtain ⟨init, last, hlines, hmore⟩ := @lines_append_unbroken t b hb
  rw [indented, indented, hlines, hmore, List.map_append, List.map_append, List.map_singleton,
    List.map_singleton]
  cases init with
  | nil => simp [unlines, joinWith]
  | cons first rest =>
    rw [unlines_append (by simp) (by simp), unlines_append (by simp) (by simp), unlines_singleton,
      unlines_singleton]
    simp only [List.append_assoc, List.cons_append]

/-- A text put inside a piece is indented to the next depth. -/
theorem layOut_insideText (t : Text) (depth : Int) :
    Block.layOut target.unit depth (Block.insideText t)
      = indented (target.margin (depth + 1)) t := by
  rw [Block.layOut, Block.map_layOutLine_insideText, indented]

/-- The lines of one argument or more are no empty piece. -/
theorem argumentLines_cons_ne_nil (a : Argument) (rest : List Argument) :
    argumentLines (a :: rest) ≠ [] := by
  cases rest with
  | nil => simpa [argumentLines, Block.insideText] using lines_ne_nil _
  | cons next more => simp [argumentLines, Block.insideText, lines_ne_nil]

/-- Arguments are joined by a comma and a line feed. In the piece of a call the comma ends the last
line of an argument instead; it is not a line of its own, so it is not indented. -/
theorem layOut_argumentLines {arguments : List Argument} (hne : arguments ≠ [])
    (hnames : ∀ a ∈ arguments, Unbroken a.name) (depth : Int) :
    Block.layOut target.unit depth (argumentLines arguments)
      = joinWith ",\n".toList (arguments.map (argumentAt (depth + 1))) := by
  induction arguments with
  | nil => exact absurd rfl hne
  | cons a rest ih =>
    obtain ⟨ha, hrest⟩ := List.forall_mem_cons.mp hnames
    cases rest with
    | nil =>
      rw [argumentLines, layOut_insideText, List.map_singleton, argumentAt_eq ha]
      rfl
    | cons next more =>
      have hinside : Block.insideText (a.text ++ [',']) ≠ [] := by
        simpa [Block.insideText] using lines_ne_nil _
      -- In a block the comma belongs to the argument in front of it, here to what joins the two.
      calc Block.layOut target.unit depth (argumentLines (a :: next :: more))
          = indented (target.margin (depth + 1)) (a.text ++ [',']) ++ "\n".toList
              ++ Block.layOut target.unit depth (argumentLines (next :: more)) := by
            rw [argumentLines, Block.layOut_append target.unit hinside
              (argumentLines_cons_ne_nil next more), layOut_insideText]
            exact List.cons_ne_nil next more
        _ = argumentAt (depth + 1) a ++ ",\n".toList
              ++ joinWith ",\n".toList ((next :: more).map (argumentAt (depth + 1))) := by
            rw [indented_append_unbroken _ _ (by decide), ← argumentAt_eq ha,
              ih (List.cons_ne_nil next more) hrest, List.append_assoc _ [',']]
            rfl
        _ = joinWith ",\n".toList ((a :: next :: more).map (argumentAt (depth + 1))) :=
            (joinWith_append ",\n".toList (List.cons_ne_nil (argumentAt (depth + 1) a) [])
              (List.cons_ne_nil _ _)).symm

/-- A line with a lambda behind it. The lambda goes on where the line ends, so no blanks stand in
front of its brace. -/
theorem layOut_closeWith (line : Text) {pieces : List Block}
    (hpieces : ∀ piece ∈ pieces, piece ≠ []) (depth : Int) :
    Block.layOut target.unit depth (closeWith line (.lambda pieces))
      = target.margin depth ++ line
        ++ lambdaAt (pieces.map (Block.layOut target.unit (depth + 1))) depth := by
  rw [closeWith, lambdaAt]
  cases pieces with
  | nil =>
    simp only [List.map_nil, List.isEmpty_nil, if_true, Block.layOut_outer, List.append_assoc]
  | cons piece rest =>
    rw [if_neg (by simp), if_neg (by simp), Block.layOut_around target _ _ (by simp) hpieces]
    simp only [List.append_assoc]
    rfl

/-- What a call begins with, if it has arguments: they stand between the brackets, and the line with
the second bracket is the last one, on which the content goes on. -/
theorem layOut_call (name : Text) {arguments : List Argument} (hne : arguments ≠ [])
    (hnames : ∀ a ∈ arguments, Unbroken a.name) (content : Content) (depth : Int) :
    Block.layOut target.unit depth (call name arguments content)
      = target.margin depth ++ name ++ "(\n".toList
        ++ joinWith ",\n".toList (arguments.map (argumentAt (depth + 1))) ++ "\n".toList
        ++ Block.layOut target.unit depth (closeWith ")".toList content) := by
  obtain ⟨a, rest, rfl⟩ := List.exists_cons_of_ne_nil hne
  have hlines := argumentLines_cons_ne_nil a rest
  have hclose := closeWith_ne_nil ")".toList content
  unfold call
  rw [if_neg (by simp), List.cons_append, ← List.singleton_append,
    Block.layOut_append target.unit (List.cons_ne_nil _ _) (by simp [hlines]),
    Block.layOut_append target.unit hlines hclose, layOut_argumentLines hne hnames,
    Block.layOut_outer]
  simp only [List.append_assoc]
  rfl

/-- A call with a lambda is written as it is drawn, with arguments and without. -/
theorem callAt_some_eq (name : Text) {arguments : List Argument}
    (hnames : ∀ a ∈ arguments, Unbroken a.name) {pieces : List Block}
    (hpieces : ∀ piece ∈ pieces, piece ≠ []) (depth : Int) :
    callAt name arguments (some (pieces.map (Block.layOut target.unit (depth + 1)))) depth
      = Block.layOut target.unit depth (call name arguments (.lambda pieces)) := by
  rw [callAt]
  by_cases hne : arguments = []
  · subst hne
    exact (layOut_closeWith name hpieces depth).symm
  · rw [layOut_call name hne hnames, layOut_closeWith _ hpieces, if_neg (by simpa using hne)]
    simp only [List.append_assoc]

/-- A call without a lambda is written as it is drawn. -/
theorem callAt_none_eq (name : Text) {arguments : List Argument}
    (hnames : ∀ a ∈ arguments, Unbroken a.name) (depth : Int) :
    callAt name arguments none depth
      = Block.layOut target.unit depth (call name arguments .absent) := by
  rw [callAt]
  by_cases hne : arguments = []
  · subst hne
    refine Eq.trans ?_ (Block.layOut_outer target depth (name ++ "()".toList)).symm
    exact List.append_assoc _ _ _
  · rw [layOut_call name hne hnames, closeWith, Block.layOut_outer, if_neg (by simpa using hne),
      if_neg (by simpa using hne)]
    simp only [List.append_assoc]

/-- The argument with the modifier chain is named by a word, whatever its links are. -/
theorem unbroken_modifierArgument (attributes : List (Attribute Text)) (needed : Bool) :
    ∀ a ∈ modifierArgument attributes needed, Unbroken a.name := by
  have hname : Unbroken "modifier".toList := by decide
  simp only [modifierArgument]
  split
  · split
    · exact List.forall_mem_singleton.mpr hname
    · exact List.forall_mem_nil _
  · exact List.forall_mem_singleton.mpr hname

/-- So is the argument for the spacing, in both directions. -/
theorem unbroken_spacingArgument (axis : Axis) (attributes : List (Attribute Text)) :
    ∀ a ∈ spacingArgument axis attributes, Unbroken a.name := by
  rw [spacingArgument]
  split
  · next gap name _ hname =>
    have hunbroken : Unbroken name := by
      cases axis with
      | vertical | horizontal =>
        cases hname
        decide
      | none => cases hname
    exact List.forall_mem_singleton.mpr hunbroken
  · exact List.forall_mem_nil _

/-- So are the arguments for the style of a text. -/
theorem unbroken_textArguments (attributes : List (Attribute Text)) :
    ∀ a ∈ attributes.filterMap textArgument?, Unbroken a.name := by
  intro a ha
  have hnames : ∀ name ∈ ["color".toList, "fontSize".toList, "fontWeight".toList],
      Unbroken name := by decide
  refine hnames a.name ?_
  obtain ⟨own, -, hown⟩ := List.mem_filterMap.mp ha
  cases own <;> cases hown <;> simp

/-- The renderer of Compose writes what the target draws. -/
theorem writes : renderer.Writes target where
  container name axis attributes _ depth hpieces :=
    callAt_some_eq name (List.forall_mem_append.mpr ⟨unbroken_modifierArgument attributes false,
      unbroken_spacingArgument axis attributes⟩) hpieces depth
  custom l axis attributes pieces depth hpieces := by
    have hnames : ∀ a ∈ modifierArgument attributes false ++ spacingArgument axis attributes,
        Unbroken a.name := List.forall_mem_append.mpr
      ⟨unbroken_modifierArgument attributes false, unbroken_spacingArgument axis attributes⟩
    have hcall : layout (customName axis) axis attributes pieces ≠ [] := call_ne_nil _ _ _
    refine Eq.trans ?_ (Block.layOut_append target.unit (List.cons_ne_nil _ []) hcall depth).symm
    rw [Block.layOut_outer, layout, ← callAt_some_eq _ hnames hpieces]
    rfl
  text name content attributes depth := by
    have htext : Unbroken "text".toList := by decide
    have hnames : ∀ a ∈ ⟨"text".toList, Literal.kotlin content⟩
        :: modifierArgument attributes false ++ attributes.filterMap textArgument?,
        Unbroken a.name :=
      List.forall_mem_append.mpr ⟨List.forall_mem_cons.mpr
        ⟨htext, unbroken_modifierArgument attributes false⟩, unbroken_textArguments attributes⟩
    exact callAt_none_eq name hnames depth
  shape name attributes depth := by
    simp only [renderer, target, shape]
    split
    · exact callAt_some_eq name (unbroken_modifierArgument attributes true)
        (List.forall_mem_nil _) depth
    · exact callAt_none_eq name (unbroken_modifierArgument attributes false) depth
  image name title attributes depth := by
    have hpainter : Unbroken "painter".toList := by decide
    have hdescription : Unbroken "contentDescription".toList := by decide
    have hnames : ∀ a ∈ ⟨"painter".toList, "ColorPainter(Color.LightGray)".toList⟩
        :: ⟨"contentDescription".toList, Literal.kotlin title⟩ :: modifierArgument attributes false,
        Unbroken a.name :=
      List.forall_mem_cons.mpr ⟨hpainter, List.forall_mem_cons.mpr
        ⟨hdescription, unbroken_modifierArgument attributes false⟩⟩
    exact callAt_none_eq name hnames depth

end Compose

/-! ### React -/

namespace React

/-- An element is written as it is drawn, with children and without. -/
theorem elementAt_eq (tag : Text) (properties : List (Option Text)) {pieces : List Block}
    (hpieces : ∀ piece ∈ pieces, piece ≠ []) (depth : Int) :
    elementAt tag properties (pieces.map (Block.layOut target.unit (depth + 1))) depth
      = Block.layOut target.unit depth (element tag properties pieces) := by
  rw [elementAt, element]
  cases pieces with
  | nil =>
    simp only [List.map_nil, List.isEmpty_nil, if_true, Block.layOut_outer, List.append_assoc]
  | cons piece rest =>
    rw [if_neg (by simp), if_neg (by simp), Block.layOut_around target _ _ (by simp) hpieces]
    simp only [List.append_assoc]
    rfl

/-- The renderer of React writes what the target draws. -/
theorem writes : renderer.Writes target where
  container name _ _ _ depth hpieces := elementAt_eq name _ hpieces depth
  custom _ _ _ _ depth hpieces := elementAt_eq "div".toList _ hpieces depth
  text name content attributes depth := by
    refine Eq.trans ?_ (Block.layOut_outer target depth _).symm
    simp only [renderer, List.append_assoc]
  shape name _ depth := elementAt_eq name _ (List.forall_mem_nil _) depth
  image name _ _ depth := elementAt_eq name _ (List.forall_mem_nil _) depth

end React

/-- The renderer of every platform writes what its target draws. This is all that the induction over
trees needs to know of a platform. -/
theorem Platform.writes (platform : Platform) : platform.renderer.Writes platform.target := by
  cases platform with
  | swiftUI => exact SwiftUI.writes
  | compose => exact Compose.writes
  | react => exact React.writes

/-! ### Trees -/

namespace Node

variable (platform : Platform)

mutual

/-- A tree that is written with the depth handed down is the tree that is drawn in lines and laid
out. Both walks spell the attributes first and then go on to the children, so they also fail with
the same fault. -/
theorem renderFrom_eq_renderAt (depth : Int) : ∀ node : Node,
    renderFrom platform depth node = renderAt platform depth node
  | .mk l children => by
    have hwrites := platform.writes
    rw [renderFrom, renderAt, render]
    cases Attribute.spell platform (Attribute.collect l (l.kind (!children.isEmpty)).role
      (some (l.kind (!children.isEmpty)).axis)) with
    -- A fault comes up before anything is written, so both renderings have the same one.
    | error fault => rfl
    | ok attributes =>
      simp only [Outcome.ok_bind]
      cases (l.kind (!children.isEmpty)).role with
      | text => exact congrArg Except.ok (hwrites.text _ _ _ _)
      | shape => exact congrArg Except.ok (hwrites.shape _ _ _)
      | image => exact congrArg Except.ok (hwrites.image _ _ _ _)
      | container | custom =>
        -- The children are rendered one level deeper in both, here as texts and there as pieces.
        rw [renderAllFrom_eq (depth + 1) children]
        cases hpieces : renderAll platform children with
        | error fault => rfl
        | ok pieces =>
          have hlines := ne_nil_of_renderAll hpieces
          simp only [Outcome.map_ok, Outcome.ok_bind]
          cases (l.kind (!children.isEmpty)).primitive? platform with
          | some name => exact congrArg Except.ok (hwrites.container _ _ _ _ hlines)
          | none => exact congrArg Except.ok (hwrites.custom _ _ _ _ hlines)

/-- The same for the trees of a list, each of them laid out at the depth by itself. -/
theorem renderAllFrom_eq (depth : Int) : ∀ nodes : List Node,
    renderAllFrom platform depth nodes
      = (renderAll platform nodes).map (List.map (Block.layOut platform.target.unit depth))
  | [] => rfl
  | node :: rest => by
    rw [renderAllFrom, renderAll, renderFrom_eq_renderAt depth node, renderAllFrom_eq depth rest,
      renderAt]
    cases render platform node with
    | error fault => rfl
    | ok piece =>
      cases renderAll platform rest with
      | error fault => rfl
      | ok pieces => rfl

end

end Node

end DesignCompiler
