import DesignCompiler.Proofs.Render.Threaded

/-!
# `DesignCompiler.Proofs.Render.Uniform`: depth and words leave the lines alone

Where a node stands changes nothing but the blanks in front of its lines: some levels deeper its
code is the same with as many units in front of each line, and no line of it has fewer than the
depth asks for. That is `Block.layOut_add` for the code of a tree. It holds as well of a generator
that knows the depth at every node and indents where it writes, since that gives the same code
(`Node.renderFrom_eq_renderAt`).

Nor do the words of a design make lines. A name or a text with line feeds in it is put on one line,
as a comment or as a literal, so a tree with other words has code of the same lines at the same
levels (`Node.Reworded.levels_render`). Each target keeps the levels in each of its shapes
(`Target.IgnoresWords`), and the induction over the tree carries them from the children to the node.
-/

set_option autoImplicit false

namespace DesignCompiler

open Text

/-! ### Levels -/

namespace Block

/-- The levels of the lines of a piece. How many lines there are, and how far in each of them
stands, is all that the words of a design could change. -/
def levels (block : Block) : List Nat := block.map Line.level

/-- Pieces one after the other have their levels one after the other. -/
theorem levels_append (front back : Block) : (front ++ back).levels = front.levels ++ back.levels :=
  List.map_append

/-- A text without a line feed makes one line inside a piece. -/
theorem levels_insideText {t : Text} (h : Unbroken t) : (insideText t).levels = [1] := by
  rw [insideText, lines_unbroken h]
  rfl

/-- The levels of the pieces inside another piece are one more than their own. So pieces with the
same levels can be put in each other's place. -/
theorem levels_innerAll (pieces : List Block) :
    (innerAll pieces).levels = (pieces.map levels).flatten.map (· + 1) := by
  have hinner : levels ∘ inner = List.map (· + 1) ∘ levels := by
    funext block
    simp [levels, inner]
  calc (innerAll pieces).levels
      = ((pieces.map inner).map levels).flatten := List.map_flatten
    _ = ((pieces.map levels).map (List.map (· + 1))).flatten := by
        rw [List.map_map, List.map_map, hinner]
    _ = (pieces.map levels).flatten.map (· + 1) := List.map_flatten.symm

/-- Pieces with the same levels have the same levels between a first and a last line, whatever
these say. -/
theorem levels_around (first first' : Text) {pieces pieces' : List Block} (last last' : Text)
    (h : pieces.map levels = pieces'.map levels) :
    levels (Line.outer first :: innerAll pieces ++ [.outer last])
      = levels (Line.outer first' :: innerAll pieces' ++ [.outer last']) := by
  rw [levels_append, levels_append]
  show (0 :: (innerAll pieces).levels) ++ [0] = (0 :: (innerAll pieces').levels) ++ [0]
  rw [levels_innerAll, levels_innerAll, h]

/-- Whether there are pieces at all can be told from their levels. Targets draw a node without
children in another way. -/
theorem isEmpty_eq_of_map_levels {pieces pieces' : List Block}
    (h : pieces.map levels = pieces'.map levels) : pieces.isEmpty = pieces'.isEmpty := by
  rw [← List.isEmpty_map (f := levels), h, List.isEmpty_map]

end Block

/-- The levels of what a target draws do not depend on the words that it takes from the design, and
on the children only through theirs.

The names of primitives and the attributes stay the same, since they are no words of the design. A
shape takes none of its words, so nothing has to be said of it. -/
structure Target.IgnoresWords (target : Target) : Prop where
  container : ∀ (name : Text) (axis : Axis) (attributes : List (Attribute Text))
    {pieces pieces' : List Block}, pieces.map Block.levels = pieces'.map Block.levels →
      (target.container name axis attributes pieces).levels
        = (target.container name axis attributes pieces').levels
  custom : ∀ (l l' : Layer) (axis : Axis) (attributes : List (Attribute Text))
    {pieces pieces' : List Block}, pieces.map Block.levels = pieces'.map Block.levels →
      (target.custom l axis attributes pieces).levels
        = (target.custom l' axis attributes pieces').levels
  text : ∀ (name content content' : Text) (attributes : List (Attribute Text)),
    (target.text name content attributes).levels = (target.text name content' attributes).levels
  image : ∀ (name title title' : Text) (attributes : List (Attribute Text)),
    (target.image name title attributes).levels = (target.image name title' attributes).levels

namespace SwiftUI

/-- A stack has the levels of its children, one further in, between those of its own lines. -/
theorem levels_stack (name : Text) (axis : Axis) (role : Role) (attributes : List (Attribute Text))
    {pieces pieces' : List Block} (h : pieces.map Block.levels = pieces'.map Block.levels) :
    (stack name axis role attributes pieces).levels
      = (stack name axis role attributes pieces').levels := by
  rw [stack, stack, Block.levels_append, Block.levels_append, Block.isEmpty_eq_of_map_levels h]
  congr 1
  split
  · rfl
  · exact Block.levels_around _ _ _ _ h

/-- SwiftUI writes the comment, the text and the title on lines of their own. -/
theorem ignoresWords : target.IgnoresWords where
  container name axis attributes _ _ h := levels_stack name axis .container attributes h
  custom _ _ axis attributes _ _ h :=
    congrArg (0 :: ·) (levels_stack (stackName axis) axis .custom attributes h)
  text _ _ _ _ := rfl
  image _ _ _ _ := rfl

end SwiftUI

namespace Compose

/-- A lambda has the levels of its children, one further in. -/
theorem levels_closeWith (line : Text) {pieces pieces' : List Block}
    (h : pieces.map Block.levels = pieces'.map Block.levels) :
    (closeWith line (.lambda pieces)).levels = (closeWith line (.lambda pieces')).levels := by
  rw [closeWith, closeWith, Block.isEmpty_eq_of_map_levels h]
  split
  · rfl
  · exact Block.levels_around _ _ _ _ h

/-- So has a call, behind those of its arguments. -/
theorem levels_call (name : Text) (arguments : List Argument) {pieces pieces' : List Block}
    (h : pieces.map Block.levels = pieces'.map Block.levels) :
    (call name arguments (.lambda pieces)).levels
      = (call name arguments (.lambda pieces')).levels := by
  unfold call
  split
  · exact levels_closeWith name h
  · rw [Block.levels_append, Block.levels_append, levels_closeWith ")".toList h]

/-- An argument on one line makes one line, with the comma that may follow it. Whether a comma
follows depends on there being more arguments, not on what they say. -/
theorem levels_argumentLines_cons {a : Argument} (h : Unbroken a.text) (rest : List Argument) :
    (argumentLines (a :: rest)).levels = 1 :: (argumentLines rest).levels := by
  cases rest with
  | nil => exact Block.levels_insideText h
  | cons next rest =>
    rw [argumentLines, Block.levels_append,
      Block.levels_insideText (unbroken_append.mpr ⟨h, by decide⟩), List.singleton_append]
    exact List.cons_ne_nil next rest

/-- An argument with a literal is on one line, whatever text the literal is made from. -/
theorem unbroken_literalArgument {name : Text} (hname : Unbroken name) (t : Text) :
    Unbroken (Argument.text ⟨name, Literal.kotlin t⟩) := by
  rw [Argument.text, unbroken_append, unbroken_append]
  exact ⟨⟨hname, by decide⟩, Literal.unbroken_kotlin t⟩

/-- A call without a lambda has the levels of its arguments. There have to be some: a call without
any is written in another way. -/
theorem levels_call_absent (name : Text) {arguments arguments' : List Argument}
    (h : (argumentLines arguments).levels = (argumentLines arguments').levels)
    (hne : arguments ≠ []) (hne' : arguments' ≠ []) :
    (call name arguments .absent).levels = (call name arguments' .absent).levels := by
  rw [call, call, if_neg (by simpa using hne), if_neg (by simpa using hne'), Block.levels_append,
    Block.levels_append]
  congr 1
  exact congrArg (0 :: ·) h

/-- Compose writes the words of a design as literals, one argument on one line each. -/
theorem ignoresWords : target.IgnoresWords where
  container name axis attributes _ _ h := levels_call name _ h
  custom _ _ axis attributes _ _ h := congrArg (0 :: ·) (levels_call (customName axis) _ h)
  text name content content' attributes := by
    have hname : Unbroken "text".toList := by decide
    -- The content is an argument on one line, so other content leaves the levels of the lines.
    have hline := unbroken_literalArgument hname
    refine levels_call_absent name ?_ (List.cons_ne_nil _ _) (List.cons_ne_nil _ _)
    exact (levels_argumentLines_cons (hline content) _).trans
      (levels_argumentLines_cons (hline content') _).symm
  image name title title' attributes := by
    have hname : Unbroken "contentDescription".toList := by decide
    have hline := unbroken_literalArgument hname
    have hpainter : Unbroken (Argument.text
        ⟨"painter".toList, "ColorPainter(Color.LightGray)".toList⟩) := by decide
    refine levels_call_absent name ?_ (List.cons_ne_nil _ _) (List.cons_ne_nil _ _)
    rw [levels_argumentLines_cons hpainter, levels_argumentLines_cons hpainter,
      levels_argumentLines_cons (hline title), levels_argumentLines_cons (hline title')]

end Compose

namespace React

/-- An element has the levels of its children, one further in. Its properties are all on the line of
the tag. -/
theorem levels_element (tag : Text) (properties properties' : List (Option Text))
    {pieces pieces' : List Block} (h : pieces.map Block.levels = pieces'.map Block.levels) :
    (element tag properties pieces).levels = (element tag properties' pieces').levels := by
  rw [element, element, Block.isEmpty_eq_of_map_levels h]
  split
  · rfl
  · exact Block.levels_around _ _ _ _ h

/-- React writes the words of a design as properties or between two tags of one line. -/
theorem ignoresWords : target.IgnoresWords where
  container name _ _ _ _ h := levels_element name _ _ h
  custom _ _ _ _ _ _ h := levels_element "div".toList _ _ h
  text _ _ _ _ := rfl
  image _ _ _ _ := rfl

end React

/-- No target makes lines out of the words of a design. -/
theorem Platform.ignoresWords (platform : Platform) : platform.target.IgnoresWords := by
  cases platform with
  | swiftUI => exact SwiftUI.ignoresWords
  | compose => exact Compose.ignoresWords
  | react => exact React.ignoresWords

/-! ### Trees with other words -/

/-- The second layer is the first with other words: its identifier, type, name and text may differ,
as long as the same row of the table draws it. The type is a word because the comment over a
component shows it. -/
structure Layer.Reworded (hasChildren : Bool) (a b : Layer) : Prop where
  kind : b.kind hasChildren = a.kind hasChildren
  others : b = { a with id := b.id, type := b.type, name := b.name, text := b.text }

namespace Layer.Reworded

variable {hasChildren : Bool} {a b : Layer}

/-- No attribute is a word, so both layers have the same ones. -/
theorem collect_eq (h : a.Reworded hasChildren b) (role : Role) (axis : Option Axis) :
    Attribute.collect b role axis = Attribute.collect a role axis := by
  rw [h.others]
  rfl

/-- No colour is a word, so what is asked of the colours of the one holds of the other. -/
theorem colors_eq (h : a.Reworded hasChildren b) : b.colors = a.colors := by
  rw [h.others]
  rfl

end Layer.Reworded

mutual

/-- The second tree is the first with other words, layer by layer. The trees have the same shape, so
each layer has as many children in both. -/
def Node.Reworded : Node → Node → Prop
  | .mk a as, .mk b bs => a.Reworded (!as.isEmpty) b ∧ Node.RewordedAll as bs

/-- The trees of the second list are those of the first with other words. -/
def Node.RewordedAll : List Node → List Node → Prop
  | [], [] => True
  | a :: as, b :: bs => Node.Reworded a b ∧ Node.RewordedAll as bs
  | _, _ => False

end

namespace Node

/-- The layers at the top, and the trees below them. -/
@[simp] theorem reworded_mk {a b : Layer} {as bs : List Node} :
    (Node.mk a as).Reworded (.mk b bs) ↔ a.Reworded (!as.isEmpty) b ∧ RewordedAll as bs := by
  rw [Reworded]

/-- No trees are no trees with other words. -/
@[simp] theorem rewordedAll_nil : RewordedAll [] [] := by
  rw [RewordedAll]
  trivial

/-- The first trees of the lists, and the others. -/
@[simp] theorem rewordedAll_cons {a b : Node} {as bs : List Node} :
    RewordedAll (a :: as) (b :: bs) ↔ a.Reworded b ∧ RewordedAll as bs := by
  rw [RewordedAll]

/-- Other words do not change how many trees there are; that there are any is all that drawing asks.
-/
theorem RewordedAll.isEmpty_eq {as bs : List Node} (h : RewordedAll as bs) :
    bs.isEmpty = as.isEmpty := by
  cases as with
  | nil =>
    cases bs with
    | nil => rfl
    | cons b bs => simp [RewordedAll] at h
  | cons a as =>
    cases bs with
    | nil => simp [RewordedAll] at h
    | cons b bs => rfl

mutual

/-- A tree with other words has the same colours. -/
theorem Reworded.colors_eq : ∀ {a b : Node}, a.Reworded b → b.colors = a.colors
  | .mk a as, .mk b bs, h => by
    obtain ⟨hlayer, hinside⟩ := reworded_mk.mp h
    rw [colors, colors, hlayer.colors_eq, hinside.colorsAll_eq]

/-- So have the trees of a list. -/
theorem RewordedAll.colorsAll_eq : ∀ {as bs : List Node}, RewordedAll as bs →
    colorsAll bs = colorsAll as
  | [], [], _ => rfl
  | a :: as, b :: bs, h => by
    obtain ⟨hnode, hrest⟩ := rewordedAll_cons.mp h
    rw [colorsAll, colorsAll, hnode.colors_eq, hrest.colorsAll_eq]

end

/-- A node whose attributes are spelled and whose children, if its role has room for them, are drawn
is drawn with these. It is `render_mk_eq_ok` in the other direction, and what shows that the tree
with other words is drawn at all. -/
theorem render_mk_of_spell {platform : Platform} {l : Layer} {children : List Node}
    {attributes : List (Attribute Text)} {pieces : List Block}
    (hspell : Attribute.spell platform (Attribute.collect l (l.kind (!children.isEmpty)).role
      (some (l.kind (!children.isEmpty)).axis)) = .ok attributes)
    (hpieces : (l.kind (!children.isEmpty)).role.hasRoom = true →
      renderAll platform children = .ok pieces) :
    render platform (.mk l children)
      = .ok (l.draw platform (!children.isEmpty) attributes pieces) := by
  rw [render, hspell]
  simp only [Outcome.ok_bind, Layer.draw]
  cases hrole : (l.kind (!children.isEmpty)).role with
  | text | shape | image => rfl
  | container | custom =>
    rw [hrole] at hpieces
    simp only [hpieces rfl, Outcome.ok_bind]
    cases (l.kind (!children.isEmpty)).primitive? platform <;> rfl

/-- A layer with other words is drawn at the same levels around pieces at the same levels. The cases
are those of `Layer.draw`, each with its part of `Target.IgnoresWords`. -/
theorem levels_draw {platform : Platform} {hasChildren : Bool} {a b : Layer}
    (h : a.Reworded hasChildren b) (attributes : List (Attribute Text))
    {pieces pieces' : List Block} (hpieces : pieces.map Block.levels = pieces'.map Block.levels) :
    (a.draw platform hasChildren attributes pieces).levels
      = (b.draw platform hasChildren attributes pieces').levels := by
  have hignores := platform.ignoresWords
  simp only [Layer.draw, h.kind]
  cases (a.kind hasChildren).role with
  | text => exact hignores.text _ _ _ _
  | shape => rfl
  | image => exact hignores.image _ _ _ _
  | container | custom =>
    cases (a.kind hasChildren).primitive? platform with
    | some name => exact hignores.container _ _ _ hpieces
    | none => exact hignores.custom _ _ _ _ hpieces

mutual

/-- A tree with other words is drawn if the tree is, with as many lines at the same levels.

Both layers collect the same attributes, so these are spelled or not on both sides alike, and the
induction gives the pieces of the children. -/
theorem Reworded.levels_render {platform : Platform} : ∀ {a b : Node} {block : Block},
    a.Reworded b → a.render platform = .ok block →
      ∃ other, b.render platform = .ok other ∧ block.levels = other.levels
  | .mk a as, .mk b bs, block, h, hrender => by
    obtain ⟨hlayer, hinside⟩ := reworded_mk.mp h
    obtain ⟨attributes, pieces, hspell, hpieces, rfl⟩ := render_mk_eq_ok hrender
    have hempty : (!bs.isEmpty) = !as.isEmpty := by rw [hinside.isEmpty_eq]
    rw [← hlayer.collect_eq, ← hlayer.kind, ← hempty] at hspell
    -- Where the role has no room for the children, they are not drawn on either side.
    by_cases hroom : (a.kind (!as.isEmpty)).role.hasRoom = true
    · rw [if_pos hroom] at hpieces
      obtain ⟨others, hothers, hlevels⟩ := hinside.levels_renderAll hpieces
      refine ⟨_, render_mk_of_spell hspell fun _ => hothers, ?_⟩
      rw [hempty]
      exact levels_draw hlayer attributes hlevels
    · have hnone : (b.kind (!bs.isEmpty)).role.hasRoom = true →
          renderAll platform bs = .ok pieces := by
        rw [hempty, hlayer.kind]
        exact fun hroom' => absurd hroom' hroom
      refine ⟨_, render_mk_of_spell hspell hnone, ?_⟩
      rw [hempty]
      exact levels_draw hlayer attributes rfl

/-- The same for lists of trees. -/
theorem RewordedAll.levels_renderAll {platform : Platform} : ∀ {as bs : List Node}
    {pieces : List Block}, RewordedAll as bs → renderAll platform as = .ok pieces →
      ∃ others, renderAll platform bs = .ok others
        ∧ pieces.map Block.levels = others.map Block.levels
  | [], [], pieces, _, hrender => ⟨pieces, hrender, rfl⟩
  | a :: as, b :: bs, _, h, hrender => by
    obtain ⟨hnode, hrest⟩ := rewordedAll_cons.mp h
    rw [renderAll] at hrender
    obtain ⟨piece, hpiece, hrender⟩ := Outcome.bind_eq_ok.mp hrender
    obtain ⟨pieces, hpieces, hrender⟩ := Outcome.bind_eq_ok.mp hrender
    cases hrender
    obtain ⟨other, hother, hlevels⟩ := hnode.levels_render hpiece
    obtain ⟨others, hothers, hall⟩ := hrest.levels_renderAll hpieces
    refine ⟨other :: others, ?_, ?_⟩
    · rw [renderAll, hother, hothers]
      rfl
    · rw [List.map_cons, List.map_cons, hlevels, hall]

end

/-! ### Depth -/

/-- The code of a tree stands at any depth in the same way: some levels deeper each of its lines has
as many units more in front, and none has fewer than the depth asks for. Other words change none of
its lines into several.

All of this is said of `renderAt`, which lays out lines at levels. The last part says that it is as
much about the generator that hands the depth down the tree and indents where it writes: at every
depth the two are the same, faults included. -/
theorem renderAt_uniform {platform : Platform} {node : Node}
    (hcolors : ∀ c ∈ node.colors, Unbroken c) {depth : Nat} {t : Text}
    (h : node.renderAt platform depth = .ok t) :
    (∀ more : Nat, node.renderAt platform (depth + more : Nat)
        = .ok (indented (platform.target.unit.times more) t))
      ∧ (∀ line ∈ lines t, platform.target.unit.times depth <+: line)
      ∧ (∀ other : Node, node.Reworded other →
          ∃ u, other.renderAt platform depth = .ok u ∧ (lines u).length = (lines t).length)
      ∧ ∀ anyDepth : Int, node.renderFrom platform anyDepth = node.renderAt platform anyDepth := by
  obtain ⟨block, hblock, rfl⟩ := Outcome.map_eq_ok.mp h
  have hunit := platform.unbroken_unit
  have hlined := Block.isLined_of_render hcolors hblock
  have hlines := Block.lines_layOut hunit hlined depth
  refine ⟨fun more => ?_, fun line hline => ?_, fun other hother => ?_,
    fun anyDepth => renderFrom_eq_renderAt platform anyDepth node⟩
  · rw [renderAt, hblock]
    exact congrArg Except.ok (Block.layOut_add hunit hlined depth more)
  · -- A line has the blanks of its own level behind those of the depth.
    rw [hlines] at hline
    obtain ⟨written, -, rfl⟩ := List.mem_map.mp hline
    have hlevel : ((depth : Int) + written.level).toNat = depth + written.level := by omega
    rw [Block.layOutLine, hlevel, times_add, List.append_assoc]
    exact List.prefix_append _ _
  · -- The other node has lines of the same levels, and so as many of them.
    obtain ⟨reworded, hreworded, hlevels⟩ := hother.levels_render hblock
    have hothercolors : ∀ c ∈ other.colors, Unbroken c := hother.colors_eq ▸ hcolors
    refine ⟨_, Outcome.map_eq_ok.mpr ⟨reworded, hreworded, rfl⟩, ?_⟩
    rw [hlines, Block.lines_layOut hunit (Block.isLined_of_render hothercolors hreworded),
      List.length_map, List.length_map]
    simpa [Block.levels] using (congrArg List.length hlevels).symm

/-- A component with a border, and a text in it. -/
def notice (name text : Text) : Node :=
  .mk { Layer.plain "COMPONENT".toList with
        name, borderColor := some "#000000".toList, borderWidth := some Binary64.half }
    [.mk { Layer.plain "TEXT".toList with text := some text } []]

/-- A notice with line feeds in its words stands at the second level in as many lines as one
without them. -/
theorem notice_uniform : ∃ t u,
    (notice "Big\nsale".toList "a\nb".toList).renderAt .swiftUI (1 : Nat) = .ok t
    ∧ (notice "Big\nsale".toList "a\nb".toList).renderFrom .swiftUI (1 : Nat) = .ok t
    ∧ (notice "Big\nsale".toList "a\nb".toList).renderAt .swiftUI (1 + 2 : Nat)
        = .ok (indented (Platform.swiftUI.target.unit.times 2) t)
    ∧ (∀ line ∈ lines t, Platform.swiftUI.target.unit.times 1 <+: line)
    ∧ (notice "Sale".toList "ab".toList).renderAt .swiftUI (1 : Nat) = .ok u
    ∧ (lines u).length = (lines t).length := by
  have hok :
      ((notice "Big\nsale".toList "a\nb".toList).renderAt .swiftUI (1 : Nat)).isOk = true := by
    decide +kernel
  have hcolors : ∀ c ∈ (notice "Big\nsale".toList "a\nb".toList).colors, Unbroken c := by
    decide +kernel
  have hother : (notice "Big\nsale".toList "a\nb".toList).Reworded
      (notice "Sale".toList "ab".toList) := by
    simp only [notice, reworded_mk, rewordedAll_cons, rewordedAll_nil, and_true]
    exact ⟨⟨by decide +kernel, rfl⟩, by decide +kernel, rfl⟩
  cases ht : (notice "Big\nsale".toList "a\nb".toList).renderAt .swiftUI (1 : Nat) with
  | error fault =>
    rw [ht] at hok
    cases hok
  | ok t =>
    obtain ⟨hdeeper, hindented, hwords, hthreaded⟩ := renderAt_uniform hcolors ht
    obtain ⟨u, hu, hlines⟩ := hwords _ hother
    exact ⟨t, u, rfl, (hthreaded _).trans ht, hdeeper 2, hindented, hu, hlines⟩

end Node

end DesignCompiler
