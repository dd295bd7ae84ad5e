import DesignCompiler.Proofs.Number.Dimension
import DesignCompiler.Proofs.Render.Literal
import DesignCompiler.Proofs.Render.Style

/-!
# `DesignCompiler.Proofs.Render.OneLine`: lines of code hold no line feed

A `Block` is a list of lines, but a line is any text: nothing in its type keeps a line feed out. For
the code of a tree nothing breaks a line as long as the colours of the tree hold no line feed
(`Block.isLined_of_renderAll`). So the laid-out code of a tree can be cut into the lines it was made
of, and indenting it is the same as laying it out deeper.
-/

set_option autoImplicit false

namespace DesignCompiler

open Text

/-- A piece of code with at least one line and no line feed inside a line. Both are needed to get
the lines back from the laid-out text: an empty piece would come back as an empty line. -/
def Block.IsLined (block : Block) : Prop := block ≠ [] ∧ ∀ line ∈ block, Unbroken line.text

namespace Block

/-- One line is enough for a piece not to be empty, so the others only have to be unbroken. -/
theorem isLined_cons {line : Line} {rest : Block} (hline : Unbroken line.text)
    (hrest : ∀ l ∈ rest, Unbroken l.text) : IsLined (line :: rest) := by
  refine ⟨List.cons_ne_nil line rest, ?_⟩
  intro l hl
  rcases List.mem_cons.mp hl with rfl | hl
  · exact hline
  · exact hrest l hl

/-- The same for a piece with more lines behind it. -/
theorem isLined_append {front back : Block} (hfront : IsLined front)
    (hback : ∀ l ∈ back, Unbroken l.text) : IsLined (front ++ back) := by
  refine ⟨List.append_ne_nil_of_left_ne_nil hfront.1 back, ?_⟩
  intro l hl
  rcases List.mem_append.mp hl with hl | hl
  · exact hfront.2 l hl
  · exact hback l hl

/-- A piece of one line. -/
theorem isLined_singleton {line : Line} (h : Unbroken line.text) : IsLined [line] :=
  isLined_cons h (by simp)

/-- A text put inside a piece is cut into lines, so it may hold line feeds. -/
theorem unbroken_of_mem_insideText {t : Text} : ∀ l ∈ insideText t, Unbroken l.text := by
  intro l hl
  obtain ⟨line, hline, rfl⟩ := List.mem_map.mp hl
  exact unbroken_of_mem_lines hline

/-- Pieces that are put inside another keep their lines. -/
theorem unbroken_of_mem_innerAll {pieces : List Block} (h : ∀ piece ∈ pieces, IsLined piece) :
    ∀ l ∈ innerAll pieces, Unbroken l.text := by
  intro l hl
  simp only [innerAll, List.mem_flatten, List.mem_map] at hl
  obtain ⟨_, ⟨piece, hpiece, rfl⟩, hl⟩ := hl
  obtain ⟨line, hline, rfl⟩ := List.mem_map.mp hl
  exact (h piece hpiece).2 line hline

/-- A lambda or an element: pieces between a first line and a last one. The pieces may be none. -/
theorem isLined_around {first last : Text} (hfirst : Unbroken first) (hlast : Unbroken last)
    {pieces : List Block} (h : ∀ piece ∈ pieces, IsLined piece) :
    IsLined (Line.outer first :: innerAll pieces ++ [.outer last]) := by
  refine isLined_append (isLined_cons hfirst (unbroken_of_mem_innerAll h)) ?_
  simp only [List.mem_singleton, forall_eq]
  exact hlast

end Block

/-! ### What stands on one line -/

/-- A word holds letters only, and a line feed is none. -/
theorem Text.IsWord.unbroken {t : Text} (h : t.IsWord) : Unbroken t :=
  fun hmem => absurd (h '\n' hmem) (by decide)

/-- A dimension is written on one line. -/
theorem unbroken_dimension (x : Binary64) : Unbroken (Dimension.write x) :=
  fun hmem => absurd (Dimension.isMark_of_mem_write hmem) (by decide)

/-! ### SwiftUI -/

namespace SwiftUI

/-- The modifiers of a view are put inside its piece as texts, and cut into lines there. -/
theorem unbroken_modifierLines {role : Role} {attributes : List (Attribute Text)} :
    ∀ l ∈ modifierLines role attributes, Unbroken l.text := by
  intro l hl
  obtain ⟨modifier, _, hl⟩ := List.mem_flatMap.mp hl
  exact Block.unbroken_of_mem_insideText l hl

/-- A stack is cut into lines if its children are. Its first line holds a name, an alignment and a
gap. -/
theorem isLined_stack {name : Text} (hname : Unbroken name) {axis : Axis} {role : Role}
    {attributes : List (Attribute Text)} {children : List Block}
    (hchildren : ∀ piece ∈ children, piece.IsLined) :
    Block.IsLined (stack name axis role attributes children) := by
  obtain ⟨spacing, hgap, hstack⟩ := exists_stack_eq name axis role attributes children
  have hspacing : Unbroken spacing := by
    rcases hgap with rfl | ⟨gap, rfl⟩
    · decide
    · exact unbroken_append.mpr ⟨by decide, unbroken_dimension gap⟩
  rw [hstack]
  have halignment : Unbroken (alignment axis) := by cases axis <;> decide
  refine Block.isLined_append ?_ unbroken_modifierLines
  -- Without children the braces are closed on the first line.
  split
  · refine Block.isLined_singleton ?_
    simp only [Line.outer, unbroken_append]
    exact ⟨⟨⟨⟨⟨hname, by decide⟩, halignment⟩, hspacing⟩, by decide⟩, by decide⟩
  · refine Block.isLined_around ?_ (by decide) hchildren
    simp only [unbroken_append]
    exact ⟨⟨⟨⟨⟨hname, by decide⟩, halignment⟩, hspacing⟩, by decide⟩, by decide⟩

/-- SwiftUI keeps lines: texts stand in literals, which spell line feeds out, and the name in a
comment is on one line already. -/
theorem keeps_isLined : target.Keeps (· ≠ '\n') Block.IsLined where
  container hname _ hpieces := isLined_stack hname.unbroken hpieces
  custom {_ axis _ _} hcomment _ hpieces :=
    have hname : Unbroken (stackName axis) := by cases axis <;> decide
    Block.isLined_cons hcomment (isLined_stack hname hpieces).2
  text hname _ := by
    refine Block.isLined_cons ?_ unbroken_modifierLines
    simp only [Line.outer, unbroken_append]
    exact ⟨⟨⟨hname.unbroken, by decide⟩, Literal.unbroken_swift _⟩, by decide⟩
  shape hname _ :=
    Block.isLined_cons (unbroken_append.mpr ⟨hname.unbroken, by decide⟩) unbroken_modifierLines
  image hname _ := by
    refine Block.isLined_cons (unbroken_append.mpr ⟨hname.unbroken, by decide⟩) ?_
    exact (Block.isLined_cons (by decide) unbroken_modifierLines).2

end SwiftUI

/-! ### Compose -/

namespace Compose

/-- The arguments of a call are cut into lines like the modifiers of a view. -/
theorem unbroken_argumentLines (arguments : List Argument) :
    ∀ l ∈ argumentLines arguments, Unbroken l.text := by
  fun_induction argumentLines arguments with
  | case1 => simp
  | case2 last => exact Block.unbroken_of_mem_insideText
  | case3 next rest _ ih =>
    intro l hl
    rcases List.mem_append.mp hl with hl | hl
    · exact Block.unbroken_of_mem_insideText l hl
    · exact ih l hl

/-- A lambda is cut into lines if the pieces inside are. -/
theorem isLined_closeWith {line : Text} (hline : Unbroken line) {content : Content}
    (hcontent : content.Holds Block.IsLined) : Block.IsLined (closeWith line content) := by
  cases content with
  | absent => exact Block.isLined_singleton hline
  | lambda children =>
    rw [closeWith]
    split
    · exact Block.isLined_singleton (unbroken_append.mpr ⟨hline, by decide⟩)
    · exact Block.isLined_around (unbroken_append.mpr ⟨hline, by decide⟩) (by decide) hcontent

/-- A call is cut into lines if what its lambda holds is. Nothing is asked of the arguments. -/
theorem isLined_call {name : Text} (hname : Unbroken name) (arguments : List Argument)
    {content : Content} (hcontent : content.Holds Block.IsLined) :
    Block.IsLined (call name arguments content) := by
  unfold call
  split
  · cases content with
    | absent => exact Block.isLined_singleton (unbroken_append.mpr ⟨hname, by decide⟩)
    | lambda children => exact isLined_closeWith hname hcontent
  · refine Block.isLined_append (Block.isLined_cons ?_ (unbroken_argumentLines arguments)) ?_
    · exact unbroken_append.mpr ⟨hname, by decide⟩
    · exact (isLined_closeWith (by decide) hcontent).2

/-- Compose keeps lines, with the same reasons. -/
theorem keeps_isLined : target.Keeps (· ≠ '\n') Block.IsLined where
  container hname _ hpieces := isLined_call hname.unbroken _ (.lambda hpieces)
  custom {_ axis _ _} hcomment _ hpieces :=
    have hname : Unbroken (customName axis) := by cases axis <;> decide
    Block.isLined_cons hcomment (isLined_call hname _ (.lambda hpieces)).2
  text hname _ := by
    simp only [target]
    exact isLined_call hname.unbroken _ (.absent _)
  shape {name attributes} hname _ := by
    show Block.IsLined (shape name attributes)
    rw [shape]
    split
    · exact isLined_call hname.unbroken _ (.lambda (by simp))
    · exact isLined_call hname.unbroken _ (.absent _)
  image hname _ := by
    simp only [target]
    exact isLined_call hname.unbroken _ (.absent _)

end Compose

/-! ### React -/

namespace React

/-- Pieces on one line each make one line, with a separator that does not break it. -/
theorem unbroken_joinWith {separator : Text} {pieces : List Text} (hs : Unbroken separator)
    (h : ∀ piece ∈ pieces, Unbroken piece) : Unbroken (joinWith separator pieces) := by
  intro hmem
  have hall : ∀ c ∈ joinWith separator pieces, c ≠ '\n' :=
    forall_mem_joinWith (fun c hc => ne_of_mem_of_not_mem hc hs)
      fun piece hpiece c hc => ne_of_mem_of_not_mem hc (h piece hpiece)
  exact hall '\n' hmem rfl

/-- What marks off the parts of an entry, besides what dimensions are written with: blanks, colons
and single quotes. -/
def entryMarks : List Char := [' ', ':', '\'']

/-- A character that no entry is made with is in none, if it is not taken over from an attribute.
Commas and line feeds are such characters: the one keeps the entries of a style apart, the other its
lines. -/
theorem Entry.IsPlain.not_mem {entry : Entry} {x : Char} (h : entry.IsPlain (· ≠ x))
    (hmark : Dimension.isMark x = false) (hx : x ∉ entryMarks) :
    x ∉ entry.1 ++ ": ".toList ++ entry.2 := by
  obtain ⟨hkey, t, hchars, hliteral⟩ := h
  simp only [entryMarks, List.mem_cons, List.not_mem_nil, or_false, not_or] at hx
  obtain ⟨hblank, hcolon, hquote⟩ := hx
  have hname : x ∉ entry.1 := by
    intro hmem
    have hletter : isLetter x = true := hkey x hmem
    simp [Dimension.isMark, isAlphanumeric, hletter] at hmark
  have ht : x ∉ t := by
    intro hmem
    rcases hchars x hmem with hdimension | hspace | htaken
    · rw [hmark] at hdimension
      cases hdimension
    · exact hblank hspace
    · exact htaken rfl
  -- Quotes around the literal are excluded too.
  have hvalue : x ∉ entry.2 := by
    rcases hliteral with hliteral | hliteral
    · rwa [hliteral]
    · simp only [hliteral, quoted, List.mem_append, not_or]
      exact ⟨⟨by simpa using hquote, ht⟩, by simpa using hquote⟩
  simp only [List.mem_append, not_or]
  exact ⟨⟨hname, by simpa using ⟨hcolon, hblank⟩⟩, hvalue⟩

/-- A plain entry stands on one line. -/
theorem Entry.IsPlain.unbroken {entry : Entry} (h : entry.IsPlain (· ≠ '\n')) :
    Unbroken (entry.1 ++ ": ".toList ++ entry.2) :=
  h.not_mem (by decide) (by decide)

/-- A style of plain entries stands on one line. -/
theorem unbroken_style {all : List Entry} (hall : ∀ e ∈ all, e.IsPlain (· ≠ '\n')) {style : Text}
    (h : style? all = some style) : Unbroken style := by
  obtain ⟨merged, hmerged, rfl⟩ := exists_of_style? hall h
  have hentries : Unbroken (joinWith ", ".toList
      (merged.map fun entry => entry.1 ++ ": ".toList ++ entry.2)) := by
    refine unbroken_joinWith (by decide) ?_
    intro piece hpiece
    obtain ⟨entry, hentry, rfl⟩ := List.mem_map.mp hpiece
    exact (hmerged entry hentry).unbroken
  rw [unbroken_append, unbroken_append]
  exact ⟨⟨by decide, hentries⟩, by decide⟩

/-- The style of a leaf stands on one line, if there is one. -/
theorem unbroken_leafStyle {attributes : List (Attribute Text)}
    (h : Attribute.TextsIn (· ≠ '\n') attributes) :
    ∀ t, some t ∈ [leafStyle attributes] → Unbroken t := by
  intro t ht
  exact unbroken_style (isPlain_flatMap_entries h) (List.mem_singleton.mp ht).symm

/-- So does the style of a container. -/
theorem unbroken_containerStyle {axis : Axis} {attributes : List (Attribute Text)}
    (h : Attribute.TextsIn (· ≠ '\n') attributes) :
    ∀ t, some t ∈ [containerStyle axis attributes] → Unbroken t := by
  intro t ht
  exact unbroken_style (isPlain_containerEntries h) (List.mem_singleton.mp ht).symm

/-- A string expression stands on one line, whatever its text is. -/
theorem unbroken_expression (t : Text) : Unbroken (expression t) := by
  rw [expression, unbroken_append, unbroken_append]
  exact ⟨⟨by decide, Literal.unbroken_javaScript t⟩, by decide⟩

/-- A tag stands on one line with its properties. -/
theorem unbroken_opening {tag : Text} (htag : tag.IsWord) {properties : List (Option Text)}
    (h : ∀ t, some t ∈ properties → Unbroken t) : Unbroken (opening tag properties) := by
  refine unbroken_joinWith (by decide) ?_
  intro piece hpiece
  rcases List.mem_cons.mp hpiece with rfl | hpiece
  · exact htag.unbroken
  · obtain ⟨property, hproperty, hsome⟩ := List.mem_filterMap.mp hpiece
    exact h piece (hsome ▸ hproperty)

/-- The tag that ends an element stands on one line. -/
theorem unbroken_closing {tag : Text} (htag : tag.IsWord) : Unbroken (closing tag) := by
  rw [closing, unbroken_append, unbroken_append]
  exact ⟨⟨by decide, htag.unbroken⟩, by decide⟩

/-- An element is cut into lines if its children are, with all its properties on the line of its
tag. -/
theorem isLined_element {tag : Text} (htag : tag.IsWord) {properties : List (Option Text)}
    (h : ∀ t, some t ∈ properties → Unbroken t) {children : List Block}
    (hchildren : ∀ piece ∈ children, piece.IsLined) :
    Block.IsLined (element tag properties children) := by
  have hopening := unbroken_opening htag h
  rw [element]
  split
  · refine Block.isLined_singleton ?_
    simp only [Line.outer, unbroken_append]
    exact ⟨⟨by decide, hopening⟩, by decide⟩
  · refine Block.isLined_around ?_ (unbroken_closing htag) hchildren
    simp only [unbroken_append]
    exact ⟨⟨by decide, hopening⟩, by decide⟩

/-- React keeps lines. -/
theorem keeps_isLined : target.Keeps (· ≠ '\n') Block.IsLined where
  container hname htexts hpieces :=
    isLined_element hname (unbroken_containerStyle htexts) hpieces
  custom {l _ _ _} _ htexts hpieces := by
    refine isLined_element (by decide) ?_ hpieces
    intro t ht
    rcases List.mem_cons.mp ht with ht | ht
    · cases ht
      exact unbroken_append.mpr ⟨by decide, unbroken_expression (onOneLine l.name)⟩
    · exact unbroken_containerStyle htexts t ht
  text {_ content _} hname htexts := by
    refine Block.isLined_singleton ?_
    have hopening := unbroken_opening hname (unbroken_leafStyle htexts)
    simp only [Line.outer, unbroken_append]
    exact ⟨⟨⟨⟨by decide, hopening⟩, by decide⟩, unbroken_expression content⟩,
      unbroken_closing hname⟩
  shape hname htexts :=
    isLined_element hname (unbroken_leafStyle htexts) (List.forall_mem_nil _)
  image {_ title _} hname htexts := by
    refine isLined_element hname ?_ (List.forall_mem_nil _)
    intro t ht
    rcases List.mem_cons.mp ht with ht | ht
    · cases ht
      exact unbroken_append.mpr ⟨by decide, unbroken_expression title⟩
    · exact unbroken_leafStyle htexts t ht

end React

/-! ### Every target -/

/-- Every target keeps lines, if the texts that are taken over hold no line feed. -/
theorem Platform.keeps_isLined (platform : Platform) :
    platform.target.Keeps (· ≠ '\n') Block.IsLined := by
  cases platform with
  | swiftUI => exact SwiftUI.keeps_isLined
  | compose => exact Compose.keeps_isLined
  | react => exact React.keeps_isLined

/-- What is taken over as it is besides the colours holds no line feed: the words for weights are
letters, digits and points. -/
theorem ne_newline_of_alphanumeric {c : Char} (hc : Text.isAlphanumeric c || c = '.') :
    c ≠ '\n' := by
  rintro rfl
  exact absurd hc (by decide)

/-- The code of a tree whose colours stand on one line is cut into lines. The colours of an
extraction do; those of a layout that somebody else has written may not. -/
theorem Block.isLined_of_render {platform : Platform} {node : Node}
    (hcolors : ∀ t ∈ node.colors, Unbroken t) {block : Block}
    (h : node.render platform = .ok block) : block.IsLined := by
  refine platform.keeps_isLined.render (fun _ => ne_newline_of_alphanumeric) ?_ h
  intro t ht c hc
  exact ne_of_mem_of_not_mem hc (hcolors t ht)

/-- The code of trees whose colours stand on one line is cut into lines. -/
theorem Block.isLined_of_renderAll {platform : Platform} {nodes : List Node}
    (hcolors : ∀ t ∈ Node.colorsAll nodes, Unbroken t) {pieces : List Block}
    (h : Node.renderAll platform nodes = .ok pieces) : ∀ piece ∈ pieces, piece.IsLined := by
  refine platform.keeps_isLined.renderAll (fun _ => ne_newline_of_alphanumeric) ?_ h
  intro t ht c hc
  exact ne_of_mem_of_not_mem hc (hcolors t ht)

end DesignCompiler
