import DesignCompiler.Proofs.Render.OneLine
import DesignCompiler.Proofs.Text.Fence

/-!
# `DesignCompiler.Proofs.Render.Guarded`: lines of code begin with code

Every line of the code of a tree begins with something that the target spells itself: a primitive, a
modifier, the name of an argument, a tag or a bracket, and never with a backtick
(`Block.isGuarded_of_render`). Texts and names stand behind such a start, on the same line.

Where a piece of several lines is put into another (the modifiers of a view, the arguments of a
call) each of its lines counts, so colours, which are taken over as they are, must not hold a line
feed.
-/

set_option autoImplicit false

namespace DesignCompiler

open Text

/-- A line may begin with a word, which may be empty: a word has no backtick, so what follows it
decides. -/
theorem Text.IsWord.guarded {name rest : Text} (hname : name.IsWord) (h : rest.IsGuarded) :
    IsGuarded (name ++ rest) :=
  h.behind fun hmem => absurd (hname '`' hmem) (by decide)

/-! ### Guarded pieces -/

/-- A piece of code whose lines are guarded. Depth puts only blanks in front of them, so this can be
told without it. -/
def Block.IsGuarded (block : Block) : Prop := ∀ line ∈ block, Text.IsGuarded line.text

namespace Block

/-- A piece of one guarded line. -/
theorem isGuarded_singleton {line : Line} (h : Text.IsGuarded line.text) : IsGuarded [line] := by
  rw [IsGuarded, List.forall_mem_singleton]
  exact h

/-- A guarded line in front of a guarded piece. -/
theorem isGuarded_cons {line : Line} {rest : Block} (hline : Text.IsGuarded line.text)
    (hrest : IsGuarded rest) : IsGuarded (line :: rest) :=
  List.forall_mem_cons.mpr ⟨hline, hrest⟩

/-- Guarded pieces one after the other. -/
theorem isGuarded_append {front back : Block} (hfront : IsGuarded front)
    (hback : IsGuarded back) : IsGuarded (front ++ back) :=
  List.forall_mem_append.mpr ⟨hfront, hback⟩

/-- A text put inside a piece brings its lines with it, so each of them has to be guarded. -/
theorem isGuarded_insideText {t : Text} (h : AllGuarded t) : IsGuarded (insideText t) := by
  intro l hl
  obtain ⟨line, hline, rfl⟩ := List.mem_map.mp hl
  exact h line hline

/-- Pieces inside another keep their lines; only the level of the lines changes. -/
theorem isGuarded_innerAll {pieces : List Block} (h : ∀ piece ∈ pieces, IsGuarded piece) :
    IsGuarded (innerAll pieces) := by
  intro l hl
  simp only [innerAll, List.mem_flatten, List.mem_map] at hl
  obtain ⟨_, ⟨piece, hpiece, rfl⟩, hl⟩ := hl
  obtain ⟨line, hline, rfl⟩ := List.mem_map.mp hl
  exact h piece hpiece line hline

/-- Pieces between a first line and a last one, as in a lambda or an element. -/
theorem isGuarded_around {first last : Text} (hfirst : Text.IsGuarded first)
    (hlast : Text.IsGuarded last) {pieces : List Block} (h : ∀ piece ∈ pieces, IsGuarded piece) :
    IsGuarded (Line.outer first :: innerAll pieces ++ [.outer last]) :=
  isGuarded_append (isGuarded_cons hfirst (isGuarded_innerAll h)) (isGuarded_singleton hlast)

end Block

/-- The texts of an attribute are on one line if those of all attributes are. The texts are colours
and the words of font weights. -/
theorem Attribute.TextsIn.unbroken {attributes : List (Attribute Text)}
    (h : TextsIn (· ≠ '\n') attributes) {a : Attribute Text} (ha : a ∈ attributes) {t : Text}
    (ht : t ∈ a.texts) : Unbroken t :=
  fun hmem => h a ha t ht '\n' hmem rfl

/-! ### SwiftUI -/

namespace SwiftUI

/-- A colour stands inside its call as it is, so the call is on one line if the colour is. -/
theorem unbroken_color {c : Text} (hc : Unbroken c) : Unbroken (color c) :=
  unbroken_append.mpr ⟨unbroken_append.mpr ⟨by decide, hc⟩, by decide⟩

/-- A rounded shape holds a dimension and nothing else. -/
theorem unbroken_rounded (radius : Binary64) : Unbroken (rounded radius) :=
  unbroken_append.mpr ⟨unbroken_append.mpr ⟨by decide, unbroken_dimension radius⟩, by decide⟩

/-- The lines of the modifiers for a border are guarded. The overlay is one modifier of four lines,
which is why borders are kept apart from the other attributes. -/
theorem allGuarded_borderModifiers {c : Text} (hc : Unbroken c) (width radius : Binary64) :
    ∀ m ∈ borderModifiers c width radius, AllGuarded m := by
  have hclip : IsGuardedLine ".clipShape(".toList := by decide
  have hstroke : IsGuardedLine "        .stroke(".toList := by decide
  have hshape : IsGuardedLine
      (if radius.isZero then "Rectangle()".toList else rounded radius) := by
    split
    · decide
    · have hstart : IsGuardedLine "RoundedRectangle(cornerRadius: ".toList := by decide
      exact (hstart.append (unbroken_dimension radius)).append (by decide)
  simp only [borderModifiers]
  -- The shape stands in both modifiers, and no more has to be known of it.
  generalize (if radius.isZero then "Rectangle()".toList else rounded radius) = shape at hshape ⊢
  refine List.forall_mem_append.mpr ⟨?_, List.forall_mem_singleton.mpr ?_⟩
  · split
    · simp
    · exact List.forall_mem_singleton.mpr (IsGuardedLine.allGuarded
        ((hclip.append hshape.unbroken).append (by decide)))
  · refine allGuarded_unlines (List.cons_ne_nil _ _) ?_
    simp only [List.forall_mem_cons]
    refine ⟨by decide, ?_, ?_, by decide, by simp⟩
    · exact ⟨unbroken_append.mpr ⟨by decide, hshape.unbroken⟩, hshape.guarded.behind (by decide)⟩
    · exact (((hstroke.append (unbroken_color hc)).append (by decide)).append
        (unbroken_dimension width)).append (by decide)

/-- The modifiers for an attribute other than a border are guarded lines: each begins with its own
name, and dimensions and colours stand behind it. -/
theorem isGuardedLine_modifiers (role : Role) {a : Attribute Text} (hkind : a.kind ≠ .border)
    (h : ∀ t ∈ a.texts, Unbroken t) : ∀ m ∈ modifiers role a, IsGuardedLine m := by
  -- Each modifier begins with a point and a word, and none of what follows breaks the line.
  cases a with
  | size width height =>
    have hstart : IsGuardedLine ".frame(width: ".toList := by decide
    exact List.forall_mem_singleton.mpr
      ((((hstart.append (unbroken_dimension width)).append (by decide)).append
        (unbroken_dimension height)).append (by decide))
  | background c =>
    have hstart : IsGuardedLine
        (if role = .shape then ".foregroundColor(".toList else ".background(".toList) := by
      split <;> decide
    have hc : Unbroken c := h c (List.mem_singleton_self c)
    exact List.forall_mem_singleton.mpr
      ((hstart.append (unbroken_color hc)).append (by decide))
  | border c width radius => exact absurd rfl hkind
  | cornerRadius radius =>
    have hstart : IsGuardedLine ".clipShape(".toList := by decide
    exact List.forall_mem_singleton.mpr
      ((hstart.append (unbroken_rounded radius)).append (by decide))
  | padding sides =>
    have hstart : IsGuardedLine ".padding(EdgeInsets(top: ".toList := by decide
    exact List.forall_mem_singleton.mpr
      ((((((((hstart.append (unbroken_dimension sides.top)).append (by decide)).append
        (unbroken_dimension sides.left)).append (by decide)).append
        (unbroken_dimension sides.bottom)).append (by decide)).append
        (unbroken_dimension sides.right)).append (by decide))
  | spacing gap => simp [modifiers]
  | offset x y =>
    have hstart : IsGuardedLine ".offset(x: ".toList := by decide
    exact List.forall_mem_singleton.mpr
      ((((hstart.append (unbroken_dimension x)).append (by decide)).append
        (unbroken_dimension y)).append (by decide))
  | textColor c =>
    have hstart : IsGuardedLine ".foregroundColor(".toList := by decide
    have hc : Unbroken c := h c (List.mem_singleton_self c)
    exact List.forall_mem_singleton.mpr
      ((hstart.append (unbroken_color hc)).append (by decide))
  | fontSize size =>
    have hstart : IsGuardedLine ".font(.system(size: ".toList := by decide
    exact List.forall_mem_singleton.mpr
      ((hstart.append (unbroken_dimension size)).append (by decide))
  | fontWeight word =>
    have hstart : IsGuardedLine ".fontWeight(".toList := by decide
    have hword : Unbroken word := h word (List.mem_singleton_self word)
    exact List.forall_mem_singleton.mpr
      ((hstart.append hword).append (by decide))

/-- The lines of the modifiers for an attribute are guarded, borders included. -/
theorem allGuarded_modifiers {role : Role} {a : Attribute Text} (h : ∀ t ∈ a.texts, Unbroken t) :
    ∀ m ∈ modifiers role a, AllGuarded m := by
  by_cases hkind : a.kind = .border
  · cases a <;> cases hkind
    next c width radius =>
      exact allGuarded_borderModifiers (h c (List.mem_singleton_self c)) width radius
  · intro m hm
    exact (isGuardedLine_modifiers role hkind h m hm).allGuarded

/-- So are the lines of all modifiers of a view, one level further in. -/
theorem isGuarded_modifierLines {role : Role} {attributes : List (Attribute Text)}
    (h : Attribute.TextsIn (· ≠ '\n') attributes) :
    Block.IsGuarded (modifierLines role attributes) := by
  intro l hl
  obtain ⟨modifier, hmodifier, hl⟩ := List.mem_flatMap.mp hl
  obtain ⟨a, ha, hmodifier⟩ := List.mem_flatMap.mp hmodifier
  exact Block.isGuarded_insideText (allGuarded_modifiers (fun _ => h.unbroken ha) _ hmodifier) l hl

/-- A stack is guarded by its name; the closing brace is a line of its own. -/
theorem isGuarded_stack {name : Text} (hname : name.IsWord) {axis : Axis} {role : Role}
    {attributes : List (Attribute Text)} (htexts : Attribute.TextsIn (· ≠ '\n') attributes)
    {children : List Block} (hchildren : ∀ piece ∈ children, piece.IsGuarded) :
    Block.IsGuarded (stack name axis role attributes children) := by
  obtain ⟨spacing, -, hstack⟩ := exists_stack_eq name axis role attributes children
  have hhead : IsGuarded (name ++ "(alignment: ".toList) := hname.guarded (by decide)
  rw [hstack]
  refine Block.isGuarded_append ?_ (isGuarded_modifierLines htexts)
  split
  · exact Block.isGuarded_singleton ((((hhead.append _).append _).append _).append _)
  · exact Block.isGuarded_around ((((hhead.append _).append _).append _).append _) (by decide)
      hchildren

/-- SwiftUI keeps lines guarded: each primitive begins its lines with a word or a fixed start. -/
theorem keeps_isGuarded : target.Keeps (· ≠ '\n') Block.IsGuarded where
  container hname htexts hpieces := isGuarded_stack hname htexts hpieces
  custom {_ axis _ _} _ htexts hpieces := by
    have hname : (stackName axis).IsWord := by cases axis <;> decide
    -- The name of a component is written behind the slashes of a comment.
    have hcomment : IsGuarded "// ".toList := by decide
    exact Block.isGuarded_cons (((hcomment.append _).append _).append _)
      (isGuarded_stack hname htexts hpieces)
  text {name _ _} hname htexts := by
    have hhead : IsGuarded (name ++ "(".toList) := hname.guarded (by decide)
    exact Block.isGuarded_cons ((hhead.append _).append _) (isGuarded_modifierLines htexts)
  shape hname htexts :=
    Block.isGuarded_cons (hname.guarded (by decide)) (isGuarded_modifierLines htexts)
  image hname htexts :=
    Block.isGuarded_cons (hname.guarded (by decide))
      (Block.isGuarded_cons (by decide) (isGuarded_modifierLines htexts))

end SwiftUI

/-! ### Compose -/

namespace Compose

/-- A length holds a dimension and its unit. -/
theorem unbroken_dp (x : Binary64) : Unbroken (dp x) := by
  rw [dp, unbroken_append]
  exact ⟨unbroken_dimension x, by decide⟩

/-- The same for a colour of Compose. -/
theorem unbroken_color {c : Text} (hc : Unbroken c) : Unbroken (color c) :=
  unbroken_append.mpr ⟨unbroken_append.mpr ⟨by decide, hc⟩, by decide⟩

/-- The same for a shape of Compose. -/
theorem unbroken_rounded (radius : Binary64) : Unbroken (rounded radius) :=
  unbroken_append.mpr ⟨unbroken_append.mpr ⟨by decide, unbroken_dp radius⟩, by decide⟩

/-- The links of the chain for an attribute are guarded lines, each by the name of its modifier. -/
theorem isGuardedLine_links {radius : Binary64} {a : Attribute Text}
    (h : ∀ t ∈ a.texts, Unbroken t) : ∀ link ∈ links radius a, IsGuardedLine link := by
  have hclip : IsGuardedLine ".clip(".toList := by decide
  have hborder : IsGuardedLine ".border(".toList := by decide
  -- Each link begins with a point and a word, as the modifiers of SwiftUI do.
  cases a with
  | size width height =>
    have hwidth : IsGuardedLine ".width(".toList := by decide
    have hheight : IsGuardedLine ".height(".toList := by decide
    simp only [links, List.forall_mem_cons]
    exact ⟨(hwidth.append (unbroken_dp width)).append (by decide),
      (hheight.append (unbroken_dp height)).append (by decide), by simp⟩
  | background c =>
    have hstart : IsGuardedLine ".background(".toList := by decide
    have hc : Unbroken c := h c (List.mem_singleton_self c)
    have hshape : Unbroken
        (if radius.isZero then [] else ", ".toList ++ rounded radius) := by
      split
      · decide
      · exact unbroken_append.mpr ⟨by decide, unbroken_rounded radius⟩
    exact List.forall_mem_singleton.mpr
      (((hstart.append (unbroken_color hc)).append hshape).append (by decide))
  | border c width corner =>
    have hc : Unbroken c := h c (List.mem_singleton_self c)
    rw [links]
    split
    · exact List.forall_mem_singleton.mpr
        ((((hborder.append (unbroken_dp width)).append (by decide)).append
          (unbroken_color hc)).append (by decide))
    · simp only [List.forall_mem_cons]
      exact ⟨(hclip.append (unbroken_rounded corner)).append (by decide),
        (((((hborder.append (unbroken_dp width)).append (by decide)).append
          (unbroken_color hc)).append (by decide)).append (unbroken_rounded corner)).append
          (by decide), by simp⟩
  | cornerRadius corner =>
    exact List.forall_mem_singleton.mpr
      ((hclip.append (unbroken_rounded corner)).append (by decide))
  | padding sides =>
    have hstart : IsGuardedLine ".padding(start = ".toList := by decide
    exact List.forall_mem_singleton.mpr
      ((((((((hstart.append (unbroken_dp sides.left)).append (by decide)).append
        (unbroken_dp sides.top)).append (by decide)).append
        (unbroken_dp sides.right)).append (by decide)).append
        (unbroken_dp sides.bottom)).append (by decide))
  | offset x y =>
    have hstart : IsGuardedLine ".offset(x = ".toList := by decide
    exact List.forall_mem_singleton.mpr
      ((((hstart.append (unbroken_dp x)).append (by decide)).append (unbroken_dp y)).append
        (by decide))
  | spacing _ | textColor _ | fontSize _ | fontWeight _ => simp [links]

/-- An argument whose lines are guarded. The modifier chain is the one argument of several lines. -/
def Argument.IsGuarded (a : Argument) : Prop := AllGuarded a.text

/-- An argument is guarded by its name if its literal is on one line. -/
theorem Argument.isGuarded_of_unbroken {name literal : Text} (hname : name.IsWord)
    (hliteral : Unbroken literal) : Argument.IsGuarded ⟨name, literal⟩ := by
  have hstart : IsGuardedLine (name ++ " = ".toList) :=
    ⟨unbroken_append.mpr ⟨hname.unbroken, by decide⟩, hname.guarded (by decide)⟩
  exact (hstart.append hliteral).allGuarded

/-- The modifier chain has a line for each link, guarded by the link. -/
theorem isGuarded_modifierArgument {attributes : List (Attribute Text)}
    (h : Attribute.TextsIn (· ≠ '\n') attributes) (needed : Bool) :
    ∀ a ∈ modifierArgument attributes needed, a.IsGuarded := by
  have hname : IsWord "modifier".toList := by decide
  simp only [modifierArgument]
  split
  · split
    · exact List.forall_mem_singleton.mpr (Argument.isGuarded_of_unbroken hname (by decide))
    · simp
  · next hchain =>
    generalize hlinks : attributes.flatMap (links (shapeRadius attributes)) = chain at hchain
    have hguarded : ∀ line ∈ chain.map (unit ++ ·), IsGuardedLine line := by
      intro line hline
      obtain ⟨link, hlink, rfl⟩ := List.mem_map.mp hline
      obtain ⟨a, ha, hlink⟩ := List.mem_flatMap.mp (hlinks ▸ hlink)
      obtain ⟨hunbroken, hguarded⟩ := isGuardedLine_links (fun _ => h.unbroken ha) link hlink
      exact ⟨unbroken_append.mpr ⟨by decide, hunbroken⟩, hguarded.behind (by decide)⟩
    have hne : chain.map (unit ++ ·) ≠ [] := by simpa using hchain
    refine List.forall_mem_singleton.mpr ?_
    -- The first line is that of the name, and the links follow.
    rw [Argument.IsGuarded, Argument.text, unlines_cons _ hne, ← List.append_assoc, AllGuarded,
      lines_append_newline_append]
    have hfirst : AllGuarded ("modifier".toList ++ " = ".toList ++ "Modifier".toList) := by decide
    exact List.forall_mem_append.mpr ⟨hfirst, allGuarded_unlines hne hguarded⟩

/-- The arguments for the attributes of a text are guarded by their names. -/
theorem isGuarded_textArguments {attributes : List (Attribute Text)}
    (h : Attribute.TextsIn (· ≠ '\n') attributes) :
    ∀ a ∈ attributes.filterMap textArgument?, a.IsGuarded := by
  intro argument hargument
  obtain ⟨a, ha, hsome⟩ := List.mem_filterMap.mp hargument
  cases a with
  | textColor c =>
    cases hsome
    exact Argument.isGuarded_of_unbroken (by decide)
      (unbroken_color (h.unbroken ha (List.mem_singleton_self c)))
  | fontSize size =>
    cases hsome
    exact Argument.isGuarded_of_unbroken (by decide)
      (unbroken_append.mpr ⟨unbroken_dimension size, by decide⟩)
  | fontWeight word =>
    cases hsome
    exact Argument.isGuarded_of_unbroken (by decide)
      (h.unbroken ha (List.mem_singleton_self word))
  | size _ _ | background _ | border _ _ _ | cornerRadius _ | padding _ | spacing _
  | offset _ _ => cases hsome

/-- So is the argument for the gap between children, where there is one. -/
theorem isGuarded_spacingArgument (axis : Axis) (attributes : List (Attribute Text)) :
    ∀ a ∈ spacingArgument axis attributes, a.IsGuarded := by
  rw [spacingArgument]
  split
  · next gap name hgap hname =>
    have hword : name.IsWord := by
      cases axis <;> cases hname <;> decide
    refine List.forall_mem_singleton.mpr (Argument.isGuarded_of_unbroken hword ?_)
    simp only [unbroken_append]
    exact ⟨⟨by decide, unbroken_dp gap⟩, by decide⟩
  · simp

/-- Arguments stay guarded as lines of a call. All but the last have a comma behind them, on their
last line. -/
theorem isGuarded_argumentLines {arguments : List Argument} (h : ∀ a ∈ arguments, a.IsGuarded) :
    Block.IsGuarded (argumentLines arguments) := by
  fun_induction argumentLines arguments with
  | case1 => simp [Block.IsGuarded]
  | case2 last => exact Block.isGuarded_insideText (h last (List.mem_singleton_self last))
  | case3 next rest _ ih =>
    obtain ⟨hnext, hrest⟩ := List.forall_mem_cons.mp h
    exact Block.isGuarded_append
      (Block.isGuarded_insideText (AllGuarded.append hnext (by decide))) (ih hrest)

/-- A lambda is guarded behind the start of its line, which may be empty. -/
theorem isGuarded_lambda {line : Text} (hline : '`' ∉ line) {children : List Block}
    (hchildren : ∀ piece ∈ children, piece.IsGuarded) :
    Block.IsGuarded (closeWith line (.lambda children)) := by
  rw [closeWith]
  split
  · exact Block.isGuarded_singleton (IsGuarded.behind hline (by decide))
  · exact Block.isGuarded_around (IsGuarded.behind hline (by decide)) (by decide) hchildren

/-- A call is guarded if its arguments and the pieces in its lambda are. With arguments, the lambda
follows the closing parenthesis; without, it follows the name. -/
theorem isGuarded_call {name : Text} (hname : name.IsWord) {arguments : List Argument}
    (harguments : ∀ a ∈ arguments, a.IsGuarded) {content : Content}
    (hcontent : content.Holds Block.IsGuarded) :
    Block.IsGuarded (call name arguments content) := by
  have hplain : '`' ∉ name := fun hmem => absurd (hname '`' hmem) (by decide)
  unfold call
  split
  · -- Without arguments the call is one line, up to what its lambda holds.
    cases content with
    | absent => exact Block.isGuarded_singleton (hname.guarded (by decide))
    | lambda children => exact isGuarded_lambda hplain hcontent
  · refine Block.isGuarded_append
      (Block.isGuarded_cons (hname.guarded (by decide)) (isGuarded_argumentLines harguments)) ?_
    cases content with
    | absent => exact Block.isGuarded_singleton (by decide)
    | lambda children => exact isGuarded_lambda (by decide) hcontent

/-- Compose keeps lines guarded. Literals of texts and names stand behind the name of their
argument. -/
theorem keeps_isGuarded : target.Keeps (· ≠ '\n') Block.IsGuarded where
  container {_ axis attributes _} hname htexts hpieces :=
    isGuarded_call hname
      (List.forall_mem_append.mpr
        ⟨isGuarded_modifierArgument htexts false, isGuarded_spacingArgument axis attributes⟩)
      (.lambda hpieces)
  custom {_ axis attributes _} _ htexts hpieces := by
    have hname : (customName axis).IsWord := by cases axis <;> decide
    have hcomment : IsGuarded "// ".toList := by decide
    exact Block.isGuarded_cons (((hcomment.append _).append _).append _)
      (isGuarded_call hname
        (List.forall_mem_append.mpr
          ⟨isGuarded_modifierArgument htexts false, isGuarded_spacingArgument axis attributes⟩)
        (.lambda hpieces))
  text {_ content _} hname htexts := by
    -- The content is quoted, so whatever it holds stays behind the name of its argument.
    refine isGuarded_call hname (List.forall_mem_cons.mpr ⟨?_, ?_⟩) (.absent _)
    · exact Argument.isGuarded_of_unbroken (by decide) (Literal.unbroken_kotlin content)
    · exact List.forall_mem_append.mpr
        ⟨isGuarded_modifierArgument htexts false, isGuarded_textArguments htexts⟩
  shape {name attributes} hname htexts := by
    show Block.IsGuarded (shape name attributes)
    rw [shape]
    split
    · exact isGuarded_call hname (isGuarded_modifierArgument htexts true) (.lambda (by simp))
    · exact isGuarded_call hname (isGuarded_modifierArgument htexts false) (.absent _)
  image {_ title _} hname htexts := by
    refine isGuarded_call hname (List.forall_mem_cons.mpr ⟨?_, List.forall_mem_cons.mpr ⟨?_, ?_⟩⟩)
      (.absent _)
    · exact Argument.isGuarded_of_unbroken (by decide) (by decide)
    · exact Argument.isGuarded_of_unbroken (by decide) (Literal.unbroken_kotlin title)
    · exact isGuarded_modifierArgument htexts false

end Compose

/-! ### React -/

namespace React

/-- An element is guarded by its angle brackets, at its opening and at its closing tag. -/
theorem isGuarded_element {tag : Text} {properties : List (Option Text)} {children : List Block}
    (hchildren : ∀ piece ∈ children, piece.IsGuarded) :
    Block.IsGuarded (element tag properties children) := by
  have hopening : IsGuarded "<".toList := by decide
  have hclosing : IsGuarded "</".toList := by decide
  rw [element]
  split
  · exact Block.isGuarded_singleton ((hopening.append _).append _)
  · exact Block.isGuarded_around ((hopening.append _).append _) ((hclosing.append _).append _)
      hchildren

/-- React keeps lines guarded: a text stands between its tags on one line. -/
theorem keeps_isGuarded : target.Keeps (· ≠ '\n') Block.IsGuarded where
  container _ _ hpieces := isGuarded_element hpieces
  custom _ _ hpieces := isGuarded_element hpieces
  text _ _ := by
    have hopening : IsGuarded "<".toList := by decide
    exact Block.isGuarded_singleton ((((hopening.append _).append _).append _).append _)
  shape _ _ := isGuarded_element (List.forall_mem_nil _)
  image _ _ := isGuarded_element (List.forall_mem_nil _)

end React

/-! ### Every target -/

/-- Every target keeps lines guarded, if texts do not break lines. -/
theorem Platform.keeps_isGuarded (platform : Platform) :
    platform.target.Keeps (· ≠ '\n') Block.IsGuarded := by
  cases platform with
  | swiftUI => exact SwiftUI.keeps_isGuarded
  | compose => exact Compose.keeps_isGuarded
  | react => exact React.keeps_isGuarded

/-- The lines of the code of a tree are guarded if its colours stand on one line. Names and texts of
layers are free: they are quoted, or stand on one line behind a start. -/
theorem Block.isGuarded_of_render {platform : Platform} {node : Node}
    (hcolors : ∀ t ∈ node.colors, Unbroken t) {block : Block}
    (h : node.render platform = .ok block) : block.IsGuarded := by
  refine platform.keeps_isGuarded.render (fun _ => ne_newline_of_alphanumeric) ?_ h
  intro t ht c hc
  exact ne_of_mem_of_not_mem hc (hcolors t ht)

end DesignCompiler
