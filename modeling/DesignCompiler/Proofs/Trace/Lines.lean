import Mathlib.Data.List.Basic
import Mathlib.Data.List.TakeWhile
import DesignCompiler.Proofs.Render.Depth
import DesignCompiler.Proofs.Render.Kinds

/-!
# `DesignCompiler.Proofs.Trace.Lines`: code compared line by line

Two pieces of code that are laid out as the same text have the same lines of text. Where the pieces
have parts in common, such as the code of the same children, these parts can be taken away from both
sides: `Block.textLines` tells the lines of a part, whether or not they hold line feeds themselves,
and `head_eq_of_layOut_eq` and `eq_of_textLines_eq` give back the lines that were laid out.

What a line is about is told by its first word (`Text.leadingWord`), after the blanks and up to the
first character that is neither a letter nor a point. More text behind a complete word does not
change it (`Text.Leads`), and neither does the comma behind an argument (`leadingWord_comma`).
-/

set_option autoImplicit false

namespace DesignCompiler

open Text

namespace Block

variable {unit : Text} {depth : Int} {back back' : Block}

/-- The lines of text of a piece that is laid out at a depth. A line of the piece may hold line
feeds of its own, and then it is several of them. -/
def textLines (unit : Text) (depth : Int) (block : Block) : List Text :=
  block.flatMap fun line => lines (layOutLine unit depth line)

/-- The lines of two pieces are those of the one and of the other. So what two codes have in common
at the front or at the end can be taken away. -/
theorem textLines_append (front back : Block) : textLines unit depth (front ++ back)
    = textLines unit depth front ++ textLines unit depth back :=
  List.flatMap_append

/-- The lines of a laid-out piece, cut from its text. A piece without lines is laid out as the empty
text, which has one. -/
theorem lines_layOut_eq_textLines {block : Block} (h : block ≠ []) :
    lines (layOut unit depth block) = textLines unit depth block := by
  rw [layOut, lines_unlines_flatMap (by simpa using h), List.flatMap_map]
  rfl

/-- Lines that hold no line feed are laid out one by one, each behind the blanks of its level. -/
theorem textLines_map (hunit : Unbroken unit) (level : Nat) {texts : List Text}
    (h : ∀ t ∈ texts, Unbroken t) : textLines unit depth (texts.map (Line.mk level))
      = texts.map (unit.times (depth + level).toNat ++ ·) := by
  rw [textLines, List.flatMap_map, List.map_eq_flatMap]
  refine List.flatMap_congr fun t ht => ?_
  exact lines_unbroken (unbroken_append.mpr ⟨hunit.times _, h t ht⟩)

/-- Lines of one level are known by their text: the blanks in front are as many on both sides and
can be taken away. -/
theorem eq_of_textLines_eq (hunit : Unbroken unit) {level : Nat} {texts others : List Text}
    (ht : ∀ t ∈ texts, Unbroken t) (ho : ∀ t ∈ others, Unbroken t)
    (h : textLines unit depth (texts.map (Line.mk level))
      = textLines unit depth (others.map (Line.mk level))) : texts = others := by
  rw [textLines_map hunit level ht, textLines_map hunit level ho] at h
  exact List.map_injective_iff.mpr (fun _ _ => List.append_cancel_left) h

/-- Pieces with the same front and then one line each: the lines are equal, and so is what
follows. -/
theorem head_eq_of_layOut_eq (front : Block) (hunit : Unbroken unit) {head head' : Text}
    (hhead : Unbroken head) (hhead' : Unbroken head')
    (h : layOut unit depth (front ++ Line.outer head :: back)
      = layOut unit depth (front ++ Line.outer head' :: back')) :
    head = head' ∧ textLines unit depth back = textLines unit depth back' := by
  -- The line at the head takes exactly one line of the code, whatever follows.
  have hsplit : ∀ (text : Text) (rest : Block), Unbroken text →
      textLines unit depth (Line.outer text :: rest)
        = (unit.times (depth + (0 : Nat)).toNat ++ text) :: textLines unit depth rest := by
    intro text rest htext
    have hone : textLines unit depth ([text].map (Line.mk 0)) = [text].map _ :=
      textLines_map hunit 0 (List.forall_mem_singleton.mpr htext)
    show textLines unit depth ([text].map (Line.mk 0) ++ rest) = _
    rw [textLines_append, hone]
    rfl
  have hlines := congrArg lines h
  rw [lines_layOut_eq_textLines (by simp), lines_layOut_eq_textLines (by simp), textLines_append,
    textLines_append, hsplit head back hhead, hsplit head' back' hhead'] at hlines
  obtain ⟨hfirst, hrest⟩ := List.cons.inj (List.append_cancel_left hlines)
  exact ⟨List.append_cancel_left hfirst, hrest⟩

/-- Pieces with the same front: what follows has the same lines of text. The front may be of any
lines, such as the code of the same children. -/
theorem textLines_eq_of_layOut_eq {front : Block} (hfront : front ≠ [])
    (h : layOut unit depth (front ++ back) = layOut unit depth (front ++ back')) :
    textLines unit depth back = textLines unit depth back' := by
  have hlines := congrArg lines h
  rw [lines_layOut_eq_textLines (by simp [hfront]), lines_layOut_eq_textLines (by simp [hfront]),
    textLines_append, textLines_append] at hlines
  exact List.append_cancel_left hlines

/-- Texts that are put inside a piece are cut into lines one level deep. -/
theorem flatMap_insideText (texts : List Text) :
    texts.flatMap insideText = (texts.flatMap lines).map (Line.mk 1) :=
  List.map_flatMap.symm

end Block

namespace Text

/-- A letter or a point. Names of modifiers and of links begin with a point, and names of arguments
do not. -/
def isWordChar (c : Char) : Bool := isLetter c || c = '.'

/-- The first word of a line, after the blanks in front. It is empty if the line begins with
something else, such as a bracket. -/
def leadingWord (line : Text) : Text := (line.dropWhile (· = ' ')).takeWhile isWordChar

/-- Blanks in front of a line come before its first word, so the level of a line does not matter. -/
theorem leadingWord_indent {indent : Text} (h : indent.all (· = ' ') = true) (line : Text) :
    leadingWord (indent ++ line) = leadingWord line := by
  have hdrop : (indent ++ line).dropWhile (· = ' ') = line.dropWhile (· = ' ') :=
    List.dropWhile_append_of_pos (List.all_eq_true.mp h)
  rw [leadingWord, hdrop, leadingWord]

/-- The line begins with the word, whatever is put behind it. The word has to be complete for that:
something in the line already ends it. -/
def Leads (word line : Text) : Prop := ∀ rest, leadingWord (line ++ rest) = word

namespace Leads

variable {word line : Text}

/-- A word that has come to its end is the first one. For a fixed start of a line, both conditions
are decided. -/
theorem of_stop (h : leadingWord line = word
    ∧ (line.dropWhile (· = ' ')).any (fun c => !isWordChar c) = true) : Leads word line := by
  obtain ⟨hword, hstop⟩ := h
  intro rest
  have hne : (line.dropWhile (· = ' ')).isEmpty = false := by
    cases hdrop : line.dropWhile (· = ' ') with
    | nil =>
      rw [hdrop] at hstop
      cases hstop
    | cons c more => rfl
  rw [← hword, leadingWord, leadingWord, List.dropWhile_append, hne, if_neg Bool.false_ne_true,
    List.takeWhile_append, if_neg]
  -- The character that ends the word is not in it.
  intro hlength
  have hall := List.takeWhile_eq_self_iff.mp
    ((List.takeWhile_prefix isWordChar).eq_of_length hlength)
  obtain ⟨c, hc, hend⟩ := List.any_eq_true.mp hstop
  rw [hall c hc] at hend
  cases hend

/-- A name in front of something else is the first word of a line. This is for names that are not
known, of which it is only known that they are letters. -/
theorem of_name {name : Text} (hname : name.IsWord) {c : Char} (hc : isWordChar c = false)
    (hne : name = [] → c ≠ ' ') (behind : Text) : Leads name (name ++ c :: behind) := by
  intro rest
  have hfront :
      (name ++ c :: behind ++ rest).dropWhile (· = ' ') = name ++ c :: behind ++ rest := by
    cases name with
    | nil => exact List.dropWhile_cons_of_neg (by simpa using hne rfl)
    | cons first more =>
      refine List.dropWhile_cons_of_neg ?_
      intro hblank
      have hfirst := hname first List.mem_cons_self
      rw [of_decide_eq_true hblank] at hfirst
      exact absurd hfirst (by decide)
  -- The name ends where the next character does, which is no part of a word.
  have hword : ∀ d ∈ name, isWordChar d = true := by
    intro d hd
    have hd := hname d hd
    rw [isWordChar, hd, Bool.true_or]
  rw [leadingWord, hfront, List.append_assoc, List.takeWhile_append_of_pos hword, List.cons_append,
    List.takeWhile_cons_of_neg (by simp [hc]), List.append_nil]

/-- More text behind a complete word does not change it. So the start of a line is enough to know
what the line is about. -/
theorem append (h : Leads word line) (more : Text) : Leads word (line ++ more) := by
  intro rest
  rw [List.append_assoc]
  exact h (more ++ rest)

/-- Nor do blanks in front, which a line inside another one has. -/
theorem indent {blanks : Text} (hblanks : blanks.all (· = ' ') = true) (h : Leads word line) :
    Leads word (blanks ++ line) := by
  intro rest
  rw [List.append_assoc, leadingWord_indent hblanks]
  exact h rest

/-- A line that begins with a word has it as its first word. -/
theorem eq (h : Leads word line) : leadingWord line = word := by
  have hnothing := h []
  rwa [List.append_nil] at hnothing

end Leads

/-- A comma at the end of a line ends a word and is in none. Arguments have a comma behind them
unless they are the last, and this may differ between two calls. -/
theorem leadingWord_comma (line : Text) : leadingWord (line ++ [',']) = leadingWord line := by
  rw [leadingWord, leadingWord, List.dropWhile_append]
  split
  · next hblank =>
    rw [List.isEmpty_iff.mp hblank]
    rfl
  · rw [List.takeWhile_append]
    split
    · next hlength =>
      rw [(List.takeWhile_prefix isWordChar).eq_of_length hlength]
      exact List.append_nil _
    · rfl

/-- A comma behind the last line changes no first word, and the lines before it are not touched. -/
theorem map_leadingWord_lines_comma (t : Text) :
    (lines (t ++ [','])).map leadingWord = (lines t).map leadingWord := by
  obtain ⟨init, last, hlines, hcomma⟩ := lines_append_unbroken (t := t) (b := [',']) (by decide)
  rw [hlines, hcomma, List.map_append, List.map_append, List.map_singleton, List.map_singleton,
    leadingWord_comma]

end Text

/-! ### What a target shows -/

/-- The comment over a node tells its type and name and nothing else, so it is the same for two
nodes that differ in their attributes. -/
theorem customComment_eq {l l' : Layer} (htype : l.type = l'.type) (hname : l.name = l'.name) :
    customComment l = customComment l' := by
  rw [customComment, customComment, htype, hname]

/-- The attributes of a node: of canonical kinds, with texts in one line and without a comma. Both
conditions on texts hold for colours and for words of a weight, the only texts that attributes have.
-/
structure Attribute.Drawable (role : Role) (axis : Axis) (attributes : List (Attribute Text)) :
    Prop where
  canonical : AttributeKind.IsCanonical role (some axis) (attributes.map Attribute.kind)
  texts : TextsIn (fun c => c ≠ '\n' ∧ c ≠ ',') attributes

namespace Attribute.Drawable

variable {role : Role} {axis : Axis} {attributes : List (Attribute Text)}

/-- The texts of the attributes stand on one line, so a line of code stays one. -/
theorem unbroken (h : Drawable role axis attributes) : TextsIn (· ≠ '\n') attributes :=
  fun a ha t ht c hc => (h.texts a ha t ht c hc).1

/-- The texts of the attributes have no comma, so the commas of a style are those between its
entries. -/
theorem noComma (h : Drawable role axis attributes) : TextsIn (· ≠ ',') attributes :=
  fun a ha t ht c hc => (h.texts a ha t ht c hc).2

end Attribute.Drawable

/-- A target shows the kinds of attributes: in each of its shapes, attributes with the same code are
of the same kinds. The code is laid out at any depth, and the children are the same on both sides.
-/
structure Target.ShowsKinds (target : Target) : Prop where
  container : ∀ {name : Text} {axis : Axis} {as bs : List (Attribute Text)} {pieces : List Block}
    {depth : Int}, name.IsWord → Attribute.Drawable .container axis as →
      Attribute.Drawable .container axis bs →
        Block.layOut target.unit depth (target.container name axis as pieces)
            = Block.layOut target.unit depth (target.container name axis bs pieces) →
          as.map Attribute.kind = bs.map Attribute.kind
  custom : ∀ {l l' : Layer} {axis : Axis} {as bs : List (Attribute Text)} {pieces : List Block}
    {depth : Int}, l.type = l'.type → l.name = l'.name → Attribute.Drawable .custom axis as →
      Attribute.Drawable .custom axis bs →
        Block.layOut target.unit depth (target.custom l axis as pieces)
            = Block.layOut target.unit depth (target.custom l' axis bs pieces) →
          as.map Attribute.kind = bs.map Attribute.kind
  text : ∀ {name content : Text} {as bs : List (Attribute Text)} {depth : Int}, name.IsWord →
    Attribute.Drawable .text .none as → Attribute.Drawable .text .none bs →
      Block.layOut target.unit depth (target.text name content as)
          = Block.layOut target.unit depth (target.text name content bs) →
        as.map Attribute.kind = bs.map Attribute.kind
  shape : ∀ {name : Text} {as bs : List (Attribute Text)} {depth : Int}, name.IsWord →
    Attribute.Drawable .shape .none as → Attribute.Drawable .shape .none bs →
      Block.layOut target.unit depth (target.shape name as)
          = Block.layOut target.unit depth (target.shape name bs) →
        as.map Attribute.kind = bs.map Attribute.kind
  image : ∀ {name title : Text} {as bs : List (Attribute Text)} {depth : Int}, name.IsWord →
    Attribute.Drawable .image .none as → Attribute.Drawable .image .none bs →
      Block.layOut target.unit depth (target.image name title as)
          = Block.layOut target.unit depth (target.image name title bs) →
        as.map Attribute.kind = bs.map Attribute.kind

end DesignCompiler
