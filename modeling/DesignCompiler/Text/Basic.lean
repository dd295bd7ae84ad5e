/-!
# `DesignCompiler.Text.Basic`: text as a list of characters

Everything the library reads or writes is a `Text`: the code points of a string, in order. Lengths
and cuts therefore count code points, and every function on text is a recursion on a list. Strings
appear only where a constant is written down and at the border of the program.

* `Text.lines` cuts at each line feed and `Text.unlines` puts the line feeds back; no other
  character ends a line.
* `Text.trimBy` removes what a predicate accepts from both ends.
* `Text.after?` and `Text.contains` look for one text at the start of another, and inside it.
-/

set_option autoImplicit false

namespace DesignCompiler

/-- The code points of a string, in order. -/
abbrev Text := List Char

/-- Texts are compared character by character, so a text is in a list of texts if one of them is
equal to it. -/
instance Text.instLawfulBEq : LawfulBEq Text := inferInstance

namespace Text

/-- The pieces, with `separator` between each two. -/
def joinWith (separator : Text) : List Text → Text
  | [] => []
  | [piece] => piece
  | piece :: rest => piece ++ separator ++ joinWith separator rest

/-- The pieces between the line feeds. There is always at least one: the empty text is one empty
line, and a line feed at the end is followed by one more. -/
def lines : Text → List Text
  | [] => [[]]
  | c :: rest =>
    if c = '\n' then [] :: lines rest
    else match lines rest with
      | [] => [[c]]
      | line :: more => (c :: line) :: more

/-- Lines put together with a line feed between each two. -/
def unlines (ls : List Text) : Text := joinWith ['\n'] ls

/-- The text without the characters that `drop` accepts at its two ends. -/
def trimBy (drop : Char → Bool) (t : Text) : Text :=
  ((t.dropWhile drop).reverse.dropWhile drop).reverse

/-- The text without the characters that `drop` accepts at its end. -/
def trimEndBy (drop : Char → Bool) (t : Text) : Text :=
  (t.reverse.dropWhile drop).reverse

/-- What is left of `t` after `start`, if it begins so. It is the one test by which texts are
searched. -/
def after? : Text → Text → Option Text
  | [], t => some t
  | _ :: _, [] => none
  | s :: start, c :: t => if s = c then after? start t else none

/-- Whether `piece` occurs in `t` as a block of neighbours. The empty piece occurs in every text. -/
def contains (piece : Text) : Text → Bool
  | [] => piece.isEmpty
  | c :: t => (after? piece (c :: t)).isSome || contains piece t

/-- `count` copies of `piece`, one after the other. -/
def times (piece : Text) (count : Nat) : Text := (List.replicate count piece).flatten

/-- The text with `new` in place of each `old` character. -/
def replaceChar (old new : Char) (t : Text) : Text := t.map fun c => if c = old then new else c

/-- A text has at least one line. The case of no line in the definition of `lines` is therefore
never taken. -/
theorem lines_ne_nil (t : Text) : lines t ≠ [] := by
  cases t with
  | nil => simp [lines]
  | cons c rest =>
    unfold lines
    split
    · simp
    · split <;> simp

/-- Putting the lines of a text together gives the text. Cutting into lines loses nothing, so a
statement about the lines is one about the whole text. -/
theorem unlines_lines (t : Text) : unlines (lines t) = t := by
  induction t with
  | nil => rfl
  | cons c rest ih =>
    unfold lines
    -- A line feed ends an empty line, and any other character goes in front of the first line.
    split
    · next h =>
      subst h
      cases hl : lines rest with
      | nil => exact absurd hl (lines_ne_nil rest)
      | cons line more => rw [hl] at ih; simp [unlines, joinWith] at ih ⊢; exact ih
    · cases hl : lines rest with
      | nil => exact absurd hl (lines_ne_nil rest)
      | cons line more =>
        rw [hl] at ih
        cases more with
        | nil => simp_all [unlines, joinWith]
        | cons next more => simp_all [unlines, joinWith]

end Text

end DesignCompiler
