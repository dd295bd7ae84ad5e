import DesignCompiler.Proofs.Lexical.Scanner
import DesignCompiler.Proofs.Number.Dimension
import DesignCompiler.Proofs.Render.Tree

/-!
# `DesignCompiler.Proofs.Lexical.Source`: scanning pieces of code

Blanks in front of a line mean nothing to the scanner, so a piece can be scanned without them, one
line after the other (`Block.source`). At whatever depth it is laid out, the scanner comes to the
same end (`scan_layOut`). A piece is *closed* if it is read from code to code with the same brackets
open before and after it.

The literals of all targets are closed whatever their text is, because each of its characters is
written so that the scanner stays inside (`closed_swift`, `closed_kotlin`, `closed_javaScript`).
-/

set_option autoImplicit false

namespace DesignCompiler

open Text

/-- Lines that each end with a line feed are the lines put together with one more at the end. There
has to be a line: without any, the left side is empty. -/
theorem Text.terminated_eq {ls : List Text} (h : ls ≠ []) :
    (ls.flatMap fun l => l ++ ['\n']) = unlines ls ++ ['\n'] := by
  induction ls with
  | nil => exact absurd rfl h
  | cons l rest ih =>
    cases rest with
    | nil => simp [unlines_singleton]
    | cons next rest =>
      rw [List.flatMap_cons, ih (by simp), unlines_cons_cons]
      simp

/-- The lines of a piece of code without their blanks, each with a line feed. The line feed at the
end makes sources append like pieces do. -/
def Block.source (block : Block) : Text := block.flatMap fun line => line.text ++ ['\n']

namespace Block

/-- A piece without lines has no source. -/
@[simp] theorem source_nil : source [] = [] := rfl

/-- The source of a piece, line by line. -/
@[simp] theorem source_cons (line : Line) (rest : Block) :
    source (line :: rest) = line.text ++ ['\n'] ++ source rest := rfl

/-- Pieces one after the other have their sources one after the other. -/
@[simp] theorem source_append (front back : Block) :
    source (front ++ back) = source front ++ source back := by
  simp [source]

/-- Further in, only the blanks in front of the lines differ, and the source has none. -/
theorem source_inner (piece : Block) : source (inner piece) = source piece := by
  rw [source, inner, List.flatMap_map]
  rfl

/-- A text put inside a piece comes back with a line feed: it is split into lines and the source
puts them together again. -/
theorem source_insideText (t : Text) : source (insideText t) = t ++ ['\n'] := by
  rw [source, insideText, List.flatMap_map, terminated_eq (lines_ne_nil t), unlines_lines]

/-- The source of pieces inside another is that of the pieces in order. -/
theorem source_innerAll (pieces : List Block) :
    source (innerAll pieces) = pieces.flatMap source := by
  induction pieces with
  | nil => rfl
  | cons piece rest ih =>
    rw [innerAll, List.map_cons, List.flatten_cons, source_append, source_inner, List.flatMap_cons]
    exact congrArg (source piece ++ ·) ih

end Block

namespace Lexical

section

variable {platform : Platform}

/-! ### Closed texts -/

/-- A text that is read from code to code with the same brackets open before and after it. Stated
with no brackets open, which is enough (`Closed.reads`). -/
def Closed (platform : Platform) (t : Text) : Prop :=
  Reads platform.quotes (inCode []) t (inCode [])

/-- Decided by running the scanner on the text. -/
instance (platform : Platform) (t : Text) : Decidable (Closed platform t) :=
  inferInstanceAs (Decidable (Reads _ _ _ _))

/-- Nothing is closed. -/
theorem Closed.nil : Closed platform [] := rfl

/-- A closed text is passed over with any brackets open. What is awaited outside is never looked at
inside, or the text would not be closed by itself. -/
theorem Closed.reads {t : Text} (h : Closed platform t) (awaited : List Char) :
    Reads platform.quotes (inCode awaited) t (inCode awaited) :=
  Reads.under h awaited

/-- A closed text after another text changes nothing, so the reading of a line can be told by its
parts that open and close brackets. -/
theorem Reads.closed {s : State} {t u : Text} {awaited : List Char}
    (ht : Reads platform.quotes s t (inCode awaited)) (hu : Closed platform u) :
    Reads platform.quotes s (t ++ u) (inCode awaited) :=
  ht.append (hu.reads awaited)

/-- Closed texts side by side are closed. -/
theorem Closed.append {t u : Text} (ht : Closed platform t) (hu : Closed platform u) :
    Closed platform (t ++ u) :=
  Reads.append ht hu

/-- A closed text may end its line: in code a line feed means nothing. -/
theorem Closed.line {t : Text} (h : Closed platform t) : Closed platform (t ++ ['\n']) :=
  Reads.line h

/-- Characters that are no brackets, quotes, slashes or line feeds are passed over. -/
theorem Closed.ordinary {t : Text} (h : ∀ c ∈ t, isOrdinary c = true) : Closed platform t :=
  Reads.ordinary h []

/-- Closed texts, one for each member of a list. -/
theorem Closed.flatMap {α : Type} {l : List α} {write : α → Text}
    (h : ∀ x ∈ l, Closed platform (write x)) : Closed platform (l.flatMap write) := by
  induction l with
  | nil => exact .nil
  | cons x rest ih =>
    rw [List.flatMap_cons]
    exact (h x List.mem_cons_self).append (ih fun y hy => h y (List.mem_cons_of_mem x hy))

/-- Closed texts with a closed separator between them. -/
theorem Closed.joinWith {separator : Text} (hseparator : Closed platform separator)
    {pieces : List Text} (h : ∀ piece ∈ pieces, Closed platform piece) :
    Closed platform (joinWith separator pieces) := by
  -- The recursion of `joinWith` tells the last piece from the others, which have a separator behind
  -- them.
  fun_induction Text.joinWith separator pieces with
  | case1 => exact .nil
  | case2 piece => exact h piece List.mem_cons_self
  | case3 piece rest hrest ih =>
    exact ((h piece List.mem_cons_self).append hseparator).append
      (ih fun other hother => h other (List.mem_cons_of_mem piece hother))

/-- Lines that are closed make a closed text. -/
theorem Closed.unlines {ls : List Text} (h : ∀ l ∈ ls, Closed platform l) :
    Closed platform (Text.unlines ls) :=
  Closed.joinWith (Reads.newline []) h

/-- A line, read with its line feed, and the lines after it are read one after the other. This is
the form for comments, which the line feed ends. -/
theorem Reads.unlinesLine {s s' : State} {l next : Text} {rest : List Text} {awaited : List Char}
    (hl : Reads platform.quotes s (l ++ ['\n']) (inCode awaited))
    (hrest : Reads platform.quotes (inCode awaited) (Text.unlines (next :: rest)) s') :
    Reads platform.quotes s (Text.unlines (l :: next :: rest)) s' := by
  rw [unlines_cons_cons, List.append_cons]
  exact hl.append hrest

/-- A line and the lines after it are read one after the other; `awaited` are the brackets open
between them. -/
theorem Reads.unlines {s s' : State} {l next : Text} {rest : List Text} (awaited : List Char)
    (hl : Reads platform.quotes s l (inCode awaited))
    (hrest : Reads platform.quotes (inCode awaited) (Text.unlines (next :: rest)) s') :
    Reads platform.quotes s (Text.unlines (l :: next :: rest)) s' :=
  Reads.unlinesLine hl.line hrest

/-- Closed lines in front change nothing. The imports of a file stand so in front of its code. -/
theorem Reads.unlinesAppend {front : List Text} (hfront : ∀ l ∈ front, Closed platform l)
    {next : Text} {back : List Text} {s : State}
    (h : Reads platform.quotes (inCode []) (Text.unlines (next :: back)) s) :
    Reads platform.quotes (inCode []) (Text.unlines (front ++ next :: back)) s := by
  induction front with
  | nil => exact h
  | cons l rest ih =>
    have ih := ih fun m hm => hfront m (List.mem_cons_of_mem l hm)
    cases rest with
    | nil => exact .unlines [] (hfront l List.mem_cons_self) ih
    | cons m rest => exact .unlines [] (hfront l List.mem_cons_self) ih

/-! ### Pieces at a depth -/

/-- Blanks in front of a line mean nothing to the scanner, if the unit of indentation is ordinary;
spaces are. -/
theorem scan_layOutLine {unit : Text} (hunit : ∀ c ∈ unit, isOrdinary c = true) (depth : Int)
    (line : Line) (awaited : List Char) (rest : Text) :
    scan platform.quotes (inCode awaited) (Block.layOutLine unit depth line ++ rest)
      = scan platform.quotes (inCode awaited) (line.text ++ rest) := by
  have hblanks : Reads platform.quotes (inCode awaited)
      (unit.times (depth + line.level).toNat) (inCode awaited) := by
    refine .ordinary ?_ awaited
    intro c hc
    obtain ⟨copy, hcopy, hc⟩ := List.mem_flatten.mp hc
    rw [List.eq_of_mem_replicate hcopy] at hc
    exact hunit c hc
  rw [Block.layOutLine, List.append_assoc, scan_append, hblanks]
  rfl

/-- A line that was read to its end leaves the scanner in code. A comment ends with the line and a
literal may not go beyond it, so only the open brackets pass from one line to the next. -/
theorem eq_inCode_of_scan_line {s s' : State} {t : Text}
    (h : scan platform.quotes s (t ++ ['\n']) = some s') : ∃ awaited, s' = inCode awaited := by
  rw [scan_append] at h
  obtain ⟨last, _, hnewline⟩ := Option.bind_eq_some_iff.mp h
  rw [scan] at hnewline
  obtain ⟨next, hnext, hrest⟩ := Option.bind_eq_some_iff.mp hnewline
  cases hrest
  exact ⟨last.awaited, mode_of_step_newline hnext⟩

/-- Line by line, the blanks of a piece may be left out. The induction is over the lines, with the
open brackets left free, since each line may open and close some. -/
theorem scan_layOutLines {unit : Text} (hunit : ∀ c ∈ unit, isOrdinary c = true) (depth : Int)
    (block : Block) (awaited : List Char) :
    scan platform.quotes (inCode awaited)
        ((block.map (Block.layOutLine unit depth)).flatMap fun l => l ++ ['\n'])
      = scan platform.quotes (inCode awaited) block.source := by
  induction block generalizing awaited with
  | nil => rfl
  | cons line rest ih =>
    rw [List.map_cons, List.flatMap_cons, List.append_assoc, scan_layOutLine hunit,
      Block.source_cons, ← List.append_assoc, scan_append _ (line.text ++ ['\n']),
      scan_append _ (line.text ++ ['\n'])]
    cases h : scan platform.quotes (inCode awaited) (line.text ++ ['\n']) with
    | none => rfl
    | some next =>
      -- The next line begins in code, whatever brackets are open then.
      obtain ⟨after, rfl⟩ := eq_inCode_of_scan_line h
      show scan platform.quotes (inCode after) _
        = scan platform.quotes (inCode after) (Block.source rest)
      exact ih after

/-- Wherever a piece is laid out, the scanner comes to the same end. The lemmas about pieces are
therefore all about `Block.source`, and depth does not come up in them. -/
theorem scan_layOut {unit : Text} (hunit : ∀ c ∈ unit, isOrdinary c = true) (depth : Int)
    (block : Block) (awaited : List Char) :
    scan platform.quotes (inCode awaited) (Block.layOut unit depth block ++ ['\n'])
      = scan platform.quotes (inCode awaited) block.source := by
  cases block with
  | nil =>
    show scan platform.quotes (inCode awaited) ['\n'] = some (inCode awaited)
    exact Reads.newline awaited
  | cons line rest =>
    rw [← scan_layOutLines hunit depth, Block.layOut, Text.terminated_eq (by simp)]

/-- A piece of code that is closed, line after line. -/
def ClosedBlock (platform : Platform) (block : Block) : Prop := Closed platform block.source

/-- Closed pieces inside another are closed. -/
theorem closed_innerAll {pieces : List Block} (h : ∀ piece ∈ pieces, ClosedBlock platform piece) :
    Closed platform (Block.innerAll pieces).source := by
  rw [Block.source_innerAll]
  exact .flatMap h

/-- A lambda or an element: a line that opens some brackets, closed pieces, and a line that closes
them. `awaited` are the brackets open between the two lines. -/
theorem Reads.around {first last : Text} {pieces : List Block} {before after : List Char}
    (awaited : List Char)
    (hfirst : Reads platform.quotes (inCode before) first (inCode awaited))
    (hlast : Reads platform.quotes (inCode awaited) last (inCode after))
    (h : ∀ piece ∈ pieces, ClosedBlock platform piece) :
    Reads platform.quotes (inCode before)
      (Block.source (Line.outer first :: Block.innerAll pieces ++ [.outer last]))
      (inCode after) := by
  rw [Block.source_append, Block.source_cons]
  have hinside := hfirst.line.append ((closed_innerAll h).reads awaited)
  have hend : Reads platform.quotes (inCode awaited) (last ++ ['\n'] ++ []) (inCode after) := by
    rw [List.append_nil]
    exact hlast.line
  exact hinside.append hend

/-- A line of its own is read with its line feed. -/
theorem Reads.outer {t : Text} {s : State} {after : List Char}
    (h : Reads platform.quotes s t (inCode after)) :
    Reads platform.quotes s (Block.source [.outer t]) (inCode after) := by
  rw [Block.source_cons, Block.source_nil, List.append_nil]
  exact h.line

/-- A closed line and closed lines after it. -/
theorem closedBlock_cons {t : Text} (ht : Closed platform t) {rest : Block}
    (h : ClosedBlock platform rest) : ClosedBlock platform (Line.outer t :: rest) := by
  rw [ClosedBlock, Block.source_cons]
  exact ht.line.append h

/-- Closed pieces one after the other are closed. -/
theorem closedBlock_append {front back : Block} (hfront : ClosedBlock platform front)
    (hback : ClosedBlock platform back) : ClosedBlock platform (front ++ back) := by
  rw [ClosedBlock, Block.source_append]
  exact Closed.append hfront hback

/-- A closed text put inside a piece, whatever lines it has. -/
theorem closedBlock_insideText {t : Text} (h : Closed platform t) :
    ClosedBlock platform (Block.insideText t) := by
  rw [ClosedBlock, Block.source_insideText]
  exact h.line

/-- The comment over a piece is passed over up to the end of its line. It shows the type of the
node, which must not hold a line feed: what stood behind one would be read as code. -/
theorem closedBlock_customComment {l : Layer} (hcomment : Unbroken (customComment l)) {rest : Block}
    (h : ClosedBlock platform rest) :
    ClosedBlock platform (Line.outer (customComment l) :: rest) := by
  obtain ⟨t, ht⟩ : ∃ t, customComment l = '/' :: '/' :: t := ⟨_, rfl⟩
  rw [ht] at hcomment ⊢
  have hrest : Unbroken t :=
    fun hmem => hcomment (List.mem_cons_of_mem _ (List.mem_cons_of_mem _ hmem))
  rw [ClosedBlock, Block.source_cons]
  exact Reads.append (Reads.comment hrest []) h

/-! ### Literals -/

/-- What is written character by character stays inside a literal if each character does. `s` is the
state inside, before and after each of them. -/
theorem Reads.flatMap {s : State} {write : Char → Text}
    (h : ∀ c, Reads platform.quotes s (write c) s) (t : Text) :
    Reads platform.quotes s (t.flatMap write) s := by
  induction t with
  | nil => exact .nil s
  | cons c rest ih =>
    rw [List.flatMap_cons]
    exact (h c).append ih

/-- An escape of two characters stays inside a literal. -/
theorem Reads.escape {c : Char} (h : c ≠ '\n') :
    Reads platform.quotes (inLiteral '"' []) ['\\', c] (inLiteral '"' []) := by
  simp [Reads, scan, step, inLiteral, h]

/-- A character that is no backslash, quotation mark or line feed stays inside a literal. These
three are the ones the quoters escape. -/
theorem Reads.literalChar {c : Char} (hback : c ≠ '\\') (hquote : c ≠ '"') (hbreak : c ≠ '\n') :
    Reads platform.quotes (inLiteral '"' []) [c] (inLiteral '"' []) := by
  rw [Reads, scan, step_inLiteral hbreak hback hquote]
  rfl

/-- A character as Swift writes it stays inside. The splits follow the escapes of `swiftChar`; what
none of them catches is plain. -/
theorem reads_swiftChar (c : Char) :
    Reads platform.quotes (inLiteral '"' []) (Literal.swiftChar c) (inLiteral '"' []) := by
  rw [Literal.swiftChar]
  split
  · exact .escape (by decide)
  · next hback =>
    split
    · exact .escape (by decide)
    · next hquote =>
      split
      · exact .escape (by decide)
      · next hbreak =>
        split
        · exact .escape (by decide)
        · split
          · exact .escape (by decide)
          · -- Any other character stands for itself, and does not end the literal.
            exact .literalChar hback hquote hbreak

/-- A character as Kotlin writes it stays inside: the dollar sign has an escape of its own, and the
others are those of Swift. -/
theorem reads_kotlinChar (c : Char) :
    Reads platform.quotes (inLiteral '"' []) (Literal.kotlinChar c) (inLiteral '"' []) := by
  rw [Literal.kotlinChar]
  split
  · exact .escape (by decide)
  · exact reads_swiftChar c

/-- The characters of a dimension mean nothing to the scanner, since none of those that do is a
digit, a point or a sign. -/
theorem isOrdinary_of_isMark {c : Char} (h : Dimension.isMark c = true) : isOrdinary c = true := by
  have hall : "/\"'\\\n()[]\x7b\x7d".toList.all (fun d => !Dimension.isMark d) = true := by decide
  rw [isOrdinary, decide_eq_true_eq]
  intro hmem
  have hmark := List.all_eq_true.mp hall c hmem
  rw [h] at hmark
  cases hmark

/-- Neither do letters and digits. -/
theorem isOrdinary_of_isAlphanumeric {c : Char} (h : isAlphanumeric c = true) :
    isOrdinary c = true :=
  isOrdinary_of_isMark (by simp [Dimension.isMark, h])

/-- Neither do the characters of a word. -/
theorem isOrdinary_of_isWord {t : Text} (h : t.IsWord) : ∀ c ∈ t, isOrdinary c = true := by
  intro c hc
  have hletter : isLetter c = true := h c hc
  exact isOrdinary_of_isAlphanumeric (by simp [isAlphanumeric, hletter])

/-- A word is closed. The names of primitives, arguments and tags are words. -/
theorem closed_word {t : Text} (h : t.IsWord) : Closed platform t :=
  .ordinary (isOrdinary_of_isWord h)

/-- A dimension is closed. -/
theorem closed_dimension (x : Binary64) : Closed platform (Dimension.write x) :=
  .ordinary fun _ hc => isOrdinary_of_isMark (Dimension.isMark_of_mem_write hc)

/-- The quotation mark opens a literal for every target. -/
theorem quotationMark_mem_quotes (platform : Platform) : '"' ∈ platform.quotes := by
  cases platform <;> decide

/-- A character as JavaScript writes it stays inside: the escapes are those of a JSON string. -/
theorem reads_unicodeChar (c : Char) :
    Reads platform.quotes (inLiteral '"' []) (Quoted.unicodeChar c) (inLiteral '"' []) := by
  have hfour : ∀ n, Reads platform.quotes (inLiteral '"' []) (Quoted.fourDigits n)
      (inLiteral '"' []) := by
    intro n
    have hdigits : ∀ d ∈ hexDigits 4 n, isOrdinary d = true :=
      fun d hd => isOrdinary_of_isAlphanumeric (isAlphanumeric_of_mem_hexDigits hd)
    exact (Reads.escape (by decide)).append
      (.ordinaryLiteral (quotationMark_mem_quotes platform) hdigits [])
  -- Escapes of two characters, escapes with four digits, and characters that stay.
  rw [Quoted.unicodeChar, Quoted.required?]
  repeat' split
  all_goals simp only [Option.getD_some, Option.getD_none]
  all_goals first
    | exact .escape (by decide)
    | exact hfour _
    | exact .literalChar ‹_› ‹_› ‹_›

/-- A Swift literal is closed, whatever its text is. This is what makes texts and names harmless in
generated code. -/
theorem closed_swift (t : Text) : Closed platform (Literal.swift t) :=
  Reads.quoted (quotationMark_mem_quotes platform) (.flatMap reads_swiftChar t)

/-- A Kotlin literal is closed, whatever its text is. -/
theorem closed_kotlin (t : Text) : Closed platform (Literal.kotlin t) :=
  Reads.quoted (quotationMark_mem_quotes platform) (.flatMap reads_kotlinChar t)

/-- A JavaScript literal is closed, whatever its text is. -/
theorem closed_javaScript (t : Text) : Closed platform (Literal.javaScript t) :=
  Reads.quoted (quotationMark_mem_quotes platform) (.flatMap reads_unicodeChar t)

end

end Lexical

end DesignCompiler
