import DesignCompiler.Proofs.Render.OneLine

/-!
# `DesignCompiler.Proofs.Render.Depth`: code at one depth and at another

A piece of code can stand at any depth. If its lines hold no line feed, standing some levels deeper
is the same as having those blanks in front of every line (`layOut_add`), so code may be taken from
one place to another as a text. Pieces one after the other are laid out one by one
(`layOut_flatten`).
-/

set_option autoImplicit false

namespace DesignCompiler

open Text

/-- As many copies of a text as there are in two runs of it. -/
theorem Text.times_add (piece : Text) (m n : Nat) :
    piece.times (m + n) = piece.times m ++ piece.times n := by
  rw [times, times, times, ← List.replicate_append_replicate, List.flatten_append]

/-- Copies of a text without a line feed hold none. Units of indentation are such texts. -/
theorem Text.Unbroken.times {piece : Text} (h : Unbroken piece) (count : Nat) :
    Unbroken (piece.times count) := by
  intro hmem
  obtain ⟨copy, hcopy, hmem⟩ := List.mem_flatten.mp hmem
  rw [List.eq_of_mem_replicate hcopy] at hmem
  exact h hmem

/-- No target breaks lines where it indents. -/
theorem Platform.unbroken_unit (platform : Platform) : Unbroken platform.target.unit := by
  cases platform <;> decide

namespace Block

variable {unit : Text} {block : Block}

/-- A line that stands some levels deeper has as many units more in front. Depths are natural
numbers here: a negative depth takes units away, and only down to none. -/
theorem layOutLine_add (unit : Text) (depth more : Nat) (line : Line) :
    layOutLine unit (depth + more : Nat) line
      = unit.times more ++ layOutLine unit (depth : Nat) line := by
  have hlevels : ((depth + more : Nat) + (line.level : Int)).toNat
      = more + ((depth : Int) + line.level).toNat := by omega
  rw [layOutLine, layOutLine, hlevels, times_add, List.append_assoc]

/-- A piece laid out deeper is the piece laid out with blanks in front of each line. A line feed
inside a line would be missed by the first and found by the second, so the piece has to be cut into
lines. -/
theorem layOut_add (hunit : Unbroken unit) (hblock : block.IsLined) (depth more : Nat) :
    layOut unit (depth + more : Nat) block
      = indented (unit.times more) (layOut unit (depth : Nat) block) := by
  have hne : block.map (layOutLine unit (depth : Nat)) ≠ [] := by
    simpa using hblock.1
  have hlines : ∀ l ∈ block.map (layOutLine unit (depth : Nat)), Unbroken l := by
    intro l hl
    obtain ⟨line, hline, rfl⟩ := List.mem_map.mp hl
    exact unbroken_append.mpr ⟨hunit.times _, hblock.2 line hline⟩
  -- The lines come back from the text because none of them holds a line feed.
  rw [layOut, layOut, indented_unlines (unit.times more) hne hlines, List.map_map]
  congr 1
  refine List.map_congr_left ?_
  intro line _
  exact layOutLine_add unit depth more line

/-- Pieces one after the other are laid out one by one. None of them is empty, since an empty one
would leave an empty line between the others. -/
theorem layOut_flatten {pieces : List Block} (hpieces : ∀ piece ∈ pieces, piece ≠ [])
    (depth : Int) :
    layOut unit depth pieces.flatten = unlines (pieces.map (layOut unit depth)) := by
  have hne : ∀ ls ∈ pieces.map (List.map (layOutLine unit depth)), ls ≠ [] := by
    intro ls hls
    obtain ⟨piece, hpiece, rfl⟩ := List.mem_map.mp hls
    simpa using hpieces piece hpiece
  rw [layOut, List.map_flatten, unlines_flatten hne, List.map_map]
  rfl

end Block

end DesignCompiler
