import DesignCompiler.Proofs.Text.Lines
import Mathlib.Data.List.TakeWhile

/-!
# `DesignCompiler.Proofs.Text.Fence`: cutting markdown at its fences

A fence is a line that begins with three backticks, spaces before them allowed. A reader of markdown
finds the fences of a text (`Text.fences`) and what stands before, between and behind them
(`Text.sections`).

A line that is guarded is no fence: behind its indentation stands a character other than a backtick.
Only the start of a line has to be known for that (`IsGuarded.append`), so whatever a design puts
behind the start is harmless.
-/

set_option autoImplicit false

namespace DesignCompiler.Text

/-- A line that opens or closes a fenced block. Readers differ in how many spaces they allow in
front; none is refused here, so that no fence is missed. -/
def isFence (line : Text) : Bool := (after? "```".toList (line.dropWhile (· = ' '))).isSome

/-- The fences of a text. -/
def fences (t : Text) : List Text := (lines t).filter isFence

/-- What stands before, between and behind the fences of a text. In a reply with closed blocks,
every second section is the inside of a block. -/
def sections (t : Text) : List Text := ((lines t).splitOnP isFence).map unlines

/-- A text without fences, which may stand inside a block or between two without moving the others.
-/
def FenceFree (t : Text) : Prop := ∀ l ∈ lines t, isFence l = false

/-- Decided line by line, for codes that are written out. -/
instance (t : Text) : Decidable t.FenceFree :=
  List.decidableBAll (fun l => isFence l = false) (lines t)

/-! ### The start of a line -/

/-- The first character of a line behind its indentation, none if there is nothing else. -/
def front? (line : Text) : Option Char := (line.dropWhile (· = ' ')).head?

/-- A line that begins, behind its indentation, with a character other than a backtick. A blank line
is not guarded: what is put behind it could make it a fence. -/
def IsGuarded (line : Text) : Prop := front? line ≠ none ∧ front? line ≠ some '`'

/-- Decided by finding the front of the line. -/
instance (line : Text) : Decidable line.IsGuarded :=
  inferInstanceAs (Decidable (front? line ≠ none ∧ front? line ≠ some '`'))

/-- The front of a line is that of its first part, unless this part is blank. -/
theorem front?_append (a b : Text) : front? (a ++ b) = (front? a).or (front? b) := by
  simp only [front?, List.dropWhile_append]
  cases a.dropWhile (· = ' ') <;> rfl

/-- A guarded start guards the line, whatever is written behind it. -/
theorem IsGuarded.append {a : Text} (h : a.IsGuarded) (b : Text) : IsGuarded (a ++ b) := by
  obtain ⟨c, hc⟩ := Option.ne_none_iff_exists'.mp h.1
  rw [IsGuarded, front?_append, hc, Option.some_or, ← hc]
  exact h

/-- A line is guarded behind a start without backticks, which may be empty. Names of primitives are
such starts. -/
theorem IsGuarded.behind {a b : Text} (ha : '`' ∉ a) (h : b.IsGuarded) : IsGuarded (a ++ b) := by
  rw [IsGuarded, front?_append]
  cases hfront : front? a with
  -- A start of blanks leaves the front of the line to what follows.
  | none => rwa [Option.none_or]
  | some c =>
    refine ⟨by simp, ?_⟩
    rw [Option.some_or]
    rintro ⟨rfl⟩
    exact ha ((List.dropWhile_sublist _).subset (List.mem_of_head? hfront))

/-- A guarded line is no fence. -/
theorem isFence_of_isGuarded {line : Text} (h : line.IsGuarded) : isFence line = false := by
  obtain ⟨hsome, hfront⟩ := h
  rw [front?] at hsome hfront
  rw [isFence]
  cases hline : line.dropWhile (· = ' ') with
  | nil =>
    rw [hline] at hsome
    exact absurd rfl hsome
  | cons c rest =>
    rw [hline] at hfront
    -- A fence would have to begin with a backtick here.
    have hc : ¬ '`' = c := fun heq => hfront (heq ▸ rfl)
    have hafter : after? "```".toList (c :: rest) = none := if_neg hc
    rw [hafter]
    rfl

/-! ### Guarded lines -/

/-- A text on one line, which is guarded. The two belong together: more text may follow on the line
(`IsGuardedLine.append`), as long as it does not break it. -/
structure IsGuardedLine (t : Text) : Prop where
  unbroken : Unbroken t
  guarded : IsGuarded t

/-- Decided for the fixed starts of lines; what a design puts behind them is left to
`IsGuardedLine.append`. -/
instance (t : Text) : Decidable t.IsGuardedLine :=
  decidable_of_iff (Unbroken t ∧ IsGuarded t) ⟨fun h => ⟨h.1, h.2⟩, fun h => ⟨h.1, h.2⟩⟩

/-- A guarded line goes on with anything that does not break it. -/
theorem IsGuardedLine.append {a b : Text} (ha : a.IsGuardedLine) (hb : Unbroken b) :
    IsGuardedLine (a ++ b) :=
  ⟨unbroken_append.mpr ⟨ha.unbroken, hb⟩, ha.guarded.append b⟩

/-- Each line of a text is guarded. For a text of one line, `IsGuardedLine` says the same. -/
def AllGuarded (t : Text) : Prop := ∀ l ∈ lines t, IsGuarded l

/-- Decided line by line, for the fixed parts of a target's code. -/
instance (t : Text) : Decidable t.AllGuarded := List.decidableBAll (IsGuarded ·) (lines t)

/-- A guarded line is all the lines that there are. -/
theorem IsGuardedLine.allGuarded {t : Text} (h : t.IsGuardedLine) : AllGuarded t := by
  rw [AllGuarded, lines_unbroken h.unbroken, List.forall_mem_singleton]
  exact h.guarded

/-- Guarded lines stay guarded when they are put together, as none of them breaks. -/
theorem allGuarded_unlines {pieces : List Text} (hne : pieces ≠ [])
    (h : ∀ piece ∈ pieces, IsGuardedLine piece) : AllGuarded (unlines pieces) := by
  rw [AllGuarded, lines_unlines hne fun piece hpiece => (h piece hpiece).unbroken]
  exact fun piece hpiece => (h piece hpiece).guarded

/-- The last line goes on with anything that does not break it. The other lines are not touched. -/
theorem AllGuarded.append {t b : Text} (h : AllGuarded t) (hb : Unbroken b) :
    AllGuarded (t ++ b) := by
  obtain ⟨init, last, hlines, hlonger⟩ := lines_append_unbroken (t := t) hb
  rw [AllGuarded, hlines, List.forall_mem_append, List.forall_mem_singleton] at h
  rw [AllGuarded, hlonger, List.forall_mem_append, List.forall_mem_singleton]
  exact ⟨h.1, h.2.append b⟩

/-! ### Texts without fences -/

/-- A guarded line has no fence. -/
theorem IsGuardedLine.fenceFree {t : Text} (h : t.IsGuardedLine) : FenceFree t := by
  rw [FenceFree, lines_unbroken h.unbroken, List.forall_mem_singleton]
  exact isFence_of_isGuarded h.guarded

/-- A text has no fence if there is none before a line feed and none behind it. A fence never
reaches beyond its line. -/
theorem FenceFree.append_newline {a b : Text} (ha : FenceFree a) (hb : FenceFree b) :
    FenceFree (a ++ '\n' :: b) := by
  rw [FenceFree, lines_append_newline_append]
  exact List.forall_mem_append.mpr ⟨ha, hb⟩

/-- Texts without fences have none when they are put together, each on lines of its own. They may
have several lines each. -/
theorem fenceFree_unlines {pieces : List Text} (h : ∀ piece ∈ pieces, FenceFree piece) :
    FenceFree (unlines pieces) := by
  by_cases hpieces : pieces = []
  · rw [hpieces]
    decide
  · rw [FenceFree, lines_unlines_flatMap hpieces]
    intro l hl
    obtain ⟨piece, hpiece, hl⟩ := List.mem_flatMap.mp hl
    exact h piece hpiece l hl

/-- A text without fences has none when line feeds are taken from its end. The last line could only
become one that was there before. -/
theorem fenceFree_trimEndBy {t : Text} (h : FenceFree t) :
    FenceFree (trimEndBy (· = '\n') t) := by
  have ht : trimEndBy (· = '\n') t ++ (t.reverse.takeWhile (· = '\n')).reverse = t := by
    rw [trimEndBy, ← List.reverse_append, List.takeWhile_append_dropWhile, List.reverse_reverse]
  -- What is taken away is empty or begins with a line feed, so the lines before it stay.
  cases hend : (t.reverse.takeWhile (· = '\n')).reverse with
  | nil =>
    rw [hend, List.append_nil] at ht
    rwa [ht]
  | cons c rest =>
    have hc : c = '\n' := by
      have hmem : c ∈ t.reverse.takeWhile (· = '\n') :=
        List.mem_reverse.mp (hend ▸ List.mem_cons_self)
      simpa using List.mem_takeWhile_imp hmem
    rw [hend, hc] at ht
    intro l hl
    refine h l ?_
    rw [← ht, lines_append_newline_append]
    exact List.mem_append_left _ hl

end DesignCompiler.Text
