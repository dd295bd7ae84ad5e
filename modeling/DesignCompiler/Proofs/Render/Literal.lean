import DesignCompiler.Proofs.Text.Digit
import DesignCompiler.Proofs.Text.Lines
import DesignCompiler.Render.Literal

/-!
# `DesignCompiler.Proofs.Render.Literal`: literals stand on one line

A text of a design may have several lines. Its literal has one in every target: a line feed is
written as an escape, and no escape holds a line feed.
-/

set_option autoImplicit false

namespace DesignCompiler

open Text

/-- A text whose characters are written on one line each is written on one line. -/
theorem unbroken_flatMap {write : Char → Text} (h : ∀ c, Unbroken (write c)) (t : Text) :
    Unbroken (t.flatMap write) := by
  intro hmem
  obtain ⟨c, _, hc⟩ := List.mem_flatMap.mp hmem
  exact h c hc

/-- A quoted text is on one line if what is inside the quotes is. -/
theorem unbroken_quoted {t : Text} (h : Unbroken t) : Unbroken ('"' :: t ++ ['"']) := by
  rw [unbroken_append]
  refine ⟨?_, by decide⟩
  intro hmem
  rcases List.mem_cons.mp hmem with hquote | hmem
  · exact absurd hquote (by decide)
  · exact h hmem

namespace Literal

/-- What Swift writes for a character is on one line. -/
theorem unbroken_swiftChar (c : Char) : Unbroken (swiftChar c) := by
  -- A line feed has an escape, and every other character stays or has another one.
  by_cases hc : c = '\n'
  · rw [hc]
    decide
  · rw [swiftChar]
    repeat' split
    all_goals first
      | decide
      | exact fun h => hc (List.mem_singleton.mp h).symm

/-- A Swift literal stands on one line. -/
theorem unbroken_swift (t : Text) : Unbroken (swift t) :=
  unbroken_quoted (unbroken_flatMap unbroken_swiftChar t)

/-- A Kotlin literal stands on one line. Only the dollar sign is written in another way than in
Swift. -/
theorem unbroken_kotlin (t : Text) : Unbroken (kotlin t) := by
  refine unbroken_quoted (unbroken_flatMap (fun c => ?_) t)
  rw [kotlinChar]
  split
  · decide
  · exact unbroken_swiftChar c

/-- What JavaScript writes for a character is on one line. -/
theorem unbroken_unicodeChar (c : Char) : Unbroken (Quoted.unicodeChar c) := by
  have hfour : ∀ n, Unbroken (Quoted.fourDigits n) := by
    intro n h
    simp only [Quoted.fourDigits, List.mem_cons] at h
    rcases h with h | h | h
    · exact absurd h (by decide)
    · exact absurd h (by decide)
    · exact absurd (isAlphanumeric_of_mem_hexDigits h) (by decide)
  by_cases hc : c = '\n'
  · rw [hc]
    decide
  · -- Any other character is written as an escape, as its number, or as itself.
    rw [Quoted.unicodeChar, Quoted.required?]
    repeat' split
    all_goals simp only [Option.getD_some, Option.getD_none]
    all_goals first
      | decide
      | exact hfour _
      | exact fun h => hc (List.mem_singleton.mp h).symm

/-- A JavaScript literal stands on one line. -/
theorem unbroken_javaScript (t : Text) : Unbroken (javaScript t) :=
  unbroken_quoted (unbroken_flatMap unbroken_unicodeChar t)

end Literal

end DesignCompiler
