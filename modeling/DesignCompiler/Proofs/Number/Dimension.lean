import DesignCompiler.Number.Dimension
import DesignCompiler.Proofs.Text.Digit

/-!
# `DesignCompiler.Proofs.Number.Dimension`: which characters dimensions are written with

A dimension is written with letters (for infinity and for not a number), digits, a point and a minus
sign. So it can stand inside every piece of generated code without being taken for something else.
-/

set_option autoImplicit false

namespace DesignCompiler.Dimension

open Text

/-- A character that a dimension may be written with. None of them ends a line, a literal or a tag.
-/
def isMark (c : Char) : Bool := isAlphanumeric c || c = '.' || c = '-'

/-- Digits are among them. -/
theorem isMark_of_isDigit {c : Char} (h : isDigit c = true) : isMark c = true := by
  simp [isMark, isAlphanumeric, h]

/-- Hundredths are written with digits and a point. -/
theorem isMark_of_mem_placesText {c : Char} {n : Nat} (h : c ∈ placesText n) :
    isMark c = true := by
  have hplaces : ∀ d ∈ trimEndBy (· = '0') [digitChar (n / 10 % 10), digitChar (n % 10)],
      isMark d = true := by
    intro d hd
    rw [trimEndBy, List.mem_reverse] at hd
    have hmem := List.mem_reverse.mp ((List.dropWhile_sublist _).subset hd)
    simp only [List.mem_cons, List.not_mem_nil, or_false] at hmem
    rcases hmem with rfl | rfl
    · exact isMark_of_isDigit (isDigit_digitChar (Nat.mod_lt _ (by decide)))
    · exact isMark_of_isDigit (isDigit_digitChar (Nat.mod_lt _ (by decide)))
  -- In front of the point there are digits, and behind it those that are not dropped.
  simp only [placesText] at h
  rcases List.mem_append.mp h with h | h
  · exact isMark_of_isDigit (isDigit_of_mem_ofNat h)
  · split at h
    · simp at h
    · rcases List.mem_cons.mp h with rfl | h
      · decide
      · exact hplaces c h

/-- A dimension is written with its marks only, also where it is no finite number. -/
theorem isMark_of_mem_write {c : Char} {x : Binary64} (h : c ∈ write x) : isMark c = true := by
  cases x with
  | nan =>
    have hall : "nan".toList.all isMark = true := by decide
    exact List.all_eq_true.mp hall c h
  | infinite negative =>
    have hall : ('-' :: "inf".toList).all isMark = true := by decide
    rw [write] at h
    split at h
    · exact List.all_eq_true.mp hall c h
    · exact List.all_eq_true.mp hall c (List.mem_cons_of_mem _ h)
  -- The sign, the whole part and the places are all made of these characters.
  | finite negative units representable =>
    rw [write] at h
    rcases List.mem_append.mp h with h | h
    · split at h
      · rw [List.mem_singleton.mp h]
        decide
      · simp at h
    · simp only [magnitude] at h
      split at h
      · exact isMark_of_isDigit (isDigit_of_mem_ofNat h)
      · exact isMark_of_mem_placesText h

end DesignCompiler.Dimension
