import DesignCompiler.Text.Blank
import Mathlib.Data.List.DropRight

/-!
# `DesignCompiler.Proofs.Text.Trim`: trimming a text and replacing a character in it

A text that has been trimmed is left alone when it is trimmed again (`trimBy_trimBy`), and so is a
text none of whose characters are dropped (`trimBy_eq_self`). Trimming goes along with replacing
characters, if a character is dropped exactly when the one in its place is (`trimBy_map`).

A character that has been replaced does not occur any more (`not_mem_replaceChar`), and a text
without it stays as it is (`replaceChar_eq_self`).
-/

set_option autoImplicit false

namespace DesignCompiler.Text

variable {drop : Char → Bool}

/-- Trimming takes characters from the front and then from the back. -/
theorem trimBy_eq (t : Text) : trimBy drop t = (t.dropWhile drop).rdropWhile drop := rfl

/-- Nothing is dropped from the front of a text if that is so for one that it is the start of. -/
theorem dropWhile_eq_self_of_prefix {s t : Text} (h : s <+: t) (ht : t.dropWhile drop = t) :
    s.dropWhile drop = s := by
  cases s with
  | nil => rfl
  | cons c rest =>
    obtain ⟨back, rfl⟩ := h
    have hkept : ¬ drop c = true := fun hc => by
      rw [List.cons_append, List.dropWhile_cons_of_pos hc] at ht
      have hlength := (List.dropWhile_sublist drop (l := rest ++ back)).length_le
      rw [ht, List.length_cons] at hlength
      omega
    exact List.dropWhile_cons_of_neg hkept

/-- A trimmed text stays as it is. What is taken from its end leaves the front alone, so there is
nothing new to take at either end. -/
theorem trimBy_trimBy (t : Text) : trimBy drop (trimBy drop t) = trimBy drop t := by
  have hfront : (trimBy drop t).dropWhile drop = trimBy drop t :=
    dropWhile_eq_self_of_prefix (List.rdropWhile_prefix drop (t.dropWhile drop))
      (List.dropWhile_idempotent drop t)
  rw [trimBy_eq (trimBy drop t), hfront]
  exact List.rdropWhile_idempotent drop (t.dropWhile drop)

/-- A text without characters that are dropped stays as it is. -/
theorem trimBy_eq_self {t : Text} (h : ∀ c ∈ t, drop c = false) : trimBy drop t = t := by
  have hkept : ∀ s : Text, (∀ c ∈ s, drop c = false) → s.dropWhile drop = s := by
    intro s hs
    cases s with
    | nil => rfl
    | cons c rest =>
      exact List.dropWhile_cons_of_neg (by simp [hs c List.mem_cons_self])
  rw [trimBy, hkept t h, hkept t.reverse fun c hc => h c (List.mem_reverse.mp hc),
    List.reverse_reverse]

/-- Replacing characters goes along with trimming, if a character and the one in its place are
dropped together. -/
theorem trimBy_map {f : Char → Char} (hf : ∀ c, drop (f c) = drop c) (t : Text) :
    trimBy drop (t.map f) = (trimBy drop t).map f := by
  have hdrop : drop ∘ f = drop := funext hf
  rw [trimBy, trimBy, List.dropWhile_map, hdrop, ← List.map_reverse, List.dropWhile_map, hdrop,
    ← List.map_reverse]

/-- A character that is replaced by another one does not occur any more. -/
theorem not_mem_replaceChar {old new : Char} (hne : new ≠ old) (t : Text) :
    old ∉ replaceChar old new t := by
  rw [replaceChar, List.mem_map]
  rintro ⟨c, -, hc⟩
  split at hc
  · exact hne hc
  · contradiction

/-- Where a character does not occur, replacing it changes nothing. -/
theorem replaceChar_eq_self {old : Char} {t : Text} (new : Char) (h : old ∉ t) :
    replaceChar old new t = t := by
  have hkept : ∀ c ∈ t, (if c = old then new else c) = c := fun c hc => by
    rw [if_neg]
    rintro rfl
    exact h hc
  exact (List.map_congr_left hkept).trans (List.map_id' t)

end DesignCompiler.Text
