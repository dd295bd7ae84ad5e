import DesignCompiler.Json.Inline
import DesignCompiler.Proofs.Text.Digit
import DesignCompiler.Proofs.Text.Lines

/-!
# `DesignCompiler.Proofs.Json.Inline`: values shown on one line

A value that is shown inside a sentence stands on one line, because a line feed inside its texts is
spelled out (`Json.unbroken_inline`, by recursion over the value). A text that is shown as it is
keeps its line feeds. So among names and titles, the texts are the ones that can take several lines
(`Json.unbroken_shown_iff`).
-/

set_option autoImplicit false

namespace DesignCompiler

open Text

namespace Text

/-- Nothing holds no line feed. -/
theorem unbroken_nil : Unbroken [] := List.not_mem_nil

/-- Character by character, the way `decide` and the proofs below take a text apart. -/
theorem unbroken_cons {c : Char} {t : Text} : Unbroken (c :: t) ↔ c ≠ '\n' ∧ Unbroken t := by
  simp [Unbroken, eq_comm]

/-- Digits are no line feeds. -/
theorem unbroken_of_isDigit {t : Text} (h : ∀ c ∈ t, isDigit c = true) : Unbroken t :=
  fun hmem => absurd (h '\n' hmem) (by decide)

/-- A natural number is written on one line. -/
theorem unbroken_ofNat (n : Nat) : Unbroken (ofNat n) :=
  unbroken_of_isDigit fun _ => isDigit_of_mem_ofNat

/-- A whole number is written on one line, with its sign. -/
theorem unbroken_ofInt (n : Int) : Unbroken (ofInt n) := by
  cases n with
  | ofNat n => exact unbroken_ofNat n
  | negSucc n => exact unbroken_cons.mpr ⟨by decide, unbroken_ofNat (n + 1)⟩

/-- So are the hexadecimal digits of a code. -/
theorem unbroken_hexDigits (width n : Nat) : Unbroken (hexDigits width n) :=
  fun hmem => absurd (isAlphanumeric_of_mem_hexDigits hmem) (by decide)

/-- A line feed inside quotes is spelled out, and every other character either stands for itself or
is spelled out in letters and digits. -/
theorem unbroken_inlineChar {quote : Char} (hquote : quote ≠ '\n') (c : Char) :
    Unbroken (inlineChar quote c) := by
  have hspelled : ∀ letter width, letter ≠ '\n' →
      Unbroken ('\\' :: letter :: hexDigits width c.toNat) := by
    intro letter width hletter
    exact unbroken_cons.mpr ⟨by decide, unbroken_cons.mpr ⟨hletter, unbroken_hexDigits _ _⟩⟩
  -- One branch for each way to show a character. Only the first and the printable one keep it.
  simp only [inlineChar]
  split
  · next hself =>
    have hc : c ≠ '\n' := by
      rintro rfl
      rcases hself with h | h
      · exact hquote h.symm
      · exact absurd h (by decide)
    exact unbroken_cons.mpr ⟨by decide, unbroken_cons.mpr ⟨hc, unbroken_nil⟩⟩
  split
  · decide
  split
  · decide
  split
  · decide
  split
  · next hc _ _ _ => exact unbroken_cons.mpr ⟨hc, unbroken_nil⟩
  split
  · exact hspelled 'x' 2 (by decide)
  split
  · exact hspelled 'u' 4 (by decide)
  · exact hspelled 'U' 8 (by decide)

/-- A text in quotes stands on one line. -/
theorem unbroken_inline (t : Text) : Unbroken (inline t) := by
  have hquote : inlineQuote t ≠ '\n' := by
    rw [inlineQuote]
    split <;> decide
  have hinside : Unbroken (t.flatMap (inlineChar (inlineQuote t))) := by
    intro hmem
    obtain ⟨c, -, hc⟩ := List.mem_flatMap.mp hmem
    exact unbroken_inlineChar hquote c hc
  exact unbroken_cons.mpr ⟨hquote, unbroken_append.mpr
    ⟨hinside, unbroken_cons.mpr ⟨hquote, unbroken_nil⟩⟩⟩

end Text

namespace Shortest

/-- An exponent is written on one line. -/
theorem unbroken_exponentText (n : Int) : Unbroken (exponentText n) := by
  have hsize := unbroken_ofNat n.natAbs
  simp only [exponentText]
  refine unbroken_cons.mpr ⟨by split <;> decide, ?_⟩
  split
  · exact unbroken_cons.mpr ⟨by decide, hsize⟩
  · exact hsize

/-- Digits are laid out on one line, whichever of the four layouts the point asks for. -/
theorem unbroken_layout {form : Notation} {digits : Text} (h : ∀ c ∈ digits, isDigit c = true)
    (point : Int) : Unbroken (layout form digits point) := by
  have hzeros : ∀ count, Unbroken (List.replicate count '0') := by
    intro count hmem
    exact absurd (List.eq_of_mem_replicate hmem) (by decide)
  have hdigits := unbroken_of_isDigit h
  -- One case for each of the four forms of a number: with an exponent, below one, whole, and with a
  -- point among the digits.
  unfold layout
  split
  · have hexponent : Unbroken ('e' :: exponentText (point - 1)) :=
      unbroken_cons.mpr ⟨by decide, unbroken_exponentText _⟩
    cases digits with
    | nil => exact unbroken_nil
    | cons first rest =>
      obtain ⟨hfirst, hrest⟩ := unbroken_cons.mp hdigits
      refine unbroken_append.mpr ⟨unbroken_cons.mpr ⟨hfirst, ?_⟩, hexponent⟩
      split
      · exact unbroken_nil
      · exact unbroken_cons.mpr ⟨by decide, hrest⟩
  split
  · exact unbroken_append.mpr ⟨unbroken_append.mpr ⟨by decide, hzeros _⟩, hdigits⟩
  split
  · exact unbroken_append.mpr ⟨unbroken_append.mpr ⟨hdigits, hzeros _⟩, by decide⟩
  · refine unbroken_append.mpr ⟨?_, unbroken_cons.mpr ⟨by decide, ?_⟩⟩
    · exact fun hmem => hdigits (List.mem_of_mem_take hmem)
    · exact fun hmem => hdigits (List.mem_of_mem_drop hmem)

/-- A double is written on one line, if the words for those that are no number are. The forms in use
have such words. -/
theorem unbroken_write {form : Notation} (hinfinity : Unbroken form.infinity)
    (hnan : Unbroken form.notANumber) (x : Binary64) : Unbroken (write form x) := by
  have hsign : ∀ negative : Bool, Unbroken (if negative then ['-'] else []) := by decide
  cases x with
  | nan => exact hnan
  | infinite negative => exact unbroken_append.mpr ⟨hsign negative, hinfinity⟩
  | finite negative units representable =>
    rw [write]
    refine unbroken_append.mpr ⟨hsign negative, ?_⟩
    split
    · decide
    · refine unbroken_layout (fun c hc => ?_) _
      -- What is left without the zeros at the end is part of the digits.
      rw [trimZeros, trimEndBy, List.mem_reverse] at hc
      exact isDigit_of_mem_ofNat (List.mem_reverse.mp ((List.dropWhile_sublist _).mem hc))

end Shortest

namespace Json

/-- A field is shown on one line with its value and what follows. Objects show the first field and
the others in this form. -/
theorem unbroken_entry {value rest : Text} (name : Text) (hvalue : Unbroken value)
    (hrest : Unbroken rest) : Unbroken (Text.inline name ++ ": ".toList ++ value ++ rest) :=
  unbroken_append.mpr ⟨unbroken_append.mpr ⟨unbroken_append.mpr
    ⟨Text.unbroken_inline name, by decide⟩, hvalue⟩, hrest⟩

mutual

/-- A value inside a sentence stands on one line. The recursion is that of `inline`: over the value,
its items and its fields. -/
theorem unbroken_inline : ∀ value : Json, Unbroken value.inline
  | .null => by rw [inline]; decide
  | .bool true => by rw [inline]; decide
  | .bool false => by rw [inline]; decide
  | .int n => by
    rw [inline]
    exact unbroken_ofInt n
  | .double x => by
    rw [inline]
    exact Shortest.unbroken_write (by decide) (by decide) x
  | .text t => by
    rw [inline]
    exact Text.unbroken_inline t
  | .list [] => by rw [inline]; decide
  | .list (item :: rest) => by
    rw [inline]
    exact unbroken_append.mpr ⟨unbroken_cons.mpr ⟨by decide, unbroken_append.mpr
      ⟨unbroken_inline item, unbroken_inlineItems rest⟩⟩, by decide⟩
  | .object [] => by rw [inline]; decide
  | .object ((name, value) :: rest) => by
    rw [inline]
    have hentry := unbroken_entry name (unbroken_inline value) (unbroken_inlineFields rest)
    exact unbroken_append.mpr ⟨unbroken_cons.mpr ⟨by decide, hentry⟩, by decide⟩

/-- The same for the items of a list behind the first one. -/
theorem unbroken_inlineItems : ∀ items : List Json, Unbroken (inlineItems items)
  | [] => by
    rw [inlineItems]
    exact unbroken_nil
  | item :: rest => by
    rw [inlineItems]
    exact unbroken_append.mpr ⟨unbroken_append.mpr ⟨by decide, unbroken_inline item⟩,
      unbroken_inlineItems rest⟩

/-- The same for the fields of an object behind the first one. -/
theorem unbroken_inlineFields : ∀ fields : Fields, Unbroken (inlineFields fields)
  | [] => by
    rw [inlineFields]
    exact unbroken_nil
  | (name, value) :: rest => by
    rw [inlineFields, List.append_assoc, List.append_assoc, List.append_assoc]
    have hentry := unbroken_entry name (unbroken_inline value) (unbroken_inlineFields rest)
    simp only [List.append_assoc] at hentry
    exact unbroken_append.mpr ⟨by decide, hentry⟩

end

/-- A name or title takes several lines only if it is a text with a line feed. Values of any other
kind are shown inline. -/
theorem unbroken_shown_iff {value : Json} :
    Unbroken value.shown ↔ ∀ t, value = .text t → Unbroken t := by
  cases value with
  | text t => simp [shown]
  | null | bool b | int n | double x | list items | object fields =>
    exact iff_of_true (unbroken_inline _) nofun

end Json

end DesignCompiler
