import DesignCompiler.Number.Decimal
import DesignCompiler.Proofs.Json.Number
import DesignCompiler.Proofs.Text.Trim

/-!
# `DesignCompiler.Proofs.Number.Decimal`: plain decimals are read

A plain decimal is a sign, ASCII digits, and behind a point more of them; there is no white space,
no underscore and no exponent. The reader of free text takes such things away first, and finds
nothing to take away here (`readLoose?_eq_read?`). What it reads is the double nearest to the
digits, divided by ten for each one behind the point (`readLoose?_plain`).
-/

set_option autoImplicit false

namespace DesignCompiler.Decimal

open Text
open Json (IsDigits EndsDigits pointed signed)

/-- A character of a plain decimal. -/
def isPlain (c : Char) : Bool := isDigit c || c = '.' || c = '-'

/-- Characters of plain decimals are left as they are by everything that the reader of free text
does first. -/
theorem of_isPlain {c : Char} (h : isPlain c = true) :
    isWhiteSpace c = false ∧ withAsciiDigits [c] = [c] ∧ c ≠ '_' := by
  -- They are below the colon, so there are finitely many to look at.
  have hall : ∀ n < 0x3A, isPlain (Char.ofNat n) = true → isWhiteSpace (Char.ofNat n) = false
      ∧ withAsciiDigits [Char.ofNat n] = [Char.ofNat n] ∧ Char.ofNat n ≠ '_' := by decide +kernel
  have hbelow : c.toNat < 0x3A := by
    simp only [isPlain, isDigit, Bool.or_eq_true, Bool.and_eq_true, decide_eq_true_eq] at h
    rcases h with (hdigit | rfl) | rfl
    · omega
    · decide
    · decide
  have hc := hall c.toNat hbelow
  rw [Char.ofNat_toNat] at hc
  exact hc h

/-- A plain decimal has ASCII digits already. -/
theorem withAsciiDigits_eq_self {t : Text} (h : ∀ c ∈ t, isPlain c = true) :
    withAsciiDigits t = t := by
  induction t with
  | nil => rfl
  | cons c rest ih =>
    obtain ⟨hc, hrest⟩ := List.forall_mem_cons.mp h
    show withAsciiDigits [c] ++ withAsciiDigits rest = c :: rest
    rw [(of_isPlain hc).2.1, ih hrest, List.singleton_append]

/-- Without underscores there is nothing to join, whatever came before. -/
theorem joinDigits?_eq_some {t : Text} (h : ∀ c ∈ t, isPlain c = true) (previous : Bool) :
    joinDigits? previous t = some t := by
  induction t generalizing previous with
  | nil => rfl
  | cons c rest ih =>
    obtain ⟨hc, hrest⟩ := List.forall_mem_cons.mp h
    rw [joinDigits?, ih hrest, Option.map_some]
    exact (of_isPlain hc).2.2

/-- A plain decimal is read by the strict grammar: trimming, other scripts and underscores change
nothing of it. -/
theorem readLoose?_eq_read? {t : Text} (h : ∀ c ∈ t, isPlain c = true) :
    readLoose? t = read? t := by
  have htrim : trimBy isWhiteSpace t = t := trimBy_eq_self fun c hc => (of_isPlain (h c hc)).1
  rw [readLoose?, htrim, withAsciiDigits_eq_self h, joinDigits?_eq_some h, Option.bind_some]

/-- A minus sign is told apart from the digits behind it, and a digit in front is no sign. -/
theorem splitSign_signed (negative : Bool) {first : Char} (h : isDigit first = true) (rest : Text) :
    splitSign (signed negative ++ first :: rest) = (negative, first :: rest) := by
  cases negative with
  | true => rfl
  | false =>
    show splitSign (first :: rest) = _
    unfold splitSign
    split
    · next heq =>
      cases heq
      exact absurd h (by decide)
    · next heq =>
      cases heq
      exact absurd h (by decide)
    · rfl

/-- What starts with a digit is no word that does not. The words for infinity and for not a number
are excluded by it. -/
theorem map_lowerAscii_ne {first : Char} (h : isDigit first = true) (rest : Text) {word : Text}
    (hword : word.head?.any isDigit = false) : (first :: rest).map lowerAscii ≠ word := by
  have hdigit : lowerAscii first = first := by
    simp only [isDigit, Bool.and_eq_true, decide_eq_true_eq] at h
    rw [lowerAscii, if_neg (by omega)]
  rintro rfl
  rw [List.map_cons, List.head?_cons, Option.any_some, hdigit, h] at hword
  cases hword

/-- Digits and behind a point more of them. All digits together are the whole number, and each place
lowers the exponent by one. -/
theorem readDigits?_plain (negative : Bool) {whole places : Text} (hne : whole ≠ [])
    (hwhole : IsDigits whole) (hplaces : IsDigits places) :
    readDigits? negative (whole ++ pointed places)
      = some (.ofDecimal negative (toNat (whole ++ places)) (-(places.length : Int))) := by
  have hends : EndsDigits (pointed places ++ []) := Json.endsDigits_pointed places nofun
  rw [List.append_nil] at hends
  have htake := Json.takeWhile_digits hwhole hends
  have hdrop := Json.dropWhile_digits hwhole hends
  simp only [readDigits?, htake, hdrop]
  -- Without places there is no point either, so the whole part has to be there.
  cases places with
  | nil =>
    show (if whole.isEmpty && true then none else _) = _
    rw [List.isEmpty_eq_false_iff.mpr hne]
    rfl
  | cons first more =>
    have hall : (first :: more).takeWhile isDigit = first :: more :=
      List.takeWhile_eq_self_iff.mpr hplaces
    have hnone : (first :: more).dropWhile isDigit = [] := List.dropWhile_eq_nil_iff.mpr hplaces
    simp only [pointed, List.isEmpty_cons, Bool.false_eq_true, if_false, hall, hnone,
      Bool.and_false, readExponent?, Option.map_some, Int.zero_sub]

/-- A sign, digits, and behind a point more of them. This is what a written dimension looks like, so
nothing more general is needed to read it back. -/
theorem readLoose?_plain (negative : Bool) {whole places : Text} (hne : whole ≠ [])
    (hwhole : IsDigits whole) (hplaces : IsDigits places) :
    readLoose? (signed negative ++ (whole ++ pointed places))
      = some (.ofDecimal negative (toNat (whole ++ places)) (-(places.length : Int))) := by
  have hplain : ∀ c ∈ signed negative ++ (whole ++ pointed places), isPlain c = true := by
    have hdigits : ∀ {t : Text}, IsDigits t → ∀ c ∈ t, isPlain c = true := by
      intro t ht c hc
      simp [isPlain, ht c hc]
    simp only [List.forall_mem_append]
    refine ⟨?_, hdigits hwhole, ?_⟩
    · cases negative with
      | true => exact List.forall_mem_singleton.mpr rfl
      | false => exact List.forall_mem_nil _
    · rw [pointed]
      split
      · exact List.forall_mem_nil _
      · exact List.forall_mem_cons.mpr ⟨rfl, hdigits hplaces⟩
  rw [readLoose?_eq_read? hplain]
  have hread := readDigits?_plain negative hne hwhole hplaces
  obtain ⟨first, more, rfl⟩ := List.exists_cons_of_ne_nil hne
  have hfirst : isDigit first = true := hwhole first List.mem_cons_self
  rw [List.cons_append] at hread ⊢
  simp only [read?, splitSign_signed negative hfirst]
  -- Neither of the words for what is no finite number starts with a digit.
  rw [if_neg, if_neg]
  · exact hread
  · exact map_lowerAscii_ne hfirst _ (by decide)
  · rintro (hinf | hinfinity)
    · exact map_lowerAscii_ne hfirst _ (by decide) hinf
    · exact map_lowerAscii_ne hfirst _ (by decide) hinfinity

end DesignCompiler.Decimal
