import Mathlib.Data.List.TakeWhile
import DesignCompiler.Json.Reader
import DesignCompiler.Proofs.Outcome
import DesignCompiler.Proofs.Text.Piece

/-!
# `DesignCompiler.Proofs.Json.Ending`: what a value ends with

JSON has no round brackets outside strings, and a string ends with its quotation mark. So no value
ends with a round bracket, and neither does a text that is read (`getLast?_ne_of_read`), however
many levels are allowed.

Every reader gives back the rest of its text. The rest stands behind a character of the value
(`Closes`), which is carried through the readers: within a number, an escape or a list only the
last part has to be looked at.
-/

set_option autoImplicit false

namespace DesignCompiler.Json

open Outcome Text

/-- The rest of a text stands in it behind a character that is no round bracket. In particular
something was read: the rest is shorter than the text. -/
def Closes (t rest : Text) : Prop := ∃ c, c ≠ ')' ∧ (c :: rest) <:+ t

namespace Closes

variable {s t u rest : Text}

/-- A rest is the end of its text. -/
theorem suffix (h : Closes t rest) : rest <:+ t := by
  obtain ⟨c, -, hsuffix⟩ := h
  exact (List.suffix_cons c rest).trans hsuffix

/-- Only the end of a text counts: what closes an end of it closes the whole. -/
theorem of_suffix (h : Closes s rest) (hs : s <:+ t) : Closes t rest := by
  obtain ⟨c, hc, hsuffix⟩ := h
  exact ⟨c, hc, hsuffix.trans hs⟩

/-- What may follow a value leaves the same rest or one that is behind a character as well. A
fraction and an exponent are such parts: each may be missing. -/
theorem step (h : Closes t u) (hstep : rest = u ∨ Closes u rest) : Closes t rest := by
  rcases hstep with rfl | hrest
  · exact h
  · exact hrest.of_suffix h.suffix

end Closes

/-- A single character closes, if it is no round bracket itself. -/
theorem closes_cons {c : Char} (hc : c ≠ ')') (rest : Text) : Closes (c :: rest) rest :=
  ⟨c, hc, List.suffix_refl _⟩

/-- The rest that a reader gives back, out of an equation between results. -/
theorem rest_of_ok {α ε : Type} {a b : α} {t rest : Text}
    (h : (Except.ok (a, t) : Except ε (α × Text)) = .ok (b, rest)) : t = rest :=
  (Prod.mk.inj (Except.ok.inj h)).2

/-- Blanks are skipped from the front. -/
theorem skip_suffix (t : Text) : skip t <:+ t := List.dropWhile_suffix _

/-! ### Strings -/

/-- Four digits are taken from the front. -/
theorem fourHex?_suffix {t rest : Text} {n : Nat} (h : fourHex? t = some (n, rest)) :
    rest <:+ t := by
  unfold fourHex? at h
  split at h
  · next a b c d more =>
    split at h
    · cases h
      exact ⟨[a, b, c, d], rfl⟩
    · cases h
  · cases h

/-- A code escape is taken from the front, its letter included. -/
theorem codeEscape?_suffix {t rest : Text} {n : Nat} (h : codeEscape? t = some (n, rest)) :
    rest <:+ t := by
  unfold codeEscape? at h
  split at h
  · next letter more =>
    split at h
    · exact (fourHex?_suffix h).trans (List.suffix_cons letter more)
    · cases h
  · cases h

/-- An escape is taken from the front, be it a letter, a code or a pair of codes. What it ends with
does not matter: the quotation mark of the string comes behind it. -/
theorem readEscape_suffix {backslash t rest : Text} {c : Char}
    (h : readEscape backslash t = .ok (c, rest)) : rest <:+ t := by
  unfold readEscape at h
  split at h
  · cases h
  · next letter more =>
    split at h
    · split at h
      · cases h
      · next high behind hcode =>
        have hbehind := codeEscape?_suffix hcode
        split at h
        · next after =>
          -- The second escape of a pair stands behind the first.
          split at h
          · split at h
            · cases h
            · next low last hlow =>
              split at h
              · rw [← rest_of_ok h]
                exact ((codeEscape?_suffix hlow).trans (List.suffix_cons '\\' _)).trans hbehind
              · rw [← rest_of_ok h]
                exact hbehind
          · rw [← rest_of_ok h]
            exact hbehind
        · rw [← rest_of_ok h]
          exact hbehind
    · split at h
      · rw [← rest_of_ok h]
        exact List.suffix_cons letter more
      · cases h

/-- A string ends with its quotation mark. The induction is on the budget, one call for each escape,
and carries only that the escapes before the last part are taken from the front. -/
theorem closes_of_readString {start : Text} : ∀ {budget : Nat} {t inside rest : Text},
    readString start budget t = .ok (inside, rest) → Closes t rest
  | 0, _, _, _, h => by cases h
  | budget + 1, t, inside, rest, h => by
    have hrun : t.dropWhile isPlain <:+ t := List.dropWhile_suffix _
    rw [readString] at h
    split at h
    · -- The string ends here, at the quote.
      next after hquote =>
      cases h
      rw [hquote] at hrun
      exact (closes_cons (by decide) _).of_suffix hrun
    · -- It goes on behind an escape, and ends where the rest does.
      next letter after hescape =>
      rw [hescape] at hrun
      split at h
      · cases h
      · next c behind hread =>
        obtain ⟨⟨more, left⟩, hmore, heq⟩ := map_eq_ok.mp h
        cases heq
        have hbehind : behind <:+ '\\' :: letter :: after :=
          (readEscape_suffix hread).trans (List.suffix_cons '\\' _)
        exact (closes_of_readString hmore).of_suffix (hbehind.trans hrun)
    · split at h <;> cases h
    · cases h

/-- The same from the opening quotation mark on. -/
theorem closes_of_readQuoted {budget : Nat} {t inside rest : Text}
    (h : readQuoted budget t = .ok (inside, rest)) : Closes t rest :=
  (closes_of_readString h).of_suffix (List.drop_suffix 1 t)

/-! ### Numbers and words -/

/-- A word is in front of the rest with its last character, so that character decides. -/
theorem closes_append {word : Text} (hne : word ≠ []) (hlast : word.getLast hne ≠ ')')
    (rest : Text) : Closes (word ++ rest) rest := by
  refine ⟨word.getLast hne, hlast, word.dropLast, ?_⟩
  rw [← List.singleton_append, ← List.append_assoc, List.dropLast_concat_getLast hne]

/-- A run of digits closes: its last character is a digit. -/
theorem closes_digits {t : Text} (h : t.takeWhile isDigit ≠ []) :
    Closes t (t.dropWhile isDigit) := by
  have hdigit : isDigit ((t.takeWhile isDigit).getLast h) = true :=
    List.all_eq_true.mp List.all_takeWhile _ (List.getLast_mem h)
  have hlast : (t.takeWhile isDigit).getLast h ≠ ')' := by
    intro hbracket
    rw [hbracket] at hdigit
    cases hdigit
  have hcloses := closes_append h hlast (t.dropWhile isDigit)
  rwa [List.takeWhile_append_dropWhile] at hcloses

/-- Whole digits close, if there are any. -/
theorem closes_wholeDigits {t : Text} (h : (wholeDigits t).1 ≠ []) :
    Closes t (wholeDigits t).2 := by
  unfold wholeDigits at h ⊢
  split
  · exact closes_cons (by decide) _
  · next hzero =>
    refine closes_digits ?_
    split at h
    · next rest => exact absurd rfl (hzero rest)
    · exact h

/-- A fraction is not there, or it ends with a digit. -/
theorem fractionDigits_rest (t : Text) :
    (fractionDigits t).2 = t ∨ Closes t (fractionDigits t).2 := by
  unfold fractionDigits
  split
  · next rest =>
    split
    · exact .inl rfl
    · next hdigits =>
      have hne : rest.takeWhile isDigit ≠ [] := fun hnil => hdigits (by rw [hnil]; rfl)
      exact .inr ((closes_digits hne).of_suffix (List.suffix_cons '.' rest))
  · exact .inl rfl

/-- The sign of an exponent is taken from the front. -/
theorem signedExponent_suffix (t : Text) : (signedExponent t).2 <:+ t := by
  unfold signedExponent
  split
  · exact List.suffix_cons '-' _
  · exact List.suffix_cons '+' _
  · exact List.suffix_refl _

/-- An exponent is not there, or it ends with a digit. -/
theorem exponent?_rest (t : Text) : (exponent? t).2 = t ∨ Closes t (exponent? t).2 := by
  unfold exponent?
  split
  · exact .inl rfl
  · next c rest =>
    split
    · dsimp only
      split
      · exact .inl rfl
      · next hsize =>
        -- An exponent without digits would not have been taken.
        have hne : (signedExponent rest).2.takeWhile isDigit ≠ [] := fun hnil =>
          hsize (by rw [hnil]; rfl)
        exact .inr ((closes_digits hne).of_suffix
          ((signedExponent_suffix rest).trans (List.suffix_cons c rest)))
    · exact .inl rfl

/-- The sign of a number is taken from the front. -/
theorem splitSign_suffix (t : Text) : (splitSign t).2 <:+ t := by
  unfold splitSign
  split
  · exact List.suffix_cons '-' _
  · exact List.suffix_refl _

/-- A number ends with a digit: that of its exponent, its fraction or its whole part, whichever
comes last. -/
theorem closes_of_readNumber {t rest : Text} {value : Json}
    (h : readNumber t = .ok (value, rest)) : Closes t rest := by
  rw [readNumber] at h
  dsimp only at h
  split at h
  · cases h
  · next hwhole =>
    have hne : (wholeDigits (splitSign t).2).1 ≠ [] := fun hnil => hwhole (by rw [hnil]; rfl)
    -- The whole digits are there; the fraction and the exponent come behind them, if at all.
    have hdigits := (closes_wholeDigits hne).of_suffix (splitSign_suffix t)
    have hrest := (hdigits.step (fractionDigits_rest _)).step (exponent?_rest _)
    split at h
    · split at h
      · cases h
      · cases h
        exact hrest
    · cases h
      exact hrest

/-- The words that stand for a value end with a letter. There are six of them, so this is decided by
looking at each. -/
theorem closes_of_readAtom {t rest : Text} {value : Json} (h : readAtom t = .ok (value, rest)) :
    Closes t rest := by
  rw [readAtom] at h
  split at h
  · next found hfound =>
    cases h
    obtain ⟨entry, hentry, hafter⟩ := List.exists_of_findSome?_eq_some hfound
    obtain ⟨behind, hbehind, heq⟩ := Option.map_eq_some_iff.mp hafter
    cases heq
    have hall : ∀ entry ∈ constants, ∃ hne : entry.1 ≠ [], entry.1.getLast hne ≠ ')' := by
      decide
    obtain ⟨hne, hlast⟩ := hall entry hentry
    rw [after?_eq_some_iff.mp hbehind]
    exact closes_append hne hlast _
  · exact closes_of_readNumber h

/-! ### Values -/

mutual

/-- A value ends with no round bracket: a text ends with its quotation mark, a list and an object
with brackets of their own, and the atoms as shown above.

The three readers call one another, so the three statements are proved together, by recursion on the
budget. -/
theorem closes_of_readValue : ∀ {levels budget : Nat} {t : Text} {value : Json} {rest : Text},
    readValue levels budget t = .ok (value, rest) → Closes t rest
  | _, 0, _, _, _, h => by
    rw [readValue] at h
    cases h
  | levels, budget + 1, t, value, rest, h => by
    unfold readValue at h
    split at h
    · -- A value ends with a quote, with a bracket of its own or of what is inside, or as an atom
      -- does.
      obtain ⟨⟨inside, left⟩, hread, heq⟩ := map_eq_ok.mp h
      cases heq
      exact closes_of_readQuoted hread
    · next behind =>
      split at h
      · cases h
      · split at h
        · next last hskip =>
          cases h
          exact (closes_cons (by decide) _).of_suffix
            ((hskip ▸ skip_suffix behind).trans (List.suffix_cons '[' behind))
        · obtain ⟨⟨items, left⟩, hread, heq⟩ := map_eq_ok.mp h
          cases heq
          exact (closes_of_readItems hread).of_suffix
            ((skip_suffix behind).trans (List.suffix_cons '[' behind))
    · next behind =>
      split at h
      · cases h
      · split at h
        · next last hskip =>
          cases h
          exact (closes_cons (by decide) _).of_suffix
            ((hskip ▸ skip_suffix behind).trans (List.suffix_cons '\x7b' behind))
        · obtain ⟨⟨fields, left⟩, hread, heq⟩ := map_eq_ok.mp h
          cases heq
          exact (closes_of_readFields hread).of_suffix
            ((skip_suffix behind).trans (List.suffix_cons '\x7b' behind))
    · exact closes_of_readAtom h

/-- The items of a list end with its bracket, which the last call reads. -/
theorem closes_of_readItems : ∀ {levels budget : Nat} {t : Text} {items : List Json} {rest : Text},
    readItems levels budget t = .ok (items, rest) → Closes t rest
  | _, 0, _, _, _, h => by
    rw [readItems] at h
    cases h
  | levels, budget + 1, t, items, rest, h => by
    rw [readItems] at h
    split at h
    · cases h
    · next item behind hitem =>
      have hbehind : skip behind <:+ t :=
        (skip_suffix behind).trans (closes_of_readValue hitem).suffix
      split at h
      · -- Behind an item comes the end of the list, or a comma and more items.
        next last hskip =>
        cases h
        exact (closes_cons (by decide) _).of_suffix (hskip ▸ hbehind)
      · next more hskip =>
        obtain ⟨⟨others, left⟩, hread, heq⟩ := map_eq_ok.mp h
        cases heq
        have hmore : more <:+ t := (List.suffix_cons ',' more).trans (hskip ▸ hbehind)
        exact (closes_of_readItems hread).of_suffix ((skip_suffix more).trans hmore)
      · cases h

/-- The fields of an object end with its brace, which the last call reads. -/
theorem closes_of_readFields : ∀ {levels budget : Nat} {before : Fields} {t : Text}
    {fields : Fields} {rest : Text},
    readFields levels budget before t = .ok (fields, rest) → Closes t rest
  | _, 0, _, _, _, _, h => by
    rw [readFields] at h
    cases h
  | levels, budget + 1, before, t, fields, rest, h => by
    unfold readFields at h
    split at h
    · next tail =>
      split at h
      · cases h
      · next name behind hname =>
        have hbehind := (skip_suffix behind).trans (closes_of_readQuoted hname).suffix
        split at h
        · next start hcolon =>
          -- Name, colon and value are passed one after the other; only the last step counts.
          have hstart : skip start <:+ '"' :: tail :=
            (skip_suffix start).trans ((List.suffix_cons ':' start).trans (hcolon ▸ hbehind))
          split at h
          · cases h
          · next value after hvalue =>
            have hafter : skip after <:+ '"' :: tail :=
              (skip_suffix after).trans ((closes_of_readValue hvalue).suffix.trans hstart)
            split at h
            · next last hskip =>
              cases h
              exact (closes_cons (by decide) _).of_suffix (hskip ▸ hafter)
            · next more hskip =>
              have hmore : more <:+ '"' :: tail :=
                (List.suffix_cons ',' more).trans (hskip ▸ hafter)
              exact (closes_of_readFields h).of_suffix ((skip_suffix more).trans hmore)
            · cases h
        · cases h
    · cases h

end

/-- A text that is read does not end with a round bracket. The marker of a shortened reply does, so
a reply that was shortened is not read (`Proofs/Service/Report`). -/
theorem getLast?_ne_of_read {levels : Nat} {t : Text} {value : Json}
    (h : read levels t = .ok value) : t.getLast? ≠ some ')' := by
  rw [read] at h
  split at h
  · cases h
  · next found rest hread =>
    obtain ⟨c, hc, front, rfl⟩ := (closes_of_readValue hread).of_suffix (skip_suffix t)
    split at h
    · next hskip =>
      -- Whatever follows the value is blank.
      have hblanks := List.dropWhile_eq_nil_iff.mp hskip
      rcases List.eq_nil_or_concat rest with rfl | ⟨init, last, rfl⟩
      · rw [List.getLast?_concat]
        exact fun hlast => hc (Option.some.inj hlast)
      · have hlast : last ≠ ')' := by
          rintro rfl
          exact absurd (hblanks ')' (by simp)) (by decide)
        rw [List.concat_eq_append, ← List.cons_append, ← List.append_assoc, List.getLast?_concat]
        exact fun hbracket => hlast (Option.some.inj hbracket)
    · cases h

end DesignCompiler.Json
