import DesignCompiler.Json.Quoted
import DesignCompiler.Json.Reader
import DesignCompiler.Proofs.Text.Digit

/-!
# `DesignCompiler.Proofs.Json.Quoted`: written strings read back

A string is written character by character, and most characters stand for themselves. The others
are escaped: by a letter, by the four digits of their code, or by those of a pair of surrogates.
Each escape is read as its character (`asciiChar_cases`), which needs that something follows
it; the closing quotation mark does at the end (`readString_ascii`).
-/

set_option autoImplicit false

namespace DesignCompiler.Json

open Text Quoted

variable {n : Nat} {c : Char} {rest : Text}

/-! ### Codes -/

/-- Four hexadecimal digits are read back. The number has to fit into four digits, since `hexDigits`
writes the last four. -/
theorem fourHex?_hexDigits (h : n < 0x10000) (rest : Text) :
    fourHex? (hexDigits 4 n ++ rest) = some (n, rest) := by
  have hdigit : ∀ m : Nat, hexValue? (hexChar (m % 16)) = some (m % 16) :=
    fun m => hexValue?_hexChar (Nat.mod_lt m (by decide))
  have hdigits : hexDigits 4 n ++ rest = hexChar (n / 16 / 16 / 16 % 16)
      :: hexChar (n / 16 / 16 % 16) :: hexChar (n / 16 % 16) :: hexChar (n % 16) :: rest := rfl
  rw [hdigits, fourHex?]
  simp only [hdigit, Option.some.injEq, Prod.mk.injEq, and_true]
  omega

/-- A text that is followed by something is shorter than the whole. -/
theorem isLonger_append {t rest : Text} (hrest : rest ≠ []) :
    isLonger t.length (t ++ rest) = true := by
  simp [isLonger, hrest]

/-- A code escape is read back, if something follows it. The reader refuses an escape whose digits
are the last characters of the text, even where they are four. -/
theorem codeEscape?_hexDigits (h : n < 0x10000) (hrest : rest ≠ []) :
    codeEscape? ('u' :: (hexDigits 4 n ++ rest)) = some (n, rest) := by
  have hlonger := isLonger_append (t := hexDigits 4 n) hrest
  rw [length_hexDigits] at hlonger
  rw [codeEscape?, if_pos hlonger, fourHex?_hexDigits h]

/-- No character has the code of a surrogate, so a code escape that is written for a character does
not begin a pair. -/
theorem not_surrogate (c : Char) : isHigh c.toNat = false ∧ isLow c.toNat = false := by
  have hvalid : c.toNat < 0xD800 ∨ 0xDFFF < c.toNat := by
    rcases c.valid with hlow | hhigh
    · exact .inl hlow
    · exact .inr hhigh.1
  simp only [isHigh, isLow, Bool.and_eq_false_iff, decide_eq_false_iff_not]
  omega

/-- The code of a character is read as the character. Only the codes of surrogates are replaced. -/
theorem charOfCode_toNat (c : Char) : charOfCode c.toNat = c := by
  obtain ⟨hhigh, hlow⟩ := not_surrogate c
  rw [charOfCode, hhigh, hlow, Bool.false_or, if_neg (by decide), Char.ofNat_toNat]

/-! ### Escapes -/

/-- An escape letter is read as the character that it stands for. -/
theorem readEscape_letter (backslash : Text) {letter : Char} (hletter : letter ≠ 'u')
    (hfound : escapeLetter? letter = some c) (rest : Text) :
    readEscape backslash (letter :: rest) = .ok (c, rest) := by
  rw [readEscape, if_neg hletter, hfound]

/-- A code that cannot start a pair is read by itself, also where another code escape follows it. -/
theorem readEscape_code (backslash : Text) (h : n < 0x10000) (hhigh : isHigh n = false)
    (hrest : rest ≠ []) :
    readEscape backslash ('u' :: (hexDigits 4 n ++ rest)) = .ok (charOfCode n, rest) := by
  rw [readEscape, if_pos rfl, codeEscape?_hexDigits h hrest]
  dsimp only
  split
  · rw [hhigh, Bool.false_and, if_neg (by decide)]
  · rfl

/-- The codes of a pair are read together, as the one character that they write. -/
theorem readEscape_pair (backslash : Text) {high low : Nat} (hhigh : isHigh high = true)
    (hlow : isLow low = true) (hrest : rest ≠ []) :
    readEscape backslash ('u' :: (hexDigits 4 high ++ (fourDigits low ++ rest)))
      = .ok (charOfPair high low, rest) := by
  have hlonger := isLonger_append (t := hexDigits 4 low) hrest
  rw [length_hexDigits] at hlonger
  have hhigh' : high < 0x10000 := by
    simp only [isHigh, Bool.and_eq_true, decide_eq_true_eq] at hhigh
    omega
  have hlow' : low < 0x10000 := by
    simp only [isLow, Bool.and_eq_true, decide_eq_true_eq] at hlow
    omega
  -- The first code is half of a pair, so the reader looks for the other half.
  have hfirst : codeEscape? ('u' :: (hexDigits 4 high ++ (fourDigits low ++ rest)))
      = some (high, fourDigits low ++ rest) :=
    codeEscape?_hexDigits hhigh' (List.cons_ne_nil _ _)
  rw [readEscape, if_pos rfl, hfirst]
  simp only [fourDigits, List.cons_append, hhigh, hlonger, codeEscape?_hexDigits hlow' hrest, hlow,
    Bool.and_self, if_true]

/-- What an escape is read as, whatever follows it. The rest is not empty, as
`codeEscape?_hexDigits` needs; in a string the closing quotation mark at least is there. -/
def Escapes (escape : Text) (c : Char) : Prop :=
  ∀ backslash rest, rest ≠ [] → readEscape backslash (escape ++ rest) = .ok (c, rest)

/-- A letter escape is read as the character that the letter stands for. -/
theorem escapes_letter {letter : Char} (hletter : letter ≠ 'u')
    (hfound : escapeLetter? letter = some c) : Escapes [letter] c :=
  fun backslash rest _ => readEscape_letter backslash hletter hfound rest

/-- The four digits of a character's code are read as the character. -/
theorem escapes_code (h : c.toNat < 0x10000) : Escapes ('u' :: hexDigits 4 c.toNat) c := by
  intro backslash rest hrest
  have hread := readEscape_code backslash h (not_surrogate c).1 hrest
  rwa [charOfCode_toNat] at hread

/-- A character above U+FFFF is the one of its pair of surrogates. The two codes share the bits of
`c.toNat - 0x10000`, ten each, and put together they give it again. -/
theorem escapes_pair (h : 0x10000 ≤ c.toNat) :
    Escapes ('u' :: (hexDigits 4 (0xD800 + (c.toNat - 0x10000) / 0x400)
      ++ fourDigits (0xDC00 + (c.toNat - 0x10000) % 0x400))) c := by
  intro backslash rest hrest
  have hlimit : c.toNat < 0x110000 := by
    rcases c.valid with hlow | hhigh
    · exact Nat.lt_trans hlow (by decide)
    · exact hhigh.2
  have hhigh : isHigh (0xD800 + (c.toNat - 0x10000) / 0x400) = true := by
    simp only [isHigh, Bool.and_eq_true, decide_eq_true_eq]
    omega
  have hlow : isLow (0xDC00 + (c.toNat - 0x10000) % 0x400) = true := by
    simp only [isLow, Bool.and_eq_true, decide_eq_true_eq]
    omega
  have hread := readEscape_pair backslash hhigh hlow hrest
  have hchar : charOfPair (0xD800 + (c.toNat - 0x10000) / 0x400)
      (0xDC00 + (c.toNat - 0x10000) % 0x400) = c := by
    -- The two halves put together are the number of the character again.
    have hcode : 0x10000 + (0xD800 + (c.toNat - 0x10000) / 0x400 - 0xD800) * 0x400
        + (0xDC00 + (c.toNat - 0x10000) % 0x400 - 0xDC00) = c.toNat := by omega
    rw [charOfPair, hcode, Char.ofNat_toNat]
  rw [hchar] at hread
  rw [List.cons_append, List.append_assoc]
  exact hread

/-- The escape that a character needs is read as the character. The cases are those of `required?`:
seven characters have a letter, and the other control characters have the four digits of their code.
-/
theorem escapes_required {escape : Text} (h : required? c = some escape) :
    ∃ more, escape = '\\' :: more ∧ Escapes more c := by
  have hletter : ∀ {letter d : Char}, c = d → letter ≠ 'u' → escapeLetter? letter = some d →
      some ['\\', letter] = some escape → ∃ more, escape = '\\' :: more ∧ Escapes more c := by
    rintro letter d rfl hne hfound hescape
    exact ⟨[letter], (Option.some.inj hescape).symm, escapes_letter hne hfound⟩
  have hchar : ∀ {n : Nat}, c.toNat = n → c = Char.ofNat n := by
    intro n hn
    rw [← hn, Char.ofNat_toNat]
  -- One branch for each character with a letter, then the control characters.
  unfold required? at h
  split at h
  · next hc => exact hletter hc (by decide) (by decide) h
  split at h
  · next hc => exact hletter hc (by decide) (by decide) h
  split at h
  · next hc => exact hletter hc (by decide) (by decide) h
  split at h
  · next hc => exact hletter hc (by decide) (by decide) h
  split at h
  · next hc => exact hletter hc (by decide) (by decide) h
  split at h
  · next hn => exact hletter (hchar hn) (by decide) (by decide) h
  split at h
  · next hn => exact hletter (hchar hn) (by decide) (by decide) h
  split at h
  · next hn => exact ⟨_, (Option.some.inj h).symm, escapes_code (by omega)⟩
  · cases h

/-- A character that needs no escape may stand in a string as it is. Of all that `required?` tests,
the reader minds only the quotation mark, the backslash and the control characters. -/
theorem isPlain_of_required? (h : required? c = none) : isPlain c = true := by
  have hneither : ∀ {p : Prop} [Decidable p] {escape : Text} {others : Option Text},
      (if p then some escape else others) = none → ¬ p ∧ others = none := by
    intro p _ escape others hnone
    split at hnone
    · cases hnone
    · next hp => exact ⟨hp, hnone⟩
  obtain ⟨hquote, h⟩ := hneither h
  obtain ⟨hbackslash, h⟩ := hneither h
  -- The letters and the codes between them are below the codes of four digits.
  obtain ⟨-, h⟩ := hneither h
  obtain ⟨-, h⟩ := hneither h
  obtain ⟨-, h⟩ := hneither h
  obtain ⟨-, h⟩ := hneither h
  obtain ⟨-, h⟩ := hneither h
  obtain ⟨hcontrol, -⟩ := hneither h
  simp only [isPlain, Bool.and_eq_true, bne_iff_ne, decide_eq_true_eq]
  exact ⟨⟨hquote, hbackslash⟩, Nat.not_lt.mp hcontrol⟩

/-- A character is written as it is, or as an escape that is read as the character. The proofs about
written strings split on this and do not look at the escapes again. -/
theorem asciiChar_cases (c : Char) : (asciiChar c = [c] ∧ isPlain c = true)
    ∨ ∃ escape, asciiChar c = '\\' :: escape ∧ Escapes escape c := by
  rw [asciiChar]
  cases hrequired : required? c with
  | some escape => exact .inr (escapes_required hrequired)
  | none =>
    dsimp only
    split
    · exact .inl ⟨rfl, isPlain_of_required? hrequired⟩
    split
    · next hcode => exact .inr ⟨_, rfl, escapes_code hcode⟩
    · next hcode => exact .inr ⟨_, rfl, escapes_pair (Nat.not_lt.mp hcode)⟩

/-! ### Strings -/

section

variable (start : Text) {budget : Nat}

/-- A plain character at the start goes into the string. The reader takes plain characters in one
run for one call, so the budget is the same on both sides. -/
theorem readString_plain (hc : isPlain c = true) (t : Text) :
    readString start (budget + 1) (c :: t)
      = (readString start (budget + 1) t).map fun (inside, rest) => (c :: inside, rest) := by
  rw [readString, readString, List.takeWhile_cons_of_pos hc, List.dropWhile_cons_of_pos hc]
  generalize t.takeWhile isPlain = run
  generalize t.dropWhile isPlain = left
  dsimp only
  -- The run is one character longer; what follows it is the same.
  split
  · rfl
  · next next rest =>
    cases readEscape ('\\' :: next :: rest) (next :: rest) with
    | error e => rfl
    | ok found =>
      obtain ⟨read, behind⟩ := found
      dsimp only
      cases readString start budget behind <;> rfl
  · split <;> rfl
  · rfl

/-- An escape at the start goes into the string as its character, for one call. -/
theorem readString_escape {escape : Text} (h : Escapes escape c) (hrest : rest ≠ []) :
    readString start (budget + 1) ('\\' :: (escape ++ rest))
      = (readString start budget rest).map fun (inside, rest) => (c :: inside, rest) := by
  have hread := h ('\\' :: (escape ++ rest)) rest hrest
  obtain ⟨next, more, hmore⟩ : ∃ next more, escape ++ rest = next :: more :=
    List.exists_cons_of_ne_nil (List.append_ne_nil_of_right_ne_nil _ hrest)
  have hbackslash : ¬ isPlain '\\' = true := by decide
  rw [hmore] at hread ⊢
  rw [readString, List.takeWhile_cons_of_neg hbackslash, List.dropWhile_cons_of_neg hbackslash]
  simp only [hread, List.nil_append]

/-- A string is read back from what is written of it. The induction is over the characters; each
takes at most one call, so a budget above the length of the text is enough. -/
theorem readString_ascii (t rest : Text) (hbudget : t.length < budget) :
    readString start budget (t.flatMap asciiChar ++ '"' :: rest) = .ok (t, rest) := by
  induction t generalizing budget with
  | nil =>
    obtain ⟨more, rfl⟩ : ∃ more, budget = more + 1 := ⟨budget - 1, by omega⟩
    rfl
  | cons c t ih =>
    rw [List.length_cons] at hbudget
    obtain ⟨more, rfl⟩ : ∃ more, budget = more + 1 := ⟨budget - 1, by omega⟩
    have hne : t.flatMap asciiChar ++ '"' :: rest ≠ [] :=
      List.append_ne_nil_of_right_ne_nil _ (List.cons_ne_nil _ _)
    rw [List.flatMap_cons, List.append_assoc]
    -- A character stands for itself or is escaped, and the reader takes one step for either.
    rcases asciiChar_cases c with ⟨hself, hplain⟩ | ⟨escape, hescape, hread⟩
    · rw [hself, List.singleton_append, readString_plain start hplain, ih (by omega)]
      rfl
    · rw [hescape, List.cons_append, readString_escape start hread hne, ih (by omega)]
      rfl

end

/-- A string is read back from its opening quotation mark on, up to what stands behind the closing
one. -/
theorem readQuoted_ascii (t rest : Text) {budget : Nat} (hbudget : t.length < budget) :
    readQuoted budget (ascii t ++ rest) = .ok (t, rest) := by
  have hread := readString_ascii (ascii t ++ rest) t rest hbudget
  rw [readQuoted]
  simpa [ascii] using hread

end DesignCompiler.Json
