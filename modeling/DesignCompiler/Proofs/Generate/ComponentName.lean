import DesignCompiler.Proofs.Lexical.Generated
import DesignCompiler.Text.Blank

/-!
# `DesignCompiler.Proofs.Generate.ComponentName`: every name makes an identifier

`ComponentName.ofName` keeps the ASCII letters and digits of a name and drops the digits in front.
The rule can also be told in steps: characters of no use go first, but blanks stay; then the blanks
go; then the digits in front. `cleaned` takes these steps, and `cleaned_eq` says that nothing
depends on the blanks: digits that a blank kept apart come together before the digits in front are
dropped.

`MadeFrom` says what an identifier has to do with its name. It holds of every name, and the
identifier of an identifier is the same again (`ofName_of_isIdentifier`). Whatever else is put into
a name, of whatever script, changes nothing (`ofName_of_padded`). `ofValue_madeFrom` has all of this
for a name that may be missing.
-/

set_option autoImplicit false

namespace DesignCompiler

namespace Text

/-- An ASCII letter in upper case. Letters of other scripts are none, as none of them is kept. -/
def isCapital (c : Char) : Bool := 0x41 ≤ c.toNat && c.toNat ≤ 0x5A

/-- An ASCII letter in upper case, and then ASCII letters and digits. All three targets take such a
word as the name of a type or function. -/
inductive IsIdentifier : Text → Prop
  | mk {first : Char} {rest : Text} : isCapital first = true →
      (∀ c ∈ rest, isAlphanumeric c = true) → IsIdentifier (first :: rest)

/-- The second text is the first with characters put in, none of which is an ASCII letter or digit.
They may be put in anywhere, also between two digits. -/
inductive Padded : Text → Text → Prop
  | nil : Padded [] []
  | keep {c : Char} {t wide : Text} : Padded t wide → Padded (c :: t) (c :: wide)
  | pad {c : Char} {t wide : Text} : isAlphanumeric c = false → Padded t wide → Padded t (c :: wide)

/-- The letters and digits are the same with and without the padding, in the same order. -/
theorem Padded.filter_eq {t wide : Text} (h : Padded t wide) :
    wide.filter isAlphanumeric = t.filter isAlphanumeric := by
  induction h with
  | nil => rfl
  | keep _ ih => rw [List.filter_cons, List.filter_cons, ih]
  | pad hc _ ih => rw [List.filter_cons_of_neg (by simp [hc]), ih]

/-- A letter in upper case is a letter. -/
theorem isLetter_of_isCapital {c : Char} (h : isCapital c = true) : isLetter c = true := by
  rw [isLetter, show (decide (0x41 ≤ c.toNat) && decide (c.toNat ≤ 0x5A)) = true from h,
    Bool.true_or]

/-- No letter is a digit, so the digits in front end at the first letter. -/
theorem isDigit_of_isLetter {c : Char} (h : isLetter c = true) : isDigit c = false := by
  simp only [isLetter, Bool.or_eq_true, Bool.and_eq_true, decide_eq_true_eq] at h
  simp only [isDigit, Bool.and_eq_false_iff, decide_eq_false_iff_not]
  omega

/-- A letter in upper case is one. The small letters are tried; any other letter is in upper case
already. -/
theorem isCapital_upperAscii {c : Char} (h : isLetter c = true) :
    isCapital (upperAscii c) = true := by
  rw [upperAscii]
  split
  · next hsmall =>
    have hall : ∀ n < 0x7B, 0x61 ≤ n → isCapital (Char.ofNat (n - 0x20)) = true := by
      decide +kernel
    exact hall c.toNat (Nat.lt_succ_of_le hsmall.2) hsmall.1
  · next hother =>
    simp only [isLetter, Bool.or_eq_true, Bool.and_eq_true, decide_eq_true_eq] at h
    simp only [isCapital, Bool.and_eq_true, decide_eq_true_eq]
    omega

/-- A letter that is in upper case stays as it is. -/
theorem upperAscii_eq_self {c : Char} (h : isCapital c = true) : upperAscii c = c := by
  simp only [isCapital, Bool.and_eq_true, decide_eq_true_eq] at h
  rw [upperAscii, if_neg (by omega)]

/-- Letters and digits are no blanks, so the step that takes blanks away takes none of them. -/
theorem isBlank_of_isAlphanumeric {c : Char} (h : isAlphanumeric c = true) : isBlank c = false := by
  simp only [isAlphanumeric, isDigit, isLetter, Bool.or_eq_true, Bool.and_eq_true,
    decide_eq_true_eq] at h
  simp only [isBlank, isWhiteSpace, Bool.or_eq_false_iff, Bool.and_eq_false_iff,
    decide_eq_false_iff_not]
  omega

end Text

namespace ComponentName

open Text

/-! ### Cleaning in steps -/

/-- A name that has lost everything but letters, digits and blanks, then the blanks, and then the
digits in front. -/
def cleaned (name : Text) : Text :=
  let plain := name.filter fun c => isAlphanumeric c || isBlank c
  let joined := plain.filter fun c => !isBlank c
  joined.dropWhile isDigit

/-- What has been cleaned, with its first character in upper case, or the default if nothing is
left. -/
def capitalized : Text → Text
  | [] => fallback
  | first :: rest => upperAscii first :: rest

/-- The first two steps leave the letters and digits. The blanks that the first step keeps are gone
after the second, so they matter for nothing. -/
theorem cleaned_eq (name : Text) :
    cleaned name = (name.filter isAlphanumeric).dropWhile isDigit := by
  have hkept : ∀ c : Char, (!isBlank c && (isAlphanumeric c || isBlank c)) = isAlphanumeric c := by
    intro c
    by_cases hc : isAlphanumeric c = true
    · rw [hc, isBlank_of_isAlphanumeric hc]
      rfl
    · rw [Bool.not_eq_true] at hc
      rw [hc, Bool.false_or, Bool.not_and_self]
  rw [cleaned, List.filter_filter]
  simp only [hkept]

/-- The identifier of a name is what has been cleaned, in upper case. The definition takes one pass,
and this is the form with the steps apart. -/
theorem ofName_eq (name : Text) : ofName name = capitalized (cleaned name) := by
  rw [cleaned_eq, ofName]
  split
  · next hnil => rw [hnil, capitalized]
  · next first rest hcons => rw [hcons, capitalized]

/-! ### The letters of a name -/

/-- Letters and digits without a letter are digits, and all of them are dropped from the front. -/
theorem dropWhile_isDigit_eq_nil {name : Text} (h : ∀ c ∈ name, isLetter c = false) :
    (name.filter isAlphanumeric).dropWhile isDigit = [] := by
  rw [List.dropWhile_eq_nil_iff]
  intro c hc
  obtain ⟨hmem, hkept⟩ := List.mem_filter.mp hc
  rw [isAlphanumeric, h c hmem, Bool.or_false] at hkept
  exact hkept

/-- A name with a letter keeps a letter behind the digits in front. What stops the dropping is kept
and no digit, so it is a letter. -/
theorem exists_dropWhile_isDigit {name : Text} (h : ∃ c ∈ name, isLetter c = true) :
    ∃ first rest, (name.filter isAlphanumeric).dropWhile isDigit = first :: rest
      ∧ isLetter first = true := by
  obtain ⟨c, hmem, hletter⟩ := h
  have hkept : isAlphanumeric c = true := by rw [isAlphanumeric, hletter, Bool.or_true]
  cases hcleaned : (name.filter isAlphanumeric).dropWhile isDigit with
  | nil =>
    -- Then the letter would have been a digit.
    have hdigit := List.dropWhile_eq_nil_iff.mp hcleaned c (List.mem_filter.mpr ⟨hmem, hkept⟩)
    rw [isDigit_of_isLetter hletter] at hdigit
    cases hdigit
  | cons first rest =>
    refine ⟨first, rest, rfl, ?_⟩
    have hstop : isDigit first = false := by
      have hhead := List.head?_dropWhile_not isDigit (name.filter isAlphanumeric)
      rw [hcleaned] at hhead
      simpa using hhead
    have hfirst : first ∈ name.filter isAlphanumeric :=
      (List.dropWhile_sublist isDigit).mem (hcleaned ▸ List.mem_cons_self)
    have halphanumeric := (List.mem_filter.mp hfirst).2
    rwa [isAlphanumeric, hstop, Bool.false_or] at halphanumeric

/-! ### Identifiers -/

/-- What an identifier has to do with the name that it is made from. -/
structure MadeFrom (name id : Text) : Prop where
  isIdentifier : id.IsIdentifier
  /-- Without a letter there is the default. -/
  eq_fallback : (∀ c ∈ name, isLetter c = false) → id = fallback
  /-- Otherwise it is the letters and digits in order, but for the digits in front. -/
  exists_letters : (∃ c ∈ name, isLetter c = true) → ∃ digits first rest,
    name.filter isAlphanumeric = digits ++ first :: rest ∧ (∀ c ∈ digits, isDigit c = true)
      ∧ isLetter first = true ∧ id = upperAscii first :: rest

/-- The default is an identifier, so a name without letters makes one as well. -/
theorem isIdentifier_fallback : fallback.IsIdentifier :=
  .mk (by decide) (List.all_eq_true.mp (by decide))

/-- A name without an ASCII letter makes the default, whatever else it holds. -/
theorem ofName_of_no_letter {name : Text} (h : ∀ c ∈ name, isLetter c = false) :
    ofName name = fallback := by
  rw [ofName_eq, cleaned_eq, dropWhile_isDigit_eq_nil h, capitalized]

/-- The identifier of a name with a letter begins with a letter of it. -/
theorem exists_ofName_eq {name : Text} (h : ∃ c ∈ name, isLetter c = true) :
    ∃ digits first rest, name.filter isAlphanumeric = digits ++ first :: rest
      ∧ (∀ c ∈ digits, isDigit c = true) ∧ isLetter first = true
      ∧ ofName name = upperAscii first :: rest := by
  obtain ⟨first, rest, hcleaned, hletter⟩ := exists_dropWhile_isDigit h
  refine ⟨(name.filter isAlphanumeric).takeWhile isDigit, first, rest, ?_, ?_, hletter, ?_⟩
  · rw [← hcleaned, List.takeWhile_append_dropWhile]
  · exact List.all_eq_true.mp List.all_takeWhile
  · rw [ofName_eq, cleaned_eq, hcleaned, capitalized]

/-- Every name makes an identifier. The two cases are whether it holds an ASCII letter. -/
theorem madeFrom_ofName (name : Text) : MadeFrom name (ofName name) where
  isIdentifier := by
    by_cases h : ∃ c ∈ name, isLetter c = true
    · obtain ⟨digits, first, rest, hname, -, hletter, hid⟩ := exists_ofName_eq h
      rw [hid]
      refine .mk (isCapital_upperAscii hletter) fun c hc => ?_
      have hmem : c ∈ name.filter isAlphanumeric := by simp [hname, hc]
      exact (List.mem_filter.mp hmem).2
    · rw [ofName_of_no_letter (by simpa using h)]
      exact isIdentifier_fallback
  eq_fallback := ofName_of_no_letter
  exists_letters := exists_ofName_eq

/-- An identifier is its own identifier: nothing of it is dropped, and its first letter is in upper
case. -/
theorem ofName_of_isIdentifier {id : Text} (h : id.IsIdentifier) : ofName id = id := by
  cases h with
  | @mk first rest hcapital hrest =>
    have hletter := isLetter_of_isCapital hcapital
    have hall : ∀ c ∈ first :: rest, isAlphanumeric c = true := by
      intro c hc
      rcases List.mem_cons.mp hc with rfl | hc
      · rw [isAlphanumeric, hletter, Bool.or_true]
      · exact hrest c hc
    rw [ofName_eq, cleaned_eq, List.filter_eq_self.mpr hall,
      List.dropWhile_cons_of_neg (by simp [isDigit_of_isLetter hletter]), capitalized,
      upperAscii_eq_self hcapital]

/-- Padding does not change the identifier. -/
theorem ofName_of_padded {name wide : Text} (h : Padded name wide) : ofName wide = ofName name := by
  rw [ofName_eq, ofName_eq, cleaned_eq, cleaned_eq, h.filter_eq]

/-- A name that is a text makes its identifier, an empty one the default. -/
theorem ofValue_text (name : Text) : ofValue (.text name) = .ok (ofName name) := by
  cases name with
  | nil => rfl
  | cons c rest => rfl

/-- A name, or a missing one, makes an identifier: the one that cleaning in steps leads to, which is
its own identifier, and that of the name with any padding. -/
theorem ofValue_madeFrom (name : Option Text) : ∃ id, ofValue (name.elim .null .text) = .ok id
    ∧ MadeFrom (name.getD []) id ∧ id = capitalized (cleaned (name.getD []))
    ∧ ofValue (.text id) = .ok id
    ∧ ∀ wide, Padded (name.getD []) wide → ofValue (.text wide) = .ok id := by
  have hvalue : ofValue (name.elim .null .text) = .ok (ofName (name.getD [])) := by
    cases name with
    | none => rfl
    | some name => exact ofValue_text name
  have hmade := madeFrom_ofName (name.getD [])
  refine ⟨_, hvalue, hmade, ofName_eq _, ?_, fun wide hwide => ?_⟩
  · rw [ofValue_text, ofName_of_isIdentifier hmade.isIdentifier]
  · rw [ofValue_text, ofName_of_padded hwide]

/-- Digits that a no-break space keeps apart from the others are dropped with them. -/
example : ofName "2\u00a04\u0663 gr\u00efd".toList = "Grd".toList := by decide

end ComponentName

end DesignCompiler
