import DesignCompiler.Proofs.Json.Quoted
import DesignCompiler.Render.Literal

/-!
# `DesignCompiler.Proofs.Lexical.Literal`: a literal stands for the text it was made from

The compilers of the target languages read a literal by rules of their own. `Language.decode` is
such a reader: a backslash and a letter stand for a character, in JavaScript also a backslash, `u`
and four digits, and every other character stands for itself if it may stand in a literal at all. It
is strict. A bare quotation mark, a line end, an escape that the language does not have, or what
would start an interpolation has no meaning.

What is written for a character has one of three forms (`Piece`), and everything is read off these:
that the decoder gives the character back, and that no quotation mark is bare. The latter is about
runs of backslashes, whose parity `marked` carries along: each piece starts and ends outside of an
escape (`marked_append_piece`), so the pieces can be looked at one by one.

Swift and Kotlin literals can also be had by replacing one character after the other in the whole
text (`Language.substituted`), and they are the same (`flatMap_char_eq_substituted`). The backslash
has to come first: every replacement brings a backslash in, and no other character that a later step
replaces (`substituteAll_eq_flatMap`). What a literal is for a reader, and this second way to write
it, is `quote_faithful`.
-/

set_option autoImplicit false

namespace DesignCompiler.Literal

open Text

/-! ### The languages -/

/-- The languages that literals are written in. -/
inductive Language
  | swift
  | kotlin
  | javaScript
  deriving DecidableEq

namespace Language

/-- What stands in a literal for a character. -/
def char : Language → Char → Text
  | swift => swiftChar
  | kotlin => kotlinChar
  | javaScript => Quoted.unicodeChar

/-- A text as a literal. -/
def quote : Language → Text → Text
  | swift => Literal.swift
  | kotlin => Literal.kotlin
  | javaScript => Literal.javaScript

/-- The character that a letter stands for after a backslash. The dollar sign is one in Kotlin only,
and backspace and form feed have letters in JavaScript only. -/
def letter? (language : Language) (letter : Char) : Option Char :=
  if letter = '\\' then some '\\'
  else if letter = '"' then some '"'
  else if letter = 'n' then some '\n'
  else if letter = 'r' then some '\r'
  else if letter = 't' then some '\t'
  else if letter = '$' ∧ language = kotlin then some '$'
  else if letter = 'b' ∧ language = javaScript then some (Char.ofNat 8)
  else if letter = 'f' ∧ language = javaScript then some (Char.ofNat 12)
  else none

/-- A character that may stand in a literal for itself. Kotlin's dollar sign may not, since it
begins a template. -/
def isPlain (language : Language) (c : Char) : Bool :=
  c != '\\' && c != '"' && c != '\n' && c != '\r' &&
    match language with
    | swift => true
    | kotlin => c != '$'
    | javaScript => 0x20 ≤ c.toNat

end Language

/-! ### The decoder -/

/-- The character of a code, if it is one: surrogates are no characters. A literal that writes half
of a pair has no meaning here. -/
def character? (code : Nat) : Option Char :=
  if isHigh code || isLow code then none else some (Char.ofNat code)

/-- Where the decoder is between two characters. -/
inductive Place
  /-- Not in an escape. -/
  | outside
  /-- Just after the backslash of an escape. -/
  | escape
  /-- In a code: how many digits come after the next one, and the number that those before write. -/
  | code (more value : Nat)

namespace Language

variable (language : Language)

/-- What the inside of a literal stands for from some place on. An end inside of an escape, a bare
quotation mark and an unknown escape all give none. -/
def decodeFrom : Place → Text → Option Text
  | .outside, [] => some []
  | _, [] => none
  | .outside, c :: rest =>
    if c = '\\' then decodeFrom .escape rest
    else if language.isPlain c then (decodeFrom .outside rest).map (c :: ·)
    else none
  | .escape, c :: rest =>
    if c = 'u' ∧ language = javaScript then decodeFrom (.code 3 0) rest
    else (language.letter? c).bind fun found => (decodeFrom .outside rest).map (found :: ·)
  | .code 0 value, c :: rest =>
    (hexValue? c).bind fun digit => (character? (16 * value + digit)).bind fun found =>
      (decodeFrom .outside rest).map (found :: ·)
  | .code (more + 1) value, c :: rest =>
    (hexValue? c).bind fun digit => decodeFrom (.code more (16 * value + digit)) rest

/-- The text that the inside of a literal stands for. -/
def decode (inside : Text) : Option Text := language.decodeFrom .outside inside

end Language

/-! ### Escapes -/

/-- Whether what comes after `front` is escaped: `front` ends with an odd number of backslashes. -/
def escapes (front : Text) : Bool := (front.reverse.takeWhile (· = '\\')).length % 2 = 1

/-- There is a `c` in the text that no backslash escapes. A bare quotation mark would end the
literal. -/
def HasBare (c : Char) (t : Text) : Prop :=
  ∃ front back, t = front ++ c :: back ∧ escapes front = false

/-- There is a `c` in the text that a backslash escapes. In Swift, an escaped parenthesis begins an
interpolation. -/
def HasEscaped (c : Char) (t : Text) : Prop :=
  ∃ front back, t = front ++ c :: back ∧ escapes front = true

/-- Something in the inside of a literal would be evaluated: in Swift what stands in parentheses
after a backslash, in Kotlin what stands after a dollar sign. JavaScript has such literals too, but
not in double quotes. -/
def Language.Interpolates : Language → Text → Prop
  | .swift, inside => HasEscaped '(' inside
  | .kotlin, inside => HasBare '$' inside
  | .javaScript, _ => False

/-- The inside of a literal that stands for `t`. -/
structure Inside (language : Language) (inside t : Text) : Prop where
  closed : ¬ HasBare '"' inside
  oneLine : '\n' ∉ inside ∧ '\r' ∉ inside
  fixed : ¬ language.Interpolates inside
  printed : language = .javaScript → ∀ c ∈ inside, 0x20 ≤ c.toNat
  decoded : language.decode inside = some t

/-! ### What is written for a character -/

/-- The forms of what stands in a literal for a character: the character, a letter escape, or a code
of four digits, which only JavaScript uses. -/
inductive Piece (language : Language) (c : Char) : Text → Prop
  | plain (h : language.isPlain c = true) : Piece language c [c]
  | letter {letter : Char} (h : language.letter? letter = some c) : Piece language c ['\\', letter]
  | code (hlanguage : language = .javaScript) (h : c.toNat < 0x10000) :
      Piece language c (Quoted.fourDigits c.toNat)

/-- A character that Swift leaves as it is is neither a backslash nor a quotation mark nor a line
end, and for every other one Swift has a letter. -/
theorem swiftChar_cases (language : Language) (c : Char) :
    (swiftChar c = [c] ∧ c ≠ '\\' ∧ c ≠ '"' ∧ c ≠ '\n' ∧ c ≠ '\r')
      ∨ ∃ letter, swiftChar c = ['\\', letter] ∧ language.letter? letter = some c := by
  by_cases hbackslash : c = '\\'
  · exact .inr ⟨'\\', by rw [hbackslash]; rfl, by rw [hbackslash]; rfl⟩
  by_cases hquote : c = '"'
  · exact .inr ⟨'"', by rw [hquote]; rfl, by rw [hquote]; rfl⟩
  by_cases hfeed : c = '\n'
  · exact .inr ⟨'n', by rw [hfeed]; rfl, by rw [hfeed]; rfl⟩
  by_cases hreturn : c = '\r'
  · exact .inr ⟨'r', by rw [hreturn]; rfl, by rw [hreturn]; rfl⟩
  by_cases htab : c = '\t'
  · exact .inr ⟨'t', by rw [htab]; rfl, by rw [htab]; rfl⟩
  refine .inl ⟨?_, hbackslash, hquote, hfeed, hreturn⟩
  rw [swiftChar, if_neg hbackslash, if_neg hquote, if_neg hfeed, if_neg hreturn, if_neg htab]

/-- What Swift writes for a character has one of the forms. -/
theorem piece_swiftChar (c : Char) : Piece .swift c (swiftChar c) := by
  rcases swiftChar_cases .swift c with ⟨hself, hplain⟩ | ⟨letter, hescape, hfound⟩
  · rw [hself]
    exact .plain (by simpa [Language.isPlain, and_assoc] using hplain)
  · rw [hescape]
    exact .letter hfound

/-- What Kotlin writes for a character has one of the forms. The dollar sign has to be looked at
first, because Swift leaves it as it is. -/
theorem piece_kotlinChar (c : Char) : Piece .kotlin c (kotlinChar c) := by
  rw [kotlinChar]
  split
  · next hdollar =>
    rw [hdollar]
    exact .letter rfl
  · next hdollar =>
    rcases swiftChar_cases .kotlin c with ⟨hself, hplain⟩ | ⟨letter, hescape, hfound⟩
    · rw [hself]
      exact .plain (by simpa [Language.isPlain, and_assoc, hdollar] using hplain)
    · rw [hescape]
      exact .letter hfound

/-- The escape that a JSON string needs for a character is one of JavaScript. The cases are those of
`Quoted.required?`. -/
theorem piece_required {c : Char} {escape : Text} (h : Quoted.required? c = some escape) :
    Piece .javaScript c escape := by
  have hletter : ∀ {letter d : Char}, c = d → Language.letter? .javaScript letter = some d →
      some ['\\', letter] = some escape → Piece .javaScript c escape := by
    rintro letter d rfl hfound hescape
    rw [← Option.some.inj hescape]
    exact .letter hfound
  have hchar : ∀ {n : Nat}, c.toNat = n → c = Char.ofNat n := by
    intro n hn
    rw [← hn, Char.ofNat_toNat]
  -- Seven characters have a letter to escape them with, and other controls are written as a number.
  unfold Quoted.required? at h
  split at h
  · next hc => exact hletter hc rfl h
  split at h
  · next hc => exact hletter hc rfl h
  split at h
  · next hc => exact hletter hc rfl h
  split at h
  · next hc => exact hletter hc rfl h
  split at h
  · next hc => exact hletter hc rfl h
  split at h
  · next hn => exact hletter (hchar hn) rfl h
  split at h
  · next hn => exact hletter (hchar hn) rfl h
  split at h
  · next hn =>
    rw [← Option.some.inj h]
    exact .code rfl (by omega)
  · cases h

/-- What JavaScript writes for a character has one of the forms: the escape that it needs, or the
character itself if it needs none. -/
theorem piece_unicodeChar (c : Char) : Piece .javaScript c (Quoted.unicodeChar c) := by
  rw [Quoted.unicodeChar]
  cases hrequired : Quoted.required? c with
  | some escape => exact piece_required hrequired
  | none =>
    have hplain := Json.isPlain_of_required? hrequired
    simp only [Json.isPlain, Bool.and_eq_true, bne_iff_ne, decide_eq_true_eq] at hplain
    obtain ⟨⟨hquote, hbackslash⟩, hprinted⟩ := hplain
    have hline : ∀ d : Char, d.toNat < 0x20 → c ≠ d := by
      rintro d hd rfl
      omega
    refine .plain ?_
    simp [Language.isPlain, hquote, hbackslash, hprinted, hline '\n' (by decide),
      hline '\r' (by decide)]

/-- What stands for a character has one of the forms. The rest of the module looks at the forms, and
no more at the languages' tables. -/
theorem piece_char (language : Language) (c : Char) : Piece language c (language.char c) := by
  cases language with
  | swift => exact piece_swiftChar c
  | kotlin => exact piece_kotlinChar c
  | javaScript => exact piece_unicodeChar c

/-- The quotation marks stand around what is written for the characters. -/
theorem quote_eq (language : Language) (t : Text) :
    language.quote t = '"' :: t.flatMap language.char ++ ['"'] := by
  cases language <;> rfl

/-! ### Reading back -/

section

variable {language : Language} {c : Char} {piece : Text}

/-- No language leaves a backslash, a quotation mark or a line end as it is. -/
theorem ne_of_isPlain (h : language.isPlain c = true) :
    c ≠ '\\' ∧ c ≠ '"' ∧ c ≠ '\n' ∧ c ≠ '\r' := by
  simp only [Language.isPlain, Bool.and_eq_true, bne_iff_ne] at h
  exact ⟨h.1.1.1.1, h.1.1.1.2, h.1.1.2, h.1.2⟩

/-- The digits of a code are read as its character. Each digit multiplies what was read by sixteen,
so four of them give the code again. -/
theorem decodeFrom_hexDigits (hcode : c.toNat < 0x10000) (rest : Text) :
    language.decodeFrom (.code 3 0) (hexDigits 4 c.toNat ++ rest)
      = (language.decode rest).map (c :: ·) := by
  have hdigit : ∀ n : Nat, hexValue? (hexChar (n % 16)) = some (n % 16) :=
    fun n => hexValue?_hexChar (Nat.mod_lt n (by decide))
  have hstep : ∀ more value n : Nat, ∀ rest : Text,
      language.decodeFrom (.code (more + 1) value) (hexChar (n % 16) :: rest)
        = language.decodeFrom (.code more (16 * value + n % 16)) rest := by
    intro more value n rest
    rw [Language.decodeFrom, hdigit, Option.bind_some]
  have hfound : character? c.toNat = some c := by
    obtain ⟨hhigh, hlow⟩ := Json.not_surrogate c
    rw [character?, hhigh, hlow, Bool.false_or, if_neg (by decide), Char.ofNat_toNat]
  -- The four digits are those of the number, the first one counting most.
  have hvalue : 16 * (16 * (16 * (16 * 0 + c.toNat / 16 / 16 / 16 % 16) + c.toNat / 16 / 16 % 16)
      + c.toNat / 16 % 16) + c.toNat % 16 = c.toNat := by omega
  show language.decodeFrom (.code 3 0) (hexChar (c.toNat / 16 / 16 / 16 % 16)
      :: hexChar (c.toNat / 16 / 16 % 16) :: hexChar (c.toNat / 16 % 16)
      :: hexChar (c.toNat % 16) :: rest) = _
  rw [hstep, hstep, hstep, Language.decodeFrom, hdigit, Option.bind_some, hvalue, hfound,
    Option.bind_some, Language.decode]

/-- What stands for a character is read as the character, and the decoder goes on outside of any
escape. -/
theorem decode_piece (h : Piece language c piece) (rest : Text) :
    language.decode (piece ++ rest) = (language.decode rest).map (c :: ·) := by
  cases h with
  | plain hplain =>
    rw [List.singleton_append, Language.decode, Language.decodeFrom,
      if_neg (ne_of_isPlain hplain).1, if_pos hplain, Language.decode]
  | @letter letter hletter =>
    have hcode : ¬ (letter = 'u' ∧ language = .javaScript) := by
      rintro ⟨rfl, rfl⟩
      cases hletter
    show language.decodeFrom .escape (letter :: rest) = _
    rw [Language.decodeFrom, if_neg hcode, hletter, Option.bind_some, Language.decode]
  | code hlanguage hcode =>
    subst hlanguage
    exact decodeFrom_hexDigits hcode rest

/-- The inside of a literal is read as the text, by induction on its characters. -/
theorem decode_inside (language : Language) (t : Text) :
    language.decode (t.flatMap language.char) = some t := by
  induction t with
  | nil => rfl
  | cons c t ih =>
    rw [List.flatMap_cons, decode_piece (piece_char language c), ih]
    rfl

/-! ### Runs of backslashes -/

/-- Each character with whether it is escaped, which depends on the backslashes before it. -/
def marked : Bool → Text → List (Char × Bool)
  | _, [] => []
  | escaped, d :: rest => (d, escaped) :: marked (d = '\\' && !escaped) rest

/-- One more character: it escapes what follows if it is a backslash that is not escaped itself. -/
theorem escapes_concat (front : Text) (d : Char) :
    escapes (front ++ [d]) = (d = '\\' && !escapes front) := by
  rw [escapes, List.reverse_append, List.reverse_singleton, List.singleton_append]
  by_cases hd : d = '\\'
  · rw [List.takeWhile_cons_of_pos (by simpa using hd), List.length_cons, hd]
    simp only [escapes, decide_true, Bool.true_and]
    by_cases hodd : (front.reverse.takeWhile (· = '\\')).length % 2 = 1
    · simp [hodd]
      omega
    · simp [hodd]
      omega
  · rw [List.takeWhile_cons_of_neg (by simpa using hd)]
    simp [hd]

/-- The mark of a character is what the text before it escapes. This ties `marked`, which runs from
the front, to the runs of backslashes in `HasBare`. -/
theorem mem_marked (before front back : Text) (d : Char) :
    (d, escapes (before ++ front)) ∈ marked (escapes before) (front ++ d :: back) := by
  -- Induction on the text before the character, which goes over to what is already passed.
  induction front generalizing before with
  | nil =>
    rw [List.append_nil, List.nil_append, marked]
    exact List.mem_cons_self
  | cons e front ih =>
    have hrest := ih (before ++ [e])
    rw [escapes_concat, List.append_assoc, List.singleton_append] at hrest
    exact List.mem_cons_of_mem _ hrest

/-- A bare character is marked so. If no mark of a text is of this kind, the character is bare
nowhere in it. -/
theorem mem_marked_of_hasBare {d : Char} {t : Text} (h : HasBare d t) :
    (d, false) ∈ marked false t := by
  obtain ⟨front, back, rfl, hfront⟩ := h
  have hmem := mem_marked [] front back d
  rwa [List.nil_append, hfront] at hmem

/-- An escaped character is marked so. -/
theorem mem_marked_of_hasEscaped {d : Char} {t : Text} (h : HasEscaped d t) :
    (d, true) ∈ marked false t := by
  obtain ⟨front, back, rfl, hfront⟩ := h
  have hmem := mem_marked [] front back d
  rwa [List.nil_append, hfront] at hmem

/-- Every character has a mark. -/
theorem exists_mem_marked {d : Char} {t : Text} (h : d ∈ t) (escaped : Bool) :
    ∃ mark, (d, mark) ∈ marked escaped t := by
  induction t generalizing escaped with
  | nil => cases h
  | cons e t ih =>
    rcases List.mem_cons.mp h with rfl | h
    · exact ⟨escaped, List.mem_cons_self⟩
    · obtain ⟨mark, hmark⟩ := ih h (e = '\\' && !escaped)
      exact ⟨mark, List.mem_cons_of_mem _ hmark⟩

/-- Without backslashes nothing is escaped, neither in the text nor after it. -/
theorem marked_append_of_forall_ne {t : Text} (h : ∀ d ∈ t, d ≠ '\\') (rest : Text) :
    marked false (t ++ rest) = t.map (·, false) ++ marked false rest := by
  induction t with
  | nil => rfl
  | cons d t ih =>
    have hd : d ≠ '\\' := h d List.mem_cons_self
    have ht := ih fun e he => h e (List.mem_cons_of_mem d he)
    rw [List.cons_append, marked, decide_eq_false hd, Bool.false_and, ht, List.map_cons,
      List.cons_append]

/-- A hexadecimal digit is not a backslash. -/
theorem ne_backslash_of_mem_hexDigits {d : Char} {width n : Nat} (h : d ∈ hexDigits width n) :
    d ≠ '\\' := by
  rintro rfl
  exact absurd (isAlphanumeric_of_mem_hexDigits h) (by decide)

/-- The marks of the pieces, one after the other: no piece ends with an open escape. A letter escape
starts with a backslash and ends with the letter, even where the letter is a backslash. -/
theorem marked_append_piece (h : Piece language c piece) (rest : Text) :
    marked false (piece ++ rest) = marked false piece ++ marked false rest := by
  cases h with
  | plain hplain =>
    have hc : ∀ d ∈ [c], d ≠ '\\' := by
      intro d hd
      rw [List.mem_singleton.mp hd]
      exact (ne_of_isPlain hplain).1
    rw [marked_append_of_forall_ne hc]
    rfl
  | letter hletter => simp [marked]
  -- The digits of an escape are not backslashes, so no second escape begins among them.
  | code hlanguage hcode =>
    have hdigits : ∀ d ∈ hexDigits 4 c.toNat, d ≠ '\\' :=
      fun d hd => ne_backslash_of_mem_hexDigits hd
    show _ :: _ :: marked false (_ ++ rest) = (_ :: _ :: marked false _) ++ _
    have hnil := marked_append_of_forall_ne hdigits []
    rw [List.append_nil] at hnil
    rw [marked_append_of_forall_ne hdigits, hnil]
    simp [marked]

/-- What a mark may be inside of a literal: no line end, no bare quotation mark, and nothing that
starts an interpolation. This is the statement about insides, told character by character. -/
def Language.allows (language : Language) (d : Char) (escaped : Bool) : Bool :=
  d != '\n' && d != '\r' && (d != '"' || escaped) &&
    match language with
    | .swift => d != '(' || !escaped
    | .kotlin => d != '$' || escaped
    | .javaScript => 0x20 ≤ d.toNat

/-- The digits of a code are allowed. -/
theorem allows_of_isAlphanumeric {d : Char} (h : isAlphanumeric d = true) :
    Language.allows .javaScript d false = true := by
  have hne : ∀ e : Char, isAlphanumeric e = false → d ≠ e := by
    rintro e he rfl
    rw [he] at h
    cases h
  have hprinted : 0x20 ≤ d.toNat := by
    simp only [isAlphanumeric, isDigit, isLetter, Bool.or_eq_true, Bool.and_eq_true,
      decide_eq_true_eq] at h
    omega
  simp [Language.allows, hprinted, hne '\n' (by decide), hne '\r' (by decide),
    hne '"' (by decide)]

/-- The letters of all escapes, in whatever language. -/
theorem mem_of_letter?_eq_some {letter : Char} (h : language.letter? letter = some c) :
    letter ∈ "\\\"nrt$bf".toList := by
  refine Decidable.byContradiction fun hmem => ?_
  have hletters : ∀ d ∈ "\\\"nrt$bf".toList, letter ≠ d := by
    rintro d hd rfl
    exact hmem hd
  have hnone : language.letter? letter = none := by
    simp [Language.letter?, hletters '\\' (by decide), hletters '"' (by decide),
      hletters 'n' (by decide), hletters 'r' (by decide), hletters 't' (by decide),
      hletters '$' (by decide), hletters 'b' (by decide), hletters 'f' (by decide)]
  rw [hnone] at h
  cases h

/-- The marks of a piece are allowed. -/
theorem allows_piece (h : Piece language c piece) :
    ∀ mark ∈ marked false piece, language.allows mark.1 mark.2 = true := by
  have hbackslash : language.allows '\\' false = true := by cases language <;> rfl
  -- Each form has its own marks: one bare, a backslash and a letter, or a backslash, `u` and
  -- digits.
  cases h with
  | plain hplain =>
    rw [marked, marked, List.forall_mem_singleton]
    obtain ⟨-, hquote, hfeed, hreturn⟩ := ne_of_isPlain hplain
    simp only [Language.isPlain, Bool.and_eq_true] at hplain
    simp only [Language.allows, Bool.and_eq_true, Bool.or_false, bne_iff_ne]
    refine ⟨⟨⟨hfeed, hreturn⟩, hquote⟩, ?_⟩
    cases language with
    | swift => simp
    | kotlin => exact hplain.2
    | javaScript => exact hplain.2
  | letter hletter =>
    have hall : ("\\\"nrt$bf".toList.all fun d => language.allows d true) = true := by
      cases language <;> decide
    rw [marked, marked, marked, List.forall_mem_cons, List.forall_mem_singleton]
    exact ⟨hbackslash, List.all_eq_true.mp hall _ (mem_of_letter?_eq_some hletter)⟩
  | code hlanguage hcode =>
    subst hlanguage
    have hdigits := marked_append_of_forall_ne (t := hexDigits 4 c.toNat)
      (fun d hd => ne_backslash_of_mem_hexDigits hd) []
    rw [List.append_nil, marked, List.append_nil] at hdigits
    intro mark hmark
    rw [Quoted.fourDigits, marked, marked] at hmark
    rcases List.mem_cons.mp hmark with rfl | hmark
    · exact hbackslash
    rcases List.mem_cons.mp hmark with rfl | hmark
    · rfl
    · have hmark : mark ∈ marked false (hexDigits 4 c.toNat) := hmark
      rw [hdigits] at hmark
      obtain ⟨d, hd, rfl⟩ := List.mem_map.mp hmark
      exact allows_of_isAlphanumeric (isAlphanumeric_of_mem_hexDigits hd)

/-- The marks of what is written for a text are allowed, piece after piece. -/
theorem allows_inside (language : Language) (t : Text) :
    ∀ mark ∈ marked false (t.flatMap language.char), language.allows mark.1 mark.2 = true := by
  induction t with
  | nil => exact fun mark hmark => absurd hmark List.not_mem_nil
  | cons c t ih =>
    rw [List.flatMap_cons, marked_append_piece (piece_char language c)]
    intro mark hmark
    rcases List.mem_append.mp hmark with hmark | hmark
    · exact allows_piece (piece_char language c) mark hmark
    · exact ih mark hmark

end

/-! ### Replacing in the whole text -/

/-- The text with `new` in place of each `old` character. -/
def substitute (old : Char) (new t : Text) : Text := t.flatMap fun c => if c = old then new else [c]

/-- Replacements in the whole text, one after the other. -/
def substituteAll (table : List (Char × Text)) (t : Text) : Text :=
  table.foldl (fun t (old, new) => substitute old new t) t

/-- The replacements for Swift, in order. The backslash is the first. -/
def swiftTable : List (Char × Text) :=
  [('\\', ['\\', '\\']), ('"', ['\\', '"']), ('\n', ['\\', 'n']), ('\r', ['\\', 'r']),
   ('\t', ['\\', 't'])]

/-- The replacements for Kotlin, in order: those for Swift, with the dollar sign behind the
quotation mark. -/
def kotlinTable : List (Char × Text) :=
  [('\\', ['\\', '\\']), ('"', ['\\', '"']), ('$', ['\\', '$']), ('\n', ['\\', 'n']),
   ('\r', ['\\', 'r']), ('\t', ['\\', 't'])]

/-- A text whose characters all stay stays. -/
theorem flatMap_eq_self {write : Char → Text} {t : Text} (h : ∀ c ∈ t, write c = [c]) :
    t.flatMap write = t := by
  induction t with
  | nil => rfl
  | cons c t ih =>
    rw [List.flatMap_cons, h c List.mem_cons_self, ih fun d hd => h d (List.mem_cons_of_mem c hd),
      List.singleton_append]

/-- If no replacement brings in a character that a later one replaces, the characters can be
replaced one by one. The induction is over the table: the first replacement is made, and the later
ones leave what it brought in. -/
theorem substituteAll_eq_flatMap {table : List (Char × Text)}
    (h : table.Pairwise fun earlier later => later.1 ∉ earlier.2) (t : Text) :
    substituteAll table t = t.flatMap fun c => (table.lookup c).getD [c] := by
  induction table generalizing t with
  | nil => exact (flatMap_eq_self fun c _ => rfl).symm
  | cons first table ih =>
    obtain ⟨old, new⟩ := first
    obtain ⟨hfirst, htable⟩ := List.pairwise_cons.mp h
    -- The later replacements leave what the first one brings in.
    have hlater : ∀ c ∈ new, (table.lookup c).getD [c] = [c] := by
      intro c hc
      have hnone : table.lookup c = none := by
        rw [List.lookup_eq_none_iff]
        rintro later hmem
        rw [bne_iff_ne]
        rintro rfl
        exact hfirst later hmem hc
      rw [hnone, Option.getD_none]
    show substituteAll table (substitute old new t) = _
    rw [ih htable, substitute, List.flatMap_assoc]
    congr 1
    funext c
    rw [List.lookup_cons]
    by_cases hc : c = old
    · rw [if_pos hc, flatMap_eq_self hlater, hc, beq_self_eq_true]
      rfl
    · rw [if_neg hc, List.flatMap_singleton, beq_false_of_ne hc]

/-- Swift writes for a character what its table says, and the character itself if the table has
nothing. -/
theorem swiftChar_eq_lookup (c : Char) : swiftChar c = (swiftTable.lookup c).getD [c] := by
  -- Branch and entry of the table come in the same order.
  unfold swiftChar
  split
  · next hc => rw [hc]; rfl
  split
  · next hc => rw [hc]; rfl
  split
  · next hc => rw [hc]; rfl
  split
  · next hc => rw [hc]; rfl
  split
  · next hc => rw [hc]; rfl
  · simp [swiftTable, List.lookup_cons, beq_false_of_ne, *]

/-- Kotlin does so as well. Its table has one entry more than that of Swift. -/
theorem kotlinChar_eq_lookup (c : Char) : kotlinChar c = (kotlinTable.lookup c).getD [c] := by
  rw [kotlinChar]
  split
  · next hc => rw [hc]; rfl
  · next hc =>
    rw [swiftChar_eq_lookup]
    simp only [swiftTable, kotlinTable, List.lookup_cons, beq_false_of_ne hc]

/-- A text with every replacement of its language made in the whole text, one after the other; a
JavaScript literal is written one character after the other to begin with. -/
def Language.substituted : Language → Text → Text
  | swift, t => substituteAll swiftTable t
  | kotlin, t => substituteAll kotlinTable t
  | javaScript, t => t.flatMap Quoted.unicodeChar

/-- The inside of a literal can be had by replacing in the whole text. In both tables the backslash
comes first, so no replacement meets a backslash that an earlier one has brought in. -/
theorem flatMap_char_eq_substituted (language : Language) (t : Text) :
    t.flatMap language.char = language.substituted t := by
  cases language with
  | swift =>
    rw [Language.substituted, substituteAll_eq_flatMap (by decide), ← funext swiftChar_eq_lookup]
    rfl
  | kotlin =>
    rw [Language.substituted, substituteAll_eq_flatMap (by decide), ← funext kotlinChar_eq_lookup]
    rfl
  | javaScript => rfl

/-! ### Literals -/

section

variable (language : Language)

/-- What is written for a text is the inside of a literal that stands for it. Each part but the last
is read off the marks: what the part forbids would have a mark that is not allowed. -/
theorem inside_flatMap (t : Text) : Inside language (t.flatMap language.char) t := by
  have hallowed : ∀ {d : Char} {escaped : Bool},
      (d, escaped) ∈ marked false (t.flatMap language.char) → language.allows d escaped = true :=
    fun hmark => allows_inside language t _ hmark
  -- What would break the literal is not allowed in it, bare or escaped.
  refine ⟨fun h => ?_, ⟨fun h => ?_, fun h => ?_⟩, fun h => ?_, ?_, decode_inside language t⟩
  · have hquote := hallowed (mem_marked_of_hasBare h)
    cases language <;> exact absurd hquote (by decide)
  · obtain ⟨mark, hmark⟩ := exists_mem_marked h false
    have hfeed := hallowed hmark
    simp [Language.allows] at hfeed
  · obtain ⟨mark, hmark⟩ := exists_mem_marked h false
    have hreturn := hallowed hmark
    simp [Language.allows] at hreturn
  · cases language with
    | swift => exact absurd (hallowed (mem_marked_of_hasEscaped h)) (by decide)
    | kotlin => exact absurd (hallowed (mem_marked_of_hasBare h)) (by decide)
    | javaScript => exact h
  · rintro rfl c hc
    obtain ⟨mark, hmark⟩ := exists_mem_marked hc false
    have hprinted := hallowed hmark
    simp only [Language.allows, Bool.and_eq_true, decide_eq_true_eq] at hprinted
    exact hprinted.2

/-- A literal is a text between quotation marks that no bare one, line end or interpolation breaks
up, and that the language reads as the text it was made from. So two texts never have the same
literal. It makes no difference whether a literal is written one character after the other or by
replacing one character after the other in the whole text. -/
theorem quote_faithful :
    (∀ t, ∃ inside, language.quote t = '"' :: inside ++ ['"'] ∧ Inside language inside t)
      ∧ Function.Injective language.quote
      ∧ ∀ t, language.quote t = '"' :: language.substituted t ++ ['"'] := by
  refine ⟨fun t => ⟨_, quote_eq language t, inside_flatMap language t⟩, ?_, fun t => ?_⟩
  · -- The decoder is a left inverse of what is written between the quotation marks.
    intro t u h
    rw [quote_eq, quote_eq] at h
    have hinside : t.flatMap language.char = u.flatMap language.char :=
      List.append_cancel_right (List.cons.inj h).2
    have hdecoded := congrArg language.decode hinside
    rw [decode_inside, decode_inside] at hdecoded
    exact Option.some.inj hdecoded
  · rw [quote_eq, flatMap_char_eq_substituted]

end

example : Language.quote .kotlin "a \"$b\"\n".toList = "\"a \\\"\\$b\\\"\\n\"".toList := by decide

end DesignCompiler.Literal
