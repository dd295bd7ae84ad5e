import DesignCompiler.Proofs.Number.Error
import DesignCompiler.Proofs.Outcome
import DesignCompiler.Proofs.Text.Digit
import DesignCompiler.Proofs.Text.Trim

/-!
# `DesignCompiler.Proofs.Color.Hexadecimal`: which texts are colours, and their written form

A text is read as a colour exactly if six or eight ASCII hexadecimal digits are left of it without
the blanks around it and the `#` in front (`decode_eq`). Digits of other scripts are none.

Each colour has one written form: a `#` and eight lower-case digits, the last two `ff` if the text
had six. A byte comes back from the double nearest to its 255th part (`channelByte_byteChannel`), so
what was read is written with the same digits in lower case (`encode_ofDigits`), and reading the
written form gives the same colour again (`decode_canonical`).
-/

set_option autoImplicit false

namespace DesignCompiler.Color

open Outcome Text

/-- The hexadecimal digits of either case. -/
def eitherCase : Text := "0123456789abcdefABCDEF".toList

/-- The hexadecimal digits that a colour is written with. -/
def lowerCase : Text := "0123456789abcdef".toList

/-- What is left of a text without the blanks around it and the `#` in front. Blanks behind the `#`
are not taken away, so such a text is no colour. -/
def body (t : Text) : Text := (trim t).dropWhile (· = '#')

/-- Six or eight hexadecimal digits. It says nothing about how they are read. -/
def IsHexBody (t : Text) : Prop := (t.length = 6 ∨ t.length = 8) ∧ ∀ c ∈ t, c ∈ eitherCase

/-- The digits are looked up in the list one by one. -/
instance (t : Text) : Decidable (IsHexBody t) :=
  @instDecidableAnd _ _ _ (List.decidableBAll (fun c => c ∈ eitherCase) t)

/-- A `#` and eight lower-case digits: the form of every colour in a layout tree that was extracted.
-/
def IsWritten (t : Text) : Prop :=
  t.head? = some '#' ∧ t.tail.length = 8 ∧ ∀ c ∈ t.tail, c ∈ lowerCase

/-- The mark, the number of digits and the digits are looked at in turn. -/
instance (t : Text) : Decidable (IsWritten t) :=
  @instDecidableAnd _ _ _ <|
    @instDecidableAnd _ _ _ (List.decidableBAll (fun c => c ∈ lowerCase) t.tail)

/-- The digits of a colour with its alpha, full if they do not give it. Six digits become eight, so
everything after it deals with eight only. -/
def withAlpha (digits : Text) : Text :=
  if digits.length = 6 then digits ++ ['f', 'f'] else digits

/-- The written form of the colour that a text writes. -/
def canonical (t : Text) : Text := '#' :: (withAlpha (body t)).map lowerAscii

/-! ### Digits -/

/-- The digits of either case are the characters that have a value. The list of `eitherCase` is what
a reader can check, and the value is what the definition asks for. -/
theorem mem_eitherCase {c : Char} : c ∈ eitherCase ↔ isHexDigit c = true := by
  have hdigits : eitherCase.all isHexDigit = true := by decide
  -- A character with a value is below `g`, so there are finitely many to look at.
  have hvalues : ∀ n < 0x67, isHexDigit (Char.ofNat n) = true → Char.ofNat n ∈ eitherCase := by
    decide
  constructor
  · exact List.all_eq_true.mp hdigits c
  · intro h
    have hbelow : c.toNat < 0x67 := by
      by_contra hlarge
      have hnone : hexValue? c = none := by
        simp only [hexValue?]
        rw [if_neg (by omega), if_neg (by omega), if_neg (by omega)]
      rw [isHexDigit, hnone] at h
      cases h
    have hmem := hvalues c.toNat hbelow
    rw [Char.ofNat_toNat] at hmem
    exact hmem h

/-- A digit is written as its lower case. There are 22 digits, and they are tried. -/
theorem hexChar_of_mem {c : Char} (h : c ∈ eitherCase) :
    hexChar ((hexValue? c).getD 0) = lowerAscii c ∧ (hexValue? c).getD 0 < 16 := by
  have hall : eitherCase.all (fun d =>
      hexChar ((hexValue? d).getD 0) = lowerAscii d ∧ (hexValue? d).getD 0 < 16) = true := by decide
  exact of_decide_eq_true (List.all_eq_true.mp hall c h)

/-- The lower case of a digit has its value and stays as it is in lower case. -/
theorem lowerAscii_of_mem {c : Char} (h : c ∈ eitherCase) :
    lowerAscii c ∈ lowerCase ∧ hexValue? (lowerAscii c) = hexValue? c := by
  have hall : eitherCase.all (fun d =>
      lowerAscii d ∈ lowerCase ∧ hexValue? (lowerAscii d) = hexValue? d) = true := by decide
  exact of_decide_eq_true (List.all_eq_true.mp hall c h)

/-- A lower-case digit is a digit, it stays in lower case, and is neither blank nor a `#`, so
nothing of a written colour is taken away when it is read. -/
theorem of_mem_lowerCase {c : Char} (h : c ∈ lowerCase) :
    c ∈ eitherCase ∧ lowerAscii c = c ∧ isBlank c = false ∧ c ≠ '#' := by
  have hall : lowerCase.all (fun d =>
      d ∈ eitherCase ∧ lowerAscii d = d ∧ isBlank d = false ∧ d ≠ '#') = true := by decide
  exact of_decide_eq_true (List.all_eq_true.mp hall c h)

/-- What is in lower case stays as it is. -/
theorem map_lowerAscii_eq_self {t : Text} (h : ∀ c ∈ t, c ∈ lowerCase) : t.map lowerAscii = t :=
  (List.map_congr_left fun c hc => (of_mem_lowerCase (h c hc)).2.1).trans (List.map_id t)

/-- Digits write the same bytes in lower case. The induction is on the pairs of digits, as `bytes`
reads them. -/
theorem bytes_map_lowerAscii (t : Text) (h : ∀ c ∈ t, c ∈ eitherCase) :
    bytes (t.map lowerAscii) = bytes t := by
  induction t using bytes.induct with
  | case1 high low rest ih =>
    show _ :: bytes (rest.map lowerAscii) = _
    rw [ih fun c hc => h c (by simp [hc]), bytes, (lowerAscii_of_mem (h high (by simp))).2,
      (lowerAscii_of_mem (h low (by simp))).2]
  | case2 t hshort =>
    -- A list that is no pair and more is none after mapping either.
    cases t with
    | nil => rfl
    | cons c rest =>
      cases rest with
      | nil => rfl
      | cons d rest => exact absurd rfl (hshort c d rest)

/-! ### Channels -/

/-- A byte comes back from the double nearest to its 255th part. The error of the quotient times 255
is far below one half, so rounding ends at the byte again. -/
theorem channelByte_byteChannel {byte : Nat} (h : byte < 256) :
    channelByte (byteChannel byte) = .ok byte := by
  have hfloor : (((byteChannel byte).scale 255).add .half).floor = .ok byte :=
    Binary64.floor_add_half (Nat.le_trans (Nat.le_of_lt h) (by decide)) (by decide) (by decide)
  have hclipped : (max 0 (min 255 (byte : Int))).toNat = byte := by omega
  rw [channelByte, hfloor]
  exact congrArg Except.ok hclipped

/-- The byte of two digits is written as the two in lower case. -/
theorem channelHex_pair {high low : Char} (hhigh : high ∈ eitherCase) (hlow : low ∈ eitherCase) :
    channelHex (byteChannel ((hexValue? high).getD 0 * 16 + (hexValue? low).getD 0))
      = .ok [lowerAscii high, lowerAscii low] := by
  obtain ⟨hhighChar, hhighValue⟩ := hexChar_of_mem hhigh
  obtain ⟨hlowChar, hlowValue⟩ := hexChar_of_mem hlow
  generalize (hexValue? high).getD 0 = i at *
  generalize (hexValue? low).getD 0 = j at *
  have hfirst : (i * 16 + j) / 16 % 16 = i := by omega
  have hsecond : (i * 16 + j) % 16 = j := by omega
  rw [channelHex, channelByte_byteChannel (by omega), map_ok]
  show Except.ok [hexChar ((i * 16 + j) / 16 % 16), hexChar ((i * 16 + j) % 16)] = _
  rw [hfirst, hsecond, hhighChar, hlowChar]

/-! ### Reading and writing -/

/-- The colour of four bytes. -/
def ofBytes : List Nat → Option Color
  | [red, green, blue, alpha] =>
    some ⟨byteChannel red, byteChannel green, byteChannel blue, byteChannel alpha⟩
  | _ => none

/-- The colour of eight digits is written with them in lower case. Eight digits are four pairs, and
each pair comes back by `channelHex_pair`. -/
theorem encode_ofDigits {digits : Text} (hlength : digits.length = 8)
    (h : ∀ c ∈ digits, c ∈ eitherCase) :
    ∃ c, ofBytes (bytes digits) = some c ∧ c.encode = .ok ('#' :: digits.map lowerAscii) := by
  match digits, hlength with
  | [r₁, r₂, g₁, g₂, b₁, b₂, a₁, a₂], _ =>
    refine ⟨_, rfl, ?_⟩
    simp only [List.mem_cons, List.not_mem_nil, or_false, forall_eq_or_imp, forall_eq] at h
    obtain ⟨hr₁, hr₂, hg₁, hg₂, hb₁, hb₂, ha₁, ha₂⟩ := h
    rw [encode, channelHex_pair hr₁ hr₂, channelHex_pair hg₁ hg₂, channelHex_pair hb₁ hb₂,
      channelHex_pair ha₁ ha₂]
    rfl

/-- The digits of a colour are those of the body of the text, and there are some exactly if the body
is six or eight digits. -/
theorem digits?_eq (t : Text) :
    digits? t = if IsHexBody (body t) then some (withAlpha (body t)) else none := by
  show (if (withAlpha (body t)).length = 8 ∧ (withAlpha (body t)).all isHexDigit = true
    then some (withAlpha (body t)) else none) = _
  congr 1
  have hall : ∀ s : Text, s.all isHexDigit = true ↔ ∀ c ∈ s, c ∈ eitherCase := fun s => by
    simp only [List.all_eq_true, mem_eitherCase]
  -- The opacity that is added to six digits is made of digits itself.
  have hfull : ∀ s : Text, (∀ c ∈ s ++ ['f', 'f'], c ∈ eitherCase) ↔ ∀ c ∈ s, c ∈ eitherCase := by
    have hf : 'f' ∈ eitherCase := by decide
    simp [or_imp, forall_and, hf]
  rw [hall, IsHexBody, withAlpha]
  split
  · next hsix =>
    rw [hfull]
    simp [hsix]
  · next hsix => simp [hsix]

/-- With their alpha, the digits of a body are eight. -/
theorem withAlpha_of_isHexBody {t : Text} (h : IsHexBody t) :
    (withAlpha t).length = 8 ∧ ∀ c ∈ withAlpha t, c ∈ eitherCase := by
  obtain ⟨hlength, hdigits⟩ := h
  rw [withAlpha]
  split
  · next hsix =>
    refine ⟨by simp [hsix], ?_⟩
    intro c hc
    rcases List.mem_append.mp hc with hc | hc
    · exact hdigits c hc
    · have hfull : c = 'f' := by simpa using hc
      rw [hfull]
      decide
  · next hsix => exact ⟨by omega, hdigits⟩

/-- A text is read by the bytes of its digits, or not at all. The second case of the match is never
taken for a body, as `withAlpha_of_isHexBody` shows. -/
theorem decode_eq (t : Text) :
    decode t = if IsHexBody (body t) then
        match ofBytes (bytes (withAlpha (body t))) with
        | some c => .ok c
        | none => .error (.badHexColor t)
      else .error (.badHexColor t) := by
  rw [decode, digits?_eq]
  by_cases h : IsHexBody (body t)
  · rw [if_pos h, if_pos h, Option.map_some]
    generalize bytes (withAlpha (body t)) = written
    match written with
    | [_, _, _, _] | [] | [_] | [_, _] | [_, _, _] | _ :: _ :: _ :: _ :: _ :: _ => rfl
  · rw [if_neg h, if_neg h, Option.map_none]

/-- Six or eight digits are the colour that is written with them in lower case. A body is therefore
read in any case. -/
theorem exists_decode {t : Text} (h : IsHexBody (body t)) :
    ∃ c, decode t = .ok c ∧ c.encode = .ok (canonical t) := by
  obtain ⟨hlength, hdigits⟩ := withAlpha_of_isHexBody h
  obtain ⟨c, hc, hencode⟩ := encode_ofDigits hlength hdigits
  exact ⟨c, by rw [decode_eq, if_pos h, hc], hencode⟩

/-! ### The written form -/

/-- A channel is written with two lower-case digits, whatever its byte. -/
theorem of_channelHex {x : Binary64} {t : Text} (h : channelHex x = .ok t) :
    t.length = 2 ∧ ∀ c ∈ t, c ∈ lowerCase := by
  obtain ⟨byte, -, rfl⟩ := map_eq_ok.mp h
  refine ⟨length_hexDigits 2 byte, fun c hc => ?_⟩
  obtain ⟨m, hm, rfl⟩ := exists_of_mem_hexDigits hc
  have hall : ∀ n < 16, hexChar n ∈ lowerCase := by decide
  exact hall m hm

/-- Four channels that are written make a written colour. It is stated for the four texts alone, so
it serves bytes and unchecked values alike. -/
theorem isWritten_append {red green blue alpha : Text}
    (h : ∀ t ∈ [red, green, blue, alpha], t.length = 2 ∧ ∀ c ∈ t, c ∈ lowerCase) :
    IsWritten ('#' :: red ++ green ++ blue ++ alpha) := by
  simp only [List.mem_cons, List.not_mem_nil, or_false, forall_eq_or_imp, forall_eq] at h
  obtain ⟨⟨hred, hreds⟩, ⟨hgreen, hgreens⟩, ⟨hblue, hblues⟩, halpha, halphas⟩ := h
  refine ⟨rfl, ?_, ?_⟩
  · show (red ++ green ++ blue ++ alpha).length = 8
    simp only [List.length_append]
    omega
  · show ∀ c ∈ red ++ green ++ blue ++ alpha, c ∈ lowerCase
    intro c hc
    simp only [List.mem_append] at hc
    -- A digit belongs to one of the four channels.
    rcases hc with ((hc | hc) | hc) | hc
    · exact hreds c hc
    · exact hgreens c hc
    · exact hblues c hc
    · exact halphas c hc

/-- An unchecked colour is written as one, if it is. Nothing is asked of the channels here: those
that cannot be written fail. -/
theorem isWritten_of_encodeFields {fields : Json.Fields} {t : Text}
    (h : encodeFields fields = .ok t) : IsWritten t := by
  -- Every channel is written by the same function, the opacity too.
  have hvalue : ∀ {value : Json} {digits : Text}, valueHex value = .ok digits →
      digits.length = 2 ∧ ∀ c ∈ digits, c ∈ lowerCase := by
    intro value digits hdigits
    rw [valueHex, Outcome.bind_eq] at hdigits
    obtain ⟨x, -, hx⟩ := bind_eq_ok.mp hdigits
    exact of_channelHex hx
  simp only [encodeFields, bind_eq_ok, pure_eq, Except.ok.injEq] at h
  obtain ⟨red, hred, green, hgreen, blue, hblue, alpha, halpha, rfl⟩ := h
  refine isWritten_append fun digits hdigits => ?_
  simp only [List.mem_cons, List.not_mem_nil, or_false] at hdigits
  rcases hdigits with rfl | rfl | rfl | rfl
  · exact hvalue hred
  · exact hvalue hgreen
  · exact hvalue hblue
  · exact hvalue halpha

/-- The canonical form of a colour is a written one. -/
theorem isWritten_canonical {t : Text} (h : IsHexBody (body t)) : IsWritten (canonical t) := by
  obtain ⟨hlength, hdigits⟩ := withAlpha_of_isHexBody h
  refine ⟨rfl, by simpa [canonical] using hlength, ?_⟩
  show ∀ c ∈ (withAlpha (body t)).map lowerAscii, c ∈ lowerCase
  intro c hc
  obtain ⟨d, hd, rfl⟩ := List.mem_map.mp hc
  exact (lowerAscii_of_mem (hdigits d hd)).1

/-- What follows the `#` of a written colour is its body, six or eight digits. -/
theorem body_of_isWritten {t : Text} (h : IsWritten t) :
    body t = t.tail ∧ IsHexBody t.tail := by
  obtain ⟨hhead, hlength, hdigits⟩ := h
  refine ⟨?_, .inr hlength, fun c hc => (of_mem_lowerCase (hdigits c hc)).1⟩
  obtain ⟨digits, rfl⟩ : ∃ digits, t = '#' :: digits := ⟨t.tail, List.eq_cons_of_mem_head? hhead⟩
  have hdigits : ∀ c ∈ digits, c ∈ lowerCase := hdigits
  have htrim : trim ('#' :: digits) = '#' :: digits := by
    refine trimBy_eq_self fun c hc => ?_
    rcases List.mem_cons.mp hc with rfl | hc
    · decide
    · exact (of_mem_lowerCase (hdigits c hc)).2.2.1
  rw [body, htrim, List.dropWhile_cons_of_pos (by simp)]
  show digits.dropWhile _ = digits
  -- No digit is a `#`, so nothing more is taken away.
  cases digits with
  | nil => rfl
  | cons c rest =>
    exact List.dropWhile_cons_of_neg (by simp [(of_mem_lowerCase (hdigits c (by simp))).2.2.2])

/-- The written form of a written colour is itself, so writing twice changes nothing. -/
theorem canonical_of_isWritten {t : Text} (h : IsWritten t) : canonical t = t := by
  obtain ⟨hbody, -⟩ := body_of_isWritten h
  obtain ⟨hhead, hlength, hdigits⟩ := h
  rw [canonical, hbody, withAlpha, if_neg (by omega), map_lowerAscii_eq_self hdigits]
  exact (List.eq_cons_of_mem_head? hhead).symm

/-- Reading the written form gives the colour that the text gives. -/
theorem decode_canonical {t : Text} (h : IsHexBody (body t)) :
    decode (canonical t) = decode t := by
  have hwritten := isWritten_canonical h
  obtain ⟨hbody, hhex⟩ := body_of_isWritten hwritten
  obtain ⟨hlength, hdigits⟩ := withAlpha_of_isHexBody h
  have hbytes : bytes (withAlpha (body (canonical t))) = bytes (withAlpha (body t)) := by
    rw [hbody, withAlpha, if_neg (by have := hwritten.2.1; omega)]
    exact bytes_map_lowerAscii _ hdigits
  obtain ⟨c, hc, -⟩ := encode_ofDigits hlength hdigits
  rw [decode_eq (canonical t), decode_eq t, hbytes, hbody, if_pos hhex, if_pos h, hc]

/-- A text is read as a colour exactly if its body is six or eight hexadecimal digits, and is no fit
value otherwise. The colour is written with these digits in lower case, full alpha added to six, and
reading that gives the same colour, written the same way. -/
theorem decode_iff_isHexBody (t : Text) :
    ((∃ c, decode t = .ok c) ↔ IsHexBody (body t))
    ∧ (¬ IsHexBody (body t) →
        decode t = .error (.badHexColor t) ∧ (Fault.badHexColor t).family = .value)
    ∧ ∀ c, decode t = .ok c →
        c.encode = .ok (canonical t) ∧ IsWritten (canonical t)
        ∧ canonical t = '#' :: ((body t).map lowerAscii
            ++ if (body t).length = 6 then "ff".toList else [])
        ∧ decode (canonical t) = .ok c ∧ canonical (canonical t) = canonical t := by
  -- A text is refused exactly where it has no body, so the three parts are read off the two cases.
  have hrefused : ¬ IsHexBody (body t) → decode t = .error (.badHexColor t) := fun h => by
    rw [decode_eq, if_neg h]
  have haccepted : ∀ c, decode t = .ok c → IsHexBody (body t) := by
    intro c hc
    by_contra h
    rw [hrefused h] at hc
    cases hc
  refine ⟨⟨fun ⟨c, hc⟩ => haccepted c hc, fun h => ?_⟩, fun h => ⟨hrefused h, rfl⟩, ?_⟩
  · obtain ⟨c, hc, -⟩ := exists_decode h
    exact ⟨c, hc⟩
  · intro c hc
    have h := haccepted c hc
    obtain ⟨found, hfound, hencode⟩ := exists_decode h
    obtain rfl : found = c := Except.ok.inj (hfound.symm.trans hc)
    refine ⟨hencode, isWritten_canonical h, ?_, (decode_canonical h).trans hc,
      canonical_of_isWritten (isWritten_canonical h)⟩
    rw [canonical, withAlpha]
    split
    · rw [List.map_append]
      rfl
    · rw [List.append_nil]

/-- Blanks, two marks, and six digits of both cases; and six digits of another script. -/
theorem decode_iff_isHexBody_mixed :
    (∃ c, decode "\t##7Fa0Bc ".toList = .ok c ∧ c.encode = .ok "#7fa0bcff".toList
      ∧ decode "#7fa0bcff".toList = .ok c)
    ∧ decode "#１２３４５６".toList = .error (.badHexColor "#１２３４５６".toList) := by
  obtain ⟨haccepted, -, hwritten⟩ := decode_iff_isHexBody "\t##7Fa0Bc ".toList
  obtain ⟨c, hc⟩ := haccepted.mpr (by decide)
  have hcanonical : canonical "\t##7Fa0Bc ".toList = "#7fa0bcff".toList := by decide
  obtain ⟨hencode, -, -, hagain, -⟩ := hwritten c hc
  rw [hcanonical] at hencode hagain
  exact ⟨⟨c, hc, hencode, hagain⟩,
    ((decode_iff_isHexBody "#１２３４５６".toList).2.1 (by decide)).1⟩

end DesignCompiler.Color
