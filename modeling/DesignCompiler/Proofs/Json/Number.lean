import DesignCompiler.Json.Reader
import DesignCompiler.Json.Writer
import DesignCompiler.Proofs.Number.Shortest

/-!
# `DesignCompiler.Proofs.Json.Number`: written numbers read back

A written number is a sign, whole digits, a fraction and an exponent, the last two not always there
(`readNumber_double`). Behind it stands nothing that could belong to it (`EndsNumber`), so the
reader takes exactly these parts. A decimal is laid out in four ways, and each of them is read as
the same decimal, with zeros moved between its digits and its exponent (`readNumber_layout`).
-/

set_option autoImplicit false

namespace DesignCompiler.Json

open Text

/-- A character that is no part of a number. A written value is followed by a comma, a bracket or a
line feed, and all of these end a number. -/
def endsNumber (c : Char) : Bool := !isDigit c && c ≠ '.' && c ≠ 'e' && c ≠ 'E'

/-- Nothing at the start of a text could belong to a number in front of it. Without this, `1` in
front of `2` would be read as `12`, so each lemma about a number that is read back asks it of the
rest. -/
def EndsNumber (t : Text) : Prop := ∀ c rest, t = c :: rest → endsNumber c = true

/-- No digit stands at the start of a text. This is the part of `EndsNumber` that a run of digits
needs; between the parts of a number only this holds, since a point or an exponent may follow. -/
def EndsDigits (t : Text) : Prop := ∀ c rest, t = c :: rest → isDigit c = false

/-- A text of digits, which may be empty. -/
def IsDigits (t : Text) : Prop := ∀ c ∈ t, isDigit c = true

/-- The end of the text ends a number. -/
theorem EndsNumber.nil : EndsNumber [] := nofun

/-- One character decides: what stands behind it is free. -/
theorem EndsNumber.cons {c : Char} {t : Text} (h : endsNumber c = true) : EndsNumber (c :: t) := by
  intro d rest heq
  cases heq
  exact h

/-- One character decides here as well. The characters that come up are the point and the letter of
an exponent. -/
theorem EndsDigits.cons {c : Char} {t : Text} (h : isDigit c = false) : EndsDigits (c :: t) := by
  intro d rest heq
  cases heq
  exact h

/-- What ends a number ends its last run of digits. -/
theorem EndsNumber.endsDigits {t : Text} (h : EndsNumber t) : EndsDigits t := by
  intro c rest heq
  have hc := h c rest heq
  simp only [endsNumber, Bool.and_eq_true, Bool.not_eq_true'] at hc
  exact hc.1.1.1

/-- A natural number is written in digits only. -/
theorem isDigits_ofNat (n : Nat) : IsDigits (ofNat n) := fun _ h => isDigit_of_mem_ofNat h

/-- Digits behind digits are digits. `layout` puts runs of zeros around the digits of a decimal. -/
theorem IsDigits.append {s t : Text} (hs : IsDigits s) (ht : IsDigits t) : IsDigits (s ++ t) := by
  intro c hc
  rcases List.mem_append.mp hc with hc | hc
  · exact hs c hc
  · exact ht c hc

/-- Zeros are digits, however many there are. -/
theorem isDigits_zeros (count : Nat) : IsDigits (List.replicate count '0') := by
  intro c hc
  rw [List.eq_of_mem_replicate hc]
  decide

/-! ### Runs of digits -/

/-- The reader takes a run of digits as a whole, as long as no digit follows it. -/
theorem takeWhile_digits {digits rest : Text} (h : IsDigits digits) (hrest : EndsDigits rest) :
    (digits ++ rest).takeWhile isDigit = digits := by
  rw [List.takeWhile_append_of_pos h]
  cases rest with
  | nil => simp
  | cons c rest => simp [hrest c rest rfl]

/-- What the reader leaves of a run of digits is what follows it. -/
theorem dropWhile_digits {digits rest : Text} (h : IsDigits digits) (hrest : EndsDigits rest) :
    (digits ++ rest).dropWhile isDigit = rest := by
  rw [List.dropWhile_append_of_pos h]
  cases rest with
  | nil => rfl
  | cons c rest => simp [hrest c rest rfl]

/-- The whole digits of a number: a zero, or digits that start with another one. JSON has no zeros
in front, and `wholeDigits` stops behind a first zero. -/
def IsWhole (t : Text) : Prop := t = ['0'] ∨ (t ≠ [] ∧ t.head? ≠ some '0' ∧ IsDigits t)

/-- A natural number is written without zeros in front. -/
theorem isWhole_ofNat (n : Nat) : IsWhole (ofNat n) := by
  rcases Nat.eq_zero_or_pos n with rfl | hpos
  · left
    rw [ofNat]
    rfl
  · exact .inr ⟨ofNat_ne_nil n, head?_ofNat_ne_zero hpos, isDigits_ofNat n⟩

/-- A number has a whole digit at least. Without one the reader expects a value. -/
theorem IsWhole.ne_nil {t : Text} (h : IsWhole t) : t ≠ [] := by
  rcases h with rfl | h
  · exact List.cons_ne_nil _ _
  · exact h.1

/-- Whole digits are digits. -/
theorem IsWhole.isDigits {t : Text} (h : IsWhole t) : IsDigits t := by
  rcases h with rfl | h
  · exact isDigits_zeros 1
  · exact h.2.2

/-- Whole digits are read up to what follows them: a zero by itself, and digits that start with
another one as a run. -/
theorem wholeDigits_append {whole rest : Text} (h : IsWhole whole) (hrest : EndsDigits rest) :
    wholeDigits (whole ++ rest) = (whole, rest) := by
  rcases h with rfl | ⟨hne, hhead, hdigits⟩
  · rfl
  · obtain ⟨first, more, rfl⟩ := List.exists_cons_of_ne_nil hne
    have hzero : first ≠ '0' := by simpa using hhead
    rw [wholeDigits, takeWhile_digits hdigits hrest, dropWhile_digits hdigits hrest]
    simpa using hzero

/-! ### Fractions and exponents -/

/-- Digits behind a point, if there are any. A point alone is not part of a number. -/
def pointed (fraction : Text) : Text := if fraction.isEmpty then [] else '.' :: fraction

/-- Where there are digits, the point stands in front of them. -/
theorem pointed_of_ne_nil {fraction : Text} (h : fraction ≠ []) :
    pointed fraction = '.' :: fraction := by
  simp [pointed, h]

/-- An exponent, if there is one, as a double writes it: a letter, a sign and two digits at least.
-/
def powered (exponent : Option Int) : Text :=
  exponent.elim [] fun n => 'e' :: Shortest.exponentText n

/-- A fraction is read up to what follows it. An empty one is read only if the rest starts with no
point (`hpoint`), or that point would begin a fraction. -/
theorem fractionDigits_append {fraction rest : Text} (h : IsDigits fraction)
    (hrest : EndsDigits rest) (hpoint : ∀ t, rest ≠ '.' :: t) :
    fractionDigits (pointed fraction ++ rest) = (fraction, rest) := by
  by_cases hempty : fraction = []
  · subst hempty
    rw [pointed, if_pos (by decide), List.nil_append]
    unfold fractionDigits
    split
    · next t => exact absurd rfl (hpoint t)
    · rfl
  · have hne : fraction.isEmpty = false := by simpa using hempty
    rw [pointed, hne, if_neg (by decide), List.cons_append, fractionDigits,
      takeWhile_digits h hrest, dropWhile_digits h hrest, hne]
    rfl

/-- An exponent is written as its sign and digits of its absolute value. A single digit has a zero
in front, which the value of the digits does not show. -/
theorem exponentText_eq (n : Int) : ∃ digits, IsDigits digits ∧ digits ≠ []
    ∧ toNat digits = n.natAbs
    ∧ Shortest.exponentText n = (if n < 0 then '-' else '+') :: digits := by
  refine ⟨_, ?_, ?_, ?_, rfl⟩
  · split
    · exact (isDigits_zeros 1).append (isDigits_ofNat n.natAbs)
    · exact isDigits_ofNat n.natAbs
  · split
    · exact List.cons_ne_nil _ _
    · exact ofNat_ne_nil n.natAbs
  · split
    · exact (toNat_zeros_append 1 _).trans (toNat_ofNat n.natAbs)
    · exact toNat_ofNat n.natAbs

/-- An exponent is read up to what follows it, and one that is not there is not read. -/
theorem exponent?_append {exponent : Option Int} {rest : Text} (hrest : EndsNumber rest) :
    exponent? (powered exponent ++ rest) = (exponent, rest) := by
  -- Without an exponent, the rest must not start with the letter of one; with one, the two signs
  -- are the two readings of `signedExponent`.
  cases exponent with
  | none =>
    cases rest with
    | nil => rfl
    | cons c rest =>
      have hc := hrest c rest rfl
      simp only [endsNumber, Bool.and_eq_true, decide_eq_true_eq] at hc
      show exponent? (c :: rest) = _
      rw [exponent?, if_neg (by simp [hc.1.2, hc.2])]
  | some n =>
    obtain ⟨digits, hdigits, hne, hvalue, htext⟩ := exponentText_eq n
    have hempty : digits.isEmpty = false := by simpa using hne
    have hrun := takeWhile_digits hdigits hrest.endsDigits
    have hleft := dropWhile_digits hdigits hrest.endsDigits
    show exponent? ('e' :: (Shortest.exponentText n ++ rest)) = _
    rw [htext, exponent?, if_pos (.inl rfl)]
    by_cases hnegative : n < 0
    · have hsign : signedExponent ('-' :: digits ++ rest) = (true, digits ++ rest) := rfl
      have hn : -(n.natAbs : Int) = n := by omega
      simp only [if_pos hnegative, hsign, hrun, hleft, hempty, hvalue, Bool.false_eq_true,
        if_false, if_true, hn]
    · have hsign : signedExponent ('+' :: digits ++ rest) = (false, digits ++ rest) := rfl
      have hn : (n.natAbs : Int) = n := by omega
      simp only [if_neg hnegative, hsign, hrun, hleft, hempty, hvalue, Bool.false_eq_true,
        if_false, hn]

/-! ### Numbers -/

/-- A minus sign, if there is one. The written form of a number is this in front of its digits. -/
def signed (negative : Bool) : Text := if negative then ['-'] else []

/-- The sign of a number is told apart from its digits. A digit is no minus sign, so there is none
where none was written. -/
theorem splitSign_signed (negative : Bool) {first : Char} (h : isDigit first = true) (rest : Text) :
    splitSign (signed negative ++ first :: rest) = (negative, first :: rest) := by
  cases negative with
  | true => rfl
  | false =>
    show splitSign (first :: rest) = _
    unfold splitSign
    split
    · next heq =>
      cases heq
      exact absurd h (by decide)
    · rfl

/-- A fraction ends the whole digits in front of it, and if there is none, what follows has to. -/
theorem endsDigits_pointed (fraction : Text) {rest : Text} (h : EndsDigits rest) :
    EndsDigits (pointed fraction ++ rest) := by
  rw [pointed]
  split
  · exact h
  · exact .cons (by decide)

/-- An exponent ends the digits in front of it, and if there is none, what follows has to. -/
theorem endsDigits_powered (exponent : Option Int) {rest : Text} (h : EndsDigits rest) :
    EndsDigits (powered exponent ++ rest) := by
  cases exponent with
  | none => exact h
  | some n => exact .cons (by decide)

/-- Behind the digits of a number without a fraction there is no point: neither an exponent nor what
ends a number starts with one. -/
theorem powered_ne_point {exponent : Option Int} {rest : Text} (h : EndsNumber rest) (t : Text) :
    powered exponent ++ rest ≠ '.' :: t := by
  cases exponent with
  | none =>
    intro heq
    exact absurd (h '.' t heq) (by decide)
  | some n =>
    intro heq
    cases heq

section

variable {whole fraction rest : Text}

/-- The digits, the fraction and the exponent of a number are told apart.

This is the one place where `readNumber` is opened. A number with none of the last two is whole and
falls under the limit on digits; any other is the double of its decimal. -/
theorem readNumber_eq (negative : Bool) (exponent : Option Int) (hwhole : IsWhole whole)
    (hfraction : IsDigits fraction) (hrest : EndsNumber rest) :
    readNumber (signed negative ++ (whole ++ (pointed fraction ++ (powered exponent ++ rest))))
      = if fraction.isEmpty && exponent.isNone then
          if digitLimit < whole.length then .error ⟨.tooManyDigits whole.length,
            signed negative ++ (whole ++ (pointed fraction ++ (powered exponent ++ rest)))⟩
          else .ok (.int (if negative then -(toNat whole : Int) else toNat whole), rest)
        else .ok (.double (Binary64.ofDecimal negative (toNat (whole ++ fraction))
          (exponent.getD 0 - fraction.length)), rest) := by
  have hpowered := endsDigits_powered exponent hrest.endsDigits
  have hdigits := wholeDigits_append hwhole (endsDigits_pointed fraction hpowered)
  have hparts := fractionDigits_append hfraction hpowered (powered_ne_point hrest)
  obtain ⟨first, more, rfl⟩ := List.exists_cons_of_ne_nil hwhole.ne_nil
  have hfirst : isDigit first = true := hwhole.isDigits first List.mem_cons_self
  have hsign := splitSign_signed negative hfirst
    (more ++ (pointed fraction ++ (powered exponent ++ rest)))
  rw [← List.cons_append] at hsign
  simp only [readNumber, hsign, hdigits, hparts, exponent?_append hrest, List.isEmpty_cons,
    Bool.false_eq_true, if_false]

/-- A number with a fraction or an exponent is a double, and no limit on its digits applies. -/
theorem readNumber_double (negative : Bool) (exponent : Option Int) (hwhole : IsWhole whole)
    (hfraction : IsDigits fraction) (hrest : EndsNumber rest)
    (hdouble : fraction ≠ [] ∨ exponent ≠ none) :
    readNumber (signed negative ++ (whole ++ (pointed fraction ++ (powered exponent ++ rest))))
      = .ok (.double (Binary64.ofDecimal negative (toNat (whole ++ fraction))
          (exponent.getD 0 - fraction.length)), rest) := by
  have hneither : (fraction.isEmpty && exponent.isNone) = false := by
    rcases hdouble with hfraction | hexponent
    · simp [hfraction]
    · obtain ⟨n, rfl⟩ := Option.ne_none_iff_exists'.mp hexponent
      simp
  rw [readNumber_eq negative exponent hwhole hfraction hrest, hneither]
  rfl

/-- Whole digits alone are a whole number. The limit is one on the value here; `length_ofNat_le`
turns it into the limit on digits that the reader has. -/
theorem readNumber_ofInt {n : Int} (hlimit : n.natAbs < 10 ^ digitLimit)
    (hrest : EndsNumber rest) : readNumber (ofInt n ++ rest) = .ok (.int n, rest) := by
  have hlength : ¬ digitLimit < (ofNat n.natAbs).length :=
    Nat.not_lt.mpr (length_ofNat_le (by decide) hlimit)
  have hread : ∀ negative : Bool, readNumber (signed negative ++ (ofNat n.natAbs ++ rest))
      = .ok (.int (if negative then -(n.natAbs : Int) else n.natAbs), rest) := by
    intro negative
    have hparts := readNumber_eq negative none (isWhole_ofNat n.natAbs) (isDigits_zeros 0) hrest
    rw [if_pos (by rfl), if_neg hlength, toNat_ofNat] at hparts
    exact hparts
  cases n with
  | ofNat n => exact hread false
  | negSucc n => exact hread true

end

/-! ### Doubles -/

open Shortest

section

variable {t rest : Text} {point : Int} {units : Nat} {negative : Bool}

/-- A number whose digits and exponent are a decimal of a positive double is that double.

The four layouts differ in where they put the point, and so in `whole`, `fraction` and `exponent`.
What each of them still has to show is `hunits`: that its decimal has the value of the double. -/
theorem readNumber_finite {whole fraction : Text} {exponent : Option Int} (hwhole : IsWhole whole)
    (hfraction : IsDigits fraction) (hdouble : fraction ≠ [] ∨ exponent ≠ none)
    (hunits : (Scaled.mk (toNat (whole ++ fraction)) (exponent.getD 0 - fraction.length)).units
      = units) (h : IsRepresentable units) (hpos : 0 < units) (hrest : EndsNumber rest) :
    readNumber (signed negative ++ (whole ++ (pointed fraction ++ powered exponent) ++ rest))
      = .ok (.double (.finite negative units h), rest) := by
  have hread := readNumber_double negative exponent hwhole hfraction hrest hdouble
  rw [Binary64.ofDecimal_eq_finite hunits h hpos] at hread
  rw [List.append_assoc, List.append_assoc]
  exact hread

/-- Digits without a zero in front are whole digits, also with more digits behind them. `layout`
adds zeros behind the digits of a large decimal. -/
theorem isWhole_append (hne : t ≠ []) (hhead : t.head? ≠ some '0') (hdigits : IsDigits t)
    {more : Text} (hmore : IsDigits more) : IsWhole (t ++ more) := by
  obtain ⟨first, rest, rfl⟩ := List.exists_cons_of_ne_nil hne
  exact .inr ⟨List.cons_ne_nil _ _, hhead, hdigits.append hmore⟩

section

variable (hdigits : IsDigits t)
  (hunits : (Scaled.mk (toNat t) (point - t.length)).units = units) (h : IsRepresentable units)
  (hpos : 0 < units) (hrest : EndsNumber rest)

include hdigits hunits hpos hrest

/-- The point behind the first digit, and an exponent: the form of the decimals that are too large
or too small for the others. -/
theorem readNumber_first {first : Char} {more : Text} (ht : t = first :: more)
    (hhead : t.head? ≠ some '0') :
    readNumber (signed negative
        ++ ([first] ++ (pointed more ++ powered (some (point - 1))) ++ rest))
      = .ok (.double (.finite negative units h), rest) := by
  subst ht
  have hwhole : IsWhole [first] := by
    refine .inr ⟨List.cons_ne_nil _ _, hhead, ?_⟩
    intro c hc
    rw [List.mem_singleton.mp hc]
    exact hdigits first List.mem_cons_self
  have hmore : IsDigits more := fun c hc => hdigits c (List.mem_cons_of_mem first hc)
  have hexponent : point - ((first :: more).length : Int)
      = (some (point - 1)).getD 0 - more.length := by
    rw [List.length_cons, Option.getD_some]
    omega
  rw [hexponent] at hunits
  exact readNumber_finite hwhole hmore (.inr (Option.some_ne_none (point - 1))) hunits h hpos hrest

/-- No whole digits but a zero, and zeros in front of the digits. The zeros change neither the value
of the digits (`toNat_zeros_append`) nor, being counted in the fraction, that of the number. -/
theorem readNumber_below (hne : t ≠ []) (hpoint : point ≤ 0) :
    readNumber (signed negative ++ ("0.".toList ++ List.replicate (-point).toNat '0' ++ t ++ rest))
      = .ok (.double (.finite negative units h), rest) := by
  have hfraction : List.replicate (-point).toNat '0' ++ t ≠ [] :=
    List.append_ne_nil_of_right_ne_nil _ hne
  have hform : "0.".toList ++ List.replicate (-point).toNat '0' ++ t
      = ['0'] ++ (pointed (List.replicate (-point).toNat '0' ++ t) ++ powered none) := by
    simp [pointed_of_ne_nil hfraction, powered]
  -- The zeros in front add nothing, and moving the point makes up for their number.
  have hvalue : toNat (['0'] ++ (List.replicate (-point).toNat '0' ++ t)) = toNat t :=
    (toNat_zeros_append 1 _).trans (toNat_zeros_append _ t)
  have hexponent : point - (t.length : Int)
      = (none : Option Int).getD 0 - ((List.replicate (-point).toNat '0' ++ t).length : Int) := by
    rw [List.length_append, List.length_replicate, Option.getD_none]
    omega
  rw [← hvalue, hexponent] at hunits
  rw [hform]
  exact readNumber_finite (.inl rfl) ((isDigits_zeros _).append hdigits) (.inl hfraction) hunits h
    hpos hrest

/-- Zeros behind the digits, and no fraction but a zero. Each zero multiplies the digits by ten and
is taken back by the exponent (`Scaled.units_shift`). -/
theorem readNumber_above (hne : t ≠ []) (hhead : t.head? ≠ some '0')
    (hpoint : t.length ≤ point.toNat) :
    readNumber (signed negative
        ++ (t ++ List.replicate (point.toNat - t.length) '0' ++ ".0".toList ++ rest))
      = .ok (.double (.finite negative units h), rest) := by
  have hform : t ++ List.replicate (point.toNat - t.length) '0' ++ ".0".toList
      = t ++ List.replicate (point.toNat - t.length) '0' ++ (pointed ['0'] ++ powered none) := rfl
  -- Each zero behind multiplies by ten, which the exponent takes back.
  have hvalue : toNat (t ++ List.replicate (point.toNat - t.length) '0' ++ ['0'])
      = toNat t * 10 ^ (point.toNat - t.length + 1) := by
    rw [List.append_assoc, ← List.replicate_succ', toNat_append_zeros]
  have hlength : 0 < t.length := List.length_pos_iff.mpr hne
  have hexponent : point - (t.length : Int) = (none : Option Int).getD 0 - (['0'].length : Int)
      + (point.toNat - t.length + 1 : Nat) := by
    rw [Option.getD_none, List.length_singleton]
    omega
  rw [hexponent, ← Scaled.units_shift, ← hvalue] at hunits
  rw [hform]
  exact readNumber_finite (isWhole_append hne hhead hdigits (isDigits_zeros _)) (isDigits_zeros 1)
    (.inl (List.cons_ne_nil _ _)) hunits h hpos hrest

/-- The point between two digits. Both parts together are the digits, and the fraction is as long as
the exponent says. -/
theorem readNumber_between (hne : t ≠ []) (hhead : t.head? ≠ some '0') (hpoint : 0 < point)
    (hlength : point.toNat < t.length) :
    readNumber (signed negative ++ (t.take point.toNat ++ '.' :: t.drop point.toNat ++ rest))
      = .ok (.double (.finite negative units h), rest) := by
  have hdrop : t.drop point.toNat ≠ [] := by
    rw [Ne, List.drop_eq_nil_iff]
    omega
  -- In front of the point there is at least one digit, and the first one is not zero.
  have htake : IsWhole (t.take point.toNat) := by
    obtain ⟨first, more, rfl⟩ := List.exists_cons_of_ne_nil hne
    obtain ⟨places, hplaces⟩ : ∃ places, point.toNat = places + 1 := ⟨point.toNat - 1, by omega⟩
    rw [hplaces]
    exact .inr ⟨List.cons_ne_nil _ _, hhead, fun c hc => hdigits c (List.mem_of_mem_take hc)⟩
  have hform : t.take point.toNat ++ '.' :: t.drop point.toNat
      = t.take point.toNat ++ (pointed (t.drop point.toNat) ++ powered none) := by
    simp [pointed_of_ne_nil hdrop, powered]
  have hexponent : point - (t.length : Int)
      = (none : Option Int).getD 0 - ((t.drop point.toNat).length : Int) := by
    rw [List.length_drop, Option.getD_none]
    omega
  rw [hexponent, ← congrArg toNat (List.take_append_drop point.toNat t)] at hunits
  rw [hform]
  exact readNumber_finite htake (fun c hc => hdigits c (List.mem_of_mem_drop hc)) (.inl hdrop)
    hunits h hpos hrest

end

/-- A decimal that is laid out is read as the decimal that it was, wherever the point stands. The
cases are those of `layout`, each with the lemma above that reads it. -/
theorem readNumber_layout (form : Notation) (hne : t ≠ []) (hhead : t.head? ≠ some '0')
    (hdigits : IsDigits t) (hunits : (Scaled.mk (toNat t) (point - t.length)).units = units)
    (h : IsRepresentable units) (hpos : 0 < units) (hrest : EndsNumber rest) :
    readNumber (signed negative ++ (layout form t point ++ rest))
      = .ok (.double (.finite negative units h), rest) := by
  -- The four forms are those of the definition, and each is read by a lemma of its own.
  unfold layout
  by_cases hfar : point < form.leastPoint ∨ form.greatestPoint < point
  · obtain ⟨first, more, rfl⟩ := List.exists_cons_of_ne_nil hne
    rw [if_pos hfar]
    exact readNumber_first hdigits hunits h hpos hrest rfl hhead
  rw [if_neg hfar]
  by_cases hbelow : point ≤ 0
  · rw [if_pos hbelow]
    exact readNumber_below hdigits hunits h hpos hrest hne hbelow
  rw [if_neg hbelow]
  by_cases habove : t.length ≤ point.toNat
  · rw [if_pos habove]
    exact readNumber_above hdigits hunits h hpos hrest hne hhead habove
  · rw [if_neg habove]
    exact readNumber_between hdigits hunits h hpos hrest hne hhead (by omega) (by omega)

/-- The zeros at the end of a text are only zeros: what `trimZeros` takes away can be put back by
counting. -/
theorem exists_trimZeros (t : Text) : ∃ count, t = trimZeros t ++ List.replicate count '0' := by
  refine ⟨(t.reverse.takeWhile (· = '0')).length, ?_⟩
  have hzeros : t.reverse.takeWhile (· = '0')
      = List.replicate (t.reverse.takeWhile (· = '0')).length '0' :=
    List.eq_replicate_iff.mpr ⟨rfl, fun c hc =>
      of_decide_eq_true (List.all_eq_true.mp List.all_takeWhile c hc)⟩
  have hsplit := congrArg List.reverse
    (List.takeWhile_append_dropWhile (p := fun c => decide (c = '0')) (l := t.reverse))
  rw [List.reverse_append, List.reverse_reverse, hzeros, List.reverse_replicate] at hsplit
  exact hsplit.symm

/-- A decimal is read back without the zeros at its end, which the place of the point counts.

What is left without the zeros is a decimal of the same value with a larger exponent, so
`readNumber_layout` applies to it. It is not empty and starts with no zero, because the value is
positive. -/
theorem readNumber_scaled (form : Notation) {d : Scaled} (hunits : d.units = units)
    (h : IsRepresentable units) (hpos : 0 < units) (hrest : EndsNumber rest) :
    readNumber (signed negative ++ (layout form (trimZeros (ofNat d.digits))
        ((ofNat d.digits).length + d.exponent) ++ rest))
      = .ok (.double (.finite negative units h), rest) := by
  -- From here on the digits are those that are left; `count` is the number of zeros taken away.
  obtain ⟨count, hall⟩ := exists_trimZeros (ofNat d.digits)
  generalize trimZeros (ofNat d.digits) = t at hall
  have hvalue : toNat t * 10 ^ count = d.digits := by
    rw [← toNat_append_zeros, ← hall, toNat_ofNat]
  have hdigits : 0 < d.digits := by
    refine Nat.pos_of_ne_zero fun hzero => ?_
    rw [← hunits, Scaled.units_of_digits_eq_zero hzero] at hpos
    exact absurd hpos (Nat.lt_irrefl 0)
  have hne : t ≠ [] := by
    rintro rfl
    rw [← hvalue] at hdigits
    rw [show Text.toNat [] = 0 from rfl, Nat.zero_mul] at hdigits
    exact absurd hdigits (Nat.lt_irrefl 0)
  have hhead : t.head? ≠ some '0' := by
    have hfirst := head?_ofNat_ne_zero hdigits
    obtain ⟨first, more, rfl⟩ := List.exists_cons_of_ne_nil hne
    rwa [hall, List.cons_append] at hfirst
  have hrun : IsDigits t := fun c hc =>
    isDigits_ofNat d.digits c (hall ▸ List.mem_append_left _ hc)
  have hexponent : ((ofNat d.digits).length : Int) + d.exponent - t.length
      = d.exponent + count := by
    rw [hall, List.length_append, List.length_replicate]
    omega
  refine readNumber_layout form hne hhead hrun ?_ h hpos hrest
  rw [hexponent, ← Scaled.units_shift, hvalue]
  exact hunits

/-- A finite double is read back from what is written of it, whatever form it is written in. Zero is
the one double with no digits of its own; for any other, the shortest digits have its value
(`units_digits`). -/
theorem readNumber_write (form : Notation) (h : IsRepresentable units) (hrest : EndsNumber rest) :
    readNumber (Shortest.write form (.finite negative units h) ++ rest)
      = .ok (.double (.finite negative units h), rest) := by
  rw [Shortest.write, List.append_assoc]
  by_cases hzero : units = 0
  · subst hzero
    exact readNumber_double negative none (.inl rfl) (isDigits_zeros 1) hrest
      (.inl (List.cons_ne_nil _ _))
  · rw [if_neg hzero]
    exact readNumber_scaled form (units_digits h) h (Nat.pos_of_ne_zero hzero) hrest

end

/-! ### Numbers among the atoms -/

/-- A word does not stand at the start of a number, each with or without a minus sign. They differ
in the first character behind the signs, or in the sign itself. -/
theorem after?_signed {negative : Bool} {first : Char} {rest : Text} (h : isDigit first = true)
    (minus : Bool) {letter : Char} (word : Text) (hletter : isDigit letter = false)
    (hminus : letter ≠ '-') :
    after? (signed minus ++ letter :: word) (signed negative ++ first :: rest) = none := by
  have hne : letter ≠ first := by
    rintro rfl
    rw [h] at hletter
    cases hletter
  have hdash : first ≠ '-' := by
    rintro rfl
    cases h
  cases minus <;> cases negative <;> simp [signed, after?, hne, hminus, hdash.symm]

/-- The words that stand for a value do not start like a number, so the reader tries all of them in
vain and goes on to the number. -/
theorem readAtom_number (negative : Bool) {first : Char} {rest : Text}
    (h : isDigit first = true) :
    readAtom (signed negative ++ first :: rest)
      = readNumber (signed negative ++ first :: rest) := by
  have hnone : constants.findSome? (fun entry =>
      (after? entry.1 (signed negative ++ first :: rest)).map (entry.2, ·)) = none := by
    rw [List.findSome?_eq_none_iff]
    intro entry hentry
    rw [Option.map_eq_none_iff]
    simp only [constants, List.mem_cons, List.not_mem_nil, or_false] at hentry
    -- No constant begins with a digit, or with a sign and a digit.
    rcases hentry with rfl | rfl | rfl | rfl | rfl | rfl
    · exact after?_signed h false "ull".toList (by decide) (by decide)
    · exact after?_signed h false "rue".toList (by decide) (by decide)
    · exact after?_signed h false "alse".toList (by decide) (by decide)
    · exact after?_signed h false "aN".toList (by decide) (by decide)
    · exact after?_signed h false "nfinity".toList (by decide) (by decide)
    · exact after?_signed h true "nfinity".toList (by decide) (by decide)
  rw [readAtom, hnone]

/-- What is read as a number starts with a digit, or with a minus sign and a digit. This is how a
text in front of which nothing is known is told from the words. -/
theorem exists_digit_of_readNumber {t : Text} {found : Json × Text} (h : readNumber t = .ok found) :
    ∃ negative first rest, isDigit first = true ∧ t = signed negative ++ first :: rest := by
  obtain ⟨negative, body, hsplit, rfl⟩ :
      ∃ negative body, splitSign t = (negative, body) ∧ t = signed negative ++ body := by
    unfold splitSign
    split
    · exact ⟨true, _, rfl, rfl⟩
    · exact ⟨false, _, rfl, rfl⟩
  have hwhole : (wholeDigits body).1 ≠ [] := by
    intro hnone
    simp only [readNumber, hsplit, hnone] at h
    cases h
  -- The whole digits are a first part of the body, so if there are any, the body starts with one.
  suffices hfirst : ∃ first rest, isDigit first = true ∧ body = first :: rest by
    obtain ⟨first, rest, hdigit, rfl⟩ := hfirst
    exact ⟨negative, first, rest, hdigit, rfl⟩
  cases body with
  | nil => exact absurd rfl hwhole
  | cons first rest =>
    refine ⟨first, rest, ?_, rfl⟩
    unfold wholeDigits at hwhole
    split at hwhole
    · next heq =>
      cases heq
      decide
    · cases hdigit : isDigit first with
      | true => rfl
      | false => exact absurd (List.takeWhile_cons_of_neg (by simp [hdigit])) hwhole

/-- What is read as a number is read as an atom. -/
theorem readAtom_of_readNumber {t : Text} {found : Json × Text} (h : readNumber t = .ok found) :
    readAtom t = .ok found := by
  obtain ⟨negative, first, rest, hdigit, rfl⟩ := exists_digit_of_readNumber h
  rw [readAtom_number negative hdigit, h]

/-- A double is read back from what is written of it, also infinity and what is not a number, which
are among the words. -/
theorem readAtom_write (x : Binary64) {rest : Text} (hrest : EndsNumber rest) :
    readAtom (Shortest.write doubleForm x ++ rest) = .ok (.double x, rest) := by
  cases x with
  | nan => rfl
  | infinite negative => cases negative <;> rfl
  | finite negative units h => exact readAtom_of_readNumber (readNumber_write doubleForm h hrest)

/-- A whole number within the limit is read back from its digits. Beyond the limit it is refused, so
the hypothesis cannot be left out. -/
theorem readAtom_ofInt {n : Int} (hlimit : n.natAbs < 10 ^ digitLimit) {rest : Text}
    (hrest : EndsNumber rest) : readAtom (ofInt n ++ rest) = .ok (.int n, rest) :=
  readAtom_of_readNumber (readNumber_ofInt hlimit hrest)

end DesignCompiler.Json
