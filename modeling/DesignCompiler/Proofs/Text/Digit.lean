import DesignCompiler.Number.Binary64
import DesignCompiler.Text.Digit

/-!
# `DesignCompiler.Proofs.Text.Digit`: how numbers are written, and read back

Decimal numbers are written with digits, hexadecimal ones with digits and letters. Both matter where
a number stands between characters that have a meaning of their own, such as quotes and brackets.

`toNat` reads the number that was written (`toNat_ofNat`). Zeros in front of the digits do not
change it, and each zero behind them multiplies it by ten; a written number has none in front
(`head?_ofNat_ne_zero`).
-/

set_option autoImplicit false

namespace DesignCompiler.Text

/-- The characters for the values below ten are digits. -/
theorem isDigit_digitChar {n : Nat} (h : n < 10) : isDigit (digitChar n) = true := by
  have hall : ∀ m < 10, isDigit (digitChar m) = true := by decide
  exact hall n h

/-- A natural number is written with digits and nothing else, so no character of it has a meaning of
its own in code. -/
theorem isDigit_of_mem_ofNat {c : Char} {n : Nat} (h : c ∈ ofNat n) : isDigit c = true := by
  induction n using Nat.strongRecOn with
  | ind n ih =>
    rw [ofNat] at h
    split at h
    · next hlt =>
      rw [List.mem_singleton.mp h]
      exact isDigit_digitChar hlt
    · rcases List.mem_append.mp h with h | h
      · exact ih (n / 10) (by omega) h
      · rw [List.mem_singleton.mp h]
        exact isDigit_digitChar (Nat.mod_lt n (by decide))

/-- The characters for the values below sixteen are letters and digits. -/
theorem isAlphanumeric_hexChar {n : Nat} (h : n < 16) : isAlphanumeric (hexChar n) = true := by
  have hall : ∀ m < 16, isAlphanumeric (hexChar m) = true := by decide
  exact hall n h

/-- A hexadecimal number is written with as many characters as it is given room for. Zeros fill the
room, and what does not fit is left out. -/
theorem length_hexDigits (width n : Nat) : (hexDigits width n).length = width := by
  induction width generalizing n with
  | zero => rfl
  | succ width ih => rw [hexDigits, List.length_append, ih, List.length_singleton]

/-- A hexadecimal number is written with the characters for the values below sixteen. -/
theorem exists_of_mem_hexDigits {c : Char} {width n : Nat} (h : c ∈ hexDigits width n) :
    ∃ m < 16, hexChar m = c := by
  induction width generalizing n with
  | zero => simp [hexDigits] at h
  | succ width ih =>
    rw [hexDigits] at h
    rcases List.mem_append.mp h with h | h
    · exact ih h
    · exact ⟨n % 16, by omega, (List.mem_singleton.mp h).symm⟩

/-- A hexadecimal number is written with letters and digits. -/
theorem isAlphanumeric_of_mem_hexDigits {c : Char} {width n : Nat} (h : c ∈ hexDigits width n) :
    isAlphanumeric c = true := by
  obtain ⟨m, hm, rfl⟩ := exists_of_mem_hexDigits h
  exact isAlphanumeric_hexChar hm

/-! ### Decimal digits read back -/

/-- A digit has the value that it was chosen for. -/
theorem digitValue_digitChar {n : Nat} (h : n < 10) : digitValue (digitChar n) = n := by
  have hall : ∀ m < 10, digitValue (digitChar m) = m := by decide
  exact hall n h

/-- A digit at the end counts once, the digits before it ten times. Numbers are written from their
last digit on, so this is the step of the inductions below. -/
theorem toNat_concat (t : Text) (c : Char) : toNat (t ++ [c]) = 10 * toNat t + digitValue c := by
  rw [toNat, List.foldl_append]
  rfl

/-- Reading gives the number that was written. By induction on the number, which is written as its
tenth part and one more digit. -/
theorem toNat_ofNat (n : Nat) : toNat (ofNat n) = n := by
  induction n using Nat.strongRecOn with
  | ind n ih =>
    rw [ofNat]
    split
    · next hlt =>
      show 10 * 0 + digitValue (digitChar n) = n
      rw [digitValue_digitChar hlt]
      omega
    · rw [toNat_concat, ih (n / 10) (by omega), digitValue_digitChar (by omega)]
      omega

/-- A zero behind the digits multiplies by ten. -/
theorem toNat_append_zeros (t : Text) (count : Nat) :
    toNat (t ++ List.replicate count '0') = toNat t * 10 ^ count := by
  induction count with
  | zero => simp
  | succ count ih =>
    have hzero : digitValue '0' = 0 := by decide
    rw [List.replicate_succ', ← List.append_assoc, toNat_concat, ih, hzero, Nat.add_zero,
      Nat.mul_comm 10, Nat.mul_assoc, Nat.pow_succ]

/-- Zeros in front of the digits count nothing. -/
theorem toNat_zeros_append (count : Nat) (t : Text) :
    toNat (List.replicate count '0' ++ t) = toNat t := by
  have hzeros : toNat (List.replicate count '0') = 0 := by
    have h := toNat_append_zeros [] count
    rwa [List.nil_append, show toNat [] = 0 from rfl, Nat.zero_mul] at h
  rw [toNat, List.foldl_append]
  show t.foldl _ (toNat (List.replicate count '0')) = _
  rw [hzeros]
  rfl

/-- A number has at least one digit; zero is written as one. -/
theorem ofNat_ne_nil (n : Nat) : ofNat n ≠ [] := by
  rw [ofNat]
  split
  · exact List.cons_ne_nil _ _
  · exact List.append_ne_nil_of_right_ne_nil _ (List.cons_ne_nil _ _)

/-- A positive number is written without a zero in front. JSON allows no such zero, so this is
needed where a written number is read. -/
theorem head?_ofNat_ne_zero {n : Nat} (h : 0 < n) : (ofNat n).head? ≠ some '0' := by
  induction n using Nat.strongRecOn with
  | ind n ih =>
    rw [ofNat]
    split
    · next hlt =>
      have hall : ∀ m < 10, 0 < m → [digitChar m].head? ≠ some '0' := by decide
      exact hall n hlt h
    · have hfirst := ih (n / 10) (by omega) (by omega)
      obtain ⟨first, rest, hdigits⟩ := List.exists_cons_of_ne_nil (ofNat_ne_nil (n / 10))
      rw [hdigits] at hfirst ⊢
      exact hfirst

/-- A number below a power of ten has at most as many digits. -/
theorem length_ofNat_le {n count : Nat} (hpos : 0 < count) (h : n < 10 ^ count) :
    (ofNat n).length ≤ count := by
  induction count generalizing n with
  | zero => omega
  | succ count ih =>
    rw [ofNat]
    split
    · simp
    · next hlarge =>
      rw [Nat.pow_succ] at h
      -- A number of two digits or more needs room for two.
      have hcount : 0 < count := by
        rcases Nat.eq_zero_or_pos count with rfl | hcount
        · omega
        · exact hcount
      have hshorter := ih hcount (n := n / 10) (by omega)
      rw [List.length_append, List.length_singleton]
      omega

/-! ### Hexadecimal digits read back -/

/-- A hexadecimal character has the value that it was chosen for. -/
theorem hexValue?_hexChar {n : Nat} (h : n < 16) : hexValue? (hexChar n) = some n := by
  have hall : ∀ m < 16, hexValue? (hexChar m) = some m := by decide
  exact hall n h

end DesignCompiler.Text
