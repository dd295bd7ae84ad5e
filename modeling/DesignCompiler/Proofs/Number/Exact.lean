import DesignCompiler.Proofs.Number.Nearest
import Mathlib.Algebra.Order.Field.Basic
import Mathlib.Algebra.Order.Field.Rat
import Mathlib.Tactic.FieldSimp
import Mathlib.Tactic.Linarith
import Mathlib.Tactic.Ring

/-!
# `DesignCompiler.Proofs.Number.Exact`: the rational numbers that doubles are

A finite double is a rational number, its units divided by how many of them make one
(`Binary64.value`). Statements on how accurate a result is are about these numbers. The proofs count
in whole numbers instead, and `abs_div_sub_div_le` takes a distance of quotients to one of products.
-/

set_option autoImplicit false

namespace DesignCompiler

/-- Two quotients are near if what they are over a common denominator is. The hypothesis is about
natural numbers only, so it can be proved by counting units. -/
theorem abs_div_sub_div_le {a b c d k : Nat} (hb : 0 < b) (hd : 0 < d) (hk : 0 < k)
    (h : k * (a * d).dist (c * b) ≤ b * d) : |(a : ℚ) / b - c / d| ≤ 1 / k := by
  have hb' : (0 : ℚ) < b := Nat.cast_pos.mpr hb
  have hd' : (0 : ℚ) < d := Nat.cast_pos.mpr hd
  have hk' : (0 : ℚ) < k := Nat.cast_pos.mpr hk
  -- The products are at most their distance apart, in either direction.
  have hapart : k * (a * d) ≤ k * (c * b) + b * d ∧ k * (c * b) ≤ k * (a * d) + b * d := by
    have hleft := Nat.mul_le_mul_left k (show a * d ≤ c * b + (a * d).dist (c * b) by
      unfold Nat.dist
      omega)
    have hright := Nat.mul_le_mul_left k (show c * b ≤ a * d + (a * d).dist (c * b) by
      unfold Nat.dist
      omega)
    rw [Nat.mul_add] at hleft hright
    exact ⟨by omega, by omega⟩
  obtain ⟨hleft, hright⟩ := hapart
  have hleft : (k : ℚ) * (a * d) ≤ k * (c * b) + b * d := by exact_mod_cast hleft
  have hright : (k : ℚ) * (c * b) ≤ k * (a * d) + b * d := by exact_mod_cast hright
  have hcommon : (a : ℚ) / b - c / d = (a * d - c * b) / (b * d) := by
    field_simp
  rw [hcommon, abs_div, abs_of_pos (mul_pos hb' hd'), div_le_div_iff₀ (mul_pos hb' hd') hk']
  -- Which of the two is larger does not matter, as both differences are bounded.
  rcases abs_cases ((a : ℚ) * d - c * b) with ⟨habs, -⟩ | ⟨habs, -⟩
  · rw [habs]
    linarith
  · rw [habs]
    linarith

namespace Binary64

/-- Whether a double is a number. -/
def isFinite : Binary64 → Bool
  | .finite _ _ _ => true
  | .nan | .infinite _ => false

/-- A finite double is given by its sign and its units. -/
theorem exists_eq_of_isFinite {x : Binary64} (h : x.isFinite = true) :
    ∃ negative units hr, x = .finite negative units hr := by
  cases x with
  | finite negative units hr => exact ⟨negative, units, hr, rfl⟩
  | nan | infinite => cases h

/-- The units of a double with their sign, none if it is no number. Both zeros have none. -/
def signed : Binary64 → Int
  | .finite negative units _ => signedUnits negative units
  | .nan | .infinite _ => 0

/-- The rational number that a double is, zero if it is no number. -/
def value (x : Binary64) : ℚ := x.signed / unitsPerOne

end Binary64

end DesignCompiler
