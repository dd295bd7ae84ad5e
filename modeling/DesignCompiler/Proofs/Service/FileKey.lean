import DesignCompiler.Proofs.Outcome
import DesignCompiler.Proofs.Text.Piece
import DesignCompiler.Proofs.Text.Trim
import DesignCompiler.Service.FileKey

/-!
# `DesignCompiler.Proofs.Service.FileKey`: the key that a text names

A text names the key that is found in it or, if it is no address, itself (`ofText_eq_ok`). A key
that is found is a part of the address, made of letters and digits (`find?_eq_some`), so it is no
address and names itself: a key that was taken once is taken again as it is (`ofText_of_ofText`).
-/

set_option autoImplicit false

namespace DesignCompiler

/-- Letters and digits are no white space, so nothing is trimmed off a text of letters and digits.
-/
theorem Text.isWhiteSpace_of_isAlphanumeric {c : Char} (h : isAlphanumeric c = true) :
    isWhiteSpace c = false := by
  simp only [isAlphanumeric, isDigit, isLetter, Bool.or_eq_true, Bool.and_eq_true,
    decide_eq_true_eq] at h
  simp only [isWhiteSpace, Bool.or_eq_false_iff, Bool.and_eq_false_iff, decide_eq_false_iff_not]
  omega

namespace FileKey

open Text

/-- A key that is found in an address: the letters and digits behind one of the starts. Where in the
address it is, and that nothing stands before it, is left to `IsFirstIn`; what follows here needs
only that a key is somewhere in its address. -/
structure IsFoundIn (key t : Text) : Prop where
  ne_nil : key ≠ []
  isAlphanumeric : ∀ c ∈ key, isAlphanumeric c = true
  exists_start : ∃ start ∈ starts, ∃ rest, key <+: rest ∧ start ++ rest <:+ t

/-- A key at the front of a text is found in it. `keyAt?` takes what follows a start as long as
there are letters and digits, and gives up if there is none. -/
theorem isFoundIn_of_keyAt? {t key : Text} (h : keyAt? t = some key) : IsFoundIn key t := by
  obtain ⟨rest, hrest, h⟩ := Option.bind_eq_some_iff.mp h
  obtain ⟨start, hstart, hafter⟩ := List.exists_of_findSome?_eq_some hrest
  dsimp only at h
  split at h
  · cases h
  · next hne =>
    cases h
    refine ⟨by simpa using hne, ?_, start, hstart, rest, List.takeWhile_prefix _, ?_⟩
    · exact List.all_eq_true.mp List.all_takeWhile
    · exact after?_eq_some_iff.mp hafter ▸ List.suffix_refl t

/-- A key that is found stands behind a start somewhere in the address. By induction on the address,
as `find?` moves on by one character where no key begins. -/
theorem find?_eq_some {t key : Text} (h : find? t = some key) : IsFoundIn key t := by
  induction t with
  | nil => cases h
  | cons c rest ih =>
    -- The key is looked for here first, and then behind this character.
    rw [find?] at h
    split at h
    · next found hfound =>
      cases h
      exact isFoundIn_of_keyAt? hfound
    · obtain ⟨hne, halphanumeric, start, hstart, back, hkey, hsuffix⟩ := ih h
      exact ⟨hne, halphanumeric, start, hstart, back, hkey, hsuffix.trans (List.suffix_cons c rest)⟩

/-- Only addresses hold keys: every start begins with the host name, and what is in a part of the
address is in the address. -/
theorem IsFoundIn.contains_host {key t : Text} (h : IsFoundIn key t) : contains host t = true := by
  obtain ⟨start, hstart, rest, -, hsuffix⟩ := h.exists_start
  have hall : ∀ start ∈ starts, contains host start = true := by decide
  have hhost : host <:+: start := contains_iff.mp (hall start hstart)
  exact contains_iff.mpr
    (hhost.trans ((List.prefix_append start rest).isInfix.trans hsuffix.isInfix))

/-- A key is not longer than its address. With `find?_eq_some` this bounds what is stored by what
was given. -/
theorem IsFoundIn.length_le {key t : Text} (h : IsFoundIn key t) : key.length ≤ t.length := by
  obtain ⟨start, -, rest, hkey, hsuffix⟩ := h.exists_start
  have hrest := hkey.length_le
  have hwhole := hsuffix.length_le
  rw [List.length_append] at hwhole
  omega

/-- A key is no address. The host name has a point, and no key has, so a key that was found is never
searched for another one. -/
theorem IsFoundIn.not_contains_host {key t : Text} (h : IsFoundIn key t) :
    contains host key = false := by
  rw [Bool.eq_false_iff]
  intro hcontains
  have hpoint : '.' ∈ key := (contains_iff.mp hcontains).subset (by decide)
  exact absurd (h.isAlphanumeric '.' hpoint) (by decide)

/-- A text names the key that is found in it or, if it is no address, itself. The two cases exclude
each other, as only an address holds a key. -/
theorem ofText_eq_ok {t key : Text} :
    ofText t = .ok key ↔ find? t = some key ∨ contains host t = false ∧ key = t := by
  rw [ofText]
  by_cases hhost : contains host t = true
  · rw [if_pos hhost, hhost]
    cases hfind : find? t <;> simp
  · rw [if_neg hhost]
    -- Where there is no host name, no key can be found either.
    have hnone : ∀ found, find? t ≠ some found :=
      fun found hfound => hhost (find?_eq_some hfound).contains_host
    simp [hnone, hhost, eq_comm]

/-- A key names itself: to take it once more, from what was taken, changes nothing. A request that
shows its key can therefore be read again. -/
theorem ofText_of_ofText {t key : Text} (h : ofText t = .ok key) : ofText key = .ok key := by
  rcases ofText_eq_ok.mp h with hfound | ⟨hhost, rfl⟩
  · exact ofText_eq_ok.mpr (.inr ⟨(find?_eq_some hfound).not_contains_host, rfl⟩)
  · exact h

/-- No text names a key that is longer than itself, so the limit on the length of what is given
holds for what is stored. -/
theorem length_le_of_ofText {t key : Text} (h : ofText t = .ok key) : key.length ≤ t.length := by
  rcases ofText_eq_ok.mp h with hfound | ⟨-, rfl⟩
  · exact (find?_eq_some hfound).length_le
  · exact Nat.le_refl _

/-- The key of a trimmed text is trimmed. One that was found has no white space at all, and any
other is the trimmed text. -/
theorem trimBy_of_ofText {t key : Text} (h : ofText (trimBy isWhiteSpace t) = .ok key) :
    trimBy isWhiteSpace key = key := by
  rcases ofText_eq_ok.mp h with hfound | ⟨-, rfl⟩
  · exact trimBy_eq_self fun c hc =>
      isWhiteSpace_of_isAlphanumeric ((find?_eq_some hfound).isAlphanumeric c hc)
  · exact trimBy_trimBy t

end FileKey

end DesignCompiler
