import DesignCompiler.Proofs.Service.FileKey

/-!
# `DesignCompiler.Proofs.Service.Address`: which key an address holds

`StandsAt` says without a search that a key stands at a position of a text: the host name with a
known path begins there, and the key is all of the letters and digits that follow. There is at most
one key at a position, and `keyAt?` finds it (`keyAt?_eq_some_iff`). `find?` goes through the
positions from the front, so by induction over the text it finds the key at the first position that
has one (`find?_eq_some_iff`), however many hosts, paths without a key and further keys there are.

In front of an address there may be any text without the host name. No part of it can begin a host
name that goes on into the address, as the host name does not overlap itself
(`not_standsAt_of_lt`). So a key is found again in every address that is written with it. The main
statement is `ofText_exact`.
-/

set_option autoImplicit false

namespace DesignCompiler.FileKey

open Text

/-- A key stands at a position of a text: one of the starts is there, and the key is the longest run
of letters and digits behind it, which is not empty. Nothing is said of how it is looked for, so
this is what the search is held against. -/
structure StandsAt (key t : Text) (position : Nat) : Prop where
  ne_nil : key ≠ []
  isAlphanumeric : ∀ c ∈ key, isAlphanumeric c = true
  exists_start : ∃ start ∈ starts, ∃ rest, t.drop position = start ++ (key ++ rest)
    ∧ ∀ c ∈ rest.head?, Text.isAlphanumeric c = false

variable {key t : Text} {position : Nat}

/-! ### At one position -/

/-- The longest run of letters and digits at the front of a text, said without a search: the text
goes on with something else, or ends. -/
theorem takeWhile_eq_iff {behind : Text} : behind.takeWhile isAlphanumeric = key
    ↔ (∀ c ∈ key, isAlphanumeric c = true)
      ∧ ∃ rest, behind = key ++ rest ∧ ∀ c ∈ rest.head?, isAlphanumeric c = false := by
  constructor
  · rintro rfl
    refine ⟨List.all_eq_true.mp List.all_takeWhile, behind.dropWhile isAlphanumeric,
      List.takeWhile_append_dropWhile.symm, fun c hc => ?_⟩
    have hstop := List.head?_dropWhile_not isAlphanumeric behind
    rw [Option.mem_def.mp hc] at hstop
    simpa using hstop
  · rintro ⟨hkey, rest, rfl, hrest⟩
    rw [List.takeWhile_append_of_pos hkey]
    cases rest with
    | nil => rw [List.takeWhile_nil, List.append_nil]
    | cons c rest =>
      rw [List.takeWhile_cons_of_neg (by simp [hrest c rfl]), List.append_nil]

/-- Two different starts do not begin the same text. They differ within their first eleven
characters, and none is shorter, so it does not matter in which order they are tried. -/
theorem eq_of_starts {a b : Text} (ha : a ∈ starts) (hb : b ∈ starts) {s r : Text}
    (h : a ++ s = b ++ r) : a = b := by
  have hpair : ∀ a ∈ starts, ∀ b ∈ starts, a.take 11 = b.take 11 → a = b := by decide
  have hlong : ∀ a ∈ starts, 11 ≤ a.length := by decide
  refine hpair a ha b hb ?_
  have htake := congrArg (List.take 11) h
  rwa [List.take_append_of_le_length (hlong a ha), List.take_append_of_le_length (hlong b hb)]
    at htake

/-- The text behind the start that a text begins with. The starts are tried one after the other, but
no more than one of them can fit. -/
theorem findSome?_after?_eq_some_iff {behind : Text} :
    (starts.findSome? fun start => after? start t) = some behind
      ↔ ∃ start ∈ starts, t = start ++ behind := by
  constructor
  · intro h
    obtain ⟨start, hstart, hafter⟩ := List.exists_of_findSome?_eq_some h
    exact ⟨start, hstart, after?_eq_some_iff.mp hafter⟩
  · rintro ⟨start, hstart, rfl⟩
    cases hfind : starts.findSome? fun other => after? other (start ++ behind) with
    | none =>
      rw [List.findSome?_eq_none_iff] at hfind
      have hself : after? start (start ++ behind) = some behind := after?_eq_some_iff.mpr rfl
      rw [hfind start hstart] at hself
      cases hself
    | some found =>
      obtain ⟨other, hother, hafter⟩ := List.exists_of_findSome?_eq_some hfind
      have hsame := after?_eq_some_iff.mp hafter
      -- Another start that fits is the same one.
      obtain rfl := eq_of_starts hstart hother hsame
      rw [List.append_cancel_left hsame]

/-- The key at the front of a text is the one that stands there. This is the search at a single
position; `find?_eq_some_iff` goes through the positions. -/
theorem keyAt?_eq_some_iff : keyAt? t = some key ↔ StandsAt key t 0 := by
  -- Behind the start, a run that is empty is as good as no run.
  have hrun : ∀ behind : Text, (let run := behind.takeWhile Text.isAlphanumeric
      if run.isEmpty then none else some run) = some key
        ↔ key ≠ [] ∧ behind.takeWhile Text.isAlphanumeric = key := by
    intro behind
    dsimp only
    split
    · next hempty =>
      rw [List.isEmpty_iff.mp hempty]
      simp [eq_comm]
    · next hfull =>
      rw [Option.some.injEq]
      refine ⟨fun h => ⟨?_, h⟩, fun h => h.2⟩
      rintro rfl
      exact hfull (List.isEmpty_iff.mpr h)
  rw [keyAt?, Option.bind_eq_some_iff]
  simp only [hrun, findSome?_after?_eq_some_iff]
  constructor
  · rintro ⟨behind, ⟨start, hstart, ht⟩, hne, hkey⟩
    obtain ⟨halphanumeric, rest, rfl, hrest⟩ := takeWhile_eq_iff.mp hkey
    exact ⟨hne, halphanumeric, start, hstart, rest, ht, hrest⟩
  · rintro ⟨hne, halphanumeric, start, hstart, rest, ht, hrest⟩
    exact ⟨key ++ rest, ⟨start, hstart, ht⟩, hne,
      takeWhile_eq_iff.mpr ⟨halphanumeric, rest, rfl, hrest⟩⟩

/-! ### The first position -/

/-- A key stands in a text, and at no position before it does another one. There is no more than one
such key, whatever else the text holds behind it. -/
def IsFirstIn (key t : Text) : Prop :=
  ∃ position, StandsAt key t position ∧ ∀ i < position, ∀ other, ¬ StandsAt other t i

/-- One character more in front moves a key by one position. -/
theorem standsAt_cons_succ {c : Char} :
    StandsAt key (c :: t) (position + 1) ↔ StandsAt key t position :=
  ⟨fun h => ⟨h.ne_nil, h.isAlphanumeric, h.exists_start⟩,
    fun h => ⟨h.ne_nil, h.isAlphanumeric, h.exists_start⟩⟩

/-- No key stands in a text without characters. -/
theorem not_standsAt_nil : ¬ StandsAt key [] position := by
  rintro ⟨-, -, start, hstart, rest, hdrop, -⟩
  have hne : ∀ start ∈ starts, start ≠ [] := by decide
  rw [List.drop_nil] at hdrop
  exact hne start hstart (List.append_eq_nil_iff.mp hdrop.symm).1

/-- The key that is found is the one at the first position that has a key. By induction on the text:
a key at its front is found at once, and otherwise the positions of the rest are searched. -/
theorem find?_eq_some_iff : find? t = some key ↔ IsFirstIn key t := by
  induction t with
  | nil =>
    rw [find?]
    constructor
    · intro h
      cases h
    · rintro ⟨position, hkey, -⟩
      exact absurd hkey not_standsAt_nil
  | cons c rest ih =>
    rw [find?]
    -- Is there a key at position zero?
    cases hhere : keyAt? (c :: rest) with
    | some found =>
      have hfound := keyAt?_eq_some_iff.mp hhere
      constructor
      · intro h
        cases h
        exact ⟨0, hfound, fun earlier hlt => absurd hlt (Nat.not_lt_zero earlier)⟩
      · rintro ⟨position, hkey, hfirst⟩
        cases position with
        | zero => exact hhere.symm.trans (keyAt?_eq_some_iff.mpr hkey)
        | succ position => exact absurd hfound (hfirst 0 (Nat.succ_pos position) found)
    | none =>
      have hnone : ∀ other, ¬ StandsAt other (c :: rest) 0 := by
        intro other hother
        rw [keyAt?_eq_some_iff.mpr hother] at hhere
        cases hhere
      show find? rest = some key ↔ _
      rw [ih]
      -- The positions of the rest are those behind the first one.
      constructor
      · rintro ⟨position, hkey, hfirst⟩
        refine ⟨position + 1, standsAt_cons_succ.mpr hkey, fun i hi other => ?_⟩
        cases i with
        | zero => exact hnone other
        | succ i =>
          rw [standsAt_cons_succ]
          exact hfirst i (Nat.lt_of_succ_lt_succ hi) other
      · rintro ⟨position, hkey, hfirst⟩
        cases position with
        | zero => exact absurd hkey (hnone key)
        | succ position =>
          refine ⟨position, standsAt_cons_succ.mp hkey, fun i hi other hother => ?_⟩
          exact hfirst (i + 1) (Nat.succ_lt_succ hi) other (standsAt_cons_succ.mpr hother)

/-- Nothing is found if no key stands anywhere, however many hosts and paths there are. It is the
only way in which an address can fail to name a key. -/
theorem find?_eq_none_iff : find? t = none ↔ ∀ position key, ¬ StandsAt key t position := by
  constructor
  · intro h position
    -- A key somewhere would make a first one.
    induction position using Nat.strongRecOn with
    | ind position ih =>
      intro key hkey
      have hfound := find?_eq_some_iff.mpr ⟨position, hkey, ih⟩
      rw [h] at hfound
      cases hfound
  · intro h
    cases hfind : find? t with
    | none => rfl
    | some key =>
      obtain ⟨position, hkey, -⟩ := find?_eq_some_iff.mp hfind
      exact absurd hkey (h position key)

/-! ### Texts in front of an address -/

/-- A start begins with the host name, so a key is behind a host name, and in a text without one
there is none. -/
theorem host_prefix_of_mem_starts {start : Text} (h : start ∈ starts) : host <+: start := by
  have hall : ∀ start ∈ starts, host <+: start := by decide
  exact hall start h

/-- Two host names do not overlap, so none begins in front of an address and goes on into it. A text
in front that does not hold the host name therefore holds no key of its own either, with whatever
address behind it. -/
theorem not_standsAt_of_lt {front behind : Text} (hfront : ¬ host <:+: front)
    (hbehind : host <+: behind) (hlt : position < front.length) :
    ¬ StandsAt key (front ++ behind) position := by
  rintro ⟨-, -, start, hstart, rest, hdrop, -⟩
  rw [List.drop_append_of_le_length (Nat.le_of_lt hlt)] at hdrop
  have hhost : host <+: front.drop position ++ behind :=
    hdrop ▸ (host_prefix_of_mem_starts hstart).trans (List.prefix_append _ _)
  rcases Nat.lt_or_ge (front.drop position).length host.length with hshort | hlong
  · -- The host name in front would go on with the first letter of the other one.
    have hinner : ∀ i < host.length, 0 < i → host[0]? ≠ host[i]? := by decide
    have hpos : 0 < (front.drop position).length := by
      rw [List.length_drop]
      omega
    have hgoes := List.prefix_iff_getElem?.mp hhost _ hshort
    rw [List.getElem?_append_right (Nat.le_refl _), Nat.sub_self,
      List.prefix_iff_getElem?.mp hbehind 0 (by decide), ← List.getElem?_eq_getElem,
      ← List.getElem?_eq_getElem] at hgoes
    exact hinner _ hshort hpos hgoes
  · have hpart : host <+: front.drop position :=
      List.prefix_of_prefix_length_le hhost (List.prefix_append _ _) hlong
    exact hfront (hpart.isInfix.trans (List.drop_suffix position front).isInfix)

/-- A key is found in every address that is written with it. -/
theorem find?_address {front start rest : Text} (hfront : ¬ host <:+: front)
    (hstart : start ∈ starts) (hne : key ≠ []) (hkey : ∀ c ∈ key, isAlphanumeric c = true)
    (hrest : ∀ c ∈ rest.head?, isAlphanumeric c = false) :
    find? (front ++ (start ++ (key ++ rest))) = some key := by
  have hhost : host <+: start ++ (key ++ rest) :=
    (host_prefix_of_mem_starts hstart).trans (List.prefix_append _ _)
  refine find?_eq_some_iff.mpr ⟨front.length, ⟨hne, hkey, start, hstart, rest, ?_, hrest⟩, ?_⟩
  · rw [List.drop_left]
  · exact fun i hi other => not_standsAt_of_lt hfront hhost hi

/-! ### The key that a text names -/

/-- A text without the host name is its own key. Any other names the key at the first position that
has one, and there is a fault, one of the given values, exactly if there is none. A key that was
taken names itself, and a key is taken from every address that is written with it. -/
theorem ofText_exact :
    (∀ t, ¬ host <:+: t → ofText t = .ok t)
    ∧ (∀ t, host <:+: t → (∀ key, ofText t = .ok key ↔ IsFirstIn key t)
      ∧ ∀ fault, ofText t = .error fault
        ↔ fault = .noFileKey ∧ ∀ position key, ¬ StandsAt key t position)
    ∧ Fault.noFileKey.family = .value
    ∧ (∀ t key, ofText t = .ok key → ofText key = .ok key)
    ∧ ∀ front key rest : Text, ∀ start ∈ starts, ¬ host <:+: front → key ≠ [] →
      (∀ c ∈ key, isAlphanumeric c = true) → (∀ c ∈ rest.head?, isAlphanumeric c = false) →
      ofText (front ++ (start ++ (key ++ rest))) = .ok key := by
  refine ⟨fun t hhost => ?_, fun t hhost => ⟨fun key => ?_, fun fault => ?_⟩, rfl,
    fun t key => ofText_of_ofText, fun front key rest start hstart hfront hne hkey hrest => ?_⟩
  · exact ofText_eq_ok.mpr (.inr ⟨Bool.eq_false_iff.mpr fun h => hhost (contains_iff.mp h), rfl⟩)
  · have hcontains : contains host t = true := contains_iff.mpr hhost
    rw [ofText_eq_ok, hcontains, find?_eq_some_iff]
    simp
  · rw [ofText, if_pos (contains_iff.mpr hhost), ← find?_eq_none_iff]
    cases find? t with
    | none => simp [eq_comm]
    | some key => simp
  · exact ofText_eq_ok.mpr (.inl (find?_address hfront hstart hne hkey hrest))

/-- A host without a key, a path without a key and a foreign path stand in front of the key. -/
example : (ofText ("figma.com figma.com/file/?figma.com/proto/x figma.com/design/Ab1".toList
    ++ "/p?u=figma.com/file/Zz9".toList)).toOption = some "Ab1".toList := by decide

end DesignCompiler.FileKey
