import DesignCompiler.FontWeight
import DesignCompiler.Proofs.Number.Exact
import DesignCompiler.Proofs.Outcome

/-!
# `DesignCompiler.Proofs.Render.FontWeight`: which weights share a word

A weight has a word in each target, that of the row with its token. Compose and CSS agree on which
weights are the same: two rows share a word in the one exactly if they do in the other. SwiftUI
agrees with them but for the two lightest weights, whose names stand for the numbers the wrong way
round (`Crosses`). `valueWord_agree_iff` says so of all weights that a design can hold, the unknown
ones and null included, which are as heavy as the regular one.
-/

set_option autoImplicit false

namespace DesignCompiler.FontWeight

/-- Values that have a token: all but doubles that are no number. Asking for the token of infinity,
or of what is not a number, is a fault. -/
def IsWeight (value : Json) : Prop := ∀ x, value = .double x → x.isFinite = true

/-- A weight has a token, or none, without a fault. -/
theorem exists_valueToken? {value : Json} (h : IsWeight value) :
    ∃ token, valueToken? value = .ok token := by
  cases value with
  | double x =>
    obtain ⟨negative, units, hr, rfl⟩ := Binary64.exists_eq_of_isFinite (h x rfl)
    exact ⟨_, rfl⟩
  | null | bool | int | text | list | object => exact ⟨_, rfl⟩

/-! ### The row of a token -/

/-- The row of the regular weight, which the unknown tokens fall back to. -/
def regularRow : Row :=
  ⟨"REGULAR".toList, ".regular".toList, "FontWeight.Normal".toList, "400".toList⟩

/-- It stands among the rows of the table. -/
theorem regularRow_mem : regularRow ∈ rows := List.mem_iff_getElem.mpr ⟨13, by decide, rfl⟩

/-- The row of a token, the regular one if the token is unknown or there is none. -/
def rowOf (token : Option Text) : Row :=
  (token.bind fun t => rows.find? fun row => row.token = t).getD regularRow

variable (s t : Option Text)

/-- The row of a token is one of the table, also where the token is unknown. So what holds of all
rows holds of all tokens. -/
theorem rowOf_mem : rowOf s ∈ rows := by
  rw [rowOf]
  cases hrow : s.bind fun t => rows.find? fun row => row.token = t with
  | none => exact regularRow_mem
  | some row =>
    obtain ⟨token, -, hfind⟩ := Option.bind_eq_some_iff.mp hrow
    exact List.mem_of_find?_eq_some hfind

/-- The word of a token is the one in its row. The word for unknown tokens is that of the regular
row in each target. -/
theorem tokenWord_eq (platform : Platform) : tokenWord platform s = (rowOf s).word platform := by
  rw [tokenWord, rowOf]
  cases s.bind fun t => rows.find? fun row => row.token = t with
  | none => cases platform <;> rfl
  | some row => rfl

/-- Only a token itself leads to its row, but for the regular row, which every unknown token leads
to as well. -/
theorem token_rowOf_eq_iff {known : Text} (hknown : known ∈ rows.map Row.token)
    (hne : known ≠ regularRow.token) : (rowOf s).token = known ↔ s = some known := by
  constructor
  · intro htoken
    rw [rowOf] at htoken
    -- A token without a row is taken to be regular, and the known one is not.
    cases hrow : s.bind fun t => rows.find? fun row => row.token = t with
    | none =>
      rw [hrow] at htoken
      exact absurd htoken.symm hne
    | some row =>
      obtain ⟨token, hs, hfind⟩ := Option.bind_eq_some_iff.mp hrow
      have hfound : row.token = token := by simpa using List.find?_some hfind
      rw [hrow] at htoken
      rw [hs, ← hfound, ← htoken]
      rfl
  · rintro rfl
    obtain ⟨row, hmem, hrow⟩ := List.mem_map.mp hknown
    have hsome : (rows.find? fun row => row.token = known).isSome = true :=
      List.find?_isSome.mpr ⟨row, hmem, decide_eq_true hrow⟩
    obtain ⟨found, hfind⟩ := Option.isSome_iff_exists.mp hsome
    rw [rowOf, Option.bind_some, hfind]
    simpa using List.find?_some hfind

/-! ### The two lightest weights -/

/-- The number of one of the two lightest weights. -/
def IsLightNumber (token : Option Text) : Prop :=
  token = some "100".toList ∨ token = some "200".toList

/-- The name of one of the two lightest weights. -/
def IsLightName (token : Option Text) : Prop :=
  token = some "THIN".toList ∨ token = some "EXTRA_LIGHT".toList

/-- One of the two lightest weights by its number, and one of them by its name. These are the pairs
on which SwiftUI disagrees with the other targets. -/
def Crosses (s t : Option Text) : Prop :=
  (IsLightNumber s ∧ IsLightName t) ∨ (IsLightName s ∧ IsLightNumber t)

/-- Decided by comparing with the two numbers. -/
instance : DecidablePred IsLightNumber := fun _ => inferInstanceAs (Decidable (_ ∨ _))

/-- Decided by comparing with the two names. -/
instance : DecidablePred IsLightName := fun _ => inferInstanceAs (Decidable (_ ∨ _))

/-- Decided, so that agreement can be worked out for all pairs of rows at once. -/
instance : Decidable (Crosses s t) := inferInstanceAs (Decidable (_ ∨ _))

/-- Whether a token is one of the light numbers can be told from its row. -/
theorem isLightNumber_rowOf : IsLightNumber (some (rowOf s).token) ↔ IsLightNumber s := by
  rw [IsLightNumber, IsLightNumber, Option.some_inj, Option.some_inj,
    token_rowOf_eq_iff s (by decide) (by decide), token_rowOf_eq_iff s (by decide) (by decide)]

/-- The same of the light names. -/
theorem isLightName_rowOf : IsLightName (some (rowOf s).token) ↔ IsLightName s := by
  rw [IsLightName, IsLightName, Option.some_inj, Option.some_inj,
    token_rowOf_eq_iff s (by decide) (by decide), token_rowOf_eq_iff s (by decide) (by decide)]

/-- So whether two tokens cross can be told from their rows. -/
theorem crosses_rowOf :
    Crosses (some (rowOf s).token) (some (rowOf t).token) ↔ Crosses s t := by
  simp only [Crosses, isLightNumber_rowOf, isLightName_rowOf]

/-! ### Words that agree -/

/-- Two tokens share a word of Compose exactly if they share one of CSS. The tokens are endless, but
each has the words of one of the rows, and for these it is decided. -/
theorem compose_eq_iff :
    tokenWord .compose s = tokenWord .compose t ↔ tokenWord .react s = tokenWord .react t := by
  -- Any two tokens are as good as the tokens of two rows, and those are few.
  have hrows : ∀ r ∈ rows, ∀ r' ∈ rows,
      (r.word .compose = r'.word .compose ↔ r.word .react = r'.word .react) := by decide +kernel
  rw [tokenWord_eq, tokenWord_eq, tokenWord_eq, tokenWord_eq]
  exact hrows _ (rowOf_mem s) _ (rowOf_mem t)

/-- The same holds of SwiftUI exactly if not one of the two lightest weights stands beside the name
of one of them. -/
theorem swiftUI_eq_iff :
    (tokenWord .swiftUI s = tokenWord .swiftUI t ↔ tokenWord .react s = tokenWord .react t)
      ↔ ¬ Crosses s t := by
  have hrows : ∀ r ∈ rows, ∀ r' ∈ rows,
      ((r.word .swiftUI = r'.word .swiftUI ↔ r.word .react = r'.word .react)
        ↔ ¬ Crosses (some r.token) (some r'.token)) := by decide +kernel
  rw [tokenWord_eq, tokenWord_eq, tokenWord_eq, tokenWord_eq, ← crosses_rowOf]
  exact hrows _ (rowOf_mem s) _ (rowOf_mem t)

/-- Two weights of any kind have a word in each target. They share a word of Compose exactly if they
share one of CSS, and a word of SwiftUI exactly then unless they cross. -/
theorem valueWord_agree_iff {u v : Json} (hu : IsWeight u) (hv : IsWeight v) :
    ∃ s t, valueToken? u = .ok s ∧ valueToken? v = .ok t
      ∧ (∀ platform, valueWord platform u = .ok (tokenWord platform s)
        ∧ valueWord platform v = .ok (tokenWord platform t))
      ∧ (valueWord .compose u = valueWord .compose v ↔ valueWord .react u = valueWord .react v)
      ∧ ((valueWord .swiftUI u = valueWord .swiftUI v ↔ valueWord .react u = valueWord .react v)
        ↔ ¬ Crosses s t) := by
  obtain ⟨s, hs⟩ := exists_valueToken? hu
  obtain ⟨t, ht⟩ := exists_valueToken? hv
  have hword : ∀ {value : Json} {token : Option Text}, valueToken? value = .ok token →
      ∀ platform, valueWord platform value = .ok (tokenWord platform token) := by
    intro value token htoken platform
    rw [valueWord, htoken, Outcome.map_ok]
  refine ⟨s, t, hs, ht, fun platform => ⟨hword hs platform, hword ht platform⟩, ?_, ?_⟩
  · simp only [hword hs, hword ht, Except.ok.injEq]
    exact compose_eq_iff s t
  · simp only [hword hs, hword ht, Except.ok.injEq]
    exact swiftUI_eq_iff s t

/-- A number and a name that do not cross: neither is one of the two lightest weights. -/
theorem semiBold_agrees : ∃ s t, valueToken? (.int 700) = .ok s
      ∧ valueToken? (.text "semi-bold".toList) = .ok t
      ∧ (∀ platform, valueWord platform (.int 700) = .ok (tokenWord platform s)
        ∧ valueWord platform (.text "semi-bold".toList) = .ok (tokenWord platform t))
      ∧ (valueWord .compose (.int 700) = valueWord .compose (.text "semi-bold".toList)
        ↔ valueWord .react (.int 700) = valueWord .react (.text "semi-bold".toList))
      ∧ ((valueWord .swiftUI (.int 700) = valueWord .swiftUI (.text "semi-bold".toList)
        ↔ valueWord .react (.int 700) = valueWord .react (.text "semi-bold".toList))
        ↔ ¬ Crosses s t) := by
  have hu : IsWeight (.int 700) := fun x h => by cases h
  have hv : IsWeight (.text "semi-bold".toList) := fun x h => by cases h
  exact valueWord_agree_iff hu hv

/-- The lightest weight has one word by its number and by its name in CSS and Compose, but two in
SwiftUI. -/
theorem thin_crosses :
    valueWord .react (.int 100) = valueWord .react (.text "Thin".toList)
    ∧ valueWord .compose (.int 100) = valueWord .compose (.text "Thin".toList)
    ∧ valueWord .swiftUI (.int 100) = .ok ".ultraLight".toList
    ∧ valueWord .swiftUI (.text "Thin".toList) = .ok ".thin".toList := by
  refine ⟨?_, ?_, ?_, ?_⟩
  · exact Outcome.eq_of_toOption_eq (by decide +kernel) (by decide +kernel)
  · exact Outcome.eq_of_toOption_eq (by decide +kernel) (by decide +kernel)
  · exact Outcome.toOption_eq_some.mp (by decide +kernel)
  · exact Outcome.toOption_eq_some.mp (by decide +kernel)

end DesignCompiler.FontWeight
