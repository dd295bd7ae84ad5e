import DesignCompiler.Schema.Leaf

/-!
# `DesignCompiler.Proofs.Schema.Checked`: what was accepted

A record is accepted when all of its fields are (`seq_eq_accepted`), and the location that a field
puts into complaints has no part in what is accepted (`under_eq_accepted`).

`Restores check write` is the law that ties a check to the way values are written: whatever is
written is accepted as what it was. Fields keep it, given under whatever name (`field_given`), and
so do fields that may be null, since no value is written as null (`field_nullable`). A field whose
value need not have been written is accepted if the check takes the value (`exists_field`).
-/

set_option autoImplicit false

namespace DesignCompiler.Schema

variable {α β : Type}

/-- A mapped value is accepted if the value is. -/
theorem map_eq_accepted {f : α → β} {x : Checked α} {b : β} :
    f <$> x = .accepted b ↔ ∃ a, x = .accepted a ∧ f a = b := by
  cases x <;> simp [Functor.map, Checked.map]

/-- Both sides of a combination have to be accepted. Taken again and again, it opens the chain of
checks of a record. -/
theorem seq_eq_accepted {f : Checked (α → β)} {x : Checked α} {b : β} :
    f <*> x = .accepted b ↔ ∃ g, f = .accepted g ∧ ∃ a, x = .accepted a ∧ g a = b := by
  cases f <;> cases x <;> simp [Seq.seq, Checked.both]

/-- The location of complaints has no part in what is accepted. -/
theorem under_eq_accepted {x : Checked α} {step : Step} {a : α} :
    x.under step = .accepted a ↔ x = .accepted a := by
  cases x <;> simp [Checked.under]

/-- Whatever is written is accepted as what it was, and is not null. The second part lets optional
fields use null for nothing. -/
structure Restores (check : Json → Checked α) (write : α → Json) : Prop where
  accepted : ∀ a, check (write a) = .accepted a
  ne_null : ∀ a, write a ≠ .null

section

variable {check : Json → Checked α} {write : α → Json}

/-- A field that is given as it was written. -/
theorem field_given (h : Restores check write) (fallback : α) (name : Text) (a : α) :
    field fallback check (some (name, write a)) = .accepted a := by
  rw [field, under_eq_accepted]
  exact h.accepted a

/-- A field that may be null, given as it was written or not at all. -/
theorem field_nullable (h : Restores check write) (name : Text) (value : Option α) :
    field none (nullable check) ((value.map write).map fun v => (name, v)) = .accepted value := by
  cases value with
  | none => rfl
  | some a =>
    rw [Option.map_some, Option.map_some, field, under_eq_accepted, nullable]
    · rw [h.accepted]
      rfl
    · exact h.ne_null a

end

/-- What was accepted for a field that may be null is what its value is checked to be, and there is
something unless the value is null or not given. It goes from a layer back to the values it was
checked from. -/
theorem of_field_nullable {check : Json → Checked α} {name : Text} {value : Option Json}
    {kept : Option α}
    (h : field none (nullable check) (value.map fun v => (name, v)) = .accepted kept) :
    (∀ a ∈ kept, ∃ v ∈ value, check v = .accepted a)
      ∧ ((∀ v ∈ value, v ≠ .null) → kept.isSome = value.isSome) := by
  cases value with
  | none =>
    cases h
    exact ⟨nofun, fun _ => rfl⟩
  | some v =>
    rw [Option.map_some, field, under_eq_accepted] at h
    -- Null is kept as nothing, and any other value has to pass the check.
    by_cases hnull : v = .null
    · subst hnull
      cases h
      exact ⟨nofun, fun hne => absurd rfl (hne .null rfl)⟩
    · rw [nullable] at h
      · cases hcheck : check v with
        | rejected issues =>
          rw [hcheck] at h
          cases h
        | accepted a =>
          rw [hcheck] at h
          cases h
          refine ⟨?_, fun _ => rfl⟩
          rintro _ ⟨⟩
          exact ⟨v, rfl, hcheck⟩
      · exact hnull

/-! ### Fields that are accepted whatever they hold -/

section

variable {check : Json → Checked α} {value : Option Json}

/-- A field is accepted if it is not given or its value is. The name is the one it was given under.
-/
theorem exists_field (fallback : α) (name : Text)
    (h : ∀ v ∈ value, ∃ a, check v = .accepted a) :
    ∃ a, field fallback check (value.map fun v => (name, v)) = .accepted a := by
  cases value with
  | none => exact ⟨fallback, rfl⟩
  | some v =>
    obtain ⟨a, ha⟩ := h v rfl
    exact ⟨a, by rw [Option.map_some, field, under_eq_accepted]; exact ha⟩

/-- The same for a field that may be null. -/
theorem exists_field_nullable (name : Text) (h : ∀ v ∈ value, ∃ a, check v = .accepted a) :
    ∃ a, field none (nullable check) (value.map fun v => (name, v)) = .accepted a := by
  refine exists_field none name ?_
  intro v hv
  obtain ⟨a, ha⟩ := h v hv
  unfold nullable
  split
  · exact ⟨none, rfl⟩
  · exact ⟨some a, by rw [ha]; rfl⟩

end

/-! ### Single values -/

/-- Texts are written as they are. -/
theorem restores_text : Restores checkText Json.text := ⟨fun _ => rfl, fun _ => nofun⟩

/-- Doubles are written as they are. -/
theorem restores_number : Restores checkNumber Json.double := ⟨fun _ => rfl, fun _ => nofun⟩

end DesignCompiler.Schema
