import DesignCompiler.Proofs.Outcome
import DesignCompiler.Proofs.Schema.Checked
import DesignCompiler.Schema.Form

/-!
# `DesignCompiler.Proofs.Schema.Form`: records that change field by field

`Form.after` is the record that a history ends with (`history_last`). What holds of a record as it
was read, and is kept whenever a field is set, holds of every record that a history goes through
(`after_invariant`).

A form whose fields are checked when they are set changes a record only through the check of one of
its fields (`assign_checked`).
-/

set_option autoImplicit false

namespace DesignCompiler.Schema

variable {ρ : Type}

/-- A fault is made of complaints only. -/
theorem Checked.orFault_eq_ok {α : Type} {model : Model} {x : Checked α} {a : α} :
    x.orFault model = .ok a ↔ x = .accepted a := by
  cases x <;> simp [orFault]

namespace Form

/-- Only objects are read as records. -/
theorem create_object {form : Form ρ} {fields : Json.Fields} {record : ρ} :
    form.create (.object fields) = .ok record ↔ form.check fields = .accepted record :=
  Checked.orFault_eq_ok

/-- The record after a field was set, or as it was if the value was refused. -/
def step (form : Form ρ) (record : ρ) (change : Json × Json) : ρ :=
  match form.assign record change.1 change.2 with
  | .ok changed => changed
  | .error _ => record

/-- The record after fields of it were set one after the other. -/
def after (form : Form ρ) (record : ρ) (changes : List (Json × Json)) : ρ :=
  changes.foldl form.step record

/-- The last outcome of setting fields shows the record after all of them. The first record stands
in front, so the list of outcomes is never empty. -/
theorem assignAll_last (form : Form ρ) (record : ρ) (changes : List (Json × Json))
    (fault : Option Fault) :
    (((fault, form.toJson record) :: form.assignAll record changes).getLast?).map Prod.snd
      = some (form.toJson (form.after record changes)) := by
  induction changes generalizing record fault with
  | nil => rfl
  | cons change rest ih =>
    obtain ⟨name, value⟩ := change
    rw [assignAll, after, List.foldl_cons, step]
    cases hassign : form.assign record name value with
    | ok changed =>
      rw [List.getLast?_cons_cons]
      exact ih changed none
    | error trouble =>
      rw [List.getLast?_cons_cons]
      exact ih record (some trouble)

/-- A history ends with the record after all changes. -/
theorem history_last {form : Form ρ} {value : Json} {changes : List (Json × Json)}
    {outcomes : List (Option Fault × Json)} (h : form.history value changes = .ok outcomes) :
    ∃ record, form.create value = .ok record
      ∧ outcomes.getLast?.map Prod.snd = some (form.toJson (form.after record changes)) := by
  obtain ⟨record, hrecord, rfl⟩ := Outcome.map_eq_ok.mp h
  exact ⟨record, hrecord, assignAll_last form record changes none⟩

/-- What is kept whenever a field is set holds after all changes. Refused values need not be looked
at, since they change nothing. -/
theorem after_invariant {form : Form ρ} {P : ρ → Prop} {record : ρ} {changes : List (Json × Json)}
    (hrecord : P record)
    (hstep : ∀ r changed name value, (name, value) ∈ changes → P r →
      form.assign r name value = .ok changed → P changed) :
    P (form.after record changes) := by
  induction changes generalizing record with
  | nil => exact hrecord
  | cons change rest ih =>
    have hrest : ∀ r changed name value, (name, value) ∈ rest → P r →
        form.assign r name value = .ok changed → P changed :=
      fun r changed name value hmem => hstep r changed name value (List.mem_cons_of_mem change hmem)
    refine ih ?_ hrest
    rw [step]
    split
    · next changed hassign => exact hstep record changed _ _ List.mem_cons_self hrecord hassign
    · -- A value that is refused leaves the record as it was.
      exact hrecord

/-- Setting a private name changes nothing. -/
theorem eq_of_setPrivate {record changed : ρ} {name : Text} {value : Json}
    (h : setPrivate name value record = .ok changed) : changed = record := by
  rw [setPrivate] at h
  repeat' split at h
  all_goals cases h
  rfl

/-- A checked form changes a record by the check of one of its fields, or not at all. An invariant
of such a form is one of the checks of its fields. -/
theorem assign_checked {model : Model} {check : Json.Fields → Checked ρ}
    {fields : List (FormField ρ)} {record changed : ρ} {name value : Json}
    (h : (checked model check fields).assign record name value = .ok changed) :
    changed = record
      ∨ ∃ field ∈ fields, name = .text field.name ∧ field.set value record = .accepted changed := by
  cases name with
  | text name =>
    simp only [assign, checked] at h
    split at h
    · exact .inl (eq_of_setPrivate h)
    · split at h
      · next field hfield =>
        rw [FormField.find?] at hfield
        have hname : field.name = name := by simpa using List.find?_some hfield
        exact .inr ⟨field, List.mem_of_find?_eq_some hfield, by rw [hname],
          under_eq_accepted.mp (Checked.orFault_eq_ok.mp h)⟩
      · split at h <;> cases h
  | null | bool _ | int _ | double _ | list _ | object _ => cases h

end Form

end DesignCompiler.Schema
