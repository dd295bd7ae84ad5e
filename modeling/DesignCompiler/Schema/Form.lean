import DesignCompiler.Fault
import DesignCompiler.Schema.Leaf

/-!
# `DesignCompiler.Schema.Form`: records that are checked as a whole and changed field by field

A `Form` says how a record of some type is read from JSON, how one of its fields is set, and how it
is shown. There are three rules for setting a field: the new value is checked like the first one
(`checked`), is taken as it is (`unchecked`), or is refused (`frozen`). A refused value leaves the
record alone.

Some names are no fields of any form. Those that start with an underscore are private, and setting
one does nothing unless `setPrivate` refuses it; `readOnlyNames` tell about the record itself.

`Form.history` reads a record and sets fields of it one after the other.
-/

set_option autoImplicit false

namespace DesignCompiler.Schema

/-- A field of a record of the type `ρ`. -/
structure FormField (ρ : Type) where
  name : Text
  /-- The record with a new value for the field, if the value is fit. -/
  set : Json → ρ → Checked ρ
  value : ρ → Json

/-- How records of the type `ρ` are read, changed and shown. A form is a value, so what holds of
every form is stated and proved once. -/
structure Form (ρ : Type) where
  model : Model
  check : Json.Fields → Checked ρ
  set : Text → Json → ρ → Except Fault ρ
  toJson : ρ → Json

/-- A checked value, or the fault that lists the complaints. -/
def Checked.orFault {α : Type} (model : Model) : Checked α → Except Fault α
  | .accepted value => .ok value
  | .rejected issues => .error (.invalid model issues)

namespace FormField

variable {ρ : Type}

/-- The field with a name. -/
def find? (fields : List (FormField ρ)) (name : Text) : Option (FormField ρ) :=
  fields.find? fun field => field.name = name

/-- The fields of a record as an object. -/
def toJson (fields : List (FormField ρ)) (record : ρ) : Json :=
  .object (fields.map fun field => (field.name, field.value record))

end FormField

namespace Form

variable {ρ : Type}

/-- The names under which every record that can change tells about itself. -/
def readOnlyNames : List Text := ["model_extra".toList, "model_fields_set".toList]

/-- Whether a name is no matter of any form. -/
def isPrivate (name : Text) : Bool := name.head? = some '_'

/-- The private names that can only be looked at. -/
def readOnlyPrivateNames : List Text :=
  ["__fields_set__".toList, "__weakref__".toList, "__class_vars__".toList,
   "__private_attributes__".toList, "__signature__".toList]

/-- Sets a private name, which leaves the fields of a record alone. -/
def setPrivate {α : Type} (name : Text) (value : Json) (record : α) : Except Fault α :=
  if name ∈ readOnlyPrivateNames then .error (.readOnly name)
  -- No value is the kind of a record, and only an object can hold what a record holds.
  else if name = "__class__".toList then .error (.unfitFor name value.kind)
  else if name = "__dict__".toList ∧ value.kind ≠ .object then .error (.unfitFor name value.kind)
  else .ok record

/-- A form whose fields are checked when they are set. A refused value is told with the name of the
field as its place. -/
def checked (model : Model) (check : Json.Fields → Checked ρ) (fields : List (FormField ρ)) :
    Form ρ where
  model
  check
  set name value record :=
    match FormField.find? fields name with
    | some field => ((field.set value record).under (.field name)).orFault model
    | none =>
      if name ∈ readOnlyNames then .error (.readOnly name)
      else .error (.invalid model [⟨.noSuchField, [.field name]⟩])
  toJson := FormField.toJson fields

/-- A form whose fields take any value once the record has been read. It is for records whose users
check the values themselves. -/
def unchecked (model : Model) (check : Json.Fields → Checked ρ) (fields : List (FormField ρ)) :
    Form ρ where
  model
  check
  set name value record :=
    match FormField.find? fields name with
    | some field => (field.set value record).orFault model
    | none =>
      if name ∈ readOnlyNames then .error (.readOnly name) else .error (.noSuchField model name)
  toJson := FormField.toJson fields

/-- A form whose fields cannot be set, under any name. -/
def frozen (model : Model) (check : Json.Fields → Checked ρ) (toJson : ρ → Json) : Form ρ where
  model
  check
  set name _ _ := .error (.invalid model [⟨.frozen, [.field name]⟩])
  toJson

/-- The record that a value describes. -/
def create (form : Form ρ) (value : Json) : Except Fault ρ :=
  match value with
  | .object fields => (form.check fields).orFault form.model
  | _ => .error (.invalid form.model [⟨.notModel, []⟩])

/-- The record with a field set. The name is as unchecked as the value; private names are settled
before the form is asked. -/
def assign (form : Form ρ) (record : ρ) (name value : Json) : Except Fault ρ :=
  match name with
  | .text name =>
    if isPrivate name then setPrivate name value record else form.set name value record
  | _ => .error (.nameNotText name.kind)

/-- The outcomes of setting fields of a record one after the other: the fault, if there is one, and
the record after it. A refused change does not end the list. -/
def assignAll (form : Form ρ) (record : ρ) : List (Json × Json) → List (Option Fault × Json)
  | [] => []
  | (name, value) :: rest =>
    match form.assign record name value with
    | .ok changed => (none, form.toJson changed) :: assignAll form changed rest
    | .error fault => (some fault, form.toJson record) :: assignAll form record rest

/-- A record as it was read, and the outcomes of setting fields of it. -/
def history (form : Form ρ) (value : Json) (changes : List (Json × Json)) :
    Except Fault (List (Option Fault × Json)) :=
  (form.create value).map fun record =>
    (none, form.toJson record) :: form.assignAll record changes

end Form

end DesignCompiler.Schema
