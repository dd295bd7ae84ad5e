import DesignCompiler.Text.Basic

/-!
# `DesignCompiler.Schema.Issue`: complaints about unchecked values

Checking a value against a model gives either the checked value or every complaint, in the order of
the model's fields. A complaint is located by the steps that lead to it: names as they were given,
and positions in lists.

`Checked` is the result of such a check. It is applicative and not a monad: `f.both x` keeps the
complaints of both sides, those of `f` first.
-/

set_option autoImplicit false

namespace DesignCompiler.Schema

/-- What is wrong with a value. -/
inductive Complaint
  /-- A field without default is not given. -/
  | missing
  /-- Not an object where a model is expected. -/
  | notModel
  /-- A value inside too many models of its kind, whatever it is. -/
  | tooDeep
  /-- Not an object where any object will do. -/
  | notObject
  | notList
  | notTuple
  | notText
  | tooShort
  | tooLong
  | notInt
  | notNumber
  /-- A text that writes no number. -/
  | numberText
  | notBool
  /-- A whole number or text that stands for no truth value. -/
  | boolText
  /-- None of the words that the field allows. -/
  | notWord
  /-- None of the tokens of an enumeration. -/
  | notToken
  /-- The model does not allow its fields to be set. -/
  | frozen
  /-- The model has no such field. -/
  | noSuchField
  /-- A rule of the field itself, with its message. -/
  | rule (message : Text)
  deriving DecidableEq

/-- A step towards a value. -/
inductive Step
  | field (name : Text)
  | position (index : Nat)
  deriving DecidableEq

/-- A complaint and the steps that lead to the value, the outermost first. -/
structure Issue where
  complaint : Complaint
  location : List Step
  deriving DecidableEq

/-- The result of checking a value: the checked value, or every complaint about the unchecked one.
-/
inductive Checked (α : Type)
  | accepted (value : α)
  | rejected (issues : List Issue)

namespace Checked

variable {α β : Type}

/-- Applies a function to an accepted value. -/
def map (f : α → β) : Checked α → Checked β
  | .accepted value => .accepted (f value)
  | .rejected issues => .rejected issues

/-- Applies a checked function to a checked value; complaints of both are kept in order. This is why
the result is no monad: the second side is checked even if the first was rejected. -/
def both : Checked (α → β) → Checked α → Checked β
  | .accepted f, .accepted value => .accepted (f value)
  | .accepted _, .rejected issues => .rejected issues
  | .rejected issues, .accepted _ => .rejected issues
  | .rejected first, .rejected second => .rejected (first ++ second)

/-- Results of checks are mapped where they are accepted; complaints pass through. -/
instance : Functor Checked := ⟨map, map ∘ Function.const _⟩

/-- Results of checks are combined by `both`, so a record of many fields collects the complaints of
all of them. -/
instance : Applicative Checked where
  pure := .accepted
  seq f value := both f (value ())

/-- Applies a second check to an accepted value. It is for rules about one value in turn, where a
later rule makes no sense if an earlier one failed. -/
def andThen (value : Checked α) (f : α → Checked β) : Checked β :=
  match value with
  | .accepted a => f a
  | .rejected issues => .rejected issues

/-- One complaint about the value itself. -/
def refuse (complaint : Complaint) : Checked α := .rejected [⟨complaint, []⟩]

/-- Puts a step in front of the location of every complaint. -/
def under (step : Step) : Checked α → Checked α
  | .accepted value => .accepted value
  | .rejected issues =>
    .rejected (issues.map fun issue => { issue with location := step :: issue.location })

end Checked

end DesignCompiler.Schema
