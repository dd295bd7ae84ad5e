import DesignCompiler.Fault

/-!
# `DesignCompiler.Proofs.Outcome`: results that may be faults

Nearly every operation of the library gives an `Except Fault`. The lemmas here take a sequence of
such operations apart, so that no proof unfolds the monad: the two `simp` equations for a result
that is known, and `bind_eq_ok` and `map_eq_ok`, which say what went on before a success.

`Reports` tells faults beforehand: a result reports some flaws if the first of them is its fault, or
if there are none and it is a success of which something holds. The flaws of a sequence are those of
its parts, in order (`Reports.bind`).
-/

set_option autoImplicit false

namespace DesignCompiler.Outcome

variable {ε α β γ : Type}

/-- A sequence goes on after a success. -/
@[simp] theorem ok_bind (a : α) (f : α → Except ε β) : (Except.ok a >>= f) = f a := rfl

/-- A sequence ends at the first fault. -/
@[simp] theorem error_bind (e : ε) (f : α → Except ε β) :
    ((Except.error e : Except ε α) >>= f) = .error e := rfl

/-- The two spellings of a success. -/
@[simp] theorem pure_eq (a : α) : (pure a : Except ε α) = .ok a := rfl

/-- A success is mapped. -/
@[simp] theorem map_ok (f : α → β) (a : α) : (Except.ok a : Except ε α).map f = .ok (f a) := rfl

/-- A fault stays. -/
@[simp] theorem map_error (f : α → β) (e : ε) :
    (Except.error e : Except ε α).map f = .error e := rfl

/-- The two spellings of a sequence. -/
@[simp] theorem bind_eq (x : Except ε α) (f : α → Except ε β) : x.bind f = x >>= f := rfl

/-- A sequence succeeds when both parts do. Most proofs about a success take the sequence apart with
this, one step at a time. -/
theorem bind_eq_ok {x : Except ε α} {f : α → Except ε β} {b : β} :
    x >>= f = .ok b ↔ ∃ a, x = .ok a ∧ f a = .ok b := by
  cases x with
  | error e => simp
  | ok a => simp

/-- A mapped result is a success when the result is. -/
theorem map_eq_ok {x : Except ε α} {f : α → β} {b : β} :
    x.map f = .ok b ↔ ∃ a, x = .ok a ∧ f a = b := by
  cases x with
  | error e => simp
  | ok a => simp

/-- A success can be told from its value. Values can be compared by `decide`, faults cannot. -/
theorem toOption_eq_some {x : Except ε α} {a : α} : x.toOption = some a ↔ x = .ok a := by
  cases x <;> simp [Except.toOption]

/-- A success is known by its value. -/
theorem eq_of_toOption_eq {x y : Except ε α} (hx : x.isOk = true) (h : x.toOption = y.toOption) :
    x = y := by
  cases x with
  | error e => cases hx
  | ok a =>
    cases y with
    | error e => cases h
    | ok b =>
      cases h
      rfl

/-- What a sequence gives is mapped at its last part. -/
theorem map_bind (x : Except ε α) (f : α → Except ε β) (g : β → γ) :
    (x >>= f).map g = x >>= fun a => (f a).map g := by
  cases x <;> rfl

/-- A sequence after a mapped result reads the mapped value. -/
theorem bind_of_map (x : Except ε α) (f : α → β) (g : β → Except ε γ) :
    x.map f >>= g = x >>= fun a => g (f a) := by
  cases x <;> rfl

/-- Two maps are one. -/
theorem map_map (x : Except ε α) (f : α → β) (g : β → γ) :
    (x.map f).map g = x.map fun a => g (f a) := by
  cases x <;> rfl

/-! ### Flaws that are reported -/

/-- The first of the flaws is the fault; without flaws there is a result that has the property. The
flaws are told from the input alone, so this says exactly when the result is a fault, and which one.
-/
def Reports (flaws : List ε) (P : α → Prop) (x : Except ε α) : Prop :=
  match flaws with
  | [] => ∃ a, x = .ok a ∧ P a
  | first :: _ => x = .error first

namespace Reports

variable {x : Except ε α} {f : α → Except ε β} {flaws more : List ε} {P : α → Prop} {Q : β → Prop}

/-- A success has no flaws. -/
theorem ok {a : α} (h : P a) : Reports [] P (.ok a : Except ε α) := ⟨a, rfl, h⟩

/-- A fault is reported as the first of its flaws; those behind it are not looked at. -/
theorem error (fault : ε) (rest : List ε) (P : α → Prop) :
    Reports (fault :: rest) P (.error fault : Except ε α) := rfl

/-- The second part is looked at only if the first has no flaws. So the flaws of a sequence are
those of its parts in order, although no result ever has more than one. -/
theorem bind (hx : Reports flaws P x) (hf : flaws = [] → ∀ a, P a → Reports more Q (f a)) :
    Reports (flaws ++ more) Q (x >>= f) := by
  cases flaws with
  | nil =>
    obtain ⟨a, rfl, ha⟩ := hx
    exact hf rfl a ha
  | cons first rest =>
    have hx : x = .error first := hx
    rw [hx, error_bind]
    exact error first (rest ++ more) Q

/-- A second part without flaws adds none. -/
theorem bind_clean (hx : Reports flaws P x) (hf : flaws = [] → ∀ a, P a → Reports [] Q (f a)) :
    Reports flaws Q (x >>= f) := by
  have h := hx.bind hf
  rwa [List.append_nil] at h

/-- A first part without flaws adds none. -/
theorem clean_bind (hx : Reports [] P x) (hf : ∀ a, P a → Reports flaws Q (f a)) :
    Reports flaws Q (x >>= f) := hx.bind fun _ => hf

/-- Mapping a result adds no flaws. -/
theorem map {g : α → β} (hx : Reports flaws P x) (hg : ∀ a, P a → Q (g a)) :
    Reports flaws Q (x.map g) := by
  cases flaws with
  | nil =>
    obtain ⟨a, rfl, ha⟩ := hx
    exact ok (hg a ha)
  | cons first rest =>
    have hx : x = .error first := hx
    rw [hx, map_error]
    exact error first rest Q

/-- What is known of a result without flaws holds of every result. -/
theorem of_eq_ok {a : α} (hx : Reports flaws P x) (h : x = .ok a) : P a := by
  subst h
  cases flaws with
  | nil =>
    obtain ⟨b, hb, hP⟩ := hx
    rwa [Except.ok.inj hb]
  | cons first rest => cases hx

/-- What is known of a result may as well be where it comes from. -/
theorem eq_ok (hx : Reports flaws P x) : Reports flaws (fun a => x = .ok a) x := by
  cases flaws with
  | nil =>
    obtain ⟨a, ha, -⟩ := hx
    exact ⟨a, ha, ha⟩
  | cons first rest => exact hx

/-- A fault is the first flaw. -/
theorem eq_error_iff (hx : Reports flaws P x) {fault : ε} :
    x = .error fault ↔ flaws.head? = some fault := by
  cases flaws with
  | nil =>
    obtain ⟨a, rfl, -⟩ := hx
    simp
  | cons first rest =>
    have hx : x = .error first := hx
    simp [hx]

end Reports

end DesignCompiler.Outcome
