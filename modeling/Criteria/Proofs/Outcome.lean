import Criteria.Diagnostic

/-!
# Outcomes

An outcome is a result or a fault.

* `bind_eq_ok`, `map_eq_ok`, `bind_eq_error` take a computation in two parts to pieces;
* `IsReported` says that an outcome is no fault but one of the expression language, which is what
  `Fault.diagnostic?` has a diagnostic for;
* `Fault.unplaced`, `Agree`: faults without the places that they name, and outcomes that agree but
  for these;
* `Corresponds`: two outcomes have related results or the same fault, unless the first one is a fault
  of a certain kind.
-/

namespace Criteria

/-- The faults of the expression language: unbalanced parentheses, an evaluation that failed, a limit
that was exceeded. -/
inductive Fault.IsReported : Fault → Prop
  | unbalanced (indexes : List Int) (expression : String) : IsReported (.unbalanced indexes expression)
  | failed (failure : Failure) : IsReported (.failed failure)
  | limitExceeded (quantity : LimitedQuantity) (limit actual : Int) :
    IsReported (.limitExceeded quantity limit actual)

/-- A fault without the places that it names: of unbalanced parentheses their number is left. -/
def Fault.unplaced : Fault → Fault
  | .unbalanced indexes _ => .unbalanced (indexes.map fun _ => 0) ""
  | .failed failure => .failed { failure with tokenIndex := none, expression := none }
  | .notRecorded _ => .notRecorded 0
  | fault => fault

namespace Outcome

variable {ε α β : Type}

@[simp] theorem ok_bind (a : α) (next : α → Except ε β) : (Except.ok a >>= next) = next a := rfl

@[simp] theorem error_bind (e : ε) (next : α → Except ε β) :
    (Except.error e >>= next) = .error e := rfl

theorem bind_eq_ok {x : Except ε α} {next : α → Except ε β} {b : β} :
    x >>= next = .ok b ↔ ∃ a, x = .ok a ∧ next a = .ok b := by
  cases x with
  | error e => simp
  | ok a => simp

theorem map_eq_ok {x : Except ε α} {f : α → β} {b : β} :
    x.map f = .ok b ↔ ∃ a, x = .ok a ∧ f a = b := by
  cases x with
  | error e => simp [Except.map]
  | ok a => simp [Except.map]

theorem mapError_eq_ok {δ : Type} {x : Except ε α} {f : ε → δ} {a : α} :
    x.mapError f = .ok a ↔ x = .ok a := by
  cases x with
  | error e => exact iff_of_false nofun nofun
  | ok b =>
    constructor
    · rintro ⟨⟩
      rfl
    · rintro ⟨⟩
      rfl

theorem mapError_eq_error {δ : Type} {x : Except ε α} {f : ε → δ} {d : δ} :
    x.mapError f = .error d ↔ ∃ e, x = .error e ∧ f e = d := by
  cases x with
  | error e =>
    constructor
    · rintro ⟨⟩
      exact ⟨e, rfl, rfl⟩
    · rintro ⟨_, ⟨⟩, ⟨⟩⟩
      rfl
  | ok a =>
    constructor
    · rintro ⟨⟩
    · rintro ⟨_, ⟨⟩, -⟩

/-- A computation in two parts fails in the first part or in the second one. -/
theorem bind_eq_error {x : Except ε α} {next : α → Except ε β} {e : ε} :
    x >>= next = .error e ↔ x = .error e ∨ ∃ a, x = .ok a ∧ next a = .error e := by
  cases x with
  | error other => simp
  | ok a => simp

theorem toOption_bind (x : Except ε α) (next : α → Except ε β) :
    (x >>= next).toOption = x.toOption.bind fun a => (next a).toOption := by
  cases x with
  | error e => rfl
  | ok a => rfl

theorem toOption_mapError {δ : Type} (x : Except ε α) (f : ε → δ) :
    (x.mapError f).toOption = x.toOption := by
  cases x with
  | error e => rfl
  | ok a => rfl

/-! ### Outcomes with a diagnostic -/

/-- An outcome is no fault but one of the expression language. -/
def IsReported (outcome : Except Fault α) : Prop := ∀ fault, outcome = .error fault → fault.IsReported

theorem isReported_ok (a : α) : IsReported (.ok a) := by
  intro fault h
  cases h

theorem isReported_error {fault : Fault} (h : fault.IsReported) :
    IsReported (.error fault : Except Fault α) := by
  intro other hother
  cases hother
  exact h

/-- A computation in two parts is reported if both parts are. -/
theorem IsReported.bind {x : Except Fault α} {next : α → Except Fault β} (hx : IsReported x)
    (hnext : ∀ a, x = .ok a → IsReported (next a)) : IsReported (x >>= next) := by
  cases x with
  | error fault => exact isReported_error (hx fault rfl)
  | ok a => exact hnext a rfl

theorem IsReported.mapError {x : Except Cause α} {f : Cause → Fault}
    (h : ∀ cause, (f cause).IsReported) : IsReported (x.mapError f) := by
  cases x with
  | error cause => exact isReported_error (h cause)
  | ok a => exact isReported_ok a

/-! ### Outcomes that differ in places only -/

section Agree

variable {γ δ : Type} {R : α → β → Prop} {S : γ → δ → Prop}

/-- Two outcomes agree if the results are related, or if the faults are the same but for places. -/
inductive Agree (R : α → β → Prop) : Except Fault α → Except Fault β → Prop
  | ok {a : α} {b : β} (h : R a b) : Agree R (.ok a) (.ok b)
  | error {fault other : Fault} (h : fault.unplaced = other.unplaced) :
    Agree R (.error fault) (.error other)

theorem Agree.refl (x : Except Fault α) : Agree Eq x x := by
  cases x with
  | error fault => exact .error rfl
  | ok a => exact .ok rfl

/-- Computations in two parts agree if both parts do. -/
theorem Agree.bind {x : Except Fault α} {y : Except Fault β} {f : α → Except Fault γ}
    {g : β → Except Fault δ} (h : Agree R x y)
    (hnext : ∀ a b, x = .ok a → y = .ok b → R a b → Agree S (f a) (g b)) :
    Agree S (x >>= f) (y >>= g) := by
  cases h with
  | ok hab => exact hnext _ _ rfl rfl hab
  | error hfault => exact .error hfault

/-- An outcome has a result if one that agrees with it does. -/
theorem Agree.exists_ok {x : Except Fault α} {y : Except Fault β} {a : α} (h : Agree R x y)
    (hx : x = .ok a) : ∃ b, y = .ok b ∧ R a b := by
  cases h with
  | ok hab =>
    cases hx
    exact ⟨_, rfl, hab⟩
  | error hfault => cases hx

theorem Agree.mapError_eq {x y : Except Fault α} (h : Agree Eq x y) :
    x.mapError Fault.unplaced = y.mapError Fault.unplaced := by
  cases h with
  | ok hab => rw [hab]
  | error hfault => exact congrArg Except.error hfault

end Agree

/-! ### Outcomes that correspond -/

section Corresponds

variable {γ δ φ : Type} {R : α → β → Prop} {S : γ → δ → Prop} {stops : ε → Prop}

/-- Two outcomes correspond: the results are related or the faults are the same, unless the first one
is a fault at which it stops. -/
inductive Corresponds (stops : ε → Prop) (R : α → β → Prop) : Except ε α → Except ε β → Prop
  | ok {a : α} {b : β} (h : R a b) : Corresponds stops R (.ok a) (.ok b)
  | error (fault : ε) : Corresponds stops R (.error fault) (.error fault)
  | stop {fault : ε} (h : stops fault) (y : Except ε β) : Corresponds stops R (.error fault) y

/-- Two outcomes are related: the results are, or the faults are the same. -/
abbrev Related (R : α → β → Prop) : Except ε α → Except ε β → Prop := Corresponds (fun _ => False) R

namespace Corresponds

theorem refl {R : α → α → Prop} {x : Except ε α} (h : ∀ a, x = .ok a → R a a) :
    Corresponds stops R x x := by
  cases x with
  | error fault => exact .error fault
  | ok a => exact .ok (h a rfl)

theorem of_eq {x y : Except ε α} (h : x = y) : Corresponds stops Eq x y := h ▸ refl fun _ _ => rfl

/-- Outcomes with the same results are the same, unless the first one stops. -/
theorem eq_or {x y : Except ε α} (h : Corresponds stops Eq x y) :
    x = y ∨ ∃ fault, stops fault ∧ x = .error fault := by
  cases h with
  | ok hab => exact .inl (congrArg Except.ok hab)
  | error fault => exact .inl rfl
  | stop hstops => exact .inr ⟨_, hstops, rfl⟩

/-- An outcome has a result if it corresponds to one that has. -/
theorem exists_ok {a : α} {y : Except ε β} (h : Corresponds stops R (.ok a) y) :
    ∃ b, y = .ok b ∧ R a b := by
  cases h with
  | ok hab => exact ⟨_, rfl, hab⟩

/-- Computations in two parts correspond if both parts do. -/
theorem bind {x : Except ε α} {y : Except ε β} {f : α → Except ε γ} {g : β → Except ε δ}
    (h : Corresponds stops R x y) (hnext : ∀ a b, R a b → Corresponds stops S (f a) (g b)) :
    Corresponds stops S (x >>= f) (y >>= g) := by
  cases h with
  | ok hab => exact hnext _ _ hab
  | error fault => exact .error fault
  | stop hstops => exact .stop hstops _

theorem mapError {stops : φ → Prop} {x : Except ε α} {y : Except ε β} (h : Related R x y)
    (f : ε → φ) : Corresponds stops R (x.mapError f) (y.mapError f) := by
  cases h with
  | ok hab => exact .ok hab
  | error fault => exact .error (f fault)
  | stop hstops => exact hstops.elim

end Corresponds

end Corresponds

end Outcome

end Criteria
