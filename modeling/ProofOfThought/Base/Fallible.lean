import Mathlib.Tactic.SplitIfs

/-!
# Fallible computations

Inversion of successful computations in `Except`: a successful sequence is a sequence of successes, and a check that
passed held.
-/

namespace Base

variable {ε α β : Type*}

/-- Fail with `e` unless `c`. -/
def require (c : Prop) [Decidable c] (e : ε) : Except ε Unit := if c then .ok () else .error e

/-- The value, or fail with `e`. -/
def okOr (o : Option α) (e : ε) : Except ε α :=
  match o with
  | some a => .ok a
  | none => .error e

/-- A sequence succeeds when its first part does and the rest does on the value of the first. -/
@[simp] theorem seq_ok_iff {E A B : Type _} {first : Except E A} {rest : A → Except E B} {b : B} :
    first >>= rest = .ok b ↔ ∃ a, first = .ok a ∧ rest a = .ok b := by
  cases first <;> simp [bind, Except.bind]

@[simp] theorem pure_ok_iff {E A : Type _} {a b : A} : (pure a : Except E A) = .ok b ↔ a = b := by
  rw [pure, Applicative.toPure, Monad.toApplicative]
  exact ⟨Except.ok.inj, congrArg _⟩

@[simp] theorem require_eq_ok {c : Prop} [Decidable c] {e : ε} {u : Unit} : require c e = .ok u ↔ c := by
  unfold require
  split <;> simp_all

/-- A guard that fails comes before what it guards. -/
theorem ite_error_eq_ok {c : Prop} [Decidable c] {e : ε} {x : Except ε α} {a : α} :
    (if c then .error e else x) = .ok a ↔ ¬c ∧ x = .ok a := by
  split_ifs with h <;> simp [h]

@[simp] theorem okOr_eq_ok {o : Option α} {e : ε} {a : α} : okOr o e = .ok a ↔ o = some a := by
  cases o <;> simp [okOr]

theorem map_eq_ok {x : Except ε α} {f : α → β} {b : β} : x.map f = .ok b ↔ ∃ a, x = .ok a ∧ f a = b := by
  cases x <;> simp [Except.map]

@[simp] theorem mapError_eq_ok {ε' : Type*} {x : Except ε α} {f : ε → ε'} {a : α} :
    x.mapError f = .ok a ↔ x = .ok a := by
  cases x with
  | error e =>
    show Except.error (f e) = .ok a ↔ Except.error e = .ok a
    simp only [reduceCtorEq]
  | ok b =>
    show (Except.ok b : Except ε' α) = .ok a ↔ Except.ok b = .ok a
    simp only [Except.ok.injEq]

@[simp] theorem toOption_eq_some {x : Except ε α} {a : α} : x.toOption = some a ↔ x = .ok a := by
  cases x <;> simp [Except.toOption]

/-- A computed success. -/
theorem exists_eq_ok {x : Except ε α} (h : x.toOption.isSome = true) : ∃ a, x = .ok a := by
  cases x with
  | ok a => exact ⟨a, rfl⟩
  | error _ => cases h

/-! Where a computation failed. -/

@[simp] theorem seq_error_iff {E A B : Type _} {first : Except E A} {rest : A → Except E B} {e : E} :
    first >>= rest = .error e ↔ first = .error e ∨ ∃ a, first = .ok a ∧ rest a = .error e := by
  cases first <;> simp [bind, Except.bind]

@[simp] theorem pure_error_iff {E A : Type _} {a : A} {e : E} : (pure a : Except E A) = .error e ↔ False := by
  simp [pure, Except.pure]

@[simp] theorem require_eq_error {c : Prop} [Decidable c] {e e' : ε} : require c e = .error e' ↔ ¬c ∧ e = e' := by
  unfold require
  split <;> simp_all

@[simp] theorem okOr_eq_error {o : Option α} {e e' : ε} : okOr o e = .error e' ↔ o = none ∧ e = e' := by
  cases o <;> simp [okOr]

end Base
