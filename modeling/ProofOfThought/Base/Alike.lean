import ProofOfThought.Base.Fallible

/-!
# Two runs of one computation

`Alike R x y`: both computations fail with the same error, or both succeed with values related by `R`. The rules follow
the structure of the computation, so that two runs on related states are compared step by step.
-/

namespace Base

variable {ε α α' β β' : Type*}

/-- The same error, or related values. -/
inductive Alike (R : α → β → Prop) : Except ε α → Except ε β → Prop
  | error (e : ε) : Alike R (.error e) (.error e)
  | ok {a : α} {b : β} (h : R a b) : Alike R (.ok a) (.ok b)

namespace Alike

variable {R R' : α → β → Prop} {x : Except ε α} {y : Except ε β}

theorem refl (x : Except ε α) : Alike Eq x x := by
  cases x with
  | error e => exact .error e
  | ok a => exact .ok rfl

theorem imp (h : Alike R x y) (hR : ∀ a b, R a b → R' a b) : Alike R' x y := by
  cases h with
  | error e => exact .error e
  | ok h => exact .ok (hR _ _ h)

/-- The first parts are alike, and so are the rests on related values. -/
theorem bind {E A B A' B' : Type _} {R : A → B → Prop} {S : A' → B' → Prop} {x : Except E A} {y : Except E B}
    {f : A → Except E A'} {g : B → Except E B'} (h : Alike R x y) (hf : ∀ a b, R a b → Alike S (f a) (g b)) :
    Alike S (x >>= f) (y >>= g) := by
  cases h with
  | error e => exact .error e
  | ok h => exact hf _ _ h

/-- One first part, and rests that are alike on its value. -/
theorem seq {E A A' B' : Type _} {S : A' → B' → Prop} (x : Except E A) {f : A → Except E A'} {g : A → Except E B'}
    (hf : ∀ a, Alike S (f a) (g a)) : Alike S (x >>= f) (x >>= g) :=
  (refl x).bind fun a _ hab => hab ▸ hf a

/-! What the relation says of the outcomes. -/

theorem ok_left {a : α} (h : Alike R (.ok a) y) : ∃ b, y = .ok b ∧ R a b := by
  cases h with
  | ok h => exact ⟨_, rfl, h⟩

theorem error_left {e : ε} (h : Alike R (.error e) y) : y = .error e := by
  cases h
  rfl

end Alike

end Base
