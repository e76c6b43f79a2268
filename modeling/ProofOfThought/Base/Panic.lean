import ProofOfThought.Base.Bytes

/-!
# Panics

Computations that may fail and may panic: a position out of range, an array of the wrong length and an overflow of a
`usize` panic. `Simulates R raw model` says that `raw` does not panic and does what `model` does, with results related
by `R`; it is proved of the parts of a computation and carried through it by `Simulates.bind`.
-/

namespace Base

/-- A computation that fails with an `ε` or panics: `none` is a panic. -/
abbrev Panicking (ε : Type) := ExceptT ε Option

namespace Panicking

variable {ε α : Type}

def abort : Panicking ε α := ExceptT.mk none

/-- `a + b` on a 64-bit `usize`, with overflow checks. -/
def usizeAdd (a b : Nat) : Panicking ε Nat := if a + b < 2 ^ 64 then pure (a + b) else abort

/-- `xs[i]`. -/
def byteAt (xs : Bytes) (i : Nat) : Panicking ε UInt8 :=
  match xs[i]? with
  | some b => pure b
  | none => abort

/-- `&xs[lo..hi]`. -/
def sliceRange (xs : Bytes) (lo hi : Nat) : Panicking ε Bytes :=
  if lo ≤ hi ∧ hi ≤ xs.length then pure ((xs.drop lo).take (hi - lo)) else abort

/-- `&xs[..hi]`. -/
def sliceTo (xs : Bytes) (hi : Nat) : Panicking ε Bytes := if hi ≤ xs.length then pure (xs.take hi) else abort

/-- `&xs[lo..]`. -/
def sliceFrom (xs : Bytes) (lo : Nat) : Panicking ε Bytes := if lo ≤ xs.length then pure (xs.drop lo) else abort

/-- `xs.split_at(mid)`. -/
def splitAt (xs : Bytes) (mid : Nat) : Panicking ε (Bytes × Bytes) :=
  if mid ≤ xs.length then pure (xs.take mid, xs.drop mid) else abort

/-- `copy_from_slice` into a new array of `n` bytes. -/
def copyFromSlice (n : Nat) (xs : Bytes) : Panicking ε (List.Vector UInt8 n) :=
  if h : xs.length = n then pure ⟨xs, h⟩ else abort

/-! In range nothing panics. -/

variable {xs : Bytes}

theorem usizeAdd_eq {a b : Nat} (h : a + b < 2 ^ 64) : (usizeAdd a b : Panicking ε Nat) = pure (a + b) := if_pos h

theorem byteAt_eq {i : Nat} (h : i < xs.length) : (byteAt xs i : Panicking ε UInt8) = pure xs[i] := by
  rw [byteAt, List.getElem?_eq_getElem h]

theorem sliceRange_eq {lo n : Nat} (h : lo + n ≤ xs.length) :
    (sliceRange xs lo (lo + n) : Panicking ε Bytes) = pure (slice xs lo n h).toList := by
  rw [sliceRange, if_pos ⟨Nat.le_add_right _ _, h⟩, Nat.add_sub_cancel_left]
  rfl

theorem sliceTo_eq {hi : Nat} (h : hi ≤ xs.length) : (sliceTo xs hi : Panicking ε Bytes) = pure (xs.take hi) :=
  if_pos h

theorem sliceFrom_eq {lo : Nat} (h : lo ≤ xs.length) : (sliceFrom xs lo : Panicking ε Bytes) = pure (xs.drop lo) :=
  if_pos h

theorem splitAt_eq {mid : Nat} (h : mid ≤ xs.length) :
    (splitAt xs mid : Panicking ε (Bytes × Bytes)) = pure (xs.take mid, xs.drop mid) := if_pos h

theorem copyFromSlice_toList {n : Nat} (v : List.Vector UInt8 n) :
    (copyFromSlice n v.toList : Panicking ε (List.Vector UInt8 n)) = pure v :=
  dif_pos v.toList_length

end Panicking

/-! ## Simulation -/

section Simulation

variable {ε α β γ δ : Type} {R : α → β → Prop} {Q : γ → δ → Prop}

/-- `raw` does not panic, and ends as `model` does. -/
inductive Simulates (R : α → β → Prop) : Panicking ε α → Except ε β → Prop
  | ok {a : α} {b : β} : R a b → Simulates R (pure a) (.ok b)
  | error (e : ε) : Simulates R (throw e) (.error e)

theorem Simulates.bind {x : Panicking ε α} {y : Except ε β} {f : α → Panicking ε γ} {g : β → Except ε δ}
    (h : Simulates R x y) (hfg : ∀ a b, R a b → Simulates Q (f a) (g b)) : Simulates Q (x >>= f) (y >>= g) := by
  cases h with
  | ok hab => exact hfg _ _ hab
  | error e => exact .error e

/-- A model that only maps the value. -/
theorem Simulates.map {x : Panicking ε α} {y : Except ε β} {f : α → Panicking ε γ} {g : β → δ}
    (h : Simulates R x y) (hfg : ∀ a b, R a b → Simulates Q (f a) (.ok (g b))) : Simulates Q (x >>= f) (y.map g) := by
  cases h with
  | ok hab => exact hfg _ _ hab
  | error e => exact .error e

/-- One check on both sides. -/
theorem Simulates.ite {c : Prop} [Decidable c] {x x' : Panicking ε α} {y y' : Except ε β} (h : c → Simulates R x y)
    (h' : ¬c → Simulates R x' y') : Simulates R (if c then x else x') (if c then y else y') := by
  split
  · exact h ‹_›
  · exact h' ‹_›

/-- **What simulates does not panic**, and has the result of the model. -/
theorem Simulates.run_eq {x : Panicking ε α} {y : Except ε α} (h : Simulates Eq x y) : x.run = some y := by
  cases h with
  | ok hab =>
    subst hab
    rfl
  | error e => rfl

end Simulation

end Base
