import Mathlib.Algebra.Order.Ring.Int

/-!
# Fixed-width arithmetic

Checked and saturating operations, each with the equation over `Nat` or `Int` that a successful call satisfies.
-/

namespace Base

/-! ## `u64` -/

/-- `u64::checked_add`. -/
def checkedAdd (a b : UInt64) : Option UInt64 := if a.toNat + b.toNat < 2 ^ 64 then some (a + b) else none

/-- `u64::checked_sub`. -/
def checkedSub (a b : UInt64) : Option UInt64 := if b.toNat ≤ a.toNat then some (a - b) else none

/-- `u64::saturating_add`. -/
def saturatingAdd (a b : UInt64) : UInt64 := if a.toNat + b.toNat < 2 ^ 64 then a + b else UInt64.ofNat (2 ^ 64 - 1)

/-- `u64::saturating_mul` by a small constant. -/
def saturatingMul (a : UInt64) (n : Nat) : UInt64 :=
  if a.toNat * n < 2 ^ 64 then UInt64.ofNat (a.toNat * n) else UInt64.ofNat (2 ^ 64 - 1)

@[simp] theorem checkedAdd_eq_some {a b c : UInt64} :
    checkedAdd a b = some c ↔ a.toNat + b.toNat = c.toNat := by
  unfold checkedAdd
  have hc := c.toNat_lt
  split
  · rename_i h
    rw [Option.some.injEq, ← UInt64.toNat_inj, UInt64.toNat_add]
    omega
  · simp only [reduceCtorEq, false_iff]
    omega

@[simp] theorem checkedSub_eq_some {a b c : UInt64} :
    checkedSub a b = some c ↔ a.toNat = c.toNat + b.toNat := by
  unfold checkedSub
  split
  · rename_i h
    rw [Option.some.injEq, ← UInt64.toNat_inj, UInt64.toNat_sub_of_le _ _ (UInt64.le_iff_toNat_le.2 h)]
    omega
  · simp only [reduceCtorEq, false_iff]
    omega

/-- A difference that does not underflow is a `u64`. -/
theorem exists_toNat_sub {a : UInt64} {n : Nat} (h : n ≤ a.toNat) : ∃ c : UInt64, a.toNat = c.toNat + n := by
  have ha := a.toNat_lt
  refine ⟨UInt64.ofNat (a.toNat - n), ?_⟩
  rw [UInt64.toNat_ofNat_of_lt' (Nat.lt_of_le_of_lt (Nat.sub_le _ _) ha)]
  omega

theorem toNat_saturatingAdd (a b : UInt64) :
    (saturatingAdd a b).toNat = min (a.toNat + b.toNat) (2 ^ 64 - 1) := by
  have ha := a.toNat_lt
  have hb := b.toNat_lt
  unfold saturatingAdd
  split
  · rw [UInt64.toNat_add]; omega
  · rw [UInt64.toNat_ofNat_of_lt' (by decide)]; omega

theorem toNat_saturatingMul (a : UInt64) (n : Nat) :
    (saturatingMul a n).toNat = min (a.toNat * n) (2 ^ 64 - 1) := by
  unfold saturatingMul
  split
  · rename_i h
    rw [UInt64.toNat_ofNat_of_lt' h]; omega
  · rw [UInt64.toNat_ofNat_of_lt' (by decide)]; omega

/-- `(a as u128 * p / q) as u64`: the product is exact, the cast keeps the low 64 bits. -/
def mulDiv (a : UInt64) (p q : Nat) : UInt64 := UInt64.ofNat (a.toNat * p / q)

/-- The cast loses nothing when `p ≤ q`. -/
theorem toNat_mulDiv (a : UInt64) {p q : Nat} (hpq : p ≤ q) : (mulDiv a p q).toNat = a.toNat * p / q := by
  have ha := a.toNat_lt
  have h : a.toNat * p / q ≤ a.toNat := by
    apply Nat.div_le_of_le_mul
    rw [Nat.mul_comm q]
    exact Nat.mul_le_mul_left _ hpq
  exact UInt64.toNat_ofNat_of_lt' (Nat.lt_of_le_of_lt h ha)

/-! ## `u32` -/

/-- `u32::checked_add`. -/
def checkedAdd32 (a b : UInt32) : Option UInt32 := if a.toNat + b.toNat < 2 ^ 32 then some (a + b) else none

/-- `u32::saturating_add`. -/
def saturatingAdd32 (a b : UInt32) : UInt32 := if a.toNat + b.toNat < 2 ^ 32 then a + b else UInt32.ofNat (2 ^ 32 - 1)

/-- `u32::saturating_sub`. -/
def saturatingSub32 (a b : UInt32) : UInt32 := if b.toNat ≤ a.toNat then a - b else 0

@[simp] theorem checkedAdd32_eq_some {a b c : UInt32} :
    checkedAdd32 a b = some c ↔ a.toNat + b.toNat = c.toNat := by
  unfold checkedAdd32
  have hc := c.toNat_lt
  split
  · rename_i h
    rw [Option.some.injEq, ← UInt32.toNat_inj, UInt32.toNat_add]
    omega
  · simp only [reduceCtorEq, false_iff]
    omega

theorem toNat_saturatingAdd32 (a b : UInt32) :
    (saturatingAdd32 a b).toNat = min (a.toNat + b.toNat) (2 ^ 32 - 1) := by
  have ha := a.toNat_lt
  have hb := b.toNat_lt
  unfold saturatingAdd32
  split
  · rw [UInt32.toNat_add]; omega
  · rw [UInt32.toNat_ofNat_of_lt' (by decide)]; omega

theorem toNat_saturatingSub32 (a b : UInt32) : (saturatingSub32 a b).toNat = a.toNat - b.toNat := by
  unfold saturatingSub32
  split
  · rename_i h
    rw [UInt32.toNat_sub_of_le _ _ (UInt32.le_iff_toNat_le.2 h)]
  · simp only [UInt32.toNat_zero]
    omega

/-! ## `i64` -/

/-- `n` is an `i64`. -/
def InI64 (n : Int) : Prop := -2 ^ 63 ≤ n ∧ n < 2 ^ 63

instance (n : Int) : Decidable (InI64 n) := inferInstanceAs (Decidable (_ ∧ _))

/-- `i64::saturating_add`; `saturating_sub n` is `saturating_add (-n)` for the constants used. -/
def saturatingAddI64 (a : Int64) (n : Int) : Int64 :=
  Int64.ofInt (max (-2 ^ 63) (min (2 ^ 63 - 1) (a.toInt + n)))

/-- Inside the range the saturating sum is exact. -/
theorem toInt_saturatingAddI64 {a : Int64} {n : Int} (h : InI64 (a.toInt + n)) :
    (saturatingAddI64 a n).toInt = a.toInt + n := by
  obtain ⟨h1, h2⟩ := h
  have he : max (-2 ^ 63) (min (2 ^ 63 - 1) (a.toInt + n)) = a.toInt + n := by omega
  rw [saturatingAddI64, he]
  exact Int64.toInt_ofInt_of_le h1 h2

end Base
