import Mathlib.Data.List.Basic

/-!
# Reading integers from text

`Number.parseInt` on the UTF-16 code units of a string, for a radix from 2 to 36. Whitespace in front is skipped, one
sign is taken, `0x` is skipped in radix 16, and then the digits are read up to the first unit that is none. It is not a
number only where there is no digit at all.
-/

namespace Base

/-- `WhiteSpace` and `LineTerminator` of ECMAScript. -/
def isStrWhiteSpace (u : UInt16) : Bool :=
  (0x9 ≤ u && u ≤ 0xD) || u = 0x20 || u = 0xA0 || u = 0x1680 || (0x2000 ≤ u && u ≤ 0x200A) || u = 0x2028 ||
    u = 0x2029 || u = 0x202F || u = 0x205F || u = 0x3000 || u = 0xFEFF

/-- The value of a digit or letter. -/
def alphanumeric (u : UInt16) : Option Nat :=
  if 0x30 ≤ u.toNat ∧ u.toNat ≤ 0x39 then some (u.toNat - 0x30)
  else if 0x41 ≤ u.toNat ∧ u.toNat ≤ 0x5A then some (u.toNat - 0x41 + 10)
  else if 0x61 ≤ u.toNat ∧ u.toNat ≤ 0x7A then some (u.toNat - 0x61 + 10)
  else none

/-- The value of a digit of the radix. -/
def digit (radix : Nat) (u : UInt16) : Option Nat := (alphanumeric u).filter (· < radix)

/-- The digits up to the first unit that is none. -/
def digitPrefix (radix : Nat) : List UInt16 → List Nat
  | [] => []
  | u :: s =>
    match digit radix u with
    | some d => d :: digitPrefix radix s
    | none => []

def ofDigits (radix : Nat) (ds : List Nat) : Nat := ds.foldl (fun n d => n * radix + d) 0

/-- `0x` or `0X` stands in front. -/
def hasHexPrefix (s : List UInt16) : Bool := s.take 2 = [0x30, 0x78] || s.take 2 = [0x30, 0x58]

/-- The number behind the sign. -/
def magnitude (radix : Nat) (s : List UInt16) : Option Nat :=
  match digitPrefix radix (if radix = 16 ∧ hasHexPrefix s then s.drop 2 else s) with
  | [] => none
  | ds => some (ofDigits radix ds)

/-- `Number.parseInt`, or `none` for `NaN`. -/
def parseInt (radix : Nat) (s : List UInt16) : Option Int :=
  match s.dropWhile isStrWhiteSpace with
  | 0x2B :: s => (magnitude radix s).map Int.ofNat
  | 0x2D :: s => (magnitude radix s).map fun n => -Int.ofNat n
  | s => (magnitude radix s).map Int.ofNat

variable {radix d : Nat} {u v : UInt16} {s : List UInt16}

/-! ## Digits -/

theorem digit_eq_some : digit radix u = some d ↔ alphanumeric u = some d ∧ d < radix := by
  simp [digit, Option.filter_eq_some_iff]

theorem alphanumeric_bounds (h : alphanumeric u = some d) : 0x30 ≤ u.toNat ∧ u.toNat ≤ 0x7A := by
  unfold alphanumeric at h
  split_ifs at h <;> omega

/-- A digit is neither whitespace nor a sign. -/
theorem not_whitespace_of_digit (h : digit radix u = some d) : isStrWhiteSpace u = false := by
  have hu := alphanumeric_bounds (digit_eq_some.1 h).1
  simp [isStrWhiteSpace, UInt16.le_iff_toNat_le, ← UInt16.toNat_inj]
  omega

theorem ne_of_digit (h : digit radix u = some d) : u ≠ 0x2B ∧ u ≠ 0x2D := by
  have hu := alphanumeric_bounds (digit_eq_some.1 h).1
  constructor
  · rintro rfl
    exact absurd hu (by decide)
  · rintro rfl
    exact absurd hu (by decide)

theorem digitPrefix_cons (h : digit radix u = some d) : digitPrefix radix (u :: s) = d :: digitPrefix radix s := by
  rw [digitPrefix, h]

theorem digitPrefix_cons_none (h : digit radix u = none) : digitPrefix radix (u :: s) = [] := by
  rw [digitPrefix, h]

/-! ## Numbers -/

@[simp] theorem hasHexPrefix_nil : hasHexPrefix [] = false := rfl

@[simp] theorem hasHexPrefix_single : hasHexPrefix [u] = false := by
  simp [hasHexPrefix]

@[simp] theorem hasHexPrefix_cons : hasHexPrefix (u :: v :: s) = true ↔ u = 0x30 ∧ (v = 0x78 ∨ v = 0x58) := by
  simp [hasHexPrefix, and_or_left]

theorem magnitude_nil : magnitude radix [] = none := by
  simp [magnitude, digitPrefix]

/-- A number starts with a digit. -/
theorem magnitude_none (h : digit radix u = none) : magnitude radix (u :: s) = none := by
  have hx : ¬(radix = 16 ∧ hasHexPrefix (u :: s) = true) := by
    rintro ⟨rfl, hx⟩
    cases s with
    | nil => simp at hx
    | cons v s =>
      obtain ⟨rfl, -⟩ := hasHexPrefix_cons.1 hx
      exact absurd h (by decide)
  rw [magnitude, if_neg hx, digitPrefix_cons_none h]

/-- A number is read from its first digit on. -/
theorem magnitude_digit (h : digit radix u = some d) (hx : hasHexPrefix (u :: s) = false) :
    magnitude radix (u :: s) = some (ofDigits radix (d :: digitPrefix radix s)) := by
  simp [magnitude, hx, digitPrefix_cons h]

theorem parseInt_nil : parseInt radix [] = none := by
  simp [parseInt, magnitude_nil]

/-- A string that starts with a digit has no sign. -/
theorem parseInt_digit (h : digit radix u = some d) :
    parseInt radix (u :: s) = (magnitude radix (u :: s)).map Int.ofNat := by
  obtain ⟨hp, hm⟩ := ne_of_digit h
  rw [parseInt, List.dropWhile_cons_of_neg (by simp [not_whitespace_of_digit h])]
  split <;> simp_all

/-- What may stand in front of the digits. -/
theorem parseInt_cons (h : digit radix u = none) : parseInt radix (u :: s) =
    if isStrWhiteSpace u = true then parseInt radix s
    else if u = 0x2B then (magnitude radix s).map Int.ofNat
    else if u = 0x2D then (magnitude radix s).map fun n => -Int.ofNat n
    else none := by
  split_ifs with hw hp hm
  · rw [parseInt, List.dropWhile_cons_of_pos hw, parseInt]
  · subst hp
    rfl
  · subst hm
    rfl
  · rw [parseInt, List.dropWhile_cons_of_neg hw]
    split <;> simp_all [magnitude_none]

end Base
