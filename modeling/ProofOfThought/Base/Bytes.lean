import Mathlib.Data.Vector.Basic
import ProofOfThought.Base.Fallible

/-!
# Bytes on the wire

Slices in range, little-endian integers, UTF-8 text, and readers.

A reader works on a state `S` with some bytes left to read; `Reads f enc P` says that `f` reads what `enc` writes, for
the values `P`, and nothing else. It is proved of the parts of a format once, and the format follows by `Reads.map`
and by taking the parts one after the other.
-/

namespace Base

abbrev Bytes := List UInt8

/-- `&xs[off..off + n]`. -/
def slice (xs : Bytes) (off n : Nat) (h : off + n ≤ xs.length) : List.Vector UInt8 n :=
  ⟨(xs.drop off).take n, by simp only [List.length_take, List.length_drop]; omega⟩

/-- A slice is what stands between what precedes it and what follows it. -/
theorem slice_append {n off : Nat} {pre : Bytes} (ho : pre.length = off) (v : List.Vector UInt8 n) (post : Bytes) (h) :
    slice (pre ++ (v.toList ++ post)) off n h = v := by
  subst ho
  apply List.Vector.toList_injective
  show ((pre ++ (v.toList ++ post)).drop pre.length).take n = v.toList
  rw [List.drop_left, List.take_left' (List.Vector.toList_length v)]

theorem toList_slice_append_drop (xs : Bytes) (off n : Nat) (h : off + n ≤ xs.length) :
    (slice xs off n h).toList ++ xs.drop (off + n) = xs.drop off := by
  rw [← List.drop_drop]
  exact List.take_append_drop n (xs.drop off)

/-! ## Little-endian integers -/

/-- The `w` low bytes of `n`. -/
def leBytes : Nat → Nat → Bytes
  | 0, _ => []
  | w + 1, n => UInt8.ofNat n :: leBytes w (n / 256)

/-- `from_le_bytes`. -/
def ofLe : Bytes → Nat
  | [] => 0
  | b :: bs => b.toNat + 256 * ofLe bs

@[simp] theorem length_leBytes (w n : Nat) : (leBytes w n).length = w := by
  induction w generalizing n with
  | zero => rfl
  | succ w ih => simp [leBytes, ih]

theorem leBytes_eq_map (w n : Nat) : leBytes w n = (List.range w).map fun j => UInt8.ofNat (n / 256 ^ j) := by
  induction w generalizing n with
  | zero => rfl
  | succ w ih =>
    rw [leBytes, ih, List.range_succ_eq_map, List.map_cons, List.map_map, Nat.pow_zero, Nat.div_one]
    refine congrArg _ (List.map_congr_left fun j _ => ?_)
    rw [Nat.div_div_eq_div_mul, Function.comp_apply, Nat.pow_succ']

theorem ofLe_lt (bs : Bytes) : ofLe bs < 256 ^ bs.length := by
  induction bs with
  | nil => simp [ofLe]
  | cons b bs ih =>
    have hb := b.toNat_lt
    rw [ofLe, List.length_cons, Nat.pow_succ]
    omega

theorem ofLe_leBytes {w n : Nat} (h : n < 256 ^ w) : ofLe (leBytes w n) = n := by
  induction w generalizing n with
  | zero => simp at h; simp [leBytes, ofLe, h]
  | succ w ih =>
    rw [Nat.pow_succ, Nat.mul_comm] at h
    rw [leBytes, ofLe, ih (Nat.div_lt_of_lt_mul h), UInt8.toNat_ofNat']
    omega

theorem leBytes_ofLe (bs : Bytes) : leBytes bs.length (ofLe bs) = bs := by
  induction bs with
  | nil => rfl
  | cons b bs ih =>
    have hb := b.toNat_lt
    have h1 : (b.toNat + 256 * ofLe bs) / 256 = ofLe bs := by omega
    have h2 : UInt8.ofNat (b.toNat + 256 * ofLe bs) = b := by
      apply UInt8.toNat_inj.1
      rw [UInt8.toNat_ofNat']
      omega
    rw [ofLe, List.length_cons, leBytes, h1, h2, ih]

theorem ofLe_toList_lt {w : Nat} (v : List.Vector UInt8 w) : ofLe v.toList < 256 ^ w := by
  have h := ofLe_lt v.toList
  rwa [List.Vector.toList_length] at h

theorem leBytes_ofLe_toList {w : Nat} (v : List.Vector UInt8 w) : leBytes w (ofLe v.toList) = v.toList := by
  have h := leBytes_ofLe v.toList
  rwa [List.Vector.toList_length] at h

/-! ## UTF-8 -/

/-- `str::as_bytes`. -/
def utf8 (s : String) : Bytes := s.toByteArray.data.toList

/-- `str::from_utf8`. -/
def fromUtf8 (bs : Bytes) : Option String := String.fromUTF8? ⟨bs.toArray⟩

theorem utf8_inj {s t : String} (h : utf8 s = utf8 t) : s = t := by
  apply String.toByteArray_inj.1
  apply ByteArray.ext
  exact Array.toList_inj.1 h

theorem fromUtf8_eq_some {bs : Bytes} {s : String} : fromUtf8 bs = some s ↔ bs = utf8 s := by
  unfold fromUtf8 String.fromUTF8?
  split
  · rename_i h
    rw [Option.some.injEq]
    constructor
    · rintro rfl
      rfl
    · rintro rfl
      exact utf8_inj rfl
  · rename_i h
    simp only [reduceCtorEq, false_iff]
    rintro rfl
    exact h s.isValidUTF8

/-! ## Readers -/

section Readers

variable {ε α β S : Type*}

/-- `f` reads what `enc` writes for the values `P`, leaving the rest, and succeeds on nothing else. -/
def Reads (rest : S → Bytes) (f : S → Except ε (α × S)) (enc : α → Bytes) (P : α → Prop) : Prop :=
  ∀ s a bs, (∃ s', f s = .ok (a, s') ∧ rest s' = bs) ↔ P a ∧ rest s = enc a ++ bs

variable {rest : S → Bytes} {f : S → Except ε (α × S)} {enc : α → Bytes} {P : α → Prop} {s s' : S} {a : α}
  {bs : Bytes}

theorem Reads.sound (h : Reads rest f enc P) (hf : f s = .ok (a, s')) : P a ∧ rest s = enc a ++ rest s' :=
  (h s a (rest s')).1 ⟨s', hf, rfl⟩

theorem Reads.complete (h : Reads rest f enc P) (ha : P a) (hs : rest s = enc a ++ bs) :
    ∃ s', f s = .ok (a, s') ∧ rest s' = bs :=
  (h s a bs).2 ⟨ha, hs⟩

/-- A reader followed by a conversion that loses nothing. -/
theorem Reads.map (h : Reads rest f enc P) {enc' : β → Bytes} {Q : β → Prop} (g : α → β)
    (hg : ∀ a, P a → Q (g a) ∧ enc' (g a) = enc a) (hs : ∀ b, Q b → ∃ a, P a ∧ g a = b) :
    Reads rest (fun s => (f s).map fun r => (g r.1, r.2)) enc' Q := by
  intro s b bs
  constructor
  · intro hx
    rcases hx with ⟨s', hf, rfl⟩
    cases hr : f s with
    | error e => simp [hr, Except.map] at hf
    | ok r =>
      obtain ⟨a, s''⟩ := r
      simp only [hr, Except.map, Except.ok.injEq, Prod.mk.injEq] at hf
      obtain ⟨rfl, rfl⟩ := hf
      obtain ⟨ha, he⟩ := h.sound hr
      exact ⟨(hg a ha).1, by rw [he, (hg a ha).2]⟩
  · intro hy
    rcases hy with ⟨hb, he⟩
    obtain ⟨a, ha, rfl⟩ := hs b hb
    rw [(hg a ha).2] at he
    obtain ⟨s', hf, hr⟩ := h.complete ha he
    exact ⟨s', by simp only [hf, Except.map], hr⟩

end Readers

end Base
