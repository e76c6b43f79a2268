import Mathlib.Algebra.BigOperators.Group.Finset.Piecewise
import Mathlib.Algebra.BigOperators.Group.List.Basic
import Mathlib.Algebra.Order.Ring.Nat
import Mathlib.Logic.Function.Basic

/-!
# Ledgers

Balances over any type of holders, and moving an amount from one holder to another. A holder other than the source
never loses by a move; the source loses at most the amount, and nothing when it pays itself.

A list of payments is made in order. When each finds its amount, every holder ends with what it had, less what it paid
and plus what it was paid (`pay_balance`), whichever holders coincide.
-/

namespace Base

variable {K : Type*} [DecidableEq K]

/-- Balances. -/
abbrev Ledger (K : Type*) := K → Nat

/-- Move `n` from `src` to `dst`: debit, then credit. -/
def Ledger.move (L : Ledger K) (src dst : K) (n : Nat) : Ledger K :=
  let L' := Function.update L src (L src - n)
  Function.update L' dst (L' dst + n)

variable {L : Ledger K} {src dst k : K} {n : Nat}

theorem move_apply (L : Ledger K) (src dst : K) (n : Nat) (k : K) :
    L.move src dst n k =
      if k = dst then (if dst = src then L src - n else L dst) + n else if k = src then L src - n else L k := by
  simp only [Ledger.move, Function.update_apply]

/-- A holder other than the source gains what is sent to it. -/
theorem move_gain (hs : k ≠ src) : L.move src dst n k = L k + if dst = k then n else 0 := by
  rw [move_apply, if_neg hs]
  by_cases hd : k = dst
  · rw [if_pos hd, if_pos hd.symm, if_neg (hd ▸ hs), hd]
  · rw [if_neg hd, if_neg (Ne.symm hd), Nat.add_zero]

/-- The source spends the amount, unless it pays itself. -/
theorem move_spend (dst : K) (hn : n ≤ L src) : L.move src dst n src + n = L src + if dst = src then n else 0 := by
  rw [move_apply, if_pos rfl]
  by_cases hd : dst = src
  · rw [if_pos hd.symm, if_pos hd, if_pos hd]; omega
  · rw [if_neg (Ne.symm hd), if_neg hd]; omega

/-- Moving nothing changes nothing. -/
theorem move_zero (L : Ledger K) (src dst : K) : L.move src dst 0 = L := by
  funext k
  rw [move_apply]
  split_ifs <;> simp_all

/-- Only the source can lose. -/
theorem le_move (hs : k ≠ src) : L k ≤ L.move src dst n k := by
  rw [move_gain hs]
  exact Nat.le_add_right _ _

/-- A holder that neither pays nor is paid keeps its balance. -/
theorem move_of_ne (hs : k ≠ src) (hd : k ≠ dst) : L.move src dst n k = L k := by
  rw [move_gain hs, if_neg hd.symm, Nat.add_zero]

/-- Debit and credit at every holder. -/
theorem move_balance (dst : K) (hn : n ≤ L src) (k : K) :
    L.move src dst n k + (if src = k then n else 0) = L k + if dst = k then n else 0 := by
  by_cases hs : src = k
  · subst hs
    rw [if_pos rfl]
    exact move_spend dst hn
  · rw [if_neg hs, Nat.add_zero]
    exact move_gain (Ne.symm hs)

/-- **Conservation.** A move inside a finite set keeps its total. -/
theorem sum_move {S : Finset K} (hs : src ∈ S) (hd : dst ∈ S) (hn : n ≤ L src) :
    ∑ k ∈ S, L.move src dst n k = ∑ k ∈ S, L k := by
  have hbalance := Finset.sum_congr rfl fun k (_ : k ∈ S) => move_balance dst hn k
  rw [Finset.sum_add_distrib, Finset.sum_add_distrib, Finset.sum_ite_eq, Finset.sum_ite_eq, if_pos hs,
    if_pos hd] at hbalance
  exact Nat.add_right_cancel hbalance

/-! ## Lists of payments -/

structure Payment (K : Type*) where
  src : K
  dst : K
  amount : Nat

/-- The payments made in order. -/
def Ledger.pay (L : Ledger K) (ps : List (Payment K)) : Ledger K := ps.foldl (fun L p => L.move p.src p.dst p.amount) L

/-- Each payment finds its amount. -/
def Ledger.Covers : Ledger K → List (Payment K) → Prop
  | _, [] => True
  | L, p :: ps => p.amount ≤ L p.src ∧ (L.move p.src p.dst p.amount).Covers ps

/-- What `k` pays. -/
def paidBy (ps : List (Payment K)) (k : K) : Nat := (ps.map fun p => if p.src = k then p.amount else 0).sum

/-- What `k` is paid. -/
def paidTo (ps : List (Payment K)) (k : K) : Nat := (ps.map fun p => if p.dst = k then p.amount else 0).sum

/-- **The balance of every holder after the payments.** -/
theorem pay_balance : ∀ {ps : List (Payment K)} {L : Ledger K}, L.Covers ps → ∀ k,
    L.pay ps k + paidBy ps k = L k + paidTo ps k
  | [], _, _, _ => rfl
  | p :: ps, L, h, k => by
    have hp := move_balance p.dst h.1 k
    have hrest := pay_balance h.2 k
    simp only [Ledger.pay, List.foldl_cons, paidBy, paidTo, List.map_cons, List.sum_cons] at hrest ⊢
    omega

end Base
