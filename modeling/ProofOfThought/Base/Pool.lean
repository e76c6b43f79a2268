import Mathlib.Algebra.Order.BigOperators.Group.List
import Mathlib.Algebra.Order.Ring.Nat
import Mathlib.Data.List.Perm.Subperm

/-!
# Pools

Sums over the members of a list, and how they change when a member is added or replaced.
-/

namespace Base

variable {α : Type*} {f g : α → Nat} {l : List α} {a b : α} {i : Nat}

/-- The sum of `f` over the members. -/
def total (f : α → Nat) (l : List α) : Nat := (l.map f).sum

@[simp] theorem total_snoc : total f (l ++ [a]) = total f l + f a := by simp [total]

/-- A replaced member exchanges its share of the sum. -/
theorem total_set (h : l[i]? = some a) (b : α) : total f (l.set i b) + f a = total f l + f b := by
  induction l generalizing i with
  | nil => cases h
  | cons x l ih =>
    cases i with
    | zero =>
      obtain rfl : x = a := by simpa using h
      simp only [List.set_cons_zero, total, List.map_cons, List.sum_cons]
      omega
    | succ i =>
      have := ih (i := i) (by simpa using h)
      simp only [List.set_cons_succ, total, List.map_cons, List.sum_cons] at this ⊢
      omega

/-- How often a value is among the images of the members. -/
theorem count_filterMap {β : Type*} [DecidableEq β] (f : α → Option β) (b : β) :
    (l.filterMap f).count b = total (fun a => (f a).toList.count b) l := by
  induction l with
  | nil => rfl
  | cons a l ih =>
    rw [total, List.map_cons, List.sum_cons, ← total, ← ih, List.filterMap_cons]
    cases f a with
    | none => rw [Option.toList_none, List.count_nil, Nat.zero_add]
    | some c => rw [List.count_cons, Option.toList_some, List.count_singleton, Nat.add_comm]

theorem count_filterMap_set {β : Type*} [DecidableEq β] (h : l[i]? = some a) (b : α) (f : α → Option β) (c : β) :
    ((l.set i b).filterMap f).count c + (f a).toList.count c = (l.filterMap f).count c + (f b).toList.count c := by
  rw [count_filterMap, count_filterMap, total_set h]

/-- A member replaced by one with the same image. -/
theorem map_set_of_eq {β : Type*} {f : α → β} (h : l[i]? = some a) (hf : f b = f a) : (l.set i b).map f = l.map f := by
  obtain ⟨hlt, rfl⟩ := List.getElem?_eq_some_iff.1 h
  rw [List.map_set, hf, ← List.getElem_map f (h := by rwa [List.length_map]), List.set_getElem_self]

/-- Values of an attribute, of members and of what they are mapped to. -/
theorem filterMap_map_sublist {β γ : Type*} {f : α → Option β} {p : β → γ} {q : α → γ}
    (h : ∀ a b, f a = some b → p b = q a) (l : List α) : ((l.filterMap f).map p).Sublist (l.map q) := by
  induction l with
  | nil => exact .slnil
  | cons a l ih =>
    rw [List.filterMap_cons, List.map_cons]
    cases hf : f a with
    | none => exact ih.cons _
    | some b =>
      rw [List.map_cons, h a b hf]
      exact ih.cons_cons _

theorem nodup_map_of_subperm {β : Type*} {f : α → β} {l₁ l₂ : List α} (h : l₁.Subperm l₂) (hn : (l₂.map f).Nodup) :
    (l₁.map f).Nodup := by
  obtain ⟨l, hperm, hsub⟩ := h
  exact (hperm.map f).nodup_iff.1 ((hsub.map f).nodup hn)

theorem total_le (h : ∀ a ∈ l, f a ≤ g a) : total f l ≤ total g l := List.sum_le_sum h

end Base
