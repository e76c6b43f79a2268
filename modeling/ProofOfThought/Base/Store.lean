import Mathlib.Data.Set.Card
import ProofOfThought.Base.Run

/-!
# Stores

Partial maps from addresses to values, written one entry at a time.

- `AllOf m P`: every entry satisfies `P`; kept by a write that satisfies it;
- `Evolves R m m'`: every entry of `m` is still there in `m'`, related by `R`; one write, and then whole runs;
- `Untouched P m m'`: both have the same entries that satisfy `P`;
- `readOr f m k`: a number read off an entry, or zero;
- `census m P`: the addresses whose entry satisfies `P`, and how a write changes their number (`encard_census_write`).
-/

namespace Base

variable {K V : Type*} {m m' m'' : K → Option V} {P Q : K → V → Prop} {R : V → V → Prop} {k : K} {v w : V}

/-- Every entry satisfies `P`. -/
def AllOf (m : K → Option V) (P : K → V → Prop) : Prop := ∀ k v, m k = some v → P k v

/-- Every entry of `m` is an entry of `m'`, related by `R`. -/
def Evolves (R : V → V → Prop) (m m' : K → Option V) : Prop := ∀ k v, m k = some v → ∃ v', m' k = some v' ∧ R v v'

theorem AllOf.empty : AllOf (fun _ : K => (none : Option V)) P := nofun

theorem AllOf.imp (h : AllOf m P) (hPQ : ∀ k v, P k v → Q k v) : AllOf m Q := fun k v hv => hPQ k v (h k v hv)

theorem Evolves.refl [Std.Refl R] (m : K → Option V) : Evolves R m m := fun _ v hv => ⟨v, hv, Std.Refl.refl v⟩

theorem Evolves.trans [IsTrans V R] (h : Evolves R m m') (h' : Evolves R m' m'') : Evolves R m m'' := by
  intro k v hv
  obtain ⟨v', hv', hR⟩ := h k v hv
  obtain ⟨v'', hv'', hR'⟩ := h' k v' hv'
  exact ⟨v'', hv'', IsTrans.trans _ _ _ hR hR'⟩

section Write

variable [DecidableEq K]

/-- A write changes the entry it writes and no other. -/
theorem write_eq_some {k' : K} :
    Function.update m k (some w) k' = some v ↔ k' = k ∧ w = v ∨ k' ≠ k ∧ m k' = some v := by
  rw [Function.update_apply]
  split
  · simp_all
  · simp_all

/-- What the other entries satisfy is enough. -/
theorem AllOf.write_of_ne (h : ∀ k' v, k' ≠ k → m k' = some v → P k' v) (hw : P k w) :
    AllOf (Function.update m k (some w)) P := by
  intro k' v hv
  rcases write_eq_some.1 hv with ⟨rfl, rfl⟩ | ⟨hne, hv⟩
  · exact hw
  · exact h k' v hne hv

theorem AllOf.write (h : AllOf m P) (hw : P k w) : AllOf (Function.update m k (some w)) P :=
  .write_of_ne (fun k' v _ hv => h k' v hv) hw

/-- A write over an entry that satisfied `P`. -/
theorem AllOf.rewrite (h : AllOf m P) (hk : m k = some v) (hvw : P k v → P k w) :
    AllOf (Function.update m k (some w)) P := h.write (hvw (h k v hk))

/-- A fresh entry disturbs none. -/
theorem Evolves.insert [Std.Refl R] (hk : m k = none) : Evolves R m (Function.update m k (some w)) := by
  intro k' v hv
  have hne : k' ≠ k := by rintro rfl; simp_all
  exact ⟨v, write_eq_some.2 (.inr ⟨hne, hv⟩), Std.Refl.refl v⟩

/-- A write that relates the old entry to the new one. -/
theorem Evolves.write [Std.Refl R] (hk : m k = some v) (hR : R v w) : Evolves R m (Function.update m k (some w)) := by
  intro k' u hu
  by_cases hne : k' = k
  · subst hne
    rw [hk, Option.some.injEq] at hu
    subst hu
    exact ⟨w, write_eq_some.2 (.inl ⟨rfl, rfl⟩), hR⟩
  · exact ⟨u, write_eq_some.2 (.inr ⟨hne, hu⟩), Std.Refl.refl u⟩

end Write

/-! ## Entries left alone -/

section Untouched

variable {P : V → Prop}

/-- The entries that satisfy `P` are the same. -/
def Untouched (P : V → Prop) (m m' : K → Option V) : Prop := ∀ k v, P v → (m' k = some v ↔ m k = some v)

theorem Untouched.refl (m : K → Option V) : Untouched P m m := fun _ _ _ => Iff.rfl

/-- A write of an entry that does not satisfy `P`, over none that does. -/
theorem Untouched.write [DecidableEq K] (hk : ∀ v, m k = some v → ¬P v) (hw : ¬P w) :
    Untouched P m (Function.update m k (some w)) := by
  intro k' v hv
  rw [write_eq_some]
  constructor
  · intro h
    rcases h with ⟨-, rfl⟩ | ⟨-, h⟩
    · exact absurd hv hw
    · exact h
  · intro h
    refine .inr ⟨fun he => hk v (he ▸ h) hv, h⟩

/-- A write over an entry that does not satisfy `P`. -/
theorem Untouched.rewrite [DecidableEq K] (hk : m k = some v) (hv : ¬P v) (hw : ¬P w) :
    Untouched P m (Function.update m k (some w)) :=
  .write (fun _ hu => Option.some.inj (hk.symm.trans hu) ▸ hv) hw

theorem Untouched.insert [DecidableEq K] (hk : m k = none) (hw : ¬P w) :
    Untouched P m (Function.update m k (some w)) :=
  .write (fun _ hu => absurd (hk.symm.trans hu) nofun) hw

end Untouched

/-! ## Reading a number -/

section Read

variable {M : Type*} [Zero M] {f : V → M}

/-- A number read off the entry at `k`; zero when there is none. -/
def readOr (f : V → M) (m : K → Option V) (k : K) : M := (m k).elim 0 f

theorem readOr_of_some (h : m k = some v) : readOr f m k = f v := by rw [readOr, h]; rfl

theorem readOr_of_none (h : m k = none) : readOr f m k = 0 := by rw [readOr, h]; rfl

theorem readOr_write [DecidableEq K] (m : K → Option V) (k : K) (w : V) (k' : K) :
    readOr f (Function.update m k (some w)) k' = if k = k' then f w else readOr f m k' := by
  unfold readOr
  rw [Function.update_apply]
  by_cases hk : k' = k
  · rw [if_pos hk, if_pos hk.symm]; rfl
  · rw [if_neg hk, if_neg (Ne.symm hk)]

/-- A write that keeps the number. -/
theorem readOr_rewrite [DecidableEq K] {k' : K} (h : m k = some v) (hf : f w = f v) :
    readOr f (Function.update m k (some w)) k' = readOr f m k' := by
  rw [readOr_write, hf, ← readOr_of_some (f := f) h]
  split
  · subst k'; rfl
  · rfl

end Read

/-! ## Counting entries -/

/-- The addresses whose entry satisfies `P`. -/
def census (m : K → Option V) (P : V → Prop) : Set K := {k | ∃ v, m k = some v ∧ P v}

open scoped Classical in
/-- One when the entry is there and satisfies `P`. -/
noncomputable def weight (P : V → Prop) (o : Option V) : ℕ∞ := if ∃ v, o = some v ∧ P v then 1 else 0

section Census

variable {P : V → Prop} {o : Option V}

@[simp] theorem weight_none : weight P none = 0 := if_neg nofun

theorem weight_of_pos (h : P v) : weight P (some v) = 1 := if_pos ⟨v, rfl, h⟩

theorem weight_of_neg (h : ¬P v) : weight P (some v) = 0 := if_neg (by rintro ⟨_, ⟨⟩, hv⟩; exact h hv)

/-- A write that keeps whether the entry counts keeps the census. -/
theorem census_write_congr [DecidableEq K] (h : (∃ v, o = some v ∧ P v) ↔ ∃ v, m k = some v ∧ P v) :
    census (Function.update m k o) P = census m P := by
  ext k'
  by_cases hk : k' = k
  · subst hk
    simpa only [census, Set.mem_ofPred_eq, Function.update_self] using h
  · simp only [census, Set.mem_ofPred_eq, Function.update_of_ne hk]

/-- The entry at `k` counts for its weight. -/
theorem encard_census (m : K → Option V) (P : V → Prop) (k : K) :
    (census m P).encard = (census m P \ {k}).encard + weight P (m k) := by
  by_cases hk : k ∈ census m P
  · rw [weight, if_pos (show ∃ v, m k = some v ∧ P v from hk), Set.encard_sdiff_singleton_add_one hk]
  · rw [weight, if_neg (show ¬∃ v, m k = some v ∧ P v from hk), add_zero, Set.sdiff_singleton_eq_self hk]

/-- **A write exchanges the weight of the old entry for that of the new one.** -/
theorem encard_census_write [DecidableEq K] (m : K → Option V) (P : V → Prop) (k : K) (o : Option V) :
    (census (Function.update m k o) P).encard + weight P (m k) = (census m P).encard + weight P o := by
  have hrest : census (Function.update m k o) P \ {k} = census m P \ {k} := by
    ext k'
    simp only [census, Set.mem_sdiff, Set.mem_ofPred_eq, Set.mem_singleton_iff]
    apply and_congr_left
    intro hne
    rw [Function.update_of_ne hne]
  rw [encard_census (Function.update m k o) P k, encard_census m P k, hrest, Function.update_self, add_right_comm]

end Census

/-- What every step does to a store, a run does. -/
theorem Run.evolves {σ α : Type*} {step : σ → α → Option σ} {s₀ s : σ} {h : List (σ × α)} [Std.Refl R] [IsTrans V R]
    (store : σ → K → Option V) (hs : ∀ s a s', step s a = some s' → Evolves R (store s) (store s'))
    (hr : Run step s₀ h s) : Evolves R (store s₀) (store s) :=
  hr.inv (fun _ s => Evolves R (store s₀) (store s)) (.refl _) fun _ _ _ _ _ hE ha => hE.trans (hs _ _ _ ha)

end Base
