import Mathlib.Data.List.Pairwise
import Mathlib.Data.List.Perm.Basic

/-!
# Actions with a footprint

Actions on a state that is read and written cell by cell. Each action uses some cells and writes some of them
(`Footprint`): it changes no other cell, and its outcome and the cells it uses depend on nothing but the cells it uses.
Two actions are apart when neither writes a cell that the other uses.

- actions that are apart commute (`Footprint.commute`);
- a sequence of actions can be rearranged by exchanging neighbours that are apart (`Rearranged`): the state at the end
  is the same, and so is the outcome of every action (`Footprint.sweep_rearranged`);
- actions that are pairwise apart may come in any order (`rearranged_of_perm`).
-/

namespace Base

variable {σ α ω K V : Type*}

/-! ## Footprints -/

/-- `act` reads and writes the cells `get` only where `uses` and `writes` say so. -/
structure Footprint (act : σ → α → σ × ω) (get : σ → K → V) (uses writes : α → List K) : Prop where
  ext : ∀ {s t : σ}, (∀ k, get s k = get t k) → s = t
  writes_uses : ∀ {a : α} {k : K}, k ∈ writes a → k ∈ uses a
  frame : ∀ {s : σ} {a : α} {k : K}, k ∉ writes a → get (act s a).1 k = get s k
  reads : ∀ {s t : σ} {a : α}, (∀ k ∈ uses a, get s k = get t k) →
    (act s a).2 = (act t a).2 ∧ ∀ k ∈ uses a, get (act s a).1 k = get (act t a).1 k

/-- Neither action writes what the other uses. -/
def Apart (uses writes : α → List K) (a b : α) : Prop :=
  (∀ k ∈ writes a, k ∉ uses b) ∧ ∀ k ∈ writes b, k ∉ uses a

instance [DecidableEq K] {uses writes : α → List K} : DecidableRel (Apart uses writes) :=
  fun _ _ => inferInstanceAs (Decidable (_ ∧ _))

variable {act : σ → α → σ × ω} {get : σ → K → V} {uses writes : α → List K} {a b : α} {l₁ l₂ : List α}

theorem Apart.symm (h : Apart uses writes a b) : Apart uses writes b a := ⟨h.2, h.1⟩

namespace Footprint

variable (hF : Footprint act get uses writes)

include hF

/-- The outcome of an action is not changed by one that is apart from it. -/
theorem outcome (h : Apart uses writes a b) (s : σ) : (act (act s a).1 b).2 = (act s b).2 :=
  (hF.reads fun _ hk => hF.frame fun hw => h.1 _ hw hk).1

/-- After the other action, a cell this one uses is as if the other had not been there. -/
theorem get_after (h : Apart uses writes a b) (s : σ) {k : K} (hk : k ∈ uses b) :
    get (act (act s a).1 b).1 k = get (act s b).1 k :=
  (hF.reads fun _ hk => hF.frame fun hw => h.1 _ hw hk).2 k hk

/-- **Actions that are apart commute.** -/
theorem commute (h : Apart uses writes a b) (s : σ) : (act (act s a).1 b).1 = (act (act s b).1 a).1 := by
  apply hF.ext
  intro k
  by_cases hb : k ∈ writes b
  · rw [hF.get_after h s (hF.writes_uses hb), hF.frame fun ha => h.1 _ ha (hF.writes_uses hb)]
  · rw [hF.frame hb]
    by_cases ha : k ∈ writes a
    · rw [hF.get_after h.symm s (hF.writes_uses ha)]
    · rw [hF.frame ha, hF.frame ha, hF.frame hb]

end Footprint

/-! ## Sequences of actions -/

/-- One sequence is the other with neighbours related by `I` exchanged. -/
inductive Rearranged (I : α → α → Prop) : List α → List α → Prop
  | refl (l : List α) : Rearranged I l l
  | cons (a : α) {l₁ l₂ : List α} : Rearranged I l₁ l₂ → Rearranged I (a :: l₁) (a :: l₂)
  | swap {a b : α} (l : List α) : I a b → Rearranged I (a :: b :: l) (b :: a :: l)
  | trans {l₁ l₂ l₃ : List α} : Rearranged I l₁ l₂ → Rearranged I l₂ l₃ → Rearranged I l₁ l₃

/-- Pairwise related actions may come in any order. -/
theorem rearranged_of_perm {I : α → α → Prop} (hI : ∀ {a b}, I a b → I b a) (hp : l₁.Perm l₂) (hl : l₁.Pairwise I) :
    Rearranged I l₁ l₂ := by
  induction hp with
  | nil => exact .refl _
  | cons a _ ih => exact .cons a (ih (List.pairwise_cons.1 hl).2)
  | swap a b l => exact .swap l ((List.pairwise_cons.1 hl).1 a List.mem_cons_self)
  | trans hp _ ih₁ ih₂ => exact (ih₁ hl).trans (ih₂ (hp.pairwise hl hI))

/-- The state after the actions, and the outcome of each. -/
def sweep (act : σ → α → σ × ω) : σ → List α → σ × List (α × ω)
  | s, [] => (s, [])
  | s, a :: l =>
    let r := sweep act (act s a).1 l
    (r.1, (a, (act s a).2) :: r.2)

/-- **A rearrangement changes nothing**: not the state at the end, and not the outcome of any action. -/
theorem Footprint.sweep_rearranged (hF : Footprint act get uses writes)
    (h : Rearranged (Apart uses writes) l₁ l₂) (s : σ) :
    (sweep act s l₁).1 = (sweep act s l₂).1 ∧ (sweep act s l₁).2.Perm (sweep act s l₂).2 := by
  induction h generalizing s with
  | refl l => exact ⟨rfl, .refl _⟩
  | cons a _ ih =>
    obtain ⟨hs, ho⟩ := ih (act s a).1
    exact ⟨hs, ho.cons _⟩
  | swap l hab =>
    simp only [sweep, hF.commute hab s, hF.outcome hab s, hF.outcome hab.symm s, true_and]
    exact .swap _ _ _
  | trans _ _ ih₁ ih₂ => exact ⟨(ih₁ s).1.trans (ih₂ s).1, (ih₁ s).2.trans (ih₂ s).2⟩

end Base
