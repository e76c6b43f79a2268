import ProofOfThought.Base.Run

/-!
# Optimistic dispute, in its own terms

An item is submitted, stands as pending, and is accepted unless somebody disputes it; a dispute is decided once, for or
against the item. The automaton `advance` is the life of one item, over any type `C` of disputes; `Phase` remembers
the dispute, if there was one.

- accepted and rejected items never move again (`advance_settled`);
- the phase determines how often each kind of event has happened (`run_count`): a dispute at most once, a decision at
  most once, never a decision without a dispute, never a lapse with one.
-/

namespace Base

variable {C : Type*}

/-- What has become of an item. -/
inductive Phase (C : Type*) where
  | pending
  | challenged (c : C)
  /-- Accepted: without a dispute, or with one that was dismissed. -/
  | finalized (c : Option C)
  /-- Rejected by the decision of a dispute. -/
  | slashed (c : C)

/-- What happens to an item. -/
inductive Ruling (C : Type*) where
  | submit
  | dispute (c : C)
  /-- The time for disputes passes without one. -/
  | lapse
  | convict
  | acquit

/-- The life of one item; `none` before it is submitted. -/
def advance : Option (Phase C) → Ruling C → Option (Option (Phase C))
  | none, .submit => some (some .pending)
  | some .pending, .dispute c => some (some (.challenged c))
  | some .pending, .lapse => some (some (.finalized none))
  | some (.challenged c), .convict => some (some (.slashed c))
  | some (.challenged c), .acquit => some (some (.finalized (some c)))
  | _, _ => none

/-- The dispute of an item. -/
def Phase.dispute? : Phase C → Option C
  | .pending => none
  | .challenged c => some c
  | .finalized c => c
  | .slashed c => some c

/-- The item still awaits its outcome. -/
def Phase.isOpen : Phase C → Bool
  | .pending => true
  | .challenged _ => true
  | .finalized _ => false
  | .slashed _ => false

/-- The five transitions. -/
theorem advance_eq_some {o o' : Option (Phase C)} {r : Ruling C} : advance o r = some o' ↔
    (r = .submit ∧ o = none ∧ o' = some .pending) ∨
    (∃ c, r = .dispute c ∧ o = some .pending ∧ o' = some (.challenged c)) ∨
    (r = .lapse ∧ o = some .pending ∧ o' = some (.finalized none)) ∨
    (∃ c, r = .convict ∧ o = some (.challenged c) ∧ o' = some (.slashed c)) ∨
    ∃ c, r = .acquit ∧ o = some (.challenged c) ∧ o' = some (.finalized (some c)) := by
  rcases o with _ | _ | c | c | c <;> cases r <;> simp [advance, eq_comm]

/-- Accepted and rejected items never move. -/
theorem advance_settled {φ : Phase C} (h : φ.isOpen = false) (r : Ruling C) : advance (some φ) r = none := by
  cases φ <;> cases r <;> simp_all [Phase.isOpen, advance]

/-! ## Counting events -/

/-- The kinds of events. -/
inductive Kind where
  | submit
  | dispute
  | lapse
  | convict
  | acquit
  deriving DecidableEq

def Ruling.kind : Ruling C → Kind
  | .submit => .submit
  | .dispute _ => .dispute
  | .lapse => .lapse
  | .convict => .convict
  | .acquit => .acquit

/-- How often each kind of event has happened to an item in the given phase. -/
def Phase.count : Option (Phase C) → Kind → Nat
  | none, _ => 0
  | some _, .submit => 1
  | some .pending, _ => 0
  | some (.challenged _), .dispute => 1
  | some (.challenged _), _ => 0
  | some (.finalized none), .lapse => 1
  | some (.finalized none), _ => 0
  | some (.finalized (some _)), .dispute => 1
  | some (.finalized (some _)), .acquit => 1
  | some (.finalized (some _)), _ => 0
  | some (.slashed _), .dispute => 1
  | some (.slashed _), .convict => 1
  | some (.slashed _), _ => 0

/-- An item is disputed at most once. -/
theorem count_dispute_le_one (o : Option (Phase C)) : Phase.count o .dispute ≤ 1 := by
  rcases o with _ | _ | _ | (_ | _) | _ <;> simp [Phase.count]

/-- An item has at most one outcome. -/
theorem count_outcome_le_one (o : Option (Phase C)) :
    Phase.count o .lapse + Phase.count o .acquit + Phase.count o .convict ≤ 1 := by
  rcases o with _ | _ | _ | (_ | _) | _ <;> simp [Phase.count]

/-- A dismissal dismisses a dispute. -/
theorem count_acquit_le_dispute (o : Option (Phase C)) : Phase.count o .acquit ≤ Phase.count o .dispute := by
  rcases o with _ | _ | _ | (_ | _) | _ <;> simp [Phase.count]

/-- A step adds exactly its own event. -/
theorem advance_count {φ φ' : Option (Phase C)} {r : Ruling C} (h : advance φ r = some φ') (k : Kind) :
    Phase.count φ' k = Phase.count φ k + if r.kind = k then 1 else 0 := by
  rcases φ with _ | _ | c | c | c <;> cases r <;> simp only [advance, Option.some.injEq, reduceCtorEq] at h <;>
    subst h <;> cases k <;> simp [Phase.count, Ruling.kind]

/-- **The phase counts the events.** -/
theorem run_count {g : List (Option (Phase C) × Ruling C)} {φ : Option (Phase C)} (hr : Run advance none g φ)
    (k : Kind) : (g.map fun x => x.2.kind).count k = Phase.count φ k := by
  have h := hr.tally_eq (fun φ => Phase.count φ k) (fun x => if x.2.kind = k then 1 else 0)
    (fun _ _ _ ha => advance_count ha k)
  rw [h, Phase.count, Nat.zero_add]
  clear h hr
  induction g with
  | nil => rfl
  | cons x g ih => rw [List.map_cons, List.count_cons, tally_cons, ih, Nat.add_comm]; simp

end Base
