import ProofOfThought.Watcher.Exposure

/-!
# The counter of bonds in flight

The counter and the reservations still to come are the bonds not yet released, in every state of a run whose steps are
orderly: a release leaves the reservations to come covered, and a reservation does not overflow (`Tally.step_iff`).
Then the counter never wraps, and between the steps of the tasks it is exact (`in_flight_exact`). A release that
overtakes the reservation of its own challenge makes the counter wrap below zero (`release_wraps`).
-/

namespace ProofOfThought.Watcher

open Base
open Program (Bytes32)

variable {f : ChallengeFiler} {blake3 : Bytes → Bytes32} {s s' : FilerState} {act : FilerAction}
  {h : List (FilerState × FilerAction)}

/-! ## Sums of bonds -/

/-- The bonds of the challenges submitted. -/
def FilerState.submitted (s : FilerState) : Nat := total (fun fl => fl.args.bond.toNat) s.filings

/-- The bonds of the challenges submitted and not released. -/
def FilerState.unreleased (s : FilerState) : Nat := total Filing.unreleasedBond s.filings

/-- The bonds of the challenges submitted that the counter does not have yet. -/
def FilerState.toReserve (s : FilerState) : Nat := total Task.reservingBond s.tasks

theorem unreleased_le_submitted (s : FilerState) : s.unreleased ≤ s.submitted := by
  apply total_le
  intro fl _
  obtain ⟨args, st⟩ := fl
  cases st <;> simp [Filing.unreleasedBond]

/-- A task that has decided to file and has not yet raised the counter. -/
def Task.BetweenSteps : Task → Prop
  | .submitting _ => True
  | .reserving _ => True
  | _ => False

theorem toReserve_eq_zero (hq : ∀ t ∈ s.tasks, ¬t.BetweenSteps) : s.toReserve = 0 := by
  have hle : s.toReserve ≤ total (fun _ => 0) s.tasks := by
    apply total_le
    intro t ht
    cases t with
    | reserving bond => exact absurd trivial (hq _ ht)
    | _ => exact Nat.le_refl _
  have h0 : total (fun _ => 0) s.tasks = 0 := by simp [total]
  omega

/-! ## Orderly steps -/

/-- The counter has no drift. -/
def Tally (s : FilerState) : Prop := s.inFlightBond.toNat + s.toReserve = s.unreleased

/-- A release leaves the reservations to come covered by the bonds that stay; a reservation keeps the reserved bonds
below 2^64. -/
def Orderly (x : FilerState × FilerAction) : Prop :=
  match x.2 with
  | .release j => ∀ args, x.1.filings[j]? = some ⟨args, .resolved⟩ →
      args.bond.toNat + x.1.toReserve ≤ x.1.unreleased
  | .fetchAdd i => ∀ bond, x.1.tasks[i]? = some (.reserving bond) →
      x.1.unreleased + bond.toNat < 2 ^ 64 + x.1.toReserve
  | _ => True

/-- **One step** keeps the tally exactly when it is orderly. -/
theorem Tally.step_iff (ht : Tally s) (hs : FilerEffect f blake3 s act s') : Tally s' ↔ Orderly (s, act) := by
  unfold Tally at ht
  cases hs with
  | spawn =>
    simp only [Tally, Orderly, FilerState.toReserve, FilerState.unreleased, total_snoc, Task.reservingBond,
      Nat.add_zero, iff_true]
    exact ht
  | @file i call args hi hd =>
    have h2 := total_set (f := Task.reservingBond) hi (.submitting args)
    simp only [Task.reservingBond, Nat.add_zero] at h2
    simp only [Tally, Orderly, FilerState.toReserve, FilerState.unreleased, h2, iff_true]
    exact ht
  | skip hi =>
    have h2 := total_set (f := Task.reservingBond) hi .done
    simp only [Task.reservingBond, Nat.add_zero] at h2
    simp only [Tally, Orderly, FilerState.toReserve, FilerState.unreleased, h2, iff_true]
    exact ht
  | @submitted i args hi =>
    -- the filing and the reservation to come add the same bond
    have h2 := total_set (f := Task.reservingBond) hi (.reserving args.bond)
    simp only [Task.reservingBond, Nat.add_zero] at h2
    simp only [Tally, Orderly, FilerState.toReserve, FilerState.unreleased, h2, total_snoc, Filing.unreleasedBond,
      iff_true] at ht ⊢
    omega
  | failed hi =>
    have h2 := total_set (f := Task.reservingBond) hi .done
    simp only [Task.reservingBond, Nat.add_zero] at h2
    simp only [Tally, Orderly, FilerState.toReserve, FilerState.unreleased, h2, iff_true]
    exact ht
  | @fetchAdd i bond hi =>
    have h2 := total_set (f := Task.reservingBond) hi .done
    have hc := s.inFlightBond.toNat_lt
    have hb := bond.toNat_lt
    simp only [Task.reservingBond, Nat.add_zero] at h2
    simp only [Tally, Orderly, FilerState.toReserve, FilerState.unreleased, UInt64.toNat_add, hi, Option.some.injEq,
      Task.reserving.injEq, forall_eq'] at ht ⊢
    omega
  | @resolve j args hj =>
    have h1 := total_set (f := Filing.unreleasedBond) hj ⟨args, .resolved⟩
    simp only [Filing.unreleasedBond] at h1
    simp only [Tally, Orderly, FilerState.toReserve, FilerState.unreleased, iff_true] at ht ⊢
    omega
  | @release j args hj =>
    have h1 := total_set (f := Filing.unreleasedBond) hj ⟨args, .released⟩
    have hc := s.inFlightBond.toNat_lt
    have hb := args.bond.toNat_lt
    simp only [Filing.unreleasedBond, Nat.add_zero] at h1
    simp only [Tally, Orderly, FilerState.toReserve, FilerState.unreleased, UInt64.toNat_sub, hj, Option.some.injEq,
      Filing.mk.injEq, and_true, forall_eq'] at ht ⊢
    omega

/-- **A run**: no state of it drifts exactly when every step is orderly. -/
theorem tally_run_iff (hr : Run (filerStep f blake3) .init h s) :
    ((∀ x ∈ h, Tally x.1) ∧ Tally s) ↔ ∀ x ∈ h, Orderly x := by
  refine hr.inv (fun h s => ((∀ x ∈ h, Tally x.1) ∧ Tally s) ↔ ∀ x ∈ h, Orderly x) ?_ ?_
  · exact ⟨fun _ => nofun, fun _ => ⟨nofun, rfl⟩⟩
  · intro h s a s' _ ih ha
    have he := filerStep_effect ha
    simp only [List.forall_mem_append, List.mem_singleton, forall_eq, ← ih]
    constructor
    · intro hx
      obtain ⟨⟨hh, hs⟩, hs'⟩ := hx
      exact ⟨⟨hh, hs⟩, (hs.step_iff he).1 hs'⟩
    · intro hx
      obtain ⟨⟨hh, hs⟩, ho⟩ := hx
      exact ⟨⟨hh, hs⟩, (hs.step_iff he).2 ho⟩

/-! ## The counter -/

/-- **The counter** in every state of every orderly run: at most the bonds submitted, so that no release wraps, left
unchanged by a failed submission, and the bonds submitted and not released when no task is between steps. -/
theorem in_flight_exact (hr : Run (filerStep f blake3) .init h s) (ho : ∀ x ∈ h, Orderly x) :
    s.inFlightBond.toNat ≤ s.submitted ∧
    (∀ x ∈ h, ∀ j fl, x.2 = .release j → x.1.filings[j]? = some fl →
      fl.args.bond.toNat ≤ x.1.inFlightBond.toNat) ∧
    (∀ i s', filerStep f blake3 s (.submit i false) = some s' → s'.inFlightBond = s.inFlightBond) ∧
    ((∀ t ∈ s.tasks, ¬t.BetweenSteps) → s.inFlightBond.toNat = s.unreleased) := by
  obtain ⟨hstates, ht⟩ := (tally_run_iff hr).2 ho
  unfold Tally at ht
  refine ⟨?_, ?_, ?_, fun hq => ?_⟩
  · have := unreleased_le_submitted s
    omega
  · intro x hx j fl hact hj
    obtain ⟨m, a⟩ := x
    dsimp only at hact hj ⊢
    subst hact
    obtain ⟨_, _, m', -, -, hstep, -⟩ := hr.mem hx
    have htm := hstates _ hx
    unfold Tally at htm
    cases filerStep_effect hstep with
    | @release _ args hres =>
      obtain rfl := Option.some.inj (hj.symm.trans hres)
      have hcovered := ho _ hx args hres
      dsimp only at hcovered htm ⊢
      omega
  · intro i s' hstep
    cases filerStep_effect hstep with
    | failed _ => rfl
  · rw [toReserve_eq_zero hq] at ht
    exact ht

/-! ## A release before its reservation -/

namespace Sample

/-- The dispute is resolved and its bond released while the task that submitted it has yet to raise the counter. -/
def overtaken : List FilerAction :=
  [.spawn (call 0), .decide 0, .submit 0 true, .resolve 0, .release 0]

/-- The same with the counter raised in between. -/
def inTurn : List FilerAction :=
  [.spawn (call 0), .decide 0, .submit 0 true, .fetchAdd 0, .resolve 0, .release 0]

end Sample

open Sample in
/-- The counter ends beyond every bond ever submitted. -/
theorem release_wraps : ¬∀ f blake3 h s, Run (filerStep f blake3) .init h s → s.inFlightBond.toNat ≤ s.submitted := by
  intro hle
  obtain ⟨h, s, hp, hs⟩ : ∃ h s,
      perform (filerStep (.new .conservative 5000000000) digest) .init overtaken = some (h, s) ∧
        s.submitted < s.inFlightBond.toNat := by
    refine ⟨_, _, rfl, ?_⟩
    decide +kernel
  exact absurd hs (Nat.not_lt.2 (hle _ _ h s (run_of_perform hp).1))

open Sample in
/-- The theorem at the run in turn: the counter ends at zero. -/
theorem in_flight_exact_inTurn : ∃ h s, Run (filerStep (.new .conservative 5000000000) digest) .init h s ∧
    h.map Prod.snd = inTurn ∧ s.inFlightBond.toNat = s.unreleased := by
  obtain ⟨h, s, hp, ho, hq⟩ : ∃ h s,
      perform (filerStep (.new .conservative 5000000000) digest) .init inTurn = some (h, s) ∧
        (∀ x ∈ h, Orderly x) ∧ ∀ t ∈ s.tasks, ¬t.BetweenSteps := by
    refine ⟨_, _, rfl, ?_, ?_⟩
    · simp only [List.mem_cons, List.not_mem_nil, or_false, forall_eq_or_imp, forall_eq]
      refine ⟨trivial, trivial, trivial, ?_, trivial, ?_⟩
      · intro bond ht
        cases ht
        decide +kernel
      · intro args hj
        cases hj
        decide +kernel
    · intro t ht
      obtain rfl : t = .done := List.mem_singleton.1 ht
      exact id
  obtain ⟨hr, hacts⟩ := run_of_perform hp
  exact ⟨h, s, hr, hacts, (in_flight_exact hr ho).2.2.2 hq⟩

end ProofOfThought.Watcher
