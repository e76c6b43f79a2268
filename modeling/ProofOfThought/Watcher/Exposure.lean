import ProofOfThought.Watcher.Pipeline

/-!
# Stake at risk

The counter of bonds in flight lags behind the decisions: between its decision and its `fetch_add` a filing is not in
it. Counter and filings under way together are the bonds not yet released, up to wrapping (`Exposure`). Where no filing
is under way, the check of `decide` leaves room for its bond (`room_of_alone`); so the cap is kept in every run in which
the filings that overlap others fit with these counted (`cap_kept`). The check does not keep it by itself: two decisions
in a row see the same counter (`cap_exceeded`).
-/

namespace ProofOfThought.Watcher

open Base
open Program (Bytes32)

variable {f : ChallengeFiler} {blake3 : Bytes → Bytes32} {s s' : FilerState} {act : FilerAction}
  {h : List (FilerState × FilerAction)}

/-! ## Bonds -/

def Task.submittingBond : Task → Nat
  | .submitting args => args.bond.toNat
  | _ => 0

def Task.reservingBond : Task → Nat
  | .reserving bond => bond.toNat
  | _ => 0

def Filing.unresolvedBond : Filing → Nat
  | ⟨args, .unresolved⟩ => args.bond.toNat
  | _ => 0

def Filing.unreleasedBond : Filing → Nat
  | ⟨_, .released⟩ => 0
  | ⟨args, _⟩ => args.bond.toNat

/-- The bonds of the challenges submitted and not resolved. -/
def FilerState.atRisk (s : FilerState) : Nat := total Filing.unresolvedBond s.filings

/-- The bonds of the filings between their decision and their `fetch_add`. -/
def FilerState.underWay (s : FilerState) : Nat :=
  total Task.submittingBond s.tasks + total Task.reservingBond s.tasks

/-- The check of `decide` does not see all there is: a filing is under way, or the cap is the largest there is and the
saturated sum never exceeds it. -/
def Overlapped (f : ChallengeFiler) (s : FilerState) : Prop :=
  s.underWay ≠ 0 ∨ f.maxStakeAtRiskLamports.toNat = 2 ^ 64 - 1

/-- An overlapped decision that files leaves room for the filings under way. -/
def Fits (f : ChallengeFiler) (x : FilerState × FilerAction) : Prop :=
  ∀ i call, x.2 = .decide i → x.1.tasks[i]? = some (.deciding call) → f.Files x.1.inFlightBond call →
    Overlapped f x.1 →
    (f.bondFor call.policyBondMin).toNat + x.1.inFlightBond.toNat + x.1.underWay ≤ f.maxStakeAtRiskLamports.toNat

/-- A decision that is not overlapped leaves room by the check of `decide` itself. -/
theorem room_of_alone {call : Call} (hfiles : f.Files s.inFlightBond call) (ho : ¬Overlapped f s) :
    (f.bondFor call.policyBondMin).toNat + s.inFlightBond.toNat + s.underWay ≤ f.maxStakeAtRiskLamports.toNat := by
  rw [Overlapped, not_or, not_not] at ho
  obtain ⟨halone, hcap⟩ := ho
  have hlt := f.maxStakeAtRiskLamports.toNat_lt
  have hle := hfiles.bond_add_le (by omega)
  omega

/-- A filing that fits leaves room for those under way, overlapped or not. -/
theorem Fits.room {i : Nat} {call : Call} (hf : Fits f (s, .decide i)) (ht : s.tasks[i]? = some (.deciding call))
    (hfiles : f.Files s.inFlightBond call) :
    (f.bondFor call.policyBondMin).toNat + s.inFlightBond.toNat + s.underWay ≤ f.maxStakeAtRiskLamports.toNat := by
  by_cases ho : Overlapped f s
  · exact hf i call rfl ht hfiles ho
  · exact room_of_alone hfiles ho

/-- Counter and reservations to come are the unreleased bonds, modulo the width; these and the submissions awaited fit
under the cap. -/
structure Exposure (f : ChallengeFiler) (s : FilerState) : Prop where
  counter : (s.inFlightBond.toNat + total Task.reservingBond s.tasks) % 2 ^ 64 =
    total Filing.unreleasedBond s.filings % 2 ^ 64
  bounded : total Task.submittingBond s.tasks + total Filing.unreleasedBond s.filings ≤ f.maxStakeAtRiskLamports.toNat

theorem Exposure.init : Exposure f .init := ⟨rfl, Nat.zero_le _⟩

/-- **One step** keeps the exposure; only a filing adds to it. -/
theorem Exposure.step (he : Exposure f s) (hs : FilerEffect f blake3 s act s') (hf : Fits f (s, act)) :
    Exposure f s' := by
  obtain ⟨hc, hb⟩ := he
  have hcap := f.maxStakeAtRiskLamports.toNat_lt
  cases hs with
  | spawn => exact ⟨by simpa [Task.reservingBond] using hc, by simpa [Task.submittingBond] using hb⟩
  | @file i call args ht hd =>
    obtain ⟨hfiles, hbond⟩ := ChallengeFiler.decide_file hd
    have hfit := hf.room ht hfiles
    have h1 := total_set (f := Task.submittingBond) ht (.submitting args)
    have h2 := total_set (f := Task.reservingBond) ht (.submitting args)
    simp only [Task.submittingBond, Task.reservingBond, Nat.add_zero] at h1 h2
    dsimp only [FilerState.underWay] at hfit
    rw [← hbond] at hfit
    -- nothing has wrapped: both sides of the counter equation are below the cap
    constructor
    · simp only [h2]; exact hc
    · simp only [h1]; omega
  | skip ht =>
    have h1 := total_set (f := Task.submittingBond) ht .done
    have h2 := total_set (f := Task.reservingBond) ht .done
    simp only [Task.submittingBond, Task.reservingBond, Nat.add_zero] at h1 h2
    constructor
    · simp only [h2]; exact hc
    · simp only [h1]; exact hb
  | @submitted i args ht =>
    have h1 := total_set (f := Task.submittingBond) ht (.reserving args.bond)
    have h2 := total_set (f := Task.reservingBond) ht (.reserving args.bond)
    simp only [Task.submittingBond, Task.reservingBond, Nat.add_zero] at h1 h2
    constructor
    · simp only [h2, total_snoc, Filing.unreleasedBond]; omega
    · simp only [total_snoc, Filing.unreleasedBond]; omega
  | failed ht =>
    have h1 := total_set (f := Task.submittingBond) ht .done
    have h2 := total_set (f := Task.reservingBond) ht .done
    simp only [Task.submittingBond, Task.reservingBond, Nat.add_zero] at h1 h2
    constructor
    · simp only [h2]; exact hc
    · simp only; omega
  | @fetchAdd i bond ht =>
    have h1 := total_set (f := Task.submittingBond) ht .done
    have h2 := total_set (f := Task.reservingBond) ht .done
    simp only [Task.submittingBond, Task.reservingBond, Nat.add_zero] at h1 h2
    constructor
    · simp only [UInt64.toNat_add]; omega
    · simp only [h1]; exact hb
  | @resolve j args hj =>
    have h1 := total_set (f := Filing.unreleasedBond) hj ⟨args, .resolved⟩
    simp only [Filing.unreleasedBond] at h1
    constructor
    · simp only; omega
    · simp only; omega
  | @release j args hj =>
    have h1 := total_set (f := Filing.unreleasedBond) hj ⟨args, .released⟩
    have hlt := args.bond.toNat_lt
    simp only [Filing.unreleasedBond, Nat.add_zero] at h1
    constructor
    · simp only [UInt64.toNat_sub]; omega
    · simp only; omega

/-- What is at risk has not been released. -/
theorem atRisk_le (s : FilerState) : s.atRisk ≤ total Filing.unreleasedBond s.filings := by
  apply total_le
  intro fl _
  obtain ⟨args, st⟩ := fl
  cases st <;> simp [Filing.unresolvedBond, Filing.unreleasedBond]

theorem exposure_of_run (hr : Run (filerStep f blake3) .init h s) (hf : ∀ x ∈ h, Fits f x) : Exposure f s := by
  refine hr.inv (fun h s => (∀ x ∈ h, Fits f x) → Exposure f s) ?_ ?_ hf
  · exact fun _ => .init
  · intro h s a s' _ ih ha hf
    refine (ih fun x hx => hf x (List.mem_append_left _ hx)).step (filerStep_effect ha) (hf _ ?_)
    exact List.mem_append_right _ (List.mem_singleton_self _)

/-- **The cap is kept** in every state of every run in which the overlapped filings leave room for those under way: the
others do so by the check of `decide`. -/
theorem cap_kept (hr : Run (filerStep f blake3) .init h s) (hf : ∀ x ∈ h, Fits f x) :
    s.atRisk ≤ f.maxStakeAtRiskLamports.toNat := by
  have he := (exposure_of_run hr hf).bounded
  have := atRisk_le s
  omega

/-! ## Two decisions in a row -/

namespace Sample

/-- Two thoughts whose traces do not match their commitments. -/
def fraud (blake3 : Bytes → Bytes32) (n : UInt8) : ThoughtSubmittedEvent :=
  { event (List.Vector.replicate 32 2) (other (blake3 [])) with thoughtPda := List.Vector.replicate 32 n }

/-- The call their tasks make. -/
def call (n : UInt8) : Call where
  outcome := .mismatch .inconsistentCommitments "ar://trace"
  agentStakeLamports := PLACEHOLDER_AGENT_STAKE_LAMPORTS
  thoughtPda := List.Vector.replicate 32 n
  policyBondMin := PLACEHOLDER_BOND_MIN

theorem handleEvent_fraud (blake3 : Bytes → Bytes32) (n : UInt8) :
    handleEvent blake3 (fraud blake3 n) (.ok ⟨[], [], none, .null⟩) = some (call n) := by
  have hne : blake3 [] ≠ (fraud blake3 n).outputCommitment := ne_other _
  simp only [handleEvent, ByteCompareVerifier.verify, if_neg hne]
  rfl

/-- Both decide before either submission returns. -/
def overlap : List FilerAction :=
  [.spawn (call 0), .spawn (call 1), .decide 0, .decide 1, .submit 0 true, .submit 1 true]

end Sample

open Sample in
/-- With a cap of one bond, the code submits two challenges. -/
theorem cap_exceeded : ¬∃ blake3 : Bytes → Bytes32, ∀ f h s, Run (filerStep f blake3) .init h s →
    (∀ x ∈ h, ∀ call, x.2 = .spawn call → ∃ event fetched, handleEvent blake3 event fetched = some call) →
      s.atRisk ≤ f.maxStakeAtRiskLamports.toNat := by
  intro he
  rcases he with ⟨blake3, hcap⟩
  obtain ⟨h, s, hp, hs⟩ : ∃ h s, perform (filerStep (.new .conservative 500000000) blake3) .init overlap = some (h, s) ∧
      s.atRisk = 1000000000 := by
    refine ⟨_, _, rfl, ?_⟩
    simp only [FilerState.atRisk, total_snoc, Filing.unresolvedBond]
    decide +kernel
  obtain ⟨hr, hacts⟩ := run_of_perform hp
  have hle := hcap _ h s hr fun x hx call hc => by
    have hx := List.mem_map_of_mem (f := Prod.snd) hx
    rw [hacts, hc] at hx
    simp only [overlap, List.mem_cons, FilerAction.spawn.injEq, reduceCtorEq, List.not_mem_nil, or_false] at hx
    rcases hx with rfl | rfl
    · exact ⟨_, _, handleEvent_fraud blake3 0⟩
    · exact ⟨_, _, handleEvent_fraud blake3 1⟩
  rw [hs] at hle
  exact absurd hle (by decide +kernel)

open Sample in
/-- The same run under the default cap, which has room for both. -/
theorem cap_kept_overlap : ∃ h s, Run (filerStep (.new .conservative 5000000000) digest) .init h s ∧
    h.map Prod.snd = overlap ∧
      s.atRisk ≤ (ChallengeFiler.new .conservative 5000000000).maxStakeAtRiskLamports.toNat := by
  obtain ⟨h, s, hp, hf⟩ : ∃ h s,
      perform (filerStep (.new .conservative 5000000000) digest) .init overlap = some (h, s) ∧
        ∀ x ∈ h, Fits (.new .conservative 5000000000) x := by
    refine ⟨_, _, rfl, ?_⟩
    simp only [List.mem_cons, List.not_mem_nil, or_false, forall_eq_or_imp, forall_eq]
    refine ⟨nofun, nofun, ?_, ?_, nofun, nofun⟩
    · rintro i call ⟨⟩ ht - -
      cases ht
      decide +kernel
    · rintro i call ⟨⟩ ht - -
      cases ht
      decide +kernel
  obtain ⟨hr, hacts⟩ := run_of_perform hp
  exact ⟨h, s, hr, hacts, cap_kept hr hf⟩

end ProofOfThought.Watcher
