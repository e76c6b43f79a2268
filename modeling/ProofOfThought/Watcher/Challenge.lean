import ProofOfThought.Base.Word
import ProofOfThought.Watcher.Sha256
import ProofOfThought.Watcher.Verify

/-!
# Filing decisions

`ChallengeFiler::decide`: whether a verifier's outcome is worth a challenge, and whether the bond fits under the cap
next to the bonds in flight. The counter of bonds in flight is an argument: it is shared with other tasks.
-/

namespace ProofOfThought.Watcher

open Base
open Program (Bytes32)

/-- `DEFAULT_TX_FEE_LAMPORTS` -/
def DEFAULT_TX_FEE_LAMPORTS : UInt64 := 5000000

inductive BondStrategy where
  | conservative
  | aggressive
  | disabled
  deriving DecidableEq

structure ChallengeArgs where
  thoughtPda : Pubkey
  claim : ChallengeClaim
  bond : UInt64
  evidenceUriHash : Bytes32
  deriving DecidableEq

/-- Instruction data: discriminator, claim, bond, evidence. -/
def ChallengeArgs.ixData (args : ChallengeArgs) : Bytes :=
  CHALLENGE_IX_DISCRIMINATOR.toList ++ args.claim.toU8 :: (leBytes 8 args.bond.toNat ++ args.evidenceUriHash.toList)

inductive FileDecision where
  | noFraud
  | inconclusive (reason : String)
  | evNegative (expectedPayout bond txFee : UInt64)
  | filingDisabled
  | file (args : ChallengeArgs)
  deriving DecidableEq

/-- The filer, without its counter. -/
structure ChallengeFiler where
  bondStrategy : BondStrategy
  maxStakeAtRiskLamports : UInt64
  txFeeLamports : UInt64

def ChallengeFiler.new (bondStrategy : BondStrategy) (maxStakeAtRiskLamports : UInt64) : ChallengeFiler :=
  ⟨bondStrategy, maxStakeAtRiskLamports, DEFAULT_TX_FEE_LAMPORTS⟩

/-- The arguments of `decide_and_file`. -/
structure Call where
  outcome : VerifyOutcome
  agentStakeLamports : UInt64
  thoughtPda : Pubkey
  policyBondMin : UInt64
  deriving DecidableEq

namespace ChallengeFiler

variable (f : ChallengeFiler)

def bondFor (policyBondMin : UInt64) : UInt64 :=
  match f.bondStrategy with
  | .disabled => policyBondMin
  | .conservative => policyBondMin
  | .aggressive => saturatingMul policyBondMin 2

def decide (blake3 : Bytes → Bytes32) (inFlight : UInt64) (call : Call) : FileDecision :=
  if f.bondStrategy = .disabled then .filingDisabled
  else
    match call.outcome with
    | .matched => .noFraud
    | .inconclusive reason => .inconclusive reason
    | .mismatch claim evidenceUri =>
      let bond := f.bondFor call.policyBondMin
      let expectedPayout := mulDiv call.agentStakeLamports 6 10
      let cost := saturatingAdd bond f.txFeeLamports
      if expectedPayout ≤ cost then .evNegative expectedPayout bond f.txFeeLamports
      -- the cap is checked against the counter as it is now
      else if f.maxStakeAtRiskLamports < saturatingAdd bond inFlight then
        .evNegative expectedPayout bond f.txFeeLamports
      else .file ⟨call.thoughtPda, claim, bond, blake3 (utf8 evidenceUri)⟩

/-- The checks a filing passes, with the counter at `inFlight`. -/
structure Files (inFlight : UInt64) (call : Call) : Prop where
  enabled : f.bondStrategy ≠ .disabled
  fraud : ∃ claim evidenceUri, call.outcome = .mismatch claim evidenceUri
  worth : saturatingAdd (f.bondFor call.policyBondMin) f.txFeeLamports < mulDiv call.agentStakeLamports 6 10
  cap : saturatingAdd (f.bondFor call.policyBondMin) inFlight ≤ f.maxStakeAtRiskLamports

variable {f} {blake3 : Bytes → Bytes32} {inFlight : UInt64} {call : Call} {args : ChallengeArgs}

theorem decide_file (h : f.decide blake3 inFlight call = .file args) :
    f.Files inFlight call ∧ args.bond = f.bondFor call.policyBondMin := by
  unfold decide at h
  split at h
  · cases h
  · rename_i hs
    split at h
    · cases h
    · cases h
    · rename_i claim evidenceUri ho
      dsimp only at h
      split at h
      · cases h
      · rename_i hw
        split at h
        · cases h
        · rename_i hc
          cases h
          exact ⟨⟨hs, ⟨claim, evidenceUri, ho⟩, UInt64.not_le.1 hw, UInt64.not_lt.1 hc⟩, rfl⟩

/-- **What is filed, and when.** -/
theorem decide_eq_file : f.decide blake3 inFlight call = .file args ↔ f.Files inFlight call ∧
    ∃ claim evidenceUri, call.outcome = .mismatch claim evidenceUri ∧
      args = ⟨call.thoughtPda, claim, f.bondFor call.policyBondMin, blake3 (utf8 evidenceUri)⟩ := by
  constructor
  · intro h
    obtain ⟨hf, -⟩ := decide_file h
    obtain ⟨claim, evidenceUri, ho⟩ := hf.fraud
    refine ⟨hf, claim, evidenceUri, ho, ?_⟩
    simp only [decide, if_neg hf.enabled, ho, if_neg (UInt64.not_le.2 hf.worth), if_neg (UInt64.not_lt.2 hf.cap),
      FileDecision.file.injEq] at h
    exact h.symm
  · intro hx
    obtain ⟨hf, claim, evidenceUri, ho, rfl⟩ := hx
    simp only [decide, if_neg hf.enabled, ho, if_neg (UInt64.not_le.2 hf.worth), if_neg (UInt64.not_lt.2 hf.cap)]

/-- Below the largest cap the check of a filing is exact. -/
theorem Files.bond_add_le (h : f.Files inFlight call) (hcap : f.maxStakeAtRiskLamports.toNat < 2 ^ 64 - 1) :
    (f.bondFor call.policyBondMin).toNat + inFlight.toNat ≤ f.maxStakeAtRiskLamports.toNat := by
  have hle := UInt64.le_iff_toNat_le.1 h.cap
  rw [toNat_saturatingAdd] at hle
  omega

end ChallengeFiler

end ProofOfThought.Watcher
