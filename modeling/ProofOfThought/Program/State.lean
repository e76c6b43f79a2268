import ProofOfThought.Base.Ledger
import ProofOfThought.Program.Keys

/-!
# The program's accounts

The account types of `state/`, the sizes their `init` asks for, and the chain state the program acts on: the slot, the
lamports of every address, and the program's accounts of each type.
-/

namespace ProofOfThought.Program

open Base

/-! ## Enumerations stored as `u8` -/

inductive ThoughtStatus where
  | pending
  | challenged
  | finalized
  | slashed
  deriving DecidableEq

def ThoughtStatus.toU8 : ThoughtStatus → UInt8
  | .pending => 0
  | .challenged => 1
  | .finalized => 2
  | .slashed => 3

def ThoughtStatus.fromU8 (v : UInt8) : Option ThoughtStatus :=
  if v = 0 then some .pending
  else if v = 1 then some .challenged
  else if v = 2 then some .finalized
  else if v = 3 then some .slashed
  else none

@[simp] theorem fromU8_toU8 (st : ThoughtStatus) : ThoughtStatus.fromU8 st.toU8 = some st := by cases st <;> rfl

theorem fromU8_eq_some {v : UInt8} {st : ThoughtStatus} : ThoughtStatus.fromU8 v = some st ↔ v = st.toU8 := by
  constructor
  · intro h
    unfold ThoughtStatus.fromU8 at h
    split_ifs at h <;> cases h <;> assumption
  · rintro rfl
    exact fromU8_toU8 st

@[simp] theorem toU8_inj {a b : ThoughtStatus} : a.toU8 = b.toU8 ↔ a = b := by cases a <;> cases b <;> decide

inductive ChallengeClaim where
  | modelMismatch
  | outputMismatch
  | inputOmission
  | replay
  | staleVRF
  | attestationInvalid
  | inconsistentCommitments
  deriving DecidableEq

def ChallengeClaim.toU8 : ChallengeClaim → UInt8
  | .modelMismatch => 0
  | .outputMismatch => 1
  | .inputOmission => 2
  | .replay => 3
  | .staleVRF => 4
  | .attestationInvalid => 5
  | .inconsistentCommitments => 6

inductive ModelClass where
  | openWeights
  | hosted
  | teeAttested
  deriving DecidableEq

def ModelClass.toU8 : ModelClass → UInt8
  | .openWeights => 0
  | .hosted => 1
  | .teeAttested => 2

inductive EquivClass where
  | strict
  | structuralJSON
  | semanticCommittee
  | anyOfN
  deriving DecidableEq

def EquivClass.toU8 : EquivClass → UInt8
  | .strict => 0
  | .structuralJSON => 1
  | .semanticCommittee => 2
  | .anyOfN => 3

/-! ## Accounts -/

/-- Per-operator registration, at `["agent", operator]`. `stakeAmount` caches the stake held in the vault. -/
structure AgentProfile where
  operator : Pubkey
  stakeVault : Pubkey
  stakeAmount : UInt64
  reputation : Int64
  /-- Thoughts in Pending or Challenged status; withdrawals wait for zero. -/
  activeThoughts : UInt32
  cooldownUntil : UInt64
  vrfNonce : UInt64
  bump : UInt8

def AgentProfile.LEN : Nat := 8 + 32 + 32 + 8 + 8 + 4 + 8 + 8 + 1

/-- Registry entry of a model, at `["model", model_id]`. -/
structure ModelRegistry where
  modelId : Bytes32
  modelClass : UInt8
  verifierPubkey : Pubkey
  teeRootCa : Pubkey
  registeredBy : Pubkey
  bump : UInt8

def ModelRegistry.LEN : Nat := 8 + 32 + 1 + 32 + 32 + 32 + 1

/-- Policy, at `["policy", policy_id]`. -/
structure Policy where
  policyId : Bytes32
  schemaUriHash : Bytes32
  equivClass : UInt8
  maxInferenceSlots : UInt32
  maxActionAgeSlots : UInt64
  challengeWindowSlots : UInt64
  /-- Stake an agent needs to submit, and the least challenger bond. -/
  bondMin : UInt64
  resolver : Pubkey
  treasury : Pubkey
  allowedModels : List Bytes32
  bump : UInt8

def Policy.MAX_ALLOWED_MODELS : Nat := 16

def Policy.LEN : Nat := 8 + 32 + 32 + 1 + 4 + 8 + 8 + 8 + 32 + 32 + (4 + Policy.MAX_ALLOWED_MODELS * 32) + 1

/-- VRF request, at `["vrf", agent, nonce_idx]`. -/
structure VrfRequest where
  agent : Pubkey
  nonceIdx : UInt64
  seed : Bytes32
  requestSlot : UInt64
  consumed : Bool
  bump : UInt8

def VrfRequest.LEN : Nat := 8 + 32 + 8 + 32 + 8 + 1 + 1

/-- Thought commitment, at `["thought", agent, vrf_nonce_idx]`. -/
structure ThoughtRecord where
  agent : Pubkey
  modelId : Bytes32
  inputCommitment : Bytes32
  outputCommitment : Bytes32
  traceUriHash : Bytes32
  vrfSeed : Bytes32
  policyId : Bytes32
  slot : UInt64
  actionPda : Pubkey
  status : UInt8
  attestationVerified : Bool
  challengeDeadlineSlot : UInt64
  consumedCount : UInt32
  vrfNonceIdx : UInt64
  bump : UInt8
  pad : List.Vector UInt8 7

def ThoughtRecord.LEN : Nat := 8 + 32 + 32 + 32 + 32 + 32 + 32 + 32 + 8 + 32 + 1 + 1 + 8 + 4 + 8 + 1 + 7

/-- Dispute of a thought, at `["challenge", thought, challenger]`. -/
structure Challenge where
  thought : Pubkey
  challenger : Pubkey
  bond : UInt64
  claim : UInt8
  evidenceUriHash : Bytes32
  openedAtSlot : UInt64
  resolved : Bool
  /-- `true` when the challenger won; meaningful once resolved. -/
  verdict : Bool
  bump : UInt8

def Challenge.LEN : Nat := 8 + 32 + 32 + 8 + 1 + 32 + 8 + 1 + 1 + 1

/-! ## The chain -/

/-- The slot, the lamports, and the program's accounts by type and address. -/
structure State where
  slot : UInt64
  lamports : Ledger Pubkey
  agents : Pubkey → Option AgentProfile
  models : Pubkey → Option ModelRegistry
  policies : Pubkey → Option Policy
  vrfRequests : Pubkey → Option VrfRequest
  thoughts : Pubkey → Option ThoughtRecord
  challenges : Pubkey → Option Challenge

/-- Before the program's first instruction: any slot and balances, no accounts. -/
def State.genesis (slot : UInt64) (lamports : Ledger Pubkey) : State where
  slot := slot
  lamports := lamports
  agents := fun _ => none
  models := fun _ => none
  policies := fun _ => none
  vrfRequests := fun _ => none
  thoughts := fun _ => none
  challenges := fun _ => none

namespace State

variable (s : State) (k : Pubkey)

/-! Writing one account back. -/

def setAgent (a : AgentProfile) : State := { s with agents := Function.update s.agents k (some a) }

def setModel (m : ModelRegistry) : State := { s with models := Function.update s.models k (some m) }

def setPolicy (p : Policy) : State := { s with policies := Function.update s.policies k (some p) }

def setVrfRequest (v : VrfRequest) : State := { s with vrfRequests := Function.update s.vrfRequests k (some v) }

def setThought (t : ThoughtRecord) : State := { s with thoughts := Function.update s.thoughts k (some t) }

def setChallenge (c : Challenge) : State := { s with challenges := Function.update s.challenges k (some c) }

def setLamports (L : Ledger Pubkey) : State := { s with lamports := L }

end State

end ProofOfThought.Program
