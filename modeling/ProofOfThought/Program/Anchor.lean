import ProofOfThought.Base.Fallible
import ProofOfThought.Base.Word
import ProofOfThought.Program.State

/-!
# Account validation and transfers

The errors an instruction can fail with, the events it can emit, and the pieces the instructions are made of: loading
an account, the constraints of `#[derive(Accounts)]`, `init`, and System transfers.
-/

namespace ProofOfThought.Program

open Base

/-! ## Errors -/

/-- `errors.rs`. -/
inductive PotError where
  | insufficientStake
  | modelNotRegistered
  | wrongAction
  | wrongPolicy
  | thoughtNotReady
  | thoughtStale
  | vrfTooStale
  | vrfAlreadyConsumed
  | challengeWindowClosed
  | challengeWindowOpen
  | bondTooLow
  | wrongAgent
  | invalidStatus
  | cooldownActive
  | activeThoughtsExist
  | evidenceMismatch
  | overflow
  | unauthorized
  deriving DecidableEq

/-- Failures of account validation that carry no error of the program. -/
inductive AnchorError where
  | accountNotInitialized
  | accountNotSigner
  | invalidProgramId
  | constraintMut
  | constraintSeeds
  deriving DecidableEq

/-- Failures inside the System Program. -/
inductive SystemError where
  | accountAlreadyInUse
  | insufficientFunds
  deriving DecidableEq

inductive Error where
  | pot (e : PotError)
  | anchor (e : AnchorError)
  | system (e : SystemError)
  deriving DecidableEq

/-! ## Events -/

/-- Event of `submit_thought`, with the commitments inline. -/
structure ThoughtSubmitted where
  agent : Pubkey
  thoughtPda : Pubkey
  modelId : Bytes32
  inputCommitment : Bytes32
  outputCommitment : Bytes32
  traceUriHash : Bytes32
  vrfSeed : Bytes32
  policyId : Bytes32
  slot : UInt64
  traceUri : String

inductive Event where
  | thoughtSubmitted (e : ThoughtSubmitted)
  | thoughtFinalized (thoughtPda agent : Pubkey) (status : UInt8) (slot : UInt64)
  | thoughtConsumed (thoughtPda actionPda consumer : Pubkey) (consumedCount : UInt32)
  | challengeOpened (challenge thought challenger : Pubkey) (claim : UInt8) (bond : UInt64)
  | challengeResolved (challenge thought : Pubkey) (verdict : Bool) (slashedAmount : UInt64)

/-! ## Accounts as passed to an instruction -/

/-- One entry of an instruction's account list. -/
structure AccountInfo where
  key : Pubkey
  isSigner : Bool
  isWritable : Bool
  deriving DecidableEq

/-- `Signer<'info>`. -/
def signer (i : AccountInfo) : Except Error Unit := require (i.isSigner = true) (.anchor .accountNotSigner)

/-- `#[account(mut)]`. -/
def mutable (i : AccountInfo) : Except Error Unit := require (i.isWritable = true) (.anchor .constraintMut)

/-- `Account<'info, T>`: an existing account of the type. -/
def account {T : Type} (m : Pubkey → Option T) (i : AccountInfo) : Except Error T :=
  okOr (m i.key) (.anchor .accountNotInitialized)

/-- `Program<'info, System>`. -/
def systemProgram (i : AccountInfo) : Except Error Unit :=
  require (i.key = systemProgramId) (.anchor .invalidProgramId)

/-- `seeds = [..], bump = b`. -/
def seeds (x : Seeds Pubkey) (b : UInt8) (i : AccountInfo) : Except Error Unit :=
  require (i.key = x.address b) (.anchor .constraintSeeds)

/-- `seeds = [..], bump`: the canonical bump. -/
def canonicalSeeds (rt : Runtime) (x : Seeds Pubkey) (i : AccountInfo) : Except Error Unit :=
  require (i.key = rt.pda x) (.anchor .constraintSeeds)

/-- `system_program::transfer`. -/
def State.transfer (s : State) (src dst : Pubkey) (n : Nat) : Except Error State := do
  require (n ≤ s.lamports src) (.system .insufficientFunds)
  return s.setLamports (s.lamports.move src dst n)

/-- The ledger after `payer` has paid the rent of a new account. -/
def Runtime.fund (rt : Runtime) (L : Ledger Pubkey) (payer target : Pubkey) (space : Nat) : Ledger Pubkey :=
  L.move payer target (rt.rentDue (L target) space)

/-- `init, payer = .., space = .., seeds = [..], bump`. -/
def init (rt : Runtime) (s : State) (payer target : AccountInfo) (x : Seeds Pubkey) (inUse : Bool) (space : Nat) :
    Except Error State := do
  canonicalSeeds rt x target
  require (inUse = false) (.system .accountAlreadyInUse)
  let s ← s.transfer payer.key target.key (rt.rentDue (s.lamports target.key) space)
  mutable target
  return s

/-! ## What success says -/

section

variable {i : AccountInfo} {u : Unit}

@[simp] theorem signer_eq_ok : signer i = .ok u ↔ i.isSigner = true := require_eq_ok

@[simp] theorem mutable_eq_ok : mutable i = .ok u ↔ i.isWritable = true := require_eq_ok

@[simp] theorem account_eq_ok {T : Type} {m : Pubkey → Option T} {a : T} : account m i = .ok a ↔ m i.key = some a :=
  okOr_eq_ok

@[simp] theorem systemProgram_eq_ok : systemProgram i = .ok u ↔ i.key = systemProgramId := require_eq_ok

@[simp] theorem seeds_eq_ok {x : Seeds Pubkey} {b : UInt8} : seeds x b i = .ok u ↔ i.key = x.address b := require_eq_ok

@[simp] theorem canonicalSeeds_eq_ok {rt : Runtime} {x : Seeds Pubkey} :
    canonicalSeeds rt x i = .ok u ↔ i.key = rt.pda x := require_eq_ok

@[simp] theorem transfer_eq_ok {s s' : State} {src dst : Pubkey} {n : Nat} :
    s.transfer src dst n = .ok s' ↔ n ≤ s.lamports src ∧ s' = s.setLamports (s.lamports.move src dst n) := by
  simp only [State.transfer, seq_ok_iff, require_eq_ok, pure_ok_iff, exists_const, eq_comm (a := s')]

theorem transfer_eq_error {s : State} {src dst : Pubkey} {n : Nat} {e : Error} :
    s.transfer src dst n = .error e ↔ s.lamports src < n ∧ .system .insufficientFunds = e := by
  simp only [State.transfer, seq_error_iff, require_eq_error, pure_error_iff, and_false, exists_const, or_false,
    Nat.not_le]

@[simp] theorem init_eq_ok {rt : Runtime} {s s' : State} {payer target : AccountInfo} {x : Seeds Pubkey}
    {inUse : Bool} {space : Nat} :
    init rt s payer target x inUse space = .ok s' ↔
      target.key = rt.pda x ∧ inUse = false ∧ rt.rentDue (s.lamports target.key) space ≤ s.lamports payer.key ∧
        target.isWritable = true ∧ s' = s.setLamports (rt.fund s.lamports payer.key target.key space) := by
  simp only [init, seq_ok_iff, canonicalSeeds_eq_ok, require_eq_ok, transfer_eq_ok, mutable_eq_ok, pure_ok_iff,
    Runtime.fund, exists_const]
  constructor
  · intro h
    rcases h with ⟨hk, hu, _, ⟨hp, rfl⟩, hw, rfl⟩
    exact ⟨hk, hu, hp, hw, rfl⟩
  · intro hx
    rcases hx with ⟨hk, hu, hp, hw, rfl⟩
    exact ⟨hk, hu, _, ⟨hp, rfl⟩, hw, rfl⟩

end

end ProofOfThought.Program
