import ProofOfThought.Sdk.Encoding
import ProofOfThought.Watcher.Sha256

/-!
# The client

The instructions `client.ts` builds, with the PDAs of `pdas.ts` and the hash of `hash.ts`. The packages the client calls
are parameters; what a method hands to the submitter is part of its result.
-/

namespace ProofOfThought.Sdk

open Base
open Program (Bytes32)

/-- The packages the client calls. -/
structure Packages where
  /-- `blake3` of `@noble/hashes`, 32 bytes long. -/
  blake3 : Bytes → Bytes32
  /-- `encode` of `cbor2` on a string, with the options of `canonicalEncode`. -/
  cbor2 : JsString → Bytes
  /-- `PublicKey.findProgramAddressSync` of `@solana/web3.js`. -/
  findProgramAddressSync : List Bytes → PublicKey → Except String (PublicKey × UInt8)

section

variable (pkg : Packages)

/-! ## Addresses -/

def u64Le (n : Int) : Bytes := leBytes 8 (n % 2 ^ 64).toNat

def agentPda (operator programId : PublicKey) : Except String (PublicKey × UInt8) :=
  pkg.findProgramAddressSync [utf8 "agent", operator.toList] programId

def stakeVaultPda (agent programId : PublicKey) : Except String (PublicKey × UInt8) :=
  pkg.findProgramAddressSync [utf8 "vault", agent.toList] programId

def modelPda (modelId : Bytes) (programId : PublicKey) : Except String (PublicKey × UInt8) :=
  pkg.findProgramAddressSync [utf8 "model", modelId] programId

def policyPda (policyId : Bytes) (programId : PublicKey) : Except String (PublicKey × UInt8) :=
  pkg.findProgramAddressSync [utf8 "policy", policyId] programId

def vrfRequestPda (agent : PublicKey) (nonceIdx : Int) (programId : PublicKey) : Except String (PublicKey × UInt8) :=
  pkg.findProgramAddressSync [utf8 "vrf", agent.toList, u64Le nonceIdx] programId

def thoughtPda (agent : PublicKey) (vrfNonceIdx : Int) (programId : PublicKey) : Except String (PublicKey × UInt8) :=
  pkg.findProgramAddressSync [utf8 "thought", agent.toList, u64Le vrfNonceIdx] programId

def challengePda (thought challenger programId : PublicKey) : Except String (PublicKey × UInt8) :=
  pkg.findProgramAddressSync [utf8 "challenge", thought.toList, challenger.toList] programId

def bondVaultPda (challenge programId : PublicKey) : Except String (PublicKey × UInt8) :=
  pkg.findProgramAddressSync [utf8 "bond", challenge.toList] programId

def SYSTEM_PROGRAM_ID : PublicKey := List.Vector.replicate 32 0

/-! ## Hashing -/

/-- `canonicalEncode` of a string: the check of the value passes, and `cbor2` encodes it. -/
def canonicalEncode (value : JsString) : Bytes := pkg.cbor2 value

def hashCommitment (value : JsString) : Bytes32 := pkg.blake3 (canonicalEncode pkg value)

/-! ## Instructions -/

def IX.requestVrf : List.Vector UInt8 8 :=
  (Watcher.computeAnchorDiscriminator (utf8 "global:request_vrf")).get (by decide +kernel)

def IX.consumeThought : List.Vector UInt8 8 :=
  (Watcher.computeAnchorDiscriminator (utf8 "global:consume_thought")).get (by decide +kernel)

def IX.challenge : List.Vector UInt8 8 :=
  (Watcher.computeAnchorDiscriminator (utf8 "global:challenge")).get Watcher.challenge_isSome

/-- The discriminator of `submit_thought`. -/
def IX.submitThought : List.Vector UInt8 8 :=
  (Watcher.computeAnchorDiscriminator (utf8 "global:submit_thought")).get (by decide +kernel)

structure AccountMeta where
  pubkey : PublicKey
  isSigner : Bool
  isWritable : Bool

structure InstructionRequest where
  programId : PublicKey
  data : Bytes
  accounts : List AccountMeta

structure ProofOfThoughtConfig where
  programId : PublicKey
  policyId : Bytes
  modelId : Bytes

structure VrfHandle where
  seed : Bytes
  nonceIdx : Int
  vrfRequestPda : PublicKey

structure ThinkResult where
  inputCommitment : Bytes
  outputCommitment : Bytes

structure SubmitArgs where
  actionPda : PublicKey
  traceUri : JsString

/-- The instruction handed to the submitter, and the handle. -/
def requestVRF (cfg : ProofOfThoughtConfig) (operator : PublicKey) (nonceIdx : Int) (seed : Bytes) :
    Except String (InstructionRequest × VrfHandle) := do
  require (seed.length = 32) "seed must be 32 bytes"
  let (agent, _) ← agentPda pkg operator cfg.programId
  let (vrf, _) ← vrfRequestPda pkg agent nonceIdx cfg.programId
  let argsBytes ← encodeRequestVrfArgs nonceIdx seed
  return ({ programId := cfg.programId
            data := IX.requestVrf.toList ++ argsBytes
            accounts :=
              [⟨operator, true, true⟩, ⟨agent, false, true⟩, ⟨vrf, false, true⟩, ⟨SYSTEM_PROGRAM_ID, false, false⟩] },
    { seed, nonceIdx, vrfRequestPda := vrf })

/-- The instruction handed to the submitter, and the challenge's address. -/
def challenge (cfg : ProofOfThoughtConfig) (challenger thought : PublicKey) (claim : JsNumber) (bond : Int)
    (evidenceUriHash : Bytes) : Except String (InstructionRequest × PublicKey) := do
  let (challenge, _) ← challengePda pkg thought challenger cfg.programId
  let (bondVault, _) ← bondVaultPda pkg challenge cfg.programId
  let argsBytes ← encodeChallengeArgs claim bond evidenceUriHash
  return ({ programId := cfg.programId
            data := IX.challenge.toList ++ argsBytes
            accounts :=
              [⟨challenger, true, true⟩, ⟨thought, false, true⟩, ⟨challenge, false, true⟩, ⟨bondVault, false, true⟩,
                ⟨SYSTEM_PROGRAM_ID, false, false⟩] },
    challenge)

/-- The accounts and the data of a `consume_thought`. -/
def consumeThoughtAccounts (operator thought actionPda : PublicKey) : List AccountMeta × Bytes :=
  ([⟨thought, false, true⟩, ⟨actionPda, false, false⟩, ⟨operator, true, false⟩], IX.consumeThought.toList)

/-- The instruction handed to the submitter, and the thought's address. -/
def submit (cfg : ProofOfThoughtConfig) (operator : PublicKey) (handle : VrfHandle) (result : ThinkResult)
    (args : SubmitArgs) : Except String (InstructionRequest × PublicKey) := do
  let (agent, _) ← agentPda pkg operator cfg.programId
  let (model, _) ← modelPda pkg cfg.modelId cfg.programId
  let (policy, _) ← policyPda pkg cfg.policyId cfg.programId
  let (thought, _) ← thoughtPda pkg agent handle.nonceIdx cfg.programId
  let ixArgs : ThoughtRecordArgs :=
    { modelId := cfg.modelId
      inputCommitment := result.inputCommitment
      outputCommitment := result.outputCommitment
      traceUriHash := (hashCommitment pkg args.traceUri).toList
      vrfSeed := handle.seed
      policyId := cfg.policyId
      actionPda := args.actionPda
      vrfNonceIdx := handle.nonceIdx }
  let argsBytes ← encodeSubmitThoughtArgs ixArgs args.traceUri
  return ({ programId := cfg.programId
            data := IX.submitThought.toList ++ argsBytes
            accounts :=
              [⟨operator, true, true⟩, ⟨agent, false, true⟩, ⟨model, false, false⟩, ⟨policy, false, false⟩,
                ⟨handle.vrfRequestPda, false, true⟩, ⟨thought, false, true⟩, ⟨SYSTEM_PROGRAM_ID, false, false⟩] },
    thought)

/-- The arguments that `submit` encodes. -/
def submittedArgs (cfg : ProofOfThoughtConfig) (handle : VrfHandle) (result : ThinkResult) (args : SubmitArgs) :
    ThoughtRecordArgs where
  modelId := cfg.modelId
  inputCommitment := result.inputCommitment
  outputCommitment := result.outputCommitment
  traceUriHash := (hashCommitment pkg args.traceUri).toList
  vrfSeed := handle.seed
  policyId := cfg.policyId
  actionPda := args.actionPda
  vrfNonceIdx := handle.nonceIdx

variable {pkg}

/-- **The data of an instruction `submit` builds.** -/
theorem submit_encodes {cfg : ProofOfThoughtConfig} {operator : PublicKey} {handle : VrfHandle} {result : ThinkResult}
    {args : SubmitArgs} {ix : InstructionRequest} {thought : PublicKey}
    (h : submit pkg cfg operator handle result args = .ok (ix, thought)) :
    ∃ bytes, ix.data = IX.submitThought.toList ++ bytes ∧
      encodeSubmitThoughtArgs (submittedArgs pkg cfg handle result args) args.traceUri = .ok bytes := by
  simp only [submit, seq_ok_iff, pure_ok_iff, Prod.exists, Prod.mk.injEq] at h
  obtain ⟨_, _, -, _, _, -, _, _, -, _, _, -, bytes, hbytes, rfl, -⟩ := h
  exact ⟨bytes, rfl, hbytes⟩

end

end ProofOfThought.Sdk
