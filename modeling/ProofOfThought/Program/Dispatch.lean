import ProofOfThought.Base.Sha256
import ProofOfThought.Program.Entry
import ProofOfThought.Program.Layout
import ProofOfThought.Program.Rent

/-!
# The eleven instructions on the wire

The entry point of the program: the dispatch on the discriminator, the Borsh arguments and the accounts by position, for
every instruction of `lib.rs`. Data and accounts encode at most one instruction, and the entry executes it
(`invocation_exact`). The instructions that Anchor adds for the IDL are left out; a list with too few accounts is
refused up front, where Anchor finds out field by field.
-/

namespace ProofOfThought.Program

open Base

/-! ## Methods -/

/-- The functions of `mod pot_program`. -/
inductive Method where
  | registerAgent
  | registerModel
  | registerPolicy
  | requestVrf
  | submitThought
  | consumeThought
  | challenge
  | resolveUnchallenged
  | resolveChallenged
  | stake
  | withdrawStake
  deriving DecidableEq

namespace Method

def name : Method → String
  | registerAgent => "register_agent"
  | registerModel => "register_model"
  | registerPolicy => "register_policy"
  | requestVrf => "request_vrf"
  | submitThought => "submit_thought"
  | consumeThought => "consume_thought"
  | challenge => "challenge"
  | resolveUnchallenged => "resolve_unchallenged"
  | resolveChallenged => "resolve_challenged"
  | stake => "stake"
  | withdrawStake => "withdraw_stake"

def DISCRIMINATOR : Method → List.Vector UInt8 8
  | registerAgent => ⟨[135, 157, 66, 195, 2, 113, 175, 30], rfl⟩
  | registerModel => ⟨[111, 236, 93, 31, 195, 210, 142, 125], rfl⟩
  | registerPolicy => ⟨[62, 66, 167, 36, 252, 227, 38, 132], rfl⟩
  | requestVrf => RequestVrf.DISCRIMINATOR
  | submitThought => SubmitThought.DISCRIMINATOR
  | consumeThought => ConsumeThought.DISCRIMINATOR
  | challenge => OpenChallenge.DISCRIMINATOR
  | resolveUnchallenged => ⟨[90, 130, 177, 218, 10, 175, 40, 63], rfl⟩
  | resolveChallenged => ⟨[12, 139, 62, 229, 36, 109, 108, 225], rfl⟩
  | stake => ⟨[206, 176, 202, 18, 200, 209, 179, 108], rfl⟩
  | withdrawStake => ⟨[153, 8, 22, 138, 105, 176, 87, 66], rfl⟩

/-- In the order of `lib.rs`. -/
def all : List Method :=
  [registerAgent, registerModel, registerPolicy, requestVrf, submitThought, consumeThought, challenge,
    resolveUnchallenged, resolveChallenged, stake, withdrawStake]

/-- The method with the discriminator. -/
def find (sighash : Bytes) : Option Method := all.find? fun m => m.DISCRIMINATOR.toList = sighash

/-- A discriminator is the first eight bytes of the SHA-256 of the name. -/
theorem discriminator_eq (m : Method) :
    m.DISCRIMINATOR.toList = (Sha256.sha256 (utf8 ("global:" ++ m.name))).toList.take 8 := by
  cases m <;> decide +kernel

theorem discriminator_inj {m m' : Method} : m.DISCRIMINATOR.toList = m'.DISCRIMINATOR.toList ↔ m = m' := by
  cases m <;> cases m' <;> decide

theorem find_eq_some {sighash : Bytes} {m : Method} : find sighash = some m ↔ m.DISCRIMINATOR.toList = sighash := by
  constructor
  · intro h
    simpa using List.find?_some h
  · rintro rfl
    cases m <;> rfl

end Method

/-! ## Accounts by position -/

/-- `bind` takes the accounts that `list` names, in order, and leaves further ones over. -/
def Binds {C : Type} (bind : List AccountInfo → Except EntryError C) (list : C → List AccountInfo) : Prop :=
  ∀ accounts ctx, bind accounts = .ok ctx ↔ ∃ extra, accounts = list ctx ++ extra

section Positional

variable {C : Type} {list : C → List AccountInfo}

/-- `list` gives back `taken`, and after it the accounts a function is applied to. -/
def GivesBack (list : C → List AccountInfo) : (n : Nat) → OfAccounts C n → List AccountInfo → Prop
  | 0, ctx, taken => list ctx = taken
  | n + 1, mk, taken => ∀ account, GivesBack list n (mk account) (taken ++ [account])

/-- What was taken and what is left over make up the list that was read. -/
theorem accounts_of_bind {n : Nat} {mk : OfAccounts C n} {taken accounts : List AccountInfo} {ctx : C}
    (hlist : GivesBack list n mk taken) (h : bindAccounts n mk accounts = .ok ctx) :
    ∃ extra, taken ++ accounts = list ctx ++ extra := by
  induction n generalizing taken accounts with
  | zero =>
    obtain rfl : mk = ctx := Except.ok.inj h
    exact ⟨accounts, by rw [show list mk = taken from hlist]⟩
  | succ n ih =>
    cases accounts with
    | nil => cases h
    | cons account accounts =>
      obtain ⟨extra, he⟩ := ih (hlist account) h
      exact ⟨extra, by rw [← he, List.append_assoc, List.singleton_append]⟩

/-- **Reading a positional list.** Its accounts are taken in order if they are given back in order. -/
theorem bindAccounts_binds {n : Nat} {mk : OfAccounts C n} (hlist : GivesBack list n mk [])
    (hread : ∀ ctx extra, bindAccounts n mk (list ctx ++ extra) = .ok ctx) : Binds (bindAccounts n mk) list := by
  intro accounts ctx
  constructor
  · exact fun h => accounts_of_bind hlist h
  · rintro ⟨extra, rfl⟩
    exact hread ctx extra

end Positional

def RegisterAgent.bind : List AccountInfo → Except EntryError RegisterAgent :=
  bindAccounts 4 fun operator agent stakeVault systemProgram => { operator, agent, stakeVault, systemProgram }

def StakeAccounts.bind : List AccountInfo → Except EntryError StakeAccounts :=
  bindAccounts 4 fun operator agent stakeVault systemProgram => { operator, agent, stakeVault, systemProgram }

def RegisterModel.bind : List AccountInfo → Except EntryError RegisterModel :=
  bindAccounts 3 fun governance model systemProgram => { governance, model, systemProgram }

def RegisterPolicy.bind : List AccountInfo → Except EntryError RegisterPolicy :=
  bindAccounts 3 fun author policy systemProgram => { author, policy, systemProgram }

def ResolveUnchallenged.bind : List AccountInfo → Except EntryError ResolveUnchallenged :=
  bindAccounts 3 fun cranker thought agent => { cranker, thought, agent }

def ResolveChallenged.bind : List AccountInfo → Except EntryError ResolveChallenged :=
  bindAccounts 11 fun resolver thought agent policy challenge stakeVault bondVault challenger treasury agentOperator
      systemProgram =>
    { resolver, thought, agent, policy, challenge, stakeVault, bondVault, challenger, treasury, agentOperator,
      systemProgram }

theorem RegisterAgent.bind_binds :
    Binds bind fun ctx => [ctx.operator, ctx.agent, ctx.stakeVault, ctx.systemProgram] :=
  bindAccounts_binds (fun _ _ _ _ => rfl) fun _ _ => rfl

theorem StakeAccounts.bind_binds :
    Binds bind fun ctx => [ctx.operator, ctx.agent, ctx.stakeVault, ctx.systemProgram] :=
  bindAccounts_binds (fun _ _ _ _ => rfl) fun _ _ => rfl

theorem RegisterModel.bind_binds : Binds bind fun ctx => [ctx.governance, ctx.model, ctx.systemProgram] :=
  bindAccounts_binds (fun _ _ _ => rfl) fun _ _ => rfl

theorem RegisterPolicy.bind_binds : Binds bind fun ctx => [ctx.author, ctx.policy, ctx.systemProgram] :=
  bindAccounts_binds (fun _ _ _ => rfl) fun _ _ => rfl

theorem RequestVrf.bind_binds : Binds bind fun ctx => [ctx.operator, ctx.agent, ctx.vrfRequest, ctx.systemProgram] :=
  bindAccounts_binds (fun _ _ _ _ => rfl) fun _ _ => rfl

theorem SubmitThought.bind_binds :
    Binds bind fun ctx =>
      [ctx.operator, ctx.agent, ctx.model, ctx.policy, ctx.vrfRequest, ctx.thought, ctx.systemProgram] :=
  bindAccounts_binds (fun _ _ _ _ _ _ _ => rfl) fun _ _ => rfl

theorem ConsumeThought.bind_binds : Binds bind fun ctx => [ctx.consumer, ctx.thought, ctx.policy, ctx.action] :=
  bindAccounts_binds (fun _ _ _ _ => rfl) fun _ _ => rfl

theorem OpenChallenge.bind_binds :
    Binds bind fun ctx =>
      [ctx.challenger, ctx.thought, ctx.policy, ctx.challenge, ctx.bondVault, ctx.systemProgram] :=
  bindAccounts_binds (fun _ _ _ _ _ _ => rfl) fun _ _ => rfl

theorem ResolveUnchallenged.bind_binds : Binds bind fun ctx => [ctx.cranker, ctx.thought, ctx.agent] :=
  bindAccounts_binds (fun _ _ _ => rfl) fun _ _ => rfl

theorem ResolveChallenged.bind_binds :
    Binds bind fun ctx =>
      [ctx.resolver, ctx.thought, ctx.agent, ctx.policy, ctx.challenge, ctx.stakeVault, ctx.bondVault,
        ctx.challenger, ctx.treasury, ctx.agentOperator, ctx.systemProgram] :=
  bindAccounts_binds (fun _ _ _ _ _ _ _ _ _ _ _ => rfl) fun _ _ => rfl

/-! ## Arguments -/

/-- The class of an enum tag. -/
def ModelClass.fromTag : UInt8 → Option ModelClass
  | 0 => some .openWeights
  | 1 => some .hosted
  | 2 => some .teeAttested
  | _ => none

theorem ModelClass.fromTag_eq_some (tag : UInt8) (c : ModelClass) : fromTag tag = some c ↔ c.toU8 = tag := by
  constructor
  · intro h
    unfold fromTag at h
    split at h <;> cases h <;> rfl
  · rintro rfl
    cases c <;> rfl

/-- The equivalence class of an enum tag. -/
def EquivClass.fromTag : UInt8 → Option EquivClass
  | 0 => some .strict
  | 1 => some .structuralJSON
  | 2 => some .semanticCommittee
  | 3 => some .anyOfN
  | _ => none

theorem EquivClass.fromTag_eq_some (tag : UInt8) (c : EquivClass) : fromTag tag = some c ↔ c.toU8 = tag := by
  constructor
  · intro h
    unfold fromTag at h
    split at h <;> cases h <;> rfl
  · rintro rfl
    cases c <;> rfl

section Decode

variable (address : Bytes32 → Pubkey)

/-- A `Pubkey`: its 32 bytes. -/
def takeAddress (bs : Bytes) : Except EntryError (Pubkey × Bytes) :=
  (takeData 32 bs).map fun r => (address r.1, r.2)

def RegisterModel.deserialize (bs : Bytes) : Except EntryError ((Bytes32 × ModelClass × Pubkey × Pubkey) × Bytes) := do
  let (modelId, bs) ← takeData 32 bs
  let (modelClass, bs) ← Borsh.readTag takeData .instructionDidNotDeserialize ModelClass.fromTag bs
  let (verifierPubkey, bs) ← takeAddress address bs
  let (teeRootCa, bs) ← takeAddress address bs
  return ((modelId, modelClass, verifierPubkey, teeRootCa), bs)

def RegisterPolicyArgs.deserialize (bs : Bytes) : Except EntryError (RegisterPolicyArgs × Bytes) := do
  let (policyId, bs) ← takeData 32 bs
  let (schemaUriHash, bs) ← takeData 32 bs
  let (equivClass, bs) ← Borsh.readTag takeData .instructionDidNotDeserialize EquivClass.fromTag bs
  let (maxInferenceSlots, bs) ← Borsh.readU32 takeData bs
  let (maxActionAgeSlots, bs) ← Borsh.readU64 takeData bs
  let (challengeWindowSlots, bs) ← Borsh.readU64 takeData bs
  let (bondMin, bs) ← Borsh.readU64 takeData bs
  let (resolver, bs) ← takeAddress address bs
  let (treasury, bs) ← takeAddress address bs
  let (allowedModels, bs) ← Borsh.readVec takeData (takeData 32) bs
  return ({ policyId, schemaUriHash, equivClass, maxInferenceSlots, maxActionAgeSlots, challengeWindowSlots, bondMin,
            resolver, treasury, allowedModels }, bs)

/-- What Anchor generates for a method: the arguments first, then the accounts. -/
def Method.decode (bs : Bytes) (accounts : List AccountInfo) : Method → Except EntryError Instruction
  | registerAgent => do
    let (lamports, _) ← Borsh.readU64 takeData bs
    let ctx ← RegisterAgent.bind accounts
    return .registerAgent ctx lamports
  | registerModel => do
    let ((modelId, modelClass, verifierPubkey, teeRootCa), _) ← RegisterModel.deserialize address bs
    let ctx ← RegisterModel.bind accounts
    return .registerModel ctx modelId modelClass verifierPubkey teeRootCa
  | registerPolicy => do
    let (args, _) ← RegisterPolicyArgs.deserialize address bs
    let ctx ← RegisterPolicy.bind accounts
    return .registerPolicy ctx args
  | requestVrf => do
    let ((nonceIdx, seed), _) ← RequestVrf.deserialize bs
    let ctx ← RequestVrf.bind accounts
    return .requestVrf ctx nonceIdx seed
  | submitThought => do
    let ((args, traceUri), _) ← SubmitThought.deserialize address bs
    let ctx ← SubmitThought.bind accounts
    return .submitThought ctx args traceUri
  | consumeThought => do
    let ctx ← ConsumeThought.bind accounts
    return .consumeThought ctx
  | challenge => do
    let ((claim, bond, evidenceUriHash), _) ← OpenChallenge.deserialize bs
    let ctx ← OpenChallenge.bind accounts
    return .challenge ctx claim bond evidenceUriHash
  | resolveUnchallenged => do
    let ctx ← ResolveUnchallenged.bind accounts
    return .resolveUnchallenged ctx
  | resolveChallenged => do
    let (verdict, _) ← Borsh.readTag takeData .instructionDidNotDeserialize Borsh.boolOfTag bs
    let ctx ← ResolveChallenged.bind accounts
    return .resolveChallenged ctx verdict
  | stake => do
    let (amount, _) ← Borsh.readU64 takeData bs
    let ctx ← StakeAccounts.bind accounts
    return .stake ctx amount
  | withdrawStake => do
    let (amount, _) ← Borsh.readU64 takeData bs
    let ctx ← StakeAccounts.bind accounts
    return .withdrawStake ctx amount

/-- The instruction that data and accounts encode. -/
def decode (data : Bytes) (accounts : List AccountInfo) : Except EntryError Instruction := do
  let method ← okOr (Method.find (data.take 8)) .instructionFallbackNotFound
  method.decode address (data.drop 8) accounts

end Decode

/-! ## Encoding -/

section Encode

variable (toBytes : Pubkey → Bytes32)

def RegisterPolicyArgs.borsh (args : RegisterPolicyArgs) : Bytes :=
  args.policyId.toList ++ (args.schemaUriHash.toList ++ (args.equivClass.toU8 ::
    (leBytes 4 args.maxInferenceSlots.toNat ++ (leBytes 8 args.maxActionAgeSlots.toNat ++
      (leBytes 8 args.challengeWindowSlots.toNat ++ (leBytes 8 args.bondMin.toNat ++
        ((toBytes args.resolver).toList ++ ((toBytes args.treasury).toList ++
          borshVec List.Vector.toList args.allowedModels))))))))

def ThoughtRecordArgs.borsh (args : ThoughtRecordArgs) : Bytes :=
  args.modelId.toList ++ (args.inputCommitment.toList ++ (args.outputCommitment.toList ++
    (args.traceUriHash.toList ++ (args.vrfSeed.toList ++ (args.policyId.toList ++ ((toBytes args.actionPda).toList ++
      leBytes 8 args.vrfNonceIdx.toNat))))))

def Instruction.method : Instruction → Method
  | .registerAgent .. => .registerAgent
  | .stake .. => .stake
  | .withdrawStake .. => .withdrawStake
  | .registerModel .. => .registerModel
  | .registerPolicy .. => .registerPolicy
  | .requestVrf .. => .requestVrf
  | .submitThought .. => .submitThought
  | .consumeThought .. => .consumeThought
  | .challenge .. => .challenge
  | .resolveUnchallenged .. => .resolveUnchallenged
  | .resolveChallenged .. => .resolveChallenged

/-- The arguments in Borsh. -/
def Instruction.args : Instruction → Bytes
  | .registerAgent _ lamports => leBytes 8 lamports.toNat
  | .stake _ amount => leBytes 8 amount.toNat
  | .withdrawStake _ amount => leBytes 8 amount.toNat
  | .registerModel _ modelId modelClass verifierPubkey teeRootCa =>
    modelId.toList ++ (modelClass.toU8 :: ((toBytes verifierPubkey).toList ++ (toBytes teeRootCa).toList))
  | .registerPolicy _ policy => policy.borsh toBytes
  | .requestVrf _ nonceIdx seed => leBytes 8 nonceIdx.toNat ++ seed.toList
  | .submitThought _ thought traceUri => thought.borsh toBytes ++ borshString traceUri
  | .consumeThought _ => []
  | .challenge _ claim bond evidenceUriHash => claim.toU8 :: (leBytes 8 bond.toNat ++ evidenceUriHash.toList)
  | .resolveUnchallenged _ => []
  | .resolveChallenged _ verdict => [Borsh.boolTag verdict]

/-- The instruction data. -/
def Instruction.data (i : Instruction) : Bytes := i.method.DISCRIMINATOR.toList ++ i.args toBytes

/-- The arguments are values of their types on the wire: addresses are 32 bytes, and lengths fit in four. -/
def Instruction.Encodable (address : Bytes32 → Pubkey) : Instruction → Prop
  | .registerModel _ _ _ verifierPubkey teeRootCa => verifierPubkey ∈ Set.range address ∧ teeRootCa ∈ Set.range address
  | .registerPolicy _ args =>
    args.resolver ∈ Set.range address ∧ args.treasury ∈ Set.range address ∧ args.allowedModels.length < 2 ^ 32
  | .submitThought _ args traceUri => args.actionPda ∈ Set.range address ∧ (utf8 traceUri).length < 2 ^ 32
  | _ => True

end Encode

/-! ## Reading what is written -/

section Reads

variable {address : Bytes32 → Pubkey} {toBytes : Pubkey → Bytes32} {bs r : Bytes} {accounts : List AccountInfo}

theorem takeData_eq_ok {n : Nat} {v : List.Vector UInt8 n} : takeData n bs = .ok (v, r) ↔ bs = v.toList ++ r :=
  Borsh.takeSlice_eq_ok

theorem readU64_eq_ok {n : UInt64} : Borsh.readU64 takeData bs = .ok (n, r) ↔ bs = leBytes 8 n.toNat ++ r :=
  Borsh.readU64_eq_ok

theorem readU32_eq_ok {n : UInt32} : Borsh.readU32 takeData bs = .ok (n, r) ↔ bs = leBytes 4 n.toNat ++ r :=
  Borsh.readU32_eq_ok

theorem readTag_eq_ok {α : Type} {ofTag : UInt8 → Option α} {tag : α → UInt8}
    (hof : ∀ t a, ofTag t = some a ↔ tag a = t) {a : α} :
    Borsh.readTag takeData .instructionDidNotDeserialize ofTag bs = .ok (a, r) ↔ bs = tag a :: r :=
  Borsh.readTag_eq_ok hof

theorem readString_eq_ok {text : String} :
    Borsh.readString takeData .instructionDidNotDeserialize bs = .ok (text, r) ↔
      (utf8 text).length < 2 ^ 32 ∧ bs = borshString text ++ r :=
  Borsh.readString_eq_ok

theorem readVec_eq_ok {n : Nat} {vs : List (List.Vector UInt8 n)} :
    Borsh.readVec takeData (takeData n) bs = .ok (vs, r) ↔
      vs.length < 2 ^ 32 ∧ bs = borshVec List.Vector.toList vs ++ r :=
  Borsh.readVec_eq_ok

theorem requestVrf_deserialize_iff {nonceIdx : UInt64} {seed : Bytes32} :
    RequestVrf.deserialize bs = .ok ((nonceIdx, seed), r) ↔ bs = leBytes 8 nonceIdx.toNat ++ seed.toList ++ r := by
  simp only [RequestVrf.deserialize, seq_ok_iff, pure_ok_iff, Prod.exists, Prod.mk.injEq, readU64_eq_ok, takeData_eq_ok,
    List.append_assoc]
  constructor
  · rintro ⟨n, _, rfl, v, _, rfl, ⟨rfl, rfl⟩, rfl⟩
    rfl
  · rintro rfl
    exact ⟨_, _, rfl, _, _, rfl, ⟨rfl, rfl⟩, rfl⟩

theorem openChallenge_deserialize_iff {claim : ChallengeClaim} {bond : UInt64} {evidenceUriHash : Bytes32} :
    OpenChallenge.deserialize bs = .ok ((claim, bond, evidenceUriHash), r) ↔
      bs = claim.toU8 :: (leBytes 8 bond.toNat ++ evidenceUriHash.toList) ++ r := by
  have htag : OpenChallenge.deserialize bs = (do
      let (claim, bs) ← Borsh.readTag takeData .instructionDidNotDeserialize ChallengeClaim.fromTag bs
      let (bond, bs) ← Borsh.readU64 takeData bs
      let (evidenceUriHash, bs) ← takeData 32 bs
      return ((claim, bond, evidenceUriHash), bs)) := by
    simp only [OpenChallenge.deserialize, Borsh.readTag, bind_assoc, pure_bind]
  simp only [htag, seq_ok_iff, pure_ok_iff, Prod.exists, Prod.mk.injEq, readU64_eq_ok, takeData_eq_ok,
    readTag_eq_ok fun _ _ => ChallengeClaim.fromTag_eq_some, List.cons_append, List.append_assoc]
  constructor
  · rintro ⟨c, _, rfl, n, _, rfl, v, _, rfl, ⟨rfl, rfl, rfl⟩, rfl⟩
    rfl
  · rintro rfl
    exact ⟨_, _, rfl, _, _, rfl, _, _, rfl, ⟨rfl, rfl, rfl⟩, rfl⟩

variable (hto : ∀ b, toBytes (address b) = b)

include hto

theorem takeAddress_eq_ok {k : Pubkey} :
    takeAddress address bs = .ok (k, r) ↔ k ∈ Set.range address ∧ bs = (toBytes k).toList ++ r := by
  simp only [takeAddress, map_eq_ok, Prod.exists, Prod.mk.injEq, takeData_eq_ok, Set.mem_range]
  constructor
  · rintro ⟨v, _, rfl, rfl, rfl⟩
    exact ⟨⟨v, rfl⟩, by rw [hto]⟩
  · rintro ⟨⟨v, rfl⟩, rfl⟩
    exact ⟨v, r, by rw [hto], rfl, rfl⟩

theorem registerModel_deserialize_iff {modelId : Bytes32} {c : ModelClass} {verifierPubkey teeRootCa : Pubkey} :
    RegisterModel.deserialize address bs = .ok ((modelId, c, verifierPubkey, teeRootCa), r) ↔
      (verifierPubkey ∈ Set.range address ∧ teeRootCa ∈ Set.range address) ∧
        bs = modelId.toList ++ (c.toU8 :: ((toBytes verifierPubkey).toList ++ (toBytes teeRootCa).toList)) ++ r := by
  simp only [RegisterModel.deserialize, seq_ok_iff, pure_ok_iff, Prod.exists, Prod.mk.injEq, takeData_eq_ok,
    takeAddress_eq_ok hto, readTag_eq_ok ModelClass.fromTag_eq_some, List.cons_append, List.append_assoc]
  constructor
  · rintro ⟨m, _, rfl, c, _, rfl, v, _, ⟨hv, rfl⟩, ca, _, ⟨hca, rfl⟩, ⟨rfl, rfl, rfl, rfl⟩, rfl⟩
    exact ⟨⟨hv, hca⟩, rfl⟩
  · rintro ⟨⟨hv, hca⟩, rfl⟩
    exact ⟨_, _, rfl, _, _, rfl, _, _, ⟨hv, rfl⟩, _, _, ⟨hca, rfl⟩, ⟨rfl, rfl, rfl, rfl⟩, rfl⟩

theorem registerPolicyArgs_deserialize_iff {args : RegisterPolicyArgs} :
    RegisterPolicyArgs.deserialize address bs = .ok (args, r) ↔
      (args.resolver ∈ Set.range address ∧ args.treasury ∈ Set.range address ∧ args.allowedModels.length < 2 ^ 32) ∧
        bs = args.borsh toBytes ++ r := by
  simp only [RegisterPolicyArgs.deserialize, seq_ok_iff, pure_ok_iff, Prod.exists, Prod.mk.injEq, takeData_eq_ok,
    readU32_eq_ok, readU64_eq_ok, takeAddress_eq_ok hto, readTag_eq_ok EquivClass.fromTag_eq_some, readVec_eq_ok,
    RegisterPolicyArgs.borsh, List.append_assoc, List.cons_append]
  constructor
  · rintro ⟨_, _, rfl, _, _, rfl, _, _, rfl, _, _, rfl, _, _, rfl, _, _, rfl, _, _, rfl, _, _, ⟨hr, rfl⟩, _, _,
      ⟨ht, rfl⟩, _, _, ⟨hm, rfl⟩, rfl, rfl⟩
    exact ⟨⟨hr, ht, hm⟩, rfl⟩
  · rintro ⟨⟨hr, ht, hm⟩, rfl⟩
    exact ⟨_, _, rfl, _, _, rfl, _, _, rfl, _, _, rfl, _, _, rfl, _, _, rfl, _, _, rfl, _, _, ⟨hr, rfl⟩, _, _,
      ⟨ht, rfl⟩, _, _, ⟨hm, rfl⟩, rfl, rfl⟩

theorem thoughtRecordArgs_deserialize_iff {args : ThoughtRecordArgs} :
    ThoughtRecordArgs.deserialize address bs = .ok (args, r) ↔
      args.actionPda ∈ Set.range address ∧ bs = args.borsh toBytes ++ r := by
  simp only [ThoughtRecordArgs.deserialize, seq_ok_iff, pure_ok_iff, Prod.exists, Prod.mk.injEq, takeData_eq_ok,
    readU64_eq_ok, ThoughtRecordArgs.borsh, List.append_assoc, Set.mem_range]
  constructor
  · rintro ⟨_, _, rfl, _, _, rfl, _, _, rfl, _, _, rfl, _, _, rfl, _, _, rfl, v, _, rfl, _, _, rfl, rfl, rfl⟩
    exact ⟨⟨v, rfl⟩, by rw [hto]⟩
  · rintro ⟨⟨v, hv⟩, rfl⟩
    refine ⟨_, _, rfl, _, _, rfl, _, _, rfl, _, _, rfl, _, _, rfl, _, _, rfl, v, _, ?_, args.vrfNonceIdx,
      _, rfl, ?_, rfl⟩
    · rw [← hv, hto]
    · rw [hv]

theorem submitThought_deserialize_iff {args : ThoughtRecordArgs} {traceUri : String} :
    SubmitThought.deserialize address bs = .ok ((args, traceUri), r) ↔
      (args.actionPda ∈ Set.range address ∧ (utf8 traceUri).length < 2 ^ 32) ∧
        bs = args.borsh toBytes ++ borshString traceUri ++ r := by
  simp only [SubmitThought.deserialize, seq_ok_iff, pure_ok_iff, Prod.exists, Prod.mk.injEq,
    thoughtRecordArgs_deserialize_iff hto, readString_eq_ok, List.append_assoc]
  constructor
  · rintro ⟨_, _, ⟨ha, rfl⟩, _, _, ⟨hu, rfl⟩, ⟨rfl, rfl⟩, rfl⟩
    exact ⟨⟨ha, hu⟩, rfl⟩
  · rintro ⟨⟨ha, hu⟩, rfl⟩
    exact ⟨_, _, ⟨ha, rfl⟩, _, _, ⟨hu, rfl⟩, ⟨rfl, rfl⟩, rfl⟩

end Reads

/-! ## Invocations -/

section Decoding

variable {address : Bytes32 → Pubkey} {toBytes : Pubkey → Bytes32} {accounts : List AccountInfo}

/-- **The arguments and the accounts of a method.** -/
theorem method_decode_iff (hto : ∀ b, toBytes (address b) = b) {bs : Bytes} {m : Method} {i : Instruction} :
    m.decode address bs accounts = .ok i ↔
      i.method = m ∧ i.Encodable address ∧
        ∃ rest extra, bs = i.args toBytes ++ rest ∧ accounts = i.accounts ++ extra := by
  cases m with
  | registerAgent =>
    simp only [Method.decode, seq_ok_iff, pure_ok_iff, Prod.exists, readU64_eq_ok, RegisterAgent.bind_binds _ _]
    constructor
    · rintro ⟨n, rest, rfl, ctx, ⟨extra, rfl⟩, rfl⟩
      exact ⟨rfl, trivial, rest, extra, rfl, rfl⟩
    · rintro ⟨hm, -, rest, extra, rfl, rfl⟩
      cases i <;> cases hm
      exact ⟨_, rest, rfl, _, ⟨extra, rfl⟩, rfl⟩
  | registerModel =>
    simp only [Method.decode, seq_ok_iff, pure_ok_iff, Prod.exists, registerModel_deserialize_iff hto,
      RegisterModel.bind_binds _ _]
    constructor
    · rintro ⟨m, c, v, ca, rest, ⟨hk, rfl⟩, ctx, ⟨extra, rfl⟩, rfl⟩
      exact ⟨rfl, hk, rest, extra, rfl, rfl⟩
    · rintro ⟨hm, hk, rest, extra, rfl, rfl⟩
      cases i <;> cases hm
      exact ⟨_, _, _, _, rest, ⟨hk, rfl⟩, _, ⟨extra, rfl⟩, rfl⟩
  | registerPolicy =>
    simp only [Method.decode, seq_ok_iff, pure_ok_iff, Prod.exists, registerPolicyArgs_deserialize_iff hto,
      RegisterPolicy.bind_binds _ _]
    constructor
    · rintro ⟨args, rest, ⟨hk, rfl⟩, ctx, ⟨extra, rfl⟩, rfl⟩
      exact ⟨rfl, hk, rest, extra, rfl, rfl⟩
    · rintro ⟨hm, hk, rest, extra, rfl, rfl⟩
      cases i <;> cases hm
      exact ⟨_, rest, ⟨hk, rfl⟩, _, ⟨extra, rfl⟩, rfl⟩
  | requestVrf =>
    simp only [Method.decode, seq_ok_iff, pure_ok_iff, Prod.exists, requestVrf_deserialize_iff,
      RequestVrf.bind_binds _ _]
    constructor
    · rintro ⟨n, v, rest, rfl, ctx, ⟨extra, rfl⟩, rfl⟩
      exact ⟨rfl, trivial, rest, extra, rfl, rfl⟩
    · rintro ⟨hm, -, rest, extra, rfl, rfl⟩
      cases i <;> cases hm
      exact ⟨_, _, rest, rfl, _, ⟨extra, rfl⟩, rfl⟩
  | submitThought =>
    simp only [Method.decode, seq_ok_iff, pure_ok_iff, Prod.exists, submitThought_deserialize_iff hto,
      SubmitThought.bind_binds _ _]
    constructor
    · rintro ⟨args, uri, rest, ⟨hk, rfl⟩, ctx, ⟨extra, rfl⟩, rfl⟩
      exact ⟨rfl, hk, rest, extra, rfl, rfl⟩
    · rintro ⟨hm, hk, rest, extra, rfl, rfl⟩
      cases i <;> cases hm
      exact ⟨_, _, rest, ⟨hk, rfl⟩, _, ⟨extra, rfl⟩, rfl⟩
  | consumeThought =>
    simp only [Method.decode, seq_ok_iff, pure_ok_iff, ConsumeThought.bind_binds _ _]
    constructor
    · rintro ⟨ctx, ⟨extra, rfl⟩, rfl⟩
      exact ⟨rfl, trivial, bs, extra, rfl, rfl⟩
    · rintro ⟨hm, -, rest, extra, rfl, rfl⟩
      cases i <;> cases hm
      exact ⟨_, ⟨extra, rfl⟩, rfl⟩
  | challenge =>
    simp only [Method.decode, seq_ok_iff, pure_ok_iff, Prod.exists, openChallenge_deserialize_iff,
      OpenChallenge.bind_binds _ _]
    constructor
    · rintro ⟨c, n, v, rest, rfl, ctx, ⟨extra, rfl⟩, rfl⟩
      exact ⟨rfl, trivial, rest, extra, rfl, rfl⟩
    · rintro ⟨hm, -, rest, extra, rfl, rfl⟩
      cases i <;> cases hm
      exact ⟨_, _, _, rest, rfl, _, ⟨extra, rfl⟩, rfl⟩
  | resolveUnchallenged =>
    simp only [Method.decode, seq_ok_iff, pure_ok_iff, ResolveUnchallenged.bind_binds _ _]
    constructor
    · rintro ⟨ctx, ⟨extra, rfl⟩, rfl⟩
      exact ⟨rfl, trivial, bs, extra, rfl, rfl⟩
    · rintro ⟨hm, -, rest, extra, rfl, rfl⟩
      cases i <;> cases hm
      exact ⟨_, ⟨extra, rfl⟩, rfl⟩
  | resolveChallenged =>
    simp only [Method.decode, seq_ok_iff, pure_ok_iff, Prod.exists, readTag_eq_ok Borsh.boolOfTag_eq_some,
      ResolveChallenged.bind_binds _ _]
    constructor
    · rintro ⟨v, rest, rfl, ctx, ⟨extra, rfl⟩, rfl⟩
      exact ⟨rfl, trivial, rest, extra, rfl, rfl⟩
    · rintro ⟨hm, -, rest, extra, rfl, rfl⟩
      cases i <;> cases hm
      exact ⟨_, rest, rfl, _, ⟨extra, rfl⟩, rfl⟩
  | stake =>
    simp only [Method.decode, seq_ok_iff, pure_ok_iff, Prod.exists, readU64_eq_ok, StakeAccounts.bind_binds _ _]
    constructor
    · rintro ⟨n, rest, rfl, ctx, ⟨extra, rfl⟩, rfl⟩
      exact ⟨rfl, trivial, rest, extra, rfl, rfl⟩
    · rintro ⟨hm, -, rest, extra, rfl, rfl⟩
      cases i <;> cases hm
      exact ⟨_, rest, rfl, _, ⟨extra, rfl⟩, rfl⟩
  | withdrawStake =>
    simp only [Method.decode, seq_ok_iff, pure_ok_iff, Prod.exists, readU64_eq_ok, StakeAccounts.bind_binds _ _]
    constructor
    · rintro ⟨n, rest, rfl, ctx, ⟨extra, rfl⟩, rfl⟩
      exact ⟨rfl, trivial, rest, extra, rfl, rfl⟩
    · rintro ⟨hm, -, rest, extra, rfl, rfl⟩
      cases i <;> cases hm
      exact ⟨_, rest, rfl, _, ⟨extra, rfl⟩, rfl⟩

/-- **Data and accounts encode an instruction**: behind the discriminator and the arguments, and behind the accounts of
the struct, anything may follow. -/
theorem decode_iff (hto : ∀ b, toBytes (address b) = b) {data : Bytes} {i : Instruction} :
    decode address data accounts = .ok i ↔
      i.Encodable address ∧ ∃ rest extra, data = i.data toBytes ++ rest ∧ accounts = i.accounts ++ extra := by
  simp only [decode, seq_ok_iff, okOr_eq_ok, Method.find_eq_some, method_decode_iff hto]
  constructor
  · rintro ⟨_, hd, rfl, henc, rest, extra, hargs, rfl⟩
    refine ⟨henc, rest, extra, ?_, rfl⟩
    rw [Instruction.data, hd, List.append_assoc, ← hargs, List.take_append_drop]
  · rintro ⟨henc, rest, extra, rfl, rfl⟩
    rw [Instruction.data, List.append_assoc]
    exact ⟨_, (take_discriminator _ _).symm, rfl, henc, rest, extra, drop_discriminator _ _, rfl⟩

end Decoding

/-- A call of the entry point. -/
structure Invocation where
  programId : Bytes32
  data : Bytes
  accounts : List AccountInfo

/-- Failures of an invocation. -/
inductive InvocationError where
  /-- There are fewer than eight bytes of data. -/
  | instructionMissing
  | entry (e : EntryError)

/-- The entry point. -/
def invoke (address : Bytes32 → Pubkey) (rt : Runtime) (s : State) (inv : Invocation) :
    Except InvocationError (State × List Event) := do
  require (inv.programId = ID) (.entry .declaredProgramIdMismatch)
  require (8 ≤ inv.data.length) .instructionMissing
  let i ← (decode address inv.data inv.accounts).mapError .entry
  (exec rt s i).mapError fun e => .entry (.instruction e)

/-- The invocation passes the instruction to the program. -/
structure Invocation.Encodes (inv : Invocation) (address : Bytes32 → Pubkey) (toBytes : Pubkey → Bytes32)
    (i : Instruction) : Prop where
  programId : inv.programId = ID
  encodable : i.Encodable address
  data : ∃ rest, inv.data = i.data toBytes ++ rest
  accounts : ∃ extra, inv.accounts = i.accounts ++ extra

/-- The invocation of an instruction with nothing besides it. -/
def Instruction.invocation (toBytes : Pubkey → Bytes32) (i : Instruction) : Invocation :=
  ⟨ID, i.data toBytes, i.accounts⟩

section Invoke

variable {address : Bytes32 → Pubkey} {toBytes : Pubkey → Bytes32} {rt : Runtime} {s s' : State} {inv : Invocation}

theorem encodes_iff (hto : ∀ b, toBytes (address b) = b) {i : Instruction} :
    inv.Encodes address toBytes i ↔
      inv.programId = ID ∧ 8 ≤ inv.data.length ∧ decode address inv.data inv.accounts = .ok i := by
  rw [decode_iff hto]
  constructor
  · rintro ⟨hid, henc, ⟨rest, hdata⟩, extra, haccounts⟩
    refine ⟨hid, ?_, henc, rest, extra, hdata, haccounts⟩
    rw [hdata, Instruction.data, List.append_assoc, List.length_append, List.Vector.toList_length]
    omega
  · rintro ⟨hid, -, henc, rest, extra, hdata, haccounts⟩
    exact ⟨hid, henc, ⟨rest, hdata⟩, extra, haccounts⟩

/-- An invocation passes at most one instruction. -/
theorem Invocation.Encodes.unique (hto : ∀ b, toBytes (address b) = b) {i i' : Instruction}
    (h : inv.Encodes address toBytes i) (h' : inv.Encodes address toBytes i') : i = i' :=
  Except.ok.inj (((encodes_iff hto).1 h).2.2.symm.trans ((encodes_iff hto).1 h').2.2)

/-- **An accepted invocation** executes the instruction it passes. -/
theorem invoke_eq_ok (hto : ∀ b, toBytes (address b) = b) {r : State × List Event} :
    invoke address rt s inv = .ok r ↔ ∃ i, inv.Encodes address toBytes i ∧ exec rt s i = .ok r := by
  simp only [invoke, seq_ok_iff, require_eq_ok, mapError_eq_ok, exists_const, encodes_iff hto]
  grind

/-- What an invocation makes of a state is what its instruction makes of it. -/
theorem Invocation.Encodes.invoke_iff (hto : ∀ b, toBytes (address b) = b) {i : Instruction} {r : State × List Event}
    (h : inv.Encodes address toBytes i) : invoke address rt s inv = .ok r ↔ exec rt s i = .ok r := by
  rw [invoke_eq_ok hto]
  constructor
  · intro hx
    obtain ⟨i', h', he⟩ := hx
    rwa [h.unique hto h']
  · intro he
    exact ⟨i, h, he⟩

theorem Instruction.invocation_encodes {i : Instruction} (h : i.Encodable address) :
    (i.invocation toBytes).Encodes address toBytes i :=
  ⟨rfl, h, ⟨[], (List.append_nil _).symm⟩, [], (List.append_nil _).symm⟩

/-- The entry of `submit_thought` is that of the program. -/
theorem submitThoughtEntry_eq_ok (hto : ∀ b, toBytes (address b) = b) {programId : Bytes32} {data : Bytes}
    {accounts : List AccountInfo} {r : State × List Event} :
    submitThoughtEntry address rt s programId data accounts = .ok r ↔
      data.take 8 = SubmitThought.DISCRIMINATOR.toList ∧ invoke address rt s ⟨programId, data, accounts⟩ = .ok r := by
  rw [invoke_eq_ok hto]
  simp only [encodes_iff hto, submitThoughtEntry, seq_ok_iff, require_eq_ok, mapError_eq_ok, exists_const]
  constructor
  · rintro ⟨hid, hd, ⟨args, bs⟩, hargs, ⟨uri, rest⟩, huri, ctx, hctx, he⟩
    refine ⟨hd, .submitThought ctx args uri, ⟨hid, ?_, ?_⟩, he⟩
    · have hlen := congrArg List.length hd
      rw [List.length_take, List.Vector.toList_length] at hlen
      omega
    · simp only [decode, hd, seq_ok_iff, okOr_eq_ok, Method.find_eq_some]
      refine ⟨.submitThought, rfl, ?_⟩
      simp only [Method.decode, SubmitThought.deserialize, seq_ok_iff, pure_ok_iff, Prod.exists, Prod.mk.injEq]
      exact ⟨args, uri, rest, ⟨args, bs, hargs, uri, rest, huri, ⟨rfl, rfl⟩, rfl⟩, ctx, hctx, rfl⟩
  · rintro ⟨hd, i, ⟨hid, -, hdec⟩, he⟩
    simp only [decode, hd, seq_ok_iff, okOr_eq_ok, Method.find_eq_some] at hdec
    obtain ⟨m, hm, hdec⟩ := hdec
    obtain rfl := Method.discriminator_inj.1 (hm.trans (show _ = Method.submitThought.DISCRIMINATOR.toList from rfl))
    simp only [Method.decode, SubmitThought.deserialize, seq_ok_iff, pure_ok_iff, Prod.exists, Prod.mk.injEq] at hdec
    obtain ⟨_, _, _, ⟨args, bs, hargs, uri, rest, huri, ⟨rfl, rfl⟩, rfl⟩, ctx, hctx, rfl⟩ := hdec
    exact ⟨hid, hd, _, hargs, _, huri, ctx, hctx, he⟩

end Invoke

/-! ## The chain of invocations -/

/-- What happens on the chain, with the program reached through its entry point. -/
inductive WireAction where
  | invocation (inv : Invocation)
  | transfer (src dst : Pubkey) (n : Nat)
  | tick (n : UInt64)

def wireStep (address : Bytes32 → Pubkey) (rt : Runtime) (s : State) : WireAction → Option State
  | .invocation inv => (invoke address rt s inv).toOption.map Prod.fst
  | .transfer src dst n => step rt s (.transfer src dst n)
  | .tick n => step rt s (.tick n)

/-- The action that is passed. -/
def WireAction.read (address : Bytes32 → Pubkey) : WireAction → Option Action
  | .invocation inv => (decode address inv.data inv.accounts).toOption.map .instruction
  | .transfer src dst n => some (.transfer src dst n)
  | .tick n => some (.tick n)

/-- The action with its instruction on the wire. -/
def Action.write (toBytes : Pubkey → Bytes32) : Action → WireAction
  | .instruction i => .invocation (i.invocation toBytes)
  | .transfer src dst n => .transfer src dst n
  | .tick n => .tick n

/-- The arguments of its instruction are values on the wire. -/
def Action.Encodable (address : Bytes32 → Pubkey) : Action → Prop
  | .instruction i => i.Encodable address
  | _ => True

section Chain

variable {address : Bytes32 → Pubkey} {toBytes : Pubkey → Bytes32} {rt : Runtime} {s s' : State} {slot : UInt64}
  {L : Ledger Pubkey}

/-- **One step of the chain**: the step of an encodable action that is passed. -/
theorem wireStep_read (hto : ∀ b, toBytes (address b) = b) {w : WireAction} (hw : wireStep address rt s w = some s') :
    ∃ a, w.read address = some a ∧ a.Encodable address ∧ step rt s a = some s' := by
  cases w with
  | invocation inv =>
    simp only [wireStep, Option.map_eq_some_iff, toOption_eq_some, Prod.exists, exists_and_right, exists_eq_right] at hw
    obtain ⟨evs, hinv⟩ := hw
    obtain ⟨i, henc, he⟩ := (invoke_eq_ok hto).1 hinv
    refine ⟨.instruction i, ?_, henc.encodable, step_instruction.2 ⟨evs, he⟩⟩
    rw [WireAction.read, ((encodes_iff hto).1 henc).2.2]
    rfl
  | transfer src dst n => exact ⟨_, rfl, trivial, hw⟩
  | tick n => exact ⟨_, rfl, trivial, hw⟩

theorem wireStep_write (hto : ∀ b, toBytes (address b) = b) {a : Action} (ha : a.Encodable address)
    (hs : step rt s a = some s') : wireStep address rt s (a.write toBytes) = some s' := by
  cases a with
  | instruction i =>
    obtain ⟨evs, he⟩ := step_instruction.1 hs
    have hinv : invoke address rt s (i.invocation toBytes) = .ok (s', evs) :=
      (invoke_eq_ok hto).2 ⟨i, i.invocation_encodes ha, he⟩
    rw [Action.write, wireStep, hinv]
    rfl
  | transfer src dst n => exact hs
  | tick n => exact hs

theorem WireAction.encodable_of_read (hto : ∀ b, toBytes (address b) = b) {w : WireAction} {a : Action}
    (h : w.read address = some a) : a.Encodable address := by
  cases w with
  | invocation inv =>
    simp only [WireAction.read, Option.map_eq_some_iff, toOption_eq_some] at h
    obtain ⟨i, hi, rfl⟩ := h
    exact ((decode_iff hto).1 hi).1
  | transfer src dst n =>
    cases h
    trivial
  | tick n =>
    cases h
    trivial

/-- A run of the chain is a run of the program, on the actions that are passed. -/
theorem reaches_of_wireRun (hto : ∀ b, toBytes (address b) = b) {g : List (State × WireAction)}
    (hg : Run (wireStep address rt) (State.genesis slot L) g s) :
    ∃ h, Reaches rt slot L h s ∧ h.map Prod.snd = g.filterMap (fun x => x.2.read address) ∧
      ∀ x ∈ h, x.2.Encodable address := by
  have hstep : ∀ s w s' t, s = t → wireStep address rt s w = some s' →
      w.read address = none ∧ s' = t ∨ ∃ a t', w.read address = some a ∧ step rt t a = some t' ∧ s' = t' := by
    rintro s w s' _ rfl hw
    obtain ⟨a, hread, -, ha⟩ := wireStep_read hto hw
    exact .inr ⟨a, s', hread, ha, rfl⟩
  obtain ⟨h, _, hr, hacts, rfl⟩ := hg.project (fun x => x.2.read address) Eq rfl hstep
  refine ⟨h, hr, hacts, fun x hx => ?_⟩
  have hmem : x.2 ∈ g.filterMap fun x => x.2.read address := hacts ▸ List.mem_map_of_mem hx
  obtain ⟨y, -, hread⟩ := List.mem_filterMap.1 hmem
  exact WireAction.encodable_of_read hto hread

/-- A run of the program on encodable actions is a run of the chain. -/
theorem wireRun_of_reaches (hto : ∀ b, toBytes (address b) = b) {h : List (State × Action)}
    (hr : Reaches rt slot L h s) (henc : ∀ x ∈ h, x.2.Encodable address) :
    ∃ g, Run (wireStep address rt) (State.genesis slot L) g s := by
  refine hr.inv (fun h s => (∀ x ∈ h, x.2.Encodable address) → ∃ g, Run (wireStep address rt) _ g s)
    (fun _ => ⟨[], .nil⟩) ?_ henc
  intro h s a s' _ ih ha henc
  obtain ⟨hh, hlast⟩ := List.forall_mem_append.1 henc
  obtain ⟨g, hg⟩ := ih hh
  exact ⟨_, hg.snoc (wireStep_write hto (hlast _ (List.mem_singleton_self _)) ha)⟩

/-- **The wire.** An invocation is accepted just when it passes an instruction that the program accepts, and then it is
that instruction; no invocation passes two. The states that invocations reach are those the program reaches on arguments
that can be written. -/
theorem wire_exact (hto : ∀ b, toBytes (address b) = b) (rt : Runtime) (slot : UInt64) (L : Ledger Pubkey) :
    (∀ s inv r, invoke address rt s inv = .ok r ↔ ∃ i, inv.Encodes address toBytes i ∧ exec rt s i = .ok r) ∧
      (∀ inv : Invocation, ∀ i i', inv.Encodes address toBytes i → inv.Encodes address toBytes i' → i = i') ∧
      ∀ s, (∃ g, Run (wireStep address rt) (State.genesis slot L) g s) ↔
        ∃ h, Reaches rt slot L h s ∧ ∀ x ∈ h, x.2.Encodable address := by
  refine ⟨fun s inv r => invoke_eq_ok hto, fun inv i i' => Invocation.Encodes.unique hto, fun s => ⟨?_, ?_⟩⟩
  · rintro ⟨g, hg⟩
    obtain ⟨h, hr, -, henc⟩ := reaches_of_wireRun hto hg
    exact ⟨h, hr, henc⟩
  · rintro ⟨h, hr, henc⟩
    exact wireRun_of_reaches hto hr henc

end Chain

open Sample in
/-- Invocations that lead to a slashed thought. -/
theorem wire_exact_slashed :
    ∃ g s, Run (wireStep Pubkey.key chain) (State.genesis 1000 funds) g s ∧
      (s.thoughts (thought 0)).map (·.status) = some ThoughtStatus.slashed.toU8 := by
  obtain ⟨h, s, hr, hacts, hs⟩ := exists_run (setup ++ submit 0 ++ [dispute 0, resolve 0 true])
    (fun s => (s.thoughts (thought 0)).map (·.status)) (some ThoughtStatus.slashed.toU8) (by decide +kernel)
  have henc : ∀ a ∈ h.map Prod.snd, a.Encodable Pubkey.key := by
    rw [hacts]
    have huri : (utf8 "ar://trace").length < 4294967296 := by decide
    simp [setup, submit, dispute, resolve, Action.Encodable, Instruction.Encodable, policyArgs, Sample.operator,
      Sample.resolver, Sample.treasury, Sample.action, wallet, huri]
  have hto : ∀ b, addressBytes (.key b) = b := fun _ => rfl
  obtain ⟨g, hg⟩ := ((wire_exact hto chain 1000 funds).2.2 s).2 ⟨h, hr, List.forall_mem_map.1 henc⟩
  exact ⟨g, s, hg, hs⟩

end ProofOfThought.Program
