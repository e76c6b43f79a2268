import ProofOfThought.Program.Anchor

/-!
# Registration

`register_agent`, `register_model`, `register_policy` and `request_vrf`: the instructions that only create accounts.
Each has its account struct, `try_accounts`, its handler, and `Accepted`: what a successful call says of its accounts.
-/

namespace ProofOfThought.Program

open Base

variable {rt : Runtime} {s s' : State} {evs : List Event}

/-! ## `register_agent` -/

structure RegisterAgent where
  operator : AccountInfo
  agent : AccountInfo
  stakeVault : AccountInfo
  systemProgram : AccountInfo

def RegisterAgent.tryAccounts (rt : Runtime) (s : State) (ctx : RegisterAgent) : Except Error State := do
  signer ctx.operator
  Program.systemProgram ctx.systemProgram
  let s ← init rt s ctx.operator ctx.agent (.agent ctx.operator.key) (s.agents ctx.agent.key).isSome AgentProfile.LEN
  mutable ctx.operator
  mutable ctx.stakeVault
  canonicalSeeds rt (.vault ctx.agent.key) ctx.stakeVault
  return s

/-- The profile `register_agent` writes. -/
def RegisterAgent.profile (rt : Runtime) (ctx : RegisterAgent) (stake : UInt64) : AgentProfile where
  operator := ctx.operator.key
  stakeVault := ctx.stakeVault.key
  stakeAmount := stake
  reputation := 0
  activeThoughts := 0
  cooldownUntil := 0
  vrfNonce := 0
  bump := rt.bump (.agent ctx.operator.key)

def registerAgentHandler (rt : Runtime) (s : State) (ctx : RegisterAgent) (stake : UInt64) :
    Except Error (State × List Event) := do
  require (0 < stake) (.pot .insufficientStake)
  let s := s.setAgent ctx.agent.key (ctx.profile rt stake)
  let s ← s.transfer ctx.operator.key ctx.stakeVault.key stake.toNat
  return (s, [])

def registerAgent (rt : Runtime) (s : State) (ctx : RegisterAgent) (stake : UInt64) :
    Except Error (State × List Event) := do
  let s ← ctx.tryAccounts rt s
  registerAgentHandler rt s ctx stake

/-- The accounts and arguments of a successful `register_agent`. -/
structure RegisterAgent.Accepted (rt : Runtime) (s : State) (ctx : RegisterAgent) (stake : UInt64) : Prop where
  signed : ctx.operator.isSigner = true
  system : ctx.systemProgram.key = systemProgramId
  agent : ctx.agent.key = rt.pda (.agent ctx.operator.key)
  fresh : s.agents ctx.agent.key = none
  rent : rt.rentDue (s.lamports ctx.agent.key) AgentProfile.LEN ≤ s.lamports ctx.operator.key
  writable : ctx.agent.isWritable = true ∧ ctx.operator.isWritable = true ∧ ctx.stakeVault.isWritable = true
  vault : ctx.stakeVault.key = rt.pda (.vault ctx.agent.key)
  positive : 0 < stake
  funds : stake.toNat ≤ rt.fund s.lamports ctx.operator.key ctx.agent.key AgentProfile.LEN ctx.operator.key

/-- The state after `register_agent`. -/
def RegisterAgent.after (rt : Runtime) (s : State) (ctx : RegisterAgent) (stake : UInt64) : State :=
  { s with
    agents := Function.update s.agents ctx.agent.key (some (ctx.profile rt stake))
    lamports := (rt.fund s.lamports ctx.operator.key ctx.agent.key AgentProfile.LEN).move ctx.operator.key
      ctx.stakeVault.key stake.toNat }

theorem registerAgent_eq_ok {ctx : RegisterAgent} {stake : UInt64} :
    registerAgent rt s ctx stake = .ok (s', evs) ↔
      ctx.Accepted rt s stake ∧ evs = [] ∧ s' = ctx.after rt s stake := by
  simp only [registerAgent, RegisterAgent.tryAccounts, registerAgentHandler, seq_ok_iff, signer_eq_ok,
    systemProgram_eq_ok, init_eq_ok, mutable_eq_ok, canonicalSeeds_eq_ok, pure_ok_iff, require_eq_ok, transfer_eq_ok,
    exists_const, Option.isSome_eq_false_iff, Option.isNone_iff_eq_none, Prod.mk.injEq]
  constructor
  · intro h
    rcases h with ⟨_, ⟨hs, hy, _, ⟨hk, hf, hr, hw, rfl⟩, hwo, hwv, hv, rfl⟩, hp, _, ⟨hm, rfl⟩, rfl, rfl⟩
    exact ⟨⟨hs, hy, hk, hf, hr, ⟨hw, hwo, hwv⟩, hv, hp, hm⟩, rfl, rfl⟩
  · intro hx
    rcases hx with ⟨⟨hs, hy, hk, hf, hr, ⟨hw, hwo, hwv⟩, hv, hp, hm⟩, rfl, rfl⟩
    exact ⟨_, ⟨hs, hy, _, ⟨hk, hf, hr, hw, rfl⟩, hwo, hwv, hv, rfl⟩, hp, _, ⟨hm, rfl⟩, rfl, rfl⟩

/-! ## `register_model` -/

structure RegisterModel where
  governance : AccountInfo
  model : AccountInfo
  systemProgram : AccountInfo

def RegisterModel.tryAccounts (rt : Runtime) (s : State) (ctx : RegisterModel) (modelId : Bytes32) :
    Except Error State := do
  signer ctx.governance
  Program.systemProgram ctx.systemProgram
  let s ← init rt s ctx.governance ctx.model (.model modelId) (s.models ctx.model.key).isSome ModelRegistry.LEN
  mutable ctx.governance
  require (ctx.governance.key = Program.governance) (.pot .unauthorized)
  return s

/-- The entry `register_model` writes. -/
def RegisterModel.entry (rt : Runtime) (ctx : RegisterModel) (modelId : Bytes32) (modelClass : ModelClass)
    (verifierPubkey teeRootCa : Pubkey) : ModelRegistry where
  modelId := modelId
  modelClass := modelClass.toU8
  verifierPubkey := verifierPubkey
  teeRootCa := teeRootCa
  registeredBy := ctx.governance.key
  bump := rt.bump (.model modelId)

def registerModel (rt : Runtime) (s : State) (ctx : RegisterModel) (modelId : Bytes32) (modelClass : ModelClass)
    (verifierPubkey teeRootCa : Pubkey) : Except Error (State × List Event) := do
  let s ← ctx.tryAccounts rt s modelId
  return (s.setModel ctx.model.key (ctx.entry rt modelId modelClass verifierPubkey teeRootCa), [])

/-- The accounts and arguments of a successful `register_model`. -/
structure RegisterModel.Accepted (rt : Runtime) (s : State) (ctx : RegisterModel) (modelId : Bytes32) : Prop where
  signed : ctx.governance.isSigner = true
  system : ctx.systemProgram.key = systemProgramId
  model : ctx.model.key = rt.pda (.model modelId)
  fresh : s.models ctx.model.key = none
  rent : rt.rentDue (s.lamports ctx.model.key) ModelRegistry.LEN ≤ s.lamports ctx.governance.key
  writable : ctx.model.isWritable = true ∧ ctx.governance.isWritable = true
  governance : ctx.governance.key = Program.governance

/-- The state after `register_model`. -/
def RegisterModel.after (rt : Runtime) (s : State) (ctx : RegisterModel) (modelId : Bytes32) (modelClass : ModelClass)
    (verifierPubkey teeRootCa : Pubkey) : State :=
  { s with
    models := Function.update s.models ctx.model.key
      (some (ctx.entry rt modelId modelClass verifierPubkey teeRootCa))
    lamports := rt.fund s.lamports ctx.governance.key ctx.model.key ModelRegistry.LEN }

theorem registerModel_eq_ok {ctx : RegisterModel} {modelId : Bytes32} {modelClass : ModelClass}
    {verifierPubkey teeRootCa : Pubkey} :
    registerModel rt s ctx modelId modelClass verifierPubkey teeRootCa = .ok (s', evs) ↔
      ctx.Accepted rt s modelId ∧ evs = [] ∧ s' = ctx.after rt s modelId modelClass verifierPubkey teeRootCa := by
  simp only [registerModel, RegisterModel.tryAccounts, seq_ok_iff, signer_eq_ok, systemProgram_eq_ok, init_eq_ok,
    mutable_eq_ok, pure_ok_iff, require_eq_ok, exists_const, Option.isSome_eq_false_iff, Option.isNone_iff_eq_none,
    Prod.mk.injEq]
  constructor
  · intro h
    rcases h with ⟨_, ⟨hs, hy, _, ⟨hk, hf, hr, hw, rfl⟩, hwg, hg, rfl⟩, rfl, rfl⟩
    exact ⟨⟨hs, hy, hk, hf, hr, ⟨hw, hwg⟩, hg⟩, rfl, rfl⟩
  · intro hx
    rcases hx with ⟨⟨hs, hy, hk, hf, hr, ⟨hw, hwg⟩, hg⟩, rfl, rfl⟩
    exact ⟨_, ⟨hs, hy, _, ⟨hk, hf, hr, hw, rfl⟩, hwg, hg, rfl⟩, rfl, rfl⟩

/-! ## `register_policy` -/

structure RegisterPolicyArgs where
  policyId : Bytes32
  schemaUriHash : Bytes32
  equivClass : EquivClass
  maxInferenceSlots : UInt32
  maxActionAgeSlots : UInt64
  challengeWindowSlots : UInt64
  bondMin : UInt64
  resolver : Pubkey
  treasury : Pubkey
  allowedModels : List Bytes32

structure RegisterPolicy where
  author : AccountInfo
  policy : AccountInfo
  systemProgram : AccountInfo

def RegisterPolicy.tryAccounts (rt : Runtime) (s : State) (ctx : RegisterPolicy) (args : RegisterPolicyArgs) :
    Except Error State := do
  signer ctx.author
  Program.systemProgram ctx.systemProgram
  let s ← init rt s ctx.author ctx.policy (.policy args.policyId) (s.policies ctx.policy.key).isSome Policy.LEN
  mutable ctx.author
  return s

/-- The policy `register_policy` writes. -/
def RegisterPolicyArgs.toPolicy (rt : Runtime) (args : RegisterPolicyArgs) : Policy where
  policyId := args.policyId
  schemaUriHash := args.schemaUriHash
  equivClass := args.equivClass.toU8
  maxInferenceSlots := args.maxInferenceSlots
  maxActionAgeSlots := args.maxActionAgeSlots
  challengeWindowSlots := args.challengeWindowSlots
  bondMin := args.bondMin
  resolver := args.resolver
  treasury := args.treasury
  allowedModels := args.allowedModels
  bump := rt.bump (.policy args.policyId)

def registerPolicyHandler (rt : Runtime) (s : State) (ctx : RegisterPolicy) (args : RegisterPolicyArgs) :
    Except Error (State × List Event) := do
  require (args.allowedModels.length ≤ Policy.MAX_ALLOWED_MODELS) (.pot .overflow)
  return (s.setPolicy ctx.policy.key (args.toPolicy rt), [])

def registerPolicy (rt : Runtime) (s : State) (ctx : RegisterPolicy) (args : RegisterPolicyArgs) :
    Except Error (State × List Event) := do
  let s ← ctx.tryAccounts rt s args
  registerPolicyHandler rt s ctx args

/-- The accounts and arguments of a successful `register_policy`. -/
structure RegisterPolicy.Accepted (rt : Runtime) (s : State) (ctx : RegisterPolicy) (args : RegisterPolicyArgs) :
    Prop where
  signed : ctx.author.isSigner = true
  system : ctx.systemProgram.key = systemProgramId
  policy : ctx.policy.key = rt.pda (.policy args.policyId)
  fresh : s.policies ctx.policy.key = none
  rent : rt.rentDue (s.lamports ctx.policy.key) Policy.LEN ≤ s.lamports ctx.author.key
  writable : ctx.policy.isWritable = true ∧ ctx.author.isWritable = true
  models : args.allowedModels.length ≤ Policy.MAX_ALLOWED_MODELS

/-- The state after `register_policy`. -/
def RegisterPolicy.after (rt : Runtime) (s : State) (ctx : RegisterPolicy) (args : RegisterPolicyArgs) : State :=
  { s with
    policies := Function.update s.policies ctx.policy.key (some (args.toPolicy rt))
    lamports := rt.fund s.lamports ctx.author.key ctx.policy.key Policy.LEN }

theorem registerPolicy_eq_ok {ctx : RegisterPolicy} {args : RegisterPolicyArgs} :
    registerPolicy rt s ctx args = .ok (s', evs) ↔
      ctx.Accepted rt s args ∧ evs = [] ∧ s' = ctx.after rt s args := by
  simp only [registerPolicy, RegisterPolicy.tryAccounts, registerPolicyHandler, seq_ok_iff, signer_eq_ok,
    systemProgram_eq_ok, init_eq_ok, mutable_eq_ok, pure_ok_iff, require_eq_ok, exists_const,
    Option.isSome_eq_false_iff, Option.isNone_iff_eq_none, Prod.mk.injEq]
  constructor
  · intro h
    rcases h with ⟨_, ⟨hs, hy, _, ⟨hk, hf, hr, hw, rfl⟩, hwa, rfl⟩, hm, rfl, rfl⟩
    exact ⟨⟨hs, hy, hk, hf, hr, ⟨hw, hwa⟩, hm⟩, rfl, rfl⟩
  · intro hx
    rcases hx with ⟨⟨hs, hy, hk, hf, hr, ⟨hw, hwa⟩, hm⟩, rfl, rfl⟩
    exact ⟨_, ⟨hs, hy, _, ⟨hk, hf, hr, hw, rfl⟩, hwa, rfl⟩, hm, rfl, rfl⟩

/-! ## `request_vrf` -/

structure RequestVrf where
  operator : AccountInfo
  agent : AccountInfo
  vrfRequest : AccountInfo
  systemProgram : AccountInfo

def RequestVrf.tryAccounts (rt : Runtime) (s : State) (ctx : RequestVrf) (nonceIdx : UInt64) :
    Except Error (State × AgentProfile) := do
  signer ctx.operator
  let agent ← account s.agents ctx.agent
  Program.systemProgram ctx.systemProgram
  let s ← init rt s ctx.operator ctx.vrfRequest (.vrf ctx.agent.key nonceIdx)
    (s.vrfRequests ctx.vrfRequest.key).isSome VrfRequest.LEN
  mutable ctx.operator
  mutable ctx.agent
  seeds (.agent ctx.operator.key) agent.bump ctx.agent
  require (agent.operator = ctx.operator.key) (.pot .wrongAgent)
  return (s, agent)

/-- The request `request_vrf` writes. -/
def RequestVrf.request (rt : Runtime) (s : State) (ctx : RequestVrf) (nonceIdx : UInt64) (seed : Bytes32) :
    VrfRequest where
  agent := ctx.agent.key
  nonceIdx := nonceIdx
  seed := seed
  requestSlot := s.slot
  consumed := false
  bump := rt.bump (.vrf ctx.agent.key nonceIdx)

def requestVrfHandler (rt : Runtime) (s : State) (agent : AgentProfile) (ctx : RequestVrf) (nonceIdx : UInt64)
    (seed : Bytes32) : Except Error (State × List Event) := do
  -- the nonce is pinned to the agent's counter
  require (nonceIdx = agent.vrfNonce) (.pot .vrfAlreadyConsumed)
  let s := s.setVrfRequest ctx.vrfRequest.key (ctx.request rt s nonceIdx seed)
  let vrfNonce ← okOr (checkedAdd agent.vrfNonce 1) (.pot .overflow)
  return (s.setAgent ctx.agent.key { agent with vrfNonce }, [])

def requestVrf (rt : Runtime) (s : State) (ctx : RequestVrf) (nonceIdx : UInt64) (seed : Bytes32) :
    Except Error (State × List Event) := do
  let (s, agent) ← ctx.tryAccounts rt s nonceIdx
  requestVrfHandler rt s agent ctx nonceIdx seed

/-- The accounts and arguments of a successful `request_vrf`, for the agent `a` and its next nonce `n`. -/
structure RequestVrf.Accepted (rt : Runtime) (s : State) (ctx : RequestVrf) (nonceIdx : UInt64) (a : AgentProfile)
    (n : UInt64) : Prop where
  signed : ctx.operator.isSigner = true
  system : ctx.systemProgram.key = systemProgramId
  profile : s.agents ctx.agent.key = some a
  agent : ctx.agent.key = (Seeds.agent ctx.operator.key).address a.bump
  operator : a.operator = ctx.operator.key
  request : ctx.vrfRequest.key = rt.pda (.vrf ctx.agent.key nonceIdx)
  fresh : s.vrfRequests ctx.vrfRequest.key = none
  rent : rt.rentDue (s.lamports ctx.vrfRequest.key) VrfRequest.LEN ≤ s.lamports ctx.operator.key
  writable : ctx.vrfRequest.isWritable = true ∧ ctx.operator.isWritable = true ∧ ctx.agent.isWritable = true
  nonce : nonceIdx = a.vrfNonce
  next : a.vrfNonce.toNat + 1 = n.toNat

/-- The state after `request_vrf`. -/
def RequestVrf.after (rt : Runtime) (s : State) (ctx : RequestVrf) (nonceIdx : UInt64) (seed : Bytes32)
    (a : AgentProfile) (n : UInt64) : State :=
  { s with
    vrfRequests := Function.update s.vrfRequests ctx.vrfRequest.key (some (ctx.request rt s nonceIdx seed))
    agents := Function.update s.agents ctx.agent.key (some { a with vrfNonce := n })
    lamports := rt.fund s.lamports ctx.operator.key ctx.vrfRequest.key VrfRequest.LEN }

theorem requestVrf_eq_ok {ctx : RequestVrf} {nonceIdx : UInt64} {seed : Bytes32} :
    requestVrf rt s ctx nonceIdx seed = .ok (s', evs) ↔
      ∃ a n, ctx.Accepted rt s nonceIdx a n ∧ evs = [] ∧ s' = ctx.after rt s nonceIdx seed a n := by
  simp only [requestVrf, RequestVrf.tryAccounts, requestVrfHandler, seq_ok_iff, signer_eq_ok, account_eq_ok,
    systemProgram_eq_ok, init_eq_ok, mutable_eq_ok, seeds_eq_ok, pure_ok_iff, require_eq_ok, okOr_eq_ok,
    checkedAdd_eq_some, exists_const, Option.isSome_eq_false_iff, Option.isNone_iff_eq_none, Prod.mk.injEq,
    Prod.exists]
  constructor
  · intro h
    rcases h with ⟨_, _, ⟨hs, a, ha, hy, _, ⟨hk, hf, hr, hw, rfl⟩, hwo, hwa, hsd, ho, rfl, rfl⟩, hn, n, hnx, rfl, rfl⟩
    exact ⟨a, n, ⟨hs, hy, ha, hsd, ho, hk, hf, hr, ⟨hw, hwo, hwa⟩, hn, hnx⟩, rfl, rfl⟩
  · intro hx
    rcases hx with ⟨a, n, ⟨hs, hy, ha, hsd, ho, hk, hf, hr, ⟨hw, hwo, hwa⟩, hn, hnx⟩, rfl, rfl⟩
    exact ⟨_, _, ⟨hs, a, ha, hy, _, ⟨hk, hf, hr, hw, rfl⟩, hwo, hwa, hsd, ho, rfl, rfl⟩, hn, n, hnx, rfl, rfl⟩

end ProofOfThought.Program
