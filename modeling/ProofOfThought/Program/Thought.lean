import ProofOfThought.Program.Anchor

/-!
# Submitting and consuming thoughts

`submit_thought` commits a thought under a policy; `consume_thought` gates a downstream action on a finalized one.
-/

namespace ProofOfThought.Program

open Base

variable {rt : Runtime} {s s' : State} {evs : List Event}

/-! ## `submit_thought` -/

structure ThoughtRecordArgs where
  modelId : Bytes32
  inputCommitment : Bytes32
  outputCommitment : Bytes32
  traceUriHash : Bytes32
  vrfSeed : Bytes32
  policyId : Bytes32
  actionPda : Pubkey
  vrfNonceIdx : UInt64

structure SubmitThought where
  operator : AccountInfo
  agent : AccountInfo
  model : AccountInfo
  policy : AccountInfo
  vrfRequest : AccountInfo
  thought : AccountInfo
  systemProgram : AccountInfo

/-- The accounts `submit_thought` works on, with the state after `init`. -/
structure SubmitThought.Loaded where
  state : State
  agent : AgentProfile
  policy : Policy
  vrfRequest : VrfRequest

def SubmitThought.tryAccounts (rt : Runtime) (s : State) (ctx : SubmitThought) (args : ThoughtRecordArgs) :
    Except Error SubmitThought.Loaded := do
  signer ctx.operator
  let agent ← account s.agents ctx.agent
  let model ← account s.models ctx.model
  let policy ← account s.policies ctx.policy
  let vrfRequest ← account s.vrfRequests ctx.vrfRequest
  Program.systemProgram ctx.systemProgram
  let state ← init rt s ctx.operator ctx.thought (.thought ctx.agent.key args.vrfNonceIdx)
    (s.thoughts ctx.thought.key).isSome ThoughtRecord.LEN
  mutable ctx.operator
  mutable ctx.agent
  seeds (.agent ctx.operator.key) agent.bump ctx.agent
  require (agent.operator = ctx.operator.key) (.pot .wrongAgent)
  seeds (.model args.modelId) model.bump ctx.model
  require (model.modelId = args.modelId) (.pot .modelNotRegistered)
  seeds (.policy args.policyId) policy.bump ctx.policy
  require (policy.policyId = args.policyId) (.pot .wrongPolicy)
  mutable ctx.vrfRequest
  seeds (.vrf ctx.agent.key args.vrfNonceIdx) vrfRequest.bump ctx.vrfRequest
  require (vrfRequest.agent = ctx.agent.key) (.pot .wrongAgent)
  return { state, agent, policy, vrfRequest }

/-- The record `submit_thought` writes. -/
def SubmitThought.record (rt : Runtime) (s : State) (ctx : SubmitThought) (args : ThoughtRecordArgs)
    (deadline : UInt64) : ThoughtRecord where
  agent := ctx.agent.key
  modelId := args.modelId
  inputCommitment := args.inputCommitment
  outputCommitment := args.outputCommitment
  traceUriHash := args.traceUriHash
  vrfSeed := args.vrfSeed
  policyId := args.policyId
  slot := s.slot
  actionPda := args.actionPda
  status := ThoughtStatus.pending.toU8
  attestationVerified := false
  challengeDeadlineSlot := deadline
  consumedCount := 0
  vrfNonceIdx := args.vrfNonceIdx
  bump := rt.bump (.thought ctx.agent.key args.vrfNonceIdx)
  pad := List.Vector.replicate 7 0

/-- The event `submit_thought` emits. -/
def SubmitThought.event (s : State) (ctx : SubmitThought) (args : ThoughtRecordArgs) (traceUri : String) :
    ThoughtSubmitted where
  agent := ctx.agent.key
  thoughtPda := ctx.thought.key
  modelId := args.modelId
  inputCommitment := args.inputCommitment
  outputCommitment := args.outputCommitment
  traceUriHash := args.traceUriHash
  vrfSeed := args.vrfSeed
  policyId := args.policyId
  slot := s.slot
  traceUri := traceUri

def submitThoughtHandler (rt : Runtime) (acc : SubmitThought.Loaded) (ctx : SubmitThought) (args : ThoughtRecordArgs)
    (traceUri : String) : Except Error (State × List Event) := do
  let s := acc.state
  let policy := acc.policy
  let vrf := acc.vrfRequest
  -- 1. stake floor
  require (policy.bondMin ≤ acc.agent.stakeAmount) (.pot .insufficientStake)
  -- 2. VRF freshness and single use
  require (vrf.consumed = false) (.pot .vrfAlreadyConsumed)
  require (vrf.seed = args.vrfSeed) (.pot .vrfTooStale)
  let age ← okOr (checkedSub s.slot vrf.requestSlot) (.pot .overflow)
  require (age ≤ policy.maxInferenceSlots.toUInt64) (.pot .vrfTooStale)
  -- 3. model whitelist; the empty list admits every model
  require (policy.allowedModels.isEmpty = true ∨ args.modelId ∈ policy.allowedModels) (.pot .modelNotRegistered)
  let s := s.setVrfRequest ctx.vrfRequest.key { vrf with consumed := true }
  -- 4. the commitment
  let deadline ← okOr (checkedAdd s.slot policy.challengeWindowSlots) (.pot .overflow)
  let s := s.setThought ctx.thought.key (ctx.record rt s args deadline)
  -- 5. bookkeeping on the agent
  let activeThoughts ← okOr (checkedAdd32 acc.agent.activeThoughts 1) (.pot .overflow)
  let s := s.setAgent ctx.agent.key { acc.agent with activeThoughts }
  return (s, [.thoughtSubmitted (ctx.event s args traceUri)])

def submitThought (rt : Runtime) (s : State) (ctx : SubmitThought) (args : ThoughtRecordArgs) (traceUri : String) :
    Except Error (State × List Event) := do
  let acc ← ctx.tryAccounts rt s args
  submitThoughtHandler rt acc ctx args traceUri

/-- The accounts and arguments of a successful `submit_thought`: the agent `a`, the policy `p`, the request `v`, the
deadline `d` and the agent's new count `n`. -/
structure SubmitThought.Accepted (rt : Runtime) (s : State) (ctx : SubmitThought) (args : ThoughtRecordArgs)
    (a : AgentProfile) (p : Policy) (v : VrfRequest) (d : UInt64) (n : UInt32) : Prop where
  signed : ctx.operator.isSigner = true
  system : ctx.systemProgram.key = systemProgramId
  profile : s.agents ctx.agent.key = some a
  agent : ctx.agent.key = (Seeds.agent ctx.operator.key).address a.bump
  operator : a.operator = ctx.operator.key
  model : ∃ m, s.models ctx.model.key = some m ∧ ctx.model.key = (Seeds.model args.modelId).address m.bump ∧
    m.modelId = args.modelId
  policyAccount : s.policies ctx.policy.key = some p
  policy : ctx.policy.key = (Seeds.policy args.policyId).address p.bump
  policyId : p.policyId = args.policyId
  requestAccount : s.vrfRequests ctx.vrfRequest.key = some v
  request : ctx.vrfRequest.key = (Seeds.vrf ctx.agent.key args.vrfNonceIdx).address v.bump
  requestAgent : v.agent = ctx.agent.key
  thought : ctx.thought.key = rt.pda (.thought ctx.agent.key args.vrfNonceIdx)
  fresh : s.thoughts ctx.thought.key = none
  rent : rt.rentDue (s.lamports ctx.thought.key) ThoughtRecord.LEN ≤ s.lamports ctx.operator.key
  writable : ctx.thought.isWritable = true ∧ ctx.operator.isWritable = true ∧ ctx.agent.isWritable = true ∧
    ctx.vrfRequest.isWritable = true
  stake : p.bondMin ≤ a.stakeAmount
  unconsumed : v.consumed = false
  seed : v.seed = args.vrfSeed
  age : ∃ age : UInt64, s.slot.toNat = age.toNat + v.requestSlot.toNat ∧ age ≤ p.maxInferenceSlots.toUInt64
  whitelist : p.allowedModels.isEmpty = true ∨ args.modelId ∈ p.allowedModels
  deadline : s.slot.toNat + p.challengeWindowSlots.toNat = d.toNat
  count : a.activeThoughts.toNat + 1 = n.toNat

/-- The state after `submit_thought`. -/
def SubmitThought.after (rt : Runtime) (s : State) (ctx : SubmitThought) (args : ThoughtRecordArgs) (a : AgentProfile)
    (v : VrfRequest) (d : UInt64) (n : UInt32) : State :=
  { s with
    vrfRequests := Function.update s.vrfRequests ctx.vrfRequest.key (some { v with consumed := true })
    thoughts := Function.update s.thoughts ctx.thought.key (some (ctx.record rt s args d))
    agents := Function.update s.agents ctx.agent.key (some { a with activeThoughts := n })
    lamports := rt.fund s.lamports ctx.operator.key ctx.thought.key ThoughtRecord.LEN }

theorem submitThought_eq_ok {ctx : SubmitThought} {args : ThoughtRecordArgs} {traceUri : String} :
    submitThought rt s ctx args traceUri = .ok (s', evs) ↔ ∃ a p v d n, ctx.Accepted rt s args a p v d n ∧
      evs = [.thoughtSubmitted (ctx.event s args traceUri)] ∧ s' = ctx.after rt s args a v d n := by
  simp only [submitThought, SubmitThought.tryAccounts, submitThoughtHandler, seq_ok_iff, signer_eq_ok, account_eq_ok,
    systemProgram_eq_ok, init_eq_ok, mutable_eq_ok, seeds_eq_ok, pure_ok_iff, require_eq_ok, okOr_eq_ok,
    checkedAdd_eq_some, checkedSub_eq_some, checkedAdd32_eq_some, exists_const, Option.isSome_eq_false_iff,
    Option.isNone_iff_eq_none, Prod.mk.injEq]
  constructor
  · rintro ⟨_, ⟨hs, a, ha, m, hm, p, hp, v, hv, hy, _, ⟨hk, hf, hr, hw, rfl⟩, hwo, hwa, hsd, ho, hms, hmi, hps, hpi,
      hwv, hvs, hva, rfl⟩, hst, hc, hse, age, hag, hle, hwl, d, hd, n, hn, rfl, rfl⟩
    exact ⟨a, p, v, d, n, ⟨hs, hy, ha, hsd, ho, ⟨m, hm, hms, hmi⟩, hp, hps, hpi, hv, hvs, hva, hk, hf, hr,
      ⟨hw, hwo, hwa, hwv⟩, hst, hc, hse, ⟨age, hag, hle⟩, hwl, hd, hn⟩, rfl, rfl⟩
  · intro h
    rcases h with ⟨a, p, v, d, n, ⟨hs, hy, ha, hsd, ho, ⟨m, hm, hms, hmi⟩, hp, hps, hpi, hv, hvs, hva, hk, hf, hr,
      ⟨hw, hwo, hwa, hwv⟩, hst, hc, hse, ⟨age, hag, hle⟩, hwl, hd, hn⟩, rfl, rfl⟩
    exact ⟨_, ⟨hs, a, ha, m, hm, p, hp, v, hv, hy, _, ⟨hk, hf, hr, hw, rfl⟩, hwo, hwa, hsd, ho, hms, hmi, hps, hpi,
      hwv, hvs, hva, rfl⟩, hst, hc, hse, age, hag, hle, hwl, d, hd, n, hn, rfl, rfl⟩

/-! ## `consume_thought` -/

structure ConsumeThought where
  consumer : AccountInfo
  thought : AccountInfo
  policy : AccountInfo
  action : AccountInfo

def ConsumeThought.tryAccounts (s : State) (ctx : ConsumeThought) : Except Error (ThoughtRecord × Policy) := do
  signer ctx.consumer
  let thought ← account s.thoughts ctx.thought
  let policy ← account s.policies ctx.policy
  mutable ctx.thought
  seeds (.thought thought.agent thought.vrfNonceIdx) thought.bump ctx.thought
  seeds (.policy thought.policyId) policy.bump ctx.policy
  require (policy.policyId = thought.policyId) (.pot .wrongPolicy)
  return (thought, policy)

def consumeThoughtHandler (s : State) (thought : ThoughtRecord) (policy : Policy) (ctx : ConsumeThought) :
    Except Error (State × List Event) := do
  require (thought.actionPda = ctx.action.key) (.pot .wrongAction)
  let status ← okOr (ThoughtStatus.fromU8 thought.status) (.pot .invalidStatus)
  require (status = .finalized ∨ thought.attestationVerified = true) (.pot .thoughtNotReady)
  let age ← okOr (checkedSub s.slot thought.slot) (.pot .overflow)
  require (age ≤ policy.maxActionAgeSlots) (.pot .thoughtStale)
  let consumedCount ← okOr (checkedAdd32 thought.consumedCount 1) (.pot .overflow)
  return (s.setThought ctx.thought.key { thought with consumedCount },
    [.thoughtConsumed ctx.thought.key thought.actionPda ctx.consumer.key consumedCount])

def consumeThought (s : State) (ctx : ConsumeThought) : Except Error (State × List Event) := do
  let (thought, policy) ← ctx.tryAccounts s
  consumeThoughtHandler s thought policy ctx

/-- The accounts of a successful `consume_thought`: the record `t`, its policy `p` and the new count `n`. -/
structure ConsumeThought.Accepted (s : State) (ctx : ConsumeThought) (t : ThoughtRecord) (p : Policy)
    (n : UInt32) : Prop where
  signed : ctx.consumer.isSigner = true
  record : s.thoughts ctx.thought.key = some t
  policyAccount : s.policies ctx.policy.key = some p
  writable : ctx.thought.isWritable = true
  thought : ctx.thought.key = (Seeds.thought t.agent t.vrfNonceIdx).address t.bump
  policy : ctx.policy.key = (Seeds.policy t.policyId).address p.bump
  policyId : p.policyId = t.policyId
  action : t.actionPda = ctx.action.key
  ready : ∃ st, t.status = ThoughtStatus.toU8 st ∧ (st = .finalized ∨ t.attestationVerified = true)
  age : ∃ age : UInt64, s.slot.toNat = age.toNat + t.slot.toNat ∧ age ≤ p.maxActionAgeSlots
  count : t.consumedCount.toNat + 1 = n.toNat

/-- The state after `consume_thought`. -/
def ConsumeThought.after (s : State) (ctx : ConsumeThought) (t : ThoughtRecord) (n : UInt32) : State :=
  { s with thoughts := Function.update s.thoughts ctx.thought.key (some { t with consumedCount := n }) }

theorem consumeThought_eq_ok {ctx : ConsumeThought} :
    consumeThought s ctx = .ok (s', evs) ↔ ∃ t p n, ctx.Accepted s t p n ∧
      evs = [.thoughtConsumed ctx.thought.key t.actionPda ctx.consumer.key n] ∧ s' = ctx.after s t n := by
  simp only [consumeThought, ConsumeThought.tryAccounts, consumeThoughtHandler, seq_ok_iff, signer_eq_ok,
    account_eq_ok, mutable_eq_ok, seeds_eq_ok, pure_ok_iff, require_eq_ok, okOr_eq_ok, fromU8_eq_some,
    checkedSub_eq_some, checkedAdd32_eq_some, exists_const, Prod.mk.injEq, Prod.exists]
  constructor
  · rintro ⟨_, _, ⟨hs, t, ht, p, hp, hw, hts, hps, hpi, rfl, rfl⟩, hx, st, hst, hrd, age, hag, hle, n, hn, rfl, rfl⟩
    exact ⟨t, p, n, ⟨hs, ht, hp, hw, hts, hps, hpi, hx, ⟨st, hst, hrd⟩, ⟨age, hag, hle⟩, hn⟩, rfl, rfl⟩
  · intro h
    rcases h with ⟨t, p, n, ⟨hs, ht, hp, hw, hts, hps, hpi, hx, ⟨st, hst, hrd⟩, ⟨age, hag, hle⟩, hn⟩, rfl, rfl⟩
    exact ⟨_, _, ⟨hs, t, ht, p, hp, hw, hts, hps, hpi, rfl, rfl⟩, hx, st, hst, hrd, age, hag, hle, n, hn, rfl, rfl⟩

end ProofOfThought.Program
