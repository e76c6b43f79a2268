import ProofOfThought.Base.Store
import ProofOfThought.Program.Step

/-!
# Accounts over runs

What the accounts of a reachable state always satisfy (`State.Wf`), and how an account may change once it exists: the
identity of an agent, a policy and the commitment of a thought never do (`Effect.agents`, `Effect.policies`,
`Effect.thoughts`), a resolved dispute never does (`Effect.challenges`).
-/

namespace ProofOfThought.Program

open Base

variable {rt : Runtime} {s s' : State} {a : Action}

/-! ## How an account evolves -/

/-- The same agent: operator, vault and bump never change. -/
structure SameAgent (a a' : AgentProfile) : Prop where
  operator : a'.operator = a.operator
  stakeVault : a'.stakeVault = a.stakeVault
  bump : a'.bump = a.bump

instance : Std.Refl SameAgent := ⟨fun _ => ⟨rfl, rfl, rfl⟩⟩

instance : IsTrans AgentProfile SameAgent :=
  ⟨fun _ _ _ h h' => ⟨h'.1.trans h.1, h'.2.trans h.2, h'.3.trans h.3⟩⟩

/-- The same commitment: only the status and the number of consumptions change. -/
def SameCommitment (t t' : ThoughtRecord) : Prop :=
  { t with status := 0, consumedCount := 0 } = { t' with status := 0, consumedCount := 0 }

instance : Std.Refl SameCommitment := ⟨fun _ => rfl⟩

instance : IsTrans ThoughtRecord SameCommitment := ⟨fun _ _ _ h h' => Eq.trans h h'⟩

/-- A field other than the status and the number of consumptions is the same. -/
theorem SameCommitment.field {β : Type} {t t' : ThoughtRecord} (h : SameCommitment t t') (f : ThoughtRecord → β)
    (hf : ∀ t : ThoughtRecord, f { t with status := 0, consumedCount := 0 } = f t) : f t = f t' := by
  rw [← hf t, ← hf t', show _ = _ from h]

/-- The same dispute: nothing changes but the outcome, and that only while there is none. -/
structure SameDispute (c c' : Challenge) : Prop where
  terms : { c with resolved := false, verdict := false } = { c' with resolved := false, verdict := false }
  final : c.resolved = true → c' = c

instance : Std.Refl SameDispute := ⟨fun _ => ⟨rfl, fun _ => rfl⟩⟩

instance : IsTrans Challenge SameDispute where
  trans := by
    intro c c' c'' h h'
    refine ⟨h.1.trans h'.1, fun hr => ?_⟩
    have he := h.2 hr
    rw [h'.2 (he ▸ hr), he]

/-- The same request: nothing changes but the mark of its use, which is never taken off. -/
structure SameRequest (v v' : VrfRequest) : Prop where
  terms : { v with consumed := false } = { v' with consumed := false }
  spent : v.consumed = true → v'.consumed = true

instance : Std.Refl SameRequest := ⟨fun _ => ⟨rfl, id⟩⟩

instance : IsTrans VrfRequest SameRequest := ⟨fun _ _ _ h h' => ⟨h.1.trans h'.1, h'.2 ∘ h.2⟩⟩

/-- A field other than the mark of its use is the same. -/
theorem SameRequest.field {β : Type} {v v' : VrfRequest} (h : SameRequest v v') (f : VrfRequest → β)
    (hf : ∀ v : VrfRequest, f { v with consumed := false } = f v) : f v = f v' := by
  rw [← hf v, ← hf v', h.terms]

/-- The agent's nonce only grows. -/
def NonceLe (a a' : AgentProfile) : Prop := a.vrfNonce ≤ a'.vrfNonce

instance : Std.Refl NonceLe := ⟨fun _ => UInt64.le_refl _⟩

instance : IsTrans AgentProfile NonceLe := ⟨fun _ _ _ h h' => UInt64.le_trans h h'⟩

namespace Effect

/-- No step changes or removes a policy. -/
theorem policies (he : Effect rt s a s') : Evolves Eq s.policies s'.policies := by
  cases he with
  | registerPolicy h => exact .insert h.fresh
  | _ => exact .refl _

/-- No step changes or removes a model. -/
theorem models (he : Effect rt s a s') : Evolves Eq s.models s'.models := by
  cases he with
  | registerModel h => exact .insert h.fresh
  | _ => exact .refl _

theorem agents (he : Effect rt s a s') : Evolves SameAgent s.agents s'.agents := by
  cases he with
  | registerAgent h => exact .insert h.fresh
  | stake h => exact .write h.profile ⟨rfl, rfl, rfl⟩
  | withdrawStake h => exact .write h.profile ⟨rfl, rfl, rfl⟩
  | requestVrf h => exact .write h.profile ⟨rfl, rfl, rfl⟩
  | submitThought h => exact .write h.profile ⟨rfl, rfl, rfl⟩
  | resolveUnchallenged h => exact .write h.profile ⟨rfl, rfl, rfl⟩
  | guilty h _ => exact .write h.profile ⟨rfl, rfl, rfl⟩
  | innocent h _ => exact .write h.profile ⟨rfl, rfl, rfl⟩
  | _ => exact .refl _

theorem nonces (he : Effect rt s a s') : Evolves NonceLe s.agents s'.agents := by
  cases he with
  | registerAgent h => exact .insert h.fresh
  | stake h => exact .write h.profile (UInt64.le_refl _)
  | withdrawStake h => exact .write h.profile (UInt64.le_refl _)
  | @requestVrf ctx nonceIdx seed a n h =>
    exact .write h.profile (UInt64.le_iff_toNat_le.2 (Nat.le.intro h.next))
  | submitThought h => exact .write h.profile (UInt64.le_refl _)
  | resolveUnchallenged h => exact .write h.profile (UInt64.le_refl _)
  | guilty h _ => exact .write h.profile (UInt64.le_refl _)
  | innocent h _ => exact .write h.profile (UInt64.le_refl _)
  | _ => exact .refl _

theorem vrfRequests (he : Effect rt s a s') : Evolves SameRequest s.vrfRequests s'.vrfRequests := by
  cases he with
  | requestVrf h => exact .insert h.fresh
  | submitThought h => exact .write h.requestAccount ⟨rfl, fun _ => rfl⟩
  | _ => exact .refl _

theorem thoughts (he : Effect rt s a s') : Evolves SameCommitment s.thoughts s'.thoughts := by
  cases he with
  | submitThought h => exact .insert h.fresh
  | consumeThought h => exact .write h.record rfl
  | challenge h => exact .write h.record rfl
  | resolveUnchallenged h => exact .write h.record rfl
  | guilty h _ => exact .write h.record rfl
  | innocent h _ => exact .write h.record rfl
  | _ => exact .refl _

theorem challenges (he : Effect rt s a s') : Evolves SameDispute s.challenges s'.challenges := by
  cases he with
  | challenge h => exact .insert h.fresh
  | guilty h _ => exact .write h.dispute ⟨rfl, fun hr => absurd hr (by simp [h.unresolved])⟩
  | innocent h _ => exact .write h.dispute ⟨rfl, fun hr => absurd hr (by simp [h.unresolved])⟩
  | _ => exact .refl _

/-- Slots pass in one direction. -/
theorem slot_le (he : Effect rt s a s') : s.slot ≤ s'.slot := by
  cases he with
  | tick h => rw [UInt64.le_iff_toNat_le]; exact Nat.le.intro h
  | _ => exact UInt64.le_refl _

end Effect

/-! ## What accounts always satisfy -/

/-- The record awaits its outcome: pending or challenged. -/
def ThoughtRecord.Open (t : ThoughtRecord) : Prop :=
  t.status = ThoughtStatus.pending.toU8 ∨ t.status = ThoughtStatus.challenged.toU8

/-- The record has reached its outcome. -/
def ThoughtRecord.Settled (t : ThoughtRecord) : Prop :=
  t.status = ThoughtStatus.finalized.toU8 ∨ t.status = ThoughtStatus.slashed.toU8

theorem ThoughtRecord.Settled.not_open {t : ThoughtRecord} (h : t.Settled) : ¬t.Open := by
  rcases h with h | h <;> simp [ThoughtRecord.Open, h]

/-- Where the account of an agent is, and its vault. -/
def AgentAt (rt : Runtime) (k : Pubkey) (a : AgentProfile) : Prop :=
  k = rt.pda (.agent a.operator) ∧ a.bump = rt.bump (.agent a.operator)

def PolicyAt (rt : Runtime) (k : Pubkey) (p : Policy) : Prop :=
  k = rt.pda (.policy p.policyId) ∧ p.bump = rt.bump (.policy p.policyId)

def ChallengeAt (rt : Runtime) (k : Pubkey) (c : Challenge) : Prop :=
  k = rt.pda (.challenge c.thought c.challenger) ∧ c.bump = rt.bump (.challenge c.thought c.challenger)

/-- What a thought record says of itself, of its agent and of its policy. -/
structure ThoughtAt (rt : Runtime) (s : State) (k : Pubkey) (t : ThoughtRecord) : Prop where
  address : k = rt.pda (.thought t.agent t.vrfNonceIdx)
  bump : t.bump = rt.bump (.thought t.agent t.vrfNonceIdx)
  status : ∃ st, t.status = ThoughtStatus.toU8 st
  attestation : t.attestationVerified = false
  agent : ∃ a, s.agents t.agent = some a
  policy : ∃ p, s.policies (rt.pda (.policy t.policyId)) = some p ∧
    t.slot.toNat + p.challengeWindowSlots.toNat = t.challengeDeadlineSlot.toNat
  slot : t.slot ≤ s.slot

/-- A well-formed state. -/
structure State.Wf (rt : Runtime) (s : State) : Prop where
  agents : AllOf s.agents (AgentAt rt)
  policies : AllOf s.policies (PolicyAt rt)
  challenges : AllOf s.challenges (ChallengeAt rt)
  thoughts : AllOf s.thoughts (ThoughtAt rt s)

theorem wf_genesis (slot : UInt64) (L : Ledger Pubkey) : (State.genesis slot L).Wf rt :=
  ⟨.empty, .empty, .empty, .empty⟩

/-- The agent and the policy of a thought stay, and time only passes. -/
theorem ThoughtAt.step {k : Pubkey} {t : ThoughtRecord} (ht : ThoughtAt rt s k t) (he : Effect rt s a s') :
    ThoughtAt rt s' k t where
  address := ht.address
  bump := ht.bump
  status := ht.status
  attestation := ht.attestation
  agent := by
    obtain ⟨a, ha⟩ := ht.agent
    obtain ⟨a', ha', -⟩ := he.agents _ _ ha
    exact ⟨a', ha'⟩
  policy := by
    obtain ⟨p, hp, hd⟩ := ht.policy
    obtain ⟨p', hp', rfl⟩ := he.policies _ _ hp
    exact ⟨p, hp', hd⟩
  slot := UInt64.le_trans ht.slot he.slot_le

/-- A record that differs in its status and consumptions only. -/
theorem ThoughtAt.update {k : Pubkey} {t : ThoughtRecord} (ht : ThoughtAt rt s k t) (st : ThoughtStatus) (n : UInt32) :
    ThoughtAt rt s k { t with status := st.toU8, consumedCount := n } :=
  ⟨ht.address, ht.bump, ⟨st, rfl⟩, ht.attestation, ht.agent, ht.policy, ht.slot⟩

namespace State.Wf

variable (hwf : s.Wf rt)

include hwf

theorem step_agents (he : Effect rt s a s') : AllOf s'.agents (AgentAt rt) := by
  cases he with
  | registerAgent h => exact hwf.agents.write ⟨h.agent, rfl⟩
  | stake h => exact hwf.agents.rewrite h.profile id
  | withdrawStake h => exact hwf.agents.rewrite h.profile id
  | requestVrf h => exact hwf.agents.rewrite h.profile id
  | submitThought h => exact hwf.agents.rewrite h.profile id
  | resolveUnchallenged h => exact hwf.agents.rewrite h.profile id
  | guilty h _ => exact hwf.agents.rewrite h.profile id
  | innocent h _ => exact hwf.agents.rewrite h.profile id
  | _ => exact hwf.agents

theorem step_policies (he : Effect rt s a s') : AllOf s'.policies (PolicyAt rt) := by
  cases he with
  | registerPolicy h => exact hwf.policies.write ⟨h.policy, rfl⟩
  | _ => exact hwf.policies

theorem step_challenges (he : Effect rt s a s') : AllOf s'.challenges (ChallengeAt rt) := by
  cases he with
  | challenge h => exact hwf.challenges.write ⟨h.challenge, rfl⟩
  | guilty h _ => exact hwf.challenges.rewrite h.dispute id
  | innocent h _ => exact hwf.challenges.rewrite h.dispute id
  | _ => exact hwf.challenges

/-- The policy account an instruction loads for a thought is the one at the thought's policy address. -/
theorem policy_key {k : Pubkey} {p : Policy} {i : Bytes32} (hp : s.policies k = some p)
    (hk : k = (Seeds.policy i).address p.bump) : k = rt.pda (.policy i) := by
  obtain ⟨h1, h2⟩ := hwf.policies _ _ hp
  rw [hk, h2] at h1
  simp only [Runtime.pda, address_inj, Seeds.policy.injEq] at h1
  rw [hk, h2, h1.1, Runtime.pda]

theorem step_thoughts (he : Effect rt s a s') : AllOf s'.thoughts (ThoughtAt rt s') := by
  have hold : AllOf s.thoughts (ThoughtAt rt s') := hwf.thoughts.imp fun _ _ ht => ht.step he
  cases he with
  | @submitThought ctx args traceUri a p v d n h =>
    refine hold.write ⟨h.thought, rfl, ⟨.pending, rfl⟩, rfl, ?_, ?_, UInt64.le_refl _⟩
    · exact ⟨_, write_eq_some.2 (.inl ⟨rfl, rfl⟩)⟩
    · exact ⟨p, hwf.policy_key h.policyAccount h.policy ▸ h.policyAccount, h.deadline⟩
  | @consumeThought ctx t p n h =>
    obtain ⟨st, hst, -⟩ := h.ready
    have := (hold _ _ h.record).update st n
    rw [← hst] at this
    exact hold.write this
  | challenge h => exact hold.rewrite h.record (ThoughtAt.update · .challenged _)
  | resolveUnchallenged h => exact hold.rewrite h.record (ThoughtAt.update · .finalized _)
  | guilty h _ => exact hold.rewrite h.record (ThoughtAt.update · .slashed _)
  | innocent h _ => exact hold.rewrite h.record (ThoughtAt.update · .finalized _)
  | _ => exact hold

/-- **Every step keeps a state well formed.** -/
theorem step (he : Effect rt s a s') : s'.Wf rt :=
  ⟨hwf.step_agents he, hwf.step_policies he, hwf.step_challenges he, hwf.step_thoughts he⟩

end State.Wf

variable {slot : UInt64} {L : Ledger Pubkey} {h : List (State × Action)}

/-- **Every reachable state is well formed.** -/
theorem wf_of_reaches (hr : Reaches rt slot L h s) : s.Wf rt :=
  hr.inv (fun _ s => s.Wf rt) (wf_genesis slot L) fun _ _ _ _ _ hwf ha => hwf.step (step_effect ha)

end ProofOfThought.Program
