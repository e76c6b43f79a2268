import ProofOfThought.Program.Accounts

/-!
# VRF requests and thoughts

A request is issued for the next nonce of its agent and spent by the thought at the same nonce. `State.Paired` is the
invariant that ties the four account types together; the one-to-one correspondence (`requests_correspond`) is read off
it.
-/

namespace ProofOfThought.Program

open Base

variable {rt : Runtime} {s s' : State} {act : Action} {k : Pubkey}

/-! ## What requests and thoughts say of each other -/

/-- Where the account of a model is. -/
def ModelAt (rt : Runtime) (k : Pubkey) (m : ModelRegistry) : Prop :=
  k = rt.pda (.model m.modelId) ∧ m.bump = rt.bump (.model m.modelId)

/-- What a request says of itself, of its agent and, once spent, of its thought. -/
structure RequestAt (rt : Runtime) (s : State) (k : Pubkey) (v : VrfRequest) : Prop where
  address : k = rt.pda (.vrf v.agent v.nonceIdx)
  bump : v.bump = rt.bump (.vrf v.agent v.nonceIdx)
  issued : ∃ a, s.agents v.agent = some a ∧ v.nonceIdx < a.vrfNonce
  spent : v.consumed = true → ∃ t, s.thoughts (rt.pda (.thought v.agent v.nonceIdx)) = some t

/-- Every nonce below the agent's counter has its request. -/
def Issued (rt : Runtime) (s : State) (k : Pubkey) (a : AgentProfile) : Prop :=
  ∀ i < a.vrfNonce, ∃ v, s.vrfRequests (rt.pda (.vrf k i)) = some v

/-- A record submitted on a fresh request, under its policy. -/
structure Fresh (v : VrfRequest) (p : Policy) (t : ThoughtRecord) : Prop where
  seed : t.vrfSeed = v.seed
  after : v.requestSlot ≤ t.slot
  before : t.slot.toNat ≤ v.requestSlot.toNat + p.maxInferenceSlots.toNat
  deadline : t.challengeDeadlineSlot.toNat = t.slot.toNat + p.challengeWindowSlots.toNat
  model : p.allowedModels = [] ∨ t.modelId ∈ p.allowedModels

/-- What a thought says of its request, its policy and its model. -/
structure Sealed (rt : Runtime) (s : State) (t : ThoughtRecord) : Prop where
  fresh : ∃ v p, s.vrfRequests (rt.pda (.vrf t.agent t.vrfNonceIdx)) = some v ∧ v.consumed = true ∧
    s.policies (rt.pda (.policy t.policyId)) = some p ∧ Fresh v p t
  registered : ∃ m, s.models (rt.pda (.model t.modelId)) = some m ∧ m.modelId = t.modelId

/-- Requests and thoughts are paired. -/
structure State.Paired (rt : Runtime) (s : State) : Prop where
  models : AllOf s.models (ModelAt rt)
  requests : AllOf s.vrfRequests (RequestAt rt s)
  issued : AllOf s.agents (Issued rt s)
  sealings : AllOf s.thoughts fun _ t => Sealed rt s t

theorem paired_genesis (slot : UInt64) (L : Ledger Pubkey) : (State.genesis slot L).Paired rt :=
  ⟨.empty, .empty, .empty, .empty⟩

/-! ## One step keeps what is said -/

/-- The agent of a request stays, its nonce only grows, and the thought it was spent on stays. -/
theorem RequestAt.step {v : VrfRequest} (hv : RequestAt rt s k v) (he : Effect rt s act s') : RequestAt rt s' k v where
  address := hv.address
  bump := hv.bump
  issued := by
    obtain ⟨a, ha, hlt⟩ := hv.issued
    obtain ⟨a', ha', hle⟩ := he.nonces _ _ ha
    exact ⟨a', ha', UInt64.lt_of_lt_of_le hlt hle⟩
  spent := by
    intro hc
    obtain ⟨t, ht⟩ := hv.spent hc
    obtain ⟨t', ht', -⟩ := he.thoughts _ _ ht
    exact ⟨t', ht'⟩

theorem Issued.step {a : AgentProfile} (ha : Issued rt s k a) (he : Effect rt s act s') : Issued rt s' k a := by
  intro i hi
  obtain ⟨v, hv⟩ := ha i hi
  obtain ⟨v', hv', -⟩ := he.vrfRequests _ _ hv
  exact ⟨v', hv'⟩

/-- The request of a thought stays spent and keeps its terms; its policy and its model stay. -/
theorem Sealed.step {t : ThoughtRecord} (ht : Sealed rt s t) (he : Effect rt s act s') : Sealed rt s' t where
  fresh := by
    obtain ⟨v, p, hv, hc, hp, hf⟩ := ht.fresh
    obtain ⟨v', hv', hsame⟩ := he.vrfRequests _ _ hv
    obtain ⟨p', hp', rfl⟩ := he.policies _ _ hp
    have hseed : v.seed = v'.seed := hsame.field (·.seed) fun _ => rfl
    have hslot : v.requestSlot = v'.requestSlot := hsame.field (·.requestSlot) fun _ => rfl
    exact ⟨v', p, hv', hsame.spent hc, hp',
      ⟨hseed ▸ hf.seed, hslot ▸ hf.after, hslot ▸ hf.before, hf.deadline, hf.model⟩⟩
  registered := by
    obtain ⟨m, hm, hid⟩ := ht.registered
    obtain ⟨m', hm', rfl⟩ := he.models _ _ hm
    exact ⟨m, hm', hid⟩

/-- A record that differs in its status and consumptions only. -/
theorem Sealed.update {t : ThoughtRecord} (ht : Sealed rt s t) (st : UInt8) (n : UInt32) :
    Sealed rt s { t with status := st, consumedCount := n } := by
  obtain ⟨⟨v, p, hv, hc, hp, hf⟩, hm⟩ := ht
  exact ⟨⟨v, p, hv, hc, hp, ⟨hf.seed, hf.after, hf.before, hf.deadline, hf.model⟩⟩, hm⟩

/-- A profile with the same nonce. -/
theorem Issued.update {a a' : AgentProfile} (hn : a'.vrfNonce = a.vrfNonce) (ha : Issued rt s k a) :
    Issued rt s k a' := fun i hi => ha i (hn ▸ hi)

namespace State.Paired

variable (hpd : s.Paired rt)

include hpd

theorem step_models (he : Effect rt s act s') : AllOf s'.models (ModelAt rt) := by
  cases he with
  | registerModel h => exact hpd.models.write ⟨h.model, rfl⟩
  | _ => exact hpd.models

/-- The request an instruction loads for a nonce is the one issued for that nonce. -/
theorem request_nonce {ak : Pubkey} {i : UInt64} {v : VrfRequest} (hv : s.vrfRequests k = some v)
    (hk : k = (Seeds.vrf ak i).address v.bump) : k = rt.pda (.vrf ak i) ∧ v.agent = ak ∧ v.nonceIdx = i := by
  have hat := hpd.requests _ _ hv
  have h1 := hk.symm.trans hat.address
  rw [hat.bump, Runtime.pda, address_inj, Seeds.vrf.injEq] at h1
  obtain ⟨⟨rfl, rfl⟩, -⟩ := h1
  exact ⟨hat.address, rfl, rfl⟩

theorem step_requests (he : Effect rt s act s') : AllOf s'.vrfRequests (RequestAt rt s') := by
  have hold : AllOf s.vrfRequests (RequestAt rt s') := hpd.requests.imp fun _ _ hv => hv.step he
  cases he with
  | @requestVrf ctx nonceIdx seed a n h =>
    refine hold.write ⟨h.request, rfl, ⟨_, write_eq_some.2 (.inl ⟨rfl, rfl⟩), ?_⟩, nofun⟩
    show nonceIdx < n
    rw [h.nonce, UInt64.lt_iff_toNat_lt, ← h.next]
    exact Nat.lt_succ_self _
  | @submitThought ctx args traceUri a p v d n h =>
    obtain ⟨-, hva, hvi⟩ := hpd.request_nonce h.requestAccount h.request
    have hat := hold _ _ h.requestAccount
    refine hold.write ⟨hat.address, hat.bump, hat.issued, fun _ => ?_⟩
    -- the thought that spends the request is written in the same step
    refine ⟨_, write_eq_some.2 (.inl ⟨?_, rfl⟩)⟩
    rw [h.thought, hva, hvi]
  | _ => exact hold

theorem step_issued (he : Effect rt s act s') : AllOf s'.agents (Issued rt s') := by
  have hold : AllOf s.agents (Issued rt s') := hpd.issued.imp fun _ _ ha => ha.step he
  cases he with
  | registerAgent h => exact hold.write fun i hi => absurd hi UInt64.not_lt_zero
  | stake h => exact hold.rewrite h.profile (.update rfl)
  | withdrawStake h => exact hold.rewrite h.profile (.update rfl)
  | @requestVrf ctx nonceIdx seed a n h =>
    refine hold.write fun i hi => ?_
    by_cases hlt : i < a.vrfNonce
    · exact hold _ _ h.profile i hlt
    · -- the new nonce is the one just requested
      have hi' : i.toNat < n.toNat := UInt64.lt_iff_toNat_lt.1 hi
      rw [UInt64.lt_iff_toNat_lt] at hlt
      have hnext := h.next
      have hii : i = nonceIdx := by rw [h.nonce, ← UInt64.toNat_inj]; omega
      exact ⟨_, write_eq_some.2 (.inl ⟨by rw [h.request, hii], rfl⟩)⟩
  | submitThought h => exact hold.rewrite h.profile (.update rfl)
  | resolveUnchallenged h => exact hold.rewrite h.profile (.update rfl)
  | guilty h _ => exact hold.rewrite h.profile (.update rfl)
  | innocent h _ => exact hold.rewrite h.profile (.update rfl)
  | _ => exact hold

/-- What an accepted submission writes is sealed on what it checked. -/
theorem sealed_submitted {ctx : SubmitThought} {args : ThoughtRecordArgs} {a : AgentProfile} {p : Policy}
    {v : VrfRequest} {d : UInt64} {n : UInt32} (hwf : s.Wf rt) (h : ctx.Accepted rt s args a p v d n) :
    Sealed rt (ctx.after rt s args a v d n) (ctx.record rt s args d) where
  fresh := by
    obtain ⟨hvk, -, -⟩ := hpd.request_nonce h.requestAccount h.request
    obtain ⟨age, hage, hle⟩ := h.age
    have hle' : age.toNat ≤ p.maxInferenceSlots.toNat := UInt64.le_iff_toNat_le.1 hle
    refine ⟨_, p, write_eq_some.2 (.inl ⟨hvk.symm, rfl⟩), rfl, hwf.policy_key h.policyAccount h.policy ▸
      h.policyAccount, ⟨h.seed.symm, ?_, ?_, h.deadline.symm, ?_⟩⟩
    · rw [UInt64.le_iff_toNat_le]
      exact hage ▸ Nat.le_add_left _ _
    · show s.slot.toNat ≤ v.requestSlot.toNat + p.maxInferenceSlots.toNat
      omega
    · exact h.whitelist.imp_left List.isEmpty_iff.1
  registered := by
    obtain ⟨m, hm, -, hid⟩ := h.model
    refine ⟨m, ?_, hid⟩
    show s.models (rt.pda (.model args.modelId)) = some m
    rw [← hid, ← (hpd.models _ _ hm).1]
    exact hm

theorem step_sealed (hwf : s.Wf rt) (he : Effect rt s act s') : AllOf s'.thoughts fun _ t => Sealed rt s' t := by
  have hold : AllOf s.thoughts fun _ t => Sealed rt s' t := hpd.sealings.imp fun _ _ ht => ht.step he
  cases he with
  | submitThought h => exact hold.write (hpd.sealed_submitted hwf h)
  | consumeThought h => exact hold.rewrite h.record (Sealed.update · _ _)
  | challenge h => exact hold.rewrite h.record (Sealed.update · _ _)
  | resolveUnchallenged h => exact hold.rewrite h.record (Sealed.update · _ _)
  | guilty h _ => exact hold.rewrite h.record (Sealed.update · _ _)
  | innocent h _ => exact hold.rewrite h.record (Sealed.update · _ _)
  | _ => exact hold

/-- **Every step keeps requests and thoughts paired.** -/
theorem step (hwf : s.Wf rt) (he : Effect rt s act s') : s'.Paired rt :=
  ⟨hpd.step_models he, hpd.step_requests he, hpd.step_issued he, hpd.step_sealed hwf he⟩

end State.Paired

variable {slot : UInt64} {L : Ledger Pubkey} {h : List (State × Action)}

/-- **In every reachable state requests and thoughts are paired.** -/
theorem paired_of_reaches (hr : Reaches rt slot L h s) : s.Paired rt :=
  hr.inv (fun _ s => s.Paired rt) (paired_genesis slot L) fun _ _ _ _ hr hpd ha =>
    hpd.step (wf_of_reaches hr) (step_effect ha)

/-! ## The correspondence -/

/-- The requests and the thoughts of the agent `a` at `ak` correspond one to one. -/
structure Correspond (rt : Runtime) (s : State) (ak : Pubkey) (a : AgentProfile) : Prop where
  issued : ∀ i, (∃ v, s.vrfRequests (rt.pda (.vrf ak i)) = some v) ↔ i < a.vrfNonce
  requests : ∀ k v, s.vrfRequests k = some v → v.agent = ak → k = rt.pda (.vrf ak v.nonceIdx)
  consumed : ∀ i v, s.vrfRequests (rt.pda (.vrf ak i)) = some v →
    (v.consumed = true ↔ ∃ t, s.thoughts (rt.pda (.thought ak i)) = some t)
  single : ∀ k t, s.thoughts k = some t → t.agent = ak → k = rt.pda (.thought ak t.vrfNonceIdx)
  thoughts : ∀ i t, s.thoughts (rt.pda (.thought ak i)) = some t → ∃ v p m,
    s.vrfRequests (rt.pda (.vrf ak i)) = some v ∧ s.policies (rt.pda (.policy t.policyId)) = some p ∧ Fresh v p t ∧
      s.models (rt.pda (.model t.modelId)) = some m ∧ m.modelId = t.modelId

/-- A thought at the address of a nonce carries the agent and the nonce. -/
theorem ThoughtAt.nonce {ak : Pubkey} {i : UInt64} {t : ThoughtRecord}
    (ht : ThoughtAt rt s (rt.pda (.thought ak i)) t) : t.agent = ak ∧ t.vrfNonceIdx = i := by
  have hk := ht.address
  rw [Runtime.pda_inj, Seeds.thought.injEq] at hk
  exact ⟨hk.1.symm, hk.2.symm⟩

theorem RequestAt.nonce {ak : Pubkey} {i : UInt64} {v : VrfRequest}
    (hv : RequestAt rt s (rt.pda (.vrf ak i)) v) : v.agent = ak ∧ v.nonceIdx = i := by
  have hk := hv.address
  rw [Runtime.pda_inj, Seeds.vrf.injEq] at hk
  exact ⟨hk.1.symm, hk.2.symm⟩

/-- **Requests and thoughts correspond.** In every reachable state, for every agent. -/
theorem requests_correspond (hr : Reaches rt slot L h s) {ak : Pubkey} {a : AgentProfile}
    (ha : s.agents ak = some a) : Correspond rt s ak a := by
  have hpd := paired_of_reaches hr
  have hwf := wf_of_reaches hr
  constructor
  case issued =>
    intro i
    constructor
    · intro hv
      obtain ⟨v, hv⟩ := hv
      have hat := hpd.requests _ _ hv
      obtain ⟨hva, hvi⟩ := hat.nonce
      obtain ⟨a', ha', hlt⟩ := hat.issued
      rw [hva, ha, Option.some.injEq] at ha'
      rwa [hvi, ← ha'] at hlt
    · exact hpd.issued _ _ ha i
  case requests =>
    intro k v hv hva
    rw [(hpd.requests _ _ hv).address, hva]
  case consumed =>
    intro i v hv
    have hat := hpd.requests _ _ hv
    obtain ⟨hva, hvi⟩ := hat.nonce
    constructor
    · intro hc
      have hspent := hat.spent hc
      rwa [hva, hvi] at hspent
    · intro ht
      obtain ⟨t, ht⟩ := ht
      obtain ⟨hta, hti⟩ := (hwf.thoughts _ _ ht).nonce
      obtain ⟨v', p, hv', hc, -⟩ := (hpd.sealings _ _ ht).fresh
      rw [hta, hti, hv, Option.some.injEq] at hv'
      rw [hv', hc]
  case single =>
    intro k t ht hta
    rw [(hwf.thoughts _ _ ht).address, hta]
  case thoughts =>
    intro i t ht
    obtain ⟨hta, hti⟩ := (hwf.thoughts _ _ ht).nonce
    obtain ⟨⟨v, p, hv, -, hp, hf⟩, m, hm, hid⟩ := hpd.sealings _ _ ht
    rw [hta, hti] at hv
    exact ⟨v, p, m, hv, hp, hf, hm, hid⟩

open Sample in
theorem requests_correspond_submitted :
    ∃ h s a, Reaches chain 1000 funds h s ∧ s.agents agent = some a ∧ a.vrfNonce = 2 ∧ Correspond chain s agent a := by
  obtain ⟨h, s, hr, -, hs⟩ := exists_run (setup ++ submit 0 ++ (submit 1).take 1)
    (fun s => (s.agents agent).map (·.vrfNonce)) (some 2) (by decide +kernel)
  obtain ⟨a, ha, hn⟩ := Option.map_eq_some_iff.1 hs
  exact ⟨h, s, a, hr, ha, hn, requests_correspond hr ha⟩

end ProofOfThought.Program
