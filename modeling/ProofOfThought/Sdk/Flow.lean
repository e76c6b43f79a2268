import ProofOfThought.Program.Dispatch
import ProofOfThought.Program.Frame
import ProofOfThought.Program.Requests
import ProofOfThought.Sdk.Session

/-!
# The client on the chain

`requestVRF`, `think` and `submit`, with their instructions executed by the program. What other parties do between the
two instructions and after them is any run. The submission is accepted just when the chain admits it (`Admits`), and
then the account at the address it returned holds what the client committed to, for good (`thought_lands`).
-/

namespace ProofOfThought.Sdk

open Base
open Program (AddressBook Bytes32 Runtime State Event Action AgentProfile Policy VrfRequest ThoughtRecord Reaches)

variable {pkg : Packages} {address : Bytes32 → Program.Pubkey} {book : AddressBook} {rt : Runtime} {s s' : State}
  {cfg : ProofOfThoughtConfig} {operator : PublicKey} {nonceIdx : Int} {seed : Bytes}
  {handle : VrfHandle} {result : ThinkResult} {args : SubmitArgs} {request ix : InstructionRequest}
  {thought : PublicKey}

/-- The call of the program for an instruction request. -/
def InstructionRequest.invocation (address : Bytes32 → Program.Pubkey) (ix : InstructionRequest) :
    Program.Invocation := ⟨ix.programId, ix.data, ix.infos address⟩

/-- The program's execution of an instruction request, whatever the instruction. -/
def InstructionRequest.invoke (address : Bytes32 → Program.Pubkey) (rt : Runtime) (s : State)
    (ix : InstructionRequest) : Except Program.InvocationError (State × List Event) :=
  Program.invoke address rt s (ix.invocation address)

/-! ## The conditions -/

/-- The agent `a` of the operator may ask for the nonce. -/
structure Asks (rt : Runtime) (s : State) (operator : Program.Pubkey) (nonceIdx : UInt64) (a : AgentProfile) :
    Prop where
  agent : s.agents (rt.pda (.agent operator)) = some a
  nonce : nonceIdx = a.vrfNonce
  next : a.vrfNonce.toNat + 1 < 2 ^ 64
  rent : rt.rentDue (s.lamports (rt.pda (.vrf (rt.pda (.agent operator)) nonceIdx))) Program.VrfRequest.LEN ≤
    s.lamports operator

/-- The policy `p` admits a thought of the agent `a`, on the request for the nonce made at the slot `requested`. -/
structure Admits (rt : Runtime) (s : State) (operator : Program.Pubkey) (modelId policyId : Bytes32)
    (nonceIdx requested : UInt64) (a : AgentProfile) (p : Policy) : Prop where
  agent : s.agents (rt.pda (.agent operator)) = some a
  model : ∃ m, s.models (rt.pda (.model modelId)) = some m
  policy : s.policies (rt.pda (.policy policyId)) = some p
  fresh : s.thoughts (rt.pda (.thought (rt.pda (.agent operator)) nonceIdx)) = none
  rent : rt.rentDue (s.lamports (rt.pda (.thought (rt.pda (.agent operator)) nonceIdx))) Program.ThoughtRecord.LEN ≤
    s.lamports operator
  stake : p.bondMin ≤ a.stakeAmount
  age : s.slot.toNat ≤ requested.toNat + p.maxInferenceSlots.toNat
  whitelist : p.allowedModels = [] ∨ modelId ∈ p.allowedModels
  deadline : s.slot.toNat + p.challengeWindowSlots.toNat < 2 ^ 64
  count : a.activeThoughts.toNat + 1 < 2 ^ 32

/-- The record holds what the client committed to, at the slot `submitted`. -/
structure Holds (pkg : Packages) (rt : Runtime) (address : Bytes32 → Program.Pubkey) (cfg : ProofOfThoughtConfig)
    (operator : PublicKey) (handle : VrfHandle) (result : ThinkResult) (args : SubmitArgs) (submitted : UInt64)
    (t : ThoughtRecord) : Prop where
  agent : t.agent = rt.pda (.agent (address operator))
  modelId : t.modelId.toList = cfg.modelId
  policyId : t.policyId.toList = cfg.policyId
  inputCommitment : t.inputCommitment.toList = result.inputCommitment
  outputCommitment : t.outputCommitment.toList = result.outputCommitment
  traceUriHash : t.traceUriHash = hashCommitment pkg args.traceUri
  vrfSeed : t.vrfSeed.toList = handle.seed
  vrfNonceIdx : t.vrfNonceIdx = wireU64 handle.nonceIdx
  actionPda : t.actionPda = address args.actionPda
  slot : t.slot = submitted

/-- What stays of a record is what it holds. -/
theorem Holds.same {submitted : UInt64} {t t' : ThoughtRecord} (hsame : Program.SameCommitment t t')
    (h : Holds pkg rt address cfg operator handle result args submitted t) :
    Holds pkg rt address cfg operator handle result args submitted t' where
  agent := hsame.field (·.agent) (fun _ => rfl) ▸ h.agent
  modelId := hsame.field (·.modelId) (fun _ => rfl) ▸ h.modelId
  policyId := hsame.field (·.policyId) (fun _ => rfl) ▸ h.policyId
  inputCommitment := hsame.field (·.inputCommitment) (fun _ => rfl) ▸ h.inputCommitment
  outputCommitment := hsame.field (·.outputCommitment) (fun _ => rfl) ▸ h.outputCommitment
  traceUriHash := hsame.field (·.traceUriHash) (fun _ => rfl) ▸ h.traceUriHash
  vrfSeed := hsame.field (·.vrfSeed) (fun _ => rfl) ▸ h.vrfSeed
  vrfNonceIdx := hsame.field (·.vrfNonceIdx) (fun _ => rfl) ▸ h.vrfNonceIdx
  actionPda := hsame.field (·.actionPda) (fun _ => rfl) ▸ h.actionPda
  slot := hsame.field (·.slot) (fun _ => rfl) ▸ h.slot

/-! ## What the program is passed -/

section Passed

variable (ha : Addressing pkg rt book cfg.programId) (hid : cfg.programId = Program.ID)

include ha hid

/-- The `request_vrf` that `requestVRF` passes to the program. -/
theorem requestVRF_passes
    (hk : (Invocation.requestVRF operator nonceIdx seed).pdas rt book.address cfg ⊆ book.known)
    (hreq : requestVRF pkg cfg operator nonceIdx seed = .ok (request, handle)) :
    let agent := rt.pda (.agent (book.address operator))
    ∃ seed' : Bytes32, seed'.toList = seed ∧ handle.seed = seed ∧ handle.nonceIdx = nonceIdx ∧
      book.address handle.vrfRequestPda = rt.pda (.vrf agent (wireU64 nonceIdx)) ∧
      (request.invocation book.address).Encodes book.address book.bytes (.requestVrf
        ⟨⟨book.address operator, true, true⟩, ⟨agent, false, true⟩,
          ⟨rt.pda (.vrf agent (wireU64 nonceIdx)), false, true⟩, ⟨Program.systemProgramId, false, false⟩⟩
        (wireU64 nonceIdx) seed') := by
  obtain ⟨hinfos, ⟨bytes, hbytes, hdata⟩, hvrf, hn⟩ := requestVRF_built ha hk hreq
  obtain ⟨seed', hread, hseed⟩ := requestDeserialize_encoded hbytes
  have hpid : request.programId = cfg.programId ∧ handle.seed = seed := by
    simp only [requestVRF, seq_ok_iff, pure_ok_iff, Prod.exists, Prod.mk.injEq] at hreq
    obtain ⟨_, -, _, _, -, _, _, -, _, -, rfl, rfl⟩ := hreq
    exact ⟨rfl, rfl⟩
  refine ⟨seed', hseed, hpid.2, hn, hvrf, hpid.1.trans hid, trivial, ⟨[], ?_⟩, [], ?_⟩
  · have hargs := Program.requestVrf_deserialize_iff.1 hread
    rw [List.append_nil] at hargs
    rw [List.append_nil, InstructionRequest.invocation, hdata, hargs]
    rfl
  · rw [List.append_nil, InstructionRequest.invocation, hinfos]
    rfl

/-- The `submit_thought` that `submit` passes to the program. -/
theorem submit_passes
    (hk : (Invocation.submit operator handle result args).pdas rt book.address cfg ⊆ book.known)
    (hsub : submit pkg cfg operator handle result args = .ok (ix, thought))
    (hlen : (textEncode args.traceUri).length < 2 ^ 32) :
    let agent := rt.pda (.agent (book.address operator))
    ∃ read, (submittedArgs pkg cfg handle result args).SameBytes book.address read ∧
      read.vrfNonceIdx = wireU64 handle.nonceIdx ∧
      book.address thought = rt.pda (.thought agent (wireU64 handle.nonceIdx)) ∧
      (ix.invocation book.address).Encodes book.address book.bytes (.submitThought
        ⟨⟨book.address operator, true, true⟩, ⟨agent, false, true⟩, ⟨rt.pda (.model read.modelId), false, false⟩,
          ⟨rt.pda (.policy read.policyId), false, false⟩, ⟨book.address handle.vrfRequestPda, false, true⟩,
          ⟨rt.pda (.thought agent read.vrfNonceIdx), false, true⟩, ⟨Program.systemProgramId, false, false⟩⟩
        read args.traceUri.text) := by
  obtain ⟨bytes, read, hdata, hread, -, -, hn, hinfos, hthought⟩ := submit_built ha hk hsub
  obtain ⟨bytes', hdata', hbytes⟩ := submit_encodes hsub
  obtain ⟨read', hread', hsame, -⟩ := deserialize_encoded book.address hbytes
  obtain rfl : bytes' = bytes := by
    rw [hdata', submitThought_discriminator] at hdata
    exact List.append_cancel_left hdata
  obtain rfl : read' = read := (Prod.mk.inj (Except.ok.inj (hread'.symm.trans hread))).1
  have hpid : ix.programId = cfg.programId := by
    simp only [submit, seq_ok_iff, pure_ok_iff, Prod.exists, Prod.mk.injEq] at hsub
    obtain ⟨_, _, -, _, _, -, _, _, -, _, _, -, _, -, rfl, -⟩ := hsub
    rfl
  obtain ⟨haction, hargs⟩ := (Program.thoughtRecordArgs_deserialize_iff book.bytes_address).1 hread
  refine ⟨read', hsame, hn, hn ▸ hthought, hpid.trans hid, ⟨haction, hlen⟩, ⟨[], ?_⟩, [], ?_⟩
  · rw [List.append_nil, InstructionRequest.invocation, hdata, hargs]
    rfl
  · rw [List.append_nil, InstructionRequest.invocation, hinfos]
    rfl

end Passed

/-! ## What the program accepts -/

/-- **When a request is accepted**: when the agent may ask for its nonce. -/
theorem requestVrf_accepted_iff (hwf : s.Wf rt) (hpd : s.Paired rt) {k : Program.Pubkey} {n : UInt64} {v : Bytes32} :
    (∃ r, Program.exec rt s (.requestVrf
      ⟨⟨k, true, true⟩, ⟨rt.pda (.agent k), false, true⟩, ⟨rt.pda (.vrf (rt.pda (.agent k)) n), false, true⟩,
        ⟨Program.systemProgramId, false, false⟩⟩ n v) = .ok r) ↔ ∃ a, Asks rt s k n a := by
  constructor
  · intro hx
    obtain ⟨⟨s', evs⟩, he⟩ := hx
    obtain ⟨a, m, hacc, -, -⟩ := Program.requestVrf_eq_ok.1 he
    refine ⟨a, hacc.profile, hacc.nonce, ?_, hacc.rent⟩
    rw [hacc.next]
    exact m.toNat_lt
  · intro hx
    obtain ⟨a, h⟩ := hx
    obtain ⟨hop, hbump⟩ := hwf.agent_at h.agent
    have hnext : a.vrfNonce.toNat + 1 = (UInt64.ofNat (a.vrfNonce.toNat + 1)).toNat := by
      rw [UInt64.toNat_ofNat_of_lt' h.next]
    -- the next nonce of an agent has no request yet
    have hfresh : s.vrfRequests (rt.pda (.vrf (rt.pda (.agent k)) n)) = none := by
      cases hv : s.vrfRequests (rt.pda (.vrf (rt.pda (.agent k)) n)) with
      | none => rfl
      | some v =>
        obtain ⟨hva, hvn⟩ := (hpd.requests _ _ hv).nonce
        obtain ⟨a', ha', hlt⟩ := (hpd.requests _ _ hv).issued
        rw [hva, h.agent, Option.some.injEq] at ha'
        rw [hvn, h.nonce, ha'] at hlt
        exact absurd hlt (UInt64.lt_irrefl _)
    exact ⟨_, Program.requestVrf_eq_ok.2 ⟨a, _, ⟨rfl, rfl, h.agent, by rw [hbump]; rfl, hop, rfl, hfresh, h.rent,
      ⟨rfl, rfl, rfl⟩, h.nonce, hnext⟩, rfl, rfl⟩⟩

/-- **When a thought is accepted** on a request with its seed: when its policy admits it. -/
theorem submitThought_accepted_iff (hwf : s.Wf rt) (hpd : s.Paired rt) {k : Program.Pubkey}
    (read : Program.ThoughtRecordArgs) {uri : String} {v : VrfRequest} {ms mw ps pw : Bool}
    (hv : s.vrfRequests (rt.pda (.vrf (rt.pda (.agent k)) read.vrfNonceIdx)) = some v) (hseed : v.seed = read.vrfSeed)
    (hslot : v.requestSlot ≤ s.slot) :
    (∃ r, Program.exec rt s (.submitThought
      ⟨⟨k, true, true⟩, ⟨rt.pda (.agent k), false, true⟩, ⟨rt.pda (.model read.modelId), ms, mw⟩,
        ⟨rt.pda (.policy read.policyId), ps, pw⟩, ⟨rt.pda (.vrf (rt.pda (.agent k)) read.vrfNonceIdx), false, true⟩,
        ⟨rt.pda (.thought (rt.pda (.agent k)) read.vrfNonceIdx), false, true⟩, ⟨Program.systemProgramId, false, false⟩⟩
      read uri) = .ok r) ↔
      ∃ a p, Admits rt s k read.modelId read.policyId read.vrfNonceIdx v.requestSlot a p := by
  constructor
  · intro hx
    obtain ⟨⟨s', evs⟩, he⟩ := hx
    obtain ⟨a, p, v', d, n, hacc, -, -⟩ := Program.submitThought_eq_ok.1 he
    obtain rfl : v = v' := Option.some.inj (hv.symm.trans hacc.requestAccount)
    obtain ⟨m, hm, -, -⟩ := hacc.model
    obtain ⟨age, hslot, hage⟩ := hacc.age
    rw [UInt64.le_iff_toNat_le, UInt32.toNat_toUInt64] at hage
    refine ⟨a, p, hacc.profile, ⟨m, hm⟩, hacc.policyAccount, hacc.fresh, hacc.rent, hacc.stake, by omega, ?_, ?_, ?_⟩
    · rw [← List.isEmpty_iff]
      exact hacc.whitelist
    · rw [hacc.deadline]
      exact d.toNat_lt
    · rw [hacc.count]
      exact n.toNat_lt
  · intro hx
    obtain ⟨a, p, h⟩ := hx
    obtain ⟨hop, hab⟩ := hwf.agent_at h.agent
    obtain ⟨m, hm⟩ := h.model
    obtain ⟨hmi, hmb⟩ := hpd.model_at hm
    obtain ⟨hpi, hpb⟩ := hwf.policy_at h.policy
    obtain ⟨hva, hvb⟩ := hpd.request_at hv
    have hunspent : v.consumed = false := by
      rw [Bool.eq_false_iff]
      intro hc
      obtain ⟨t, ht⟩ := (hpd.requests _ _ hv).spent hc
      obtain ⟨-, hvn⟩ := (hpd.requests _ _ hv).nonce
      rw [hva, hvn, h.fresh] at ht
      cases ht
    have hage : ∃ age : UInt64, s.slot.toNat = age.toNat + v.requestSlot.toNat ∧
        age ≤ p.maxInferenceSlots.toUInt64 := by
      have hage := h.age
      have hle := UInt64.le_iff_toNat_le.1 hslot
      refine ⟨s.slot - v.requestSlot, ?_, ?_⟩
      · rw [UInt64.toNat_sub_of_le _ _ hslot]
        omega
      · rw [UInt64.le_iff_toNat_le, UInt64.toNat_sub_of_le _ _ hslot, UInt32.toNat_toUInt64]
        omega
    have hdeadline : s.slot.toNat + p.challengeWindowSlots.toNat =
        (UInt64.ofNat (s.slot.toNat + p.challengeWindowSlots.toNat)).toNat := by
      rw [UInt64.toNat_ofNat_of_lt' h.deadline]
    have hcount : a.activeThoughts.toNat + 1 = (UInt32.ofNat (a.activeThoughts.toNat + 1)).toNat := by
      rw [UInt32.toNat_ofNat_of_lt' h.count]
    exact ⟨_, Program.submitThought_eq_ok.2 ⟨a, p, v, _, _, ⟨rfl, rfl, h.agent, by rw [hab]; rfl, hop,
      ⟨m, hm, by rw [hmb]; rfl, hmi⟩, h.policy, by rw [hpb]; rfl, hpi, hv, by rw [hvb]; rfl, hva, rfl, h.fresh, h.rent,
      ⟨rfl, rfl, rfl, rfl⟩, h.stake, hunspent, hseed, hage, by rw [List.isEmpty_iff]; exact h.whitelist, hdeadline,
      hcount⟩, rfl, rfl⟩⟩

/-! ## From the request to the record -/

section Lands

variable {lib : Library} {inference : Inference} {s₁ s₂ s₃ s₄ : State} {evs evs' : List Event}
  {slot : UInt64} {L : Ledger Program.Pubkey} {h g g' : List (State × Action)}

variable (ha : Addressing pkg rt book cfg.programId) (hid : cfg.programId = Program.ID)

include ha hid

theorem requestVRF_invoke_iff
    (hk : (Invocation.requestVRF operator nonceIdx seed).pdas rt book.address cfg ⊆ book.known)
    (hreq : requestVRF pkg cfg operator nonceIdx seed = .ok (request, handle))
    (hr : Reaches rt slot L h s) :
    (∃ r, request.invoke book.address rt s = .ok r) ↔ ∃ a, Asks rt s (book.address operator) (wireU64 nonceIdx) a := by
  obtain ⟨seed', -, -, -, -, henc⟩ := requestVRF_passes ha hid hk hreq
  simp only [InstructionRequest.invoke, henc.invoke_iff book.bytes_address]
  exact requestVrf_accepted_iff (Program.wf_of_reaches hr) (Program.paired_of_reaches hr)

/-- The request is there from when it is accepted, with its seed and its slot. -/
theorem requestVRF_stays
    (hk : (Invocation.requestVRF operator nonceIdx seed).pdas rt book.address cfg ⊆ book.known)
    (hreq : requestVRF pkg cfg operator nonceIdx seed = .ok (request, handle))
    (hr : Reaches rt slot L h s) (hacc : request.invoke book.address rt s = .ok (s₁, evs))
    (hrun : Run (Program.step rt) s₁ g s₂) :
    (∃ h', Reaches rt slot L h' s₂) ∧ s.slot ≤ s₂.slot ∧ ∃ v,
      s₂.vrfRequests (rt.pda (.vrf (rt.pda (.agent (book.address operator))) (wireU64 nonceIdx))) = some v ∧
        v.seed.toList = seed ∧ v.requestSlot = s.slot := by
  obtain ⟨seed', hseed, -, -, -, henc⟩ := requestVRF_passes ha hid hk hreq
  have he := (henc.invoke_iff book.bytes_address).1 hacc
  have hstep := Program.step_instruction.2 ⟨evs, he⟩
  obtain ⟨a, n, -, -, rfl⟩ := Program.requestVrf_eq_ok.1 he
  refine ⟨⟨_, (hr.snoc hstep).append hrun⟩, ?_, ?_⟩
  · exact hrun.stable (fun m => s.slot ≤ m.slot)
      (fun _ _ _ hle ha => UInt64.le_trans hle (Program.step_effect ha).slot_le) (UInt64.le_refl _)
  · obtain ⟨v, hv, hsame⟩ := (Program.Run.kept hrun).requests _ _ (write_eq_some.2 (.inl ⟨rfl, rfl⟩))
    refine ⟨v, hv, ?_, ?_⟩
    · rw [← hsame.field (·.seed) fun _ => rfl]
      exact hseed
    · rw [← hsame.field (·.requestSlot) fun _ => rfl]
      rfl

theorem submit_invoke_iff
    (hk : (Invocation.submit operator handle result args).pdas rt book.address cfg ⊆ book.known)
    (hsub : submit pkg cfg operator handle result args = .ok (ix, thought))
    (hlen : (textEncode args.traceUri).length < 2 ^ 32) (hr : Reaches rt slot L h s)
    (hfits : (Invocation.submit operator handle result args).Fits rt book.address) {v : VrfRequest}
    (hv : s.vrfRequests (book.address handle.vrfRequestPda) = some v) (hseed : v.seed.toList = handle.seed)
    (hslot : v.requestSlot ≤ s.slot) :
    (∃ r, ix.invoke book.address rt s = .ok r) ↔ ∃ modelId policyId : Bytes32, ∃ a p, modelId.toList = cfg.modelId ∧
      policyId.toList = cfg.policyId ∧
      Admits rt s (book.address operator) modelId policyId (wireU64 handle.nonceIdx) v.requestSlot a p := by
  obtain ⟨read, hsame, hn, -, henc⟩ := submit_passes ha hid hk hsub hlen
  rw [Invocation.Fits] at hfits
  rw [hfits] at hv henc
  have hvrf : v.seed = read.vrfSeed := List.Vector.toList_injective (hseed.trans hsame.vrfSeed.symm)
  rw [← hn] at hv henc ⊢
  simp only [InstructionRequest.invoke, henc.invoke_iff book.bytes_address]
  rw [submitThought_accepted_iff (Program.wf_of_reaches hr) (Program.paired_of_reaches hr) read hv hvrf hslot]
  constructor
  · intro hx
    obtain ⟨a, p, hadmits⟩ := hx
    exact ⟨_, _, a, p, hsame.modelId, hsame.policyId, hadmits⟩
  · intro hx
    obtain ⟨m, q, a, p, hm, hq, hadmits⟩ := hx
    obtain rfl : read.modelId = m := List.Vector.toList_injective (hsame.modelId.trans hm.symm)
    obtain rfl : read.policyId = q := List.Vector.toList_injective (hsame.policyId.trans hq.symm)
    exact ⟨a, p, hadmits⟩

/-- The record of an accepted submission, from then on. -/
theorem submit_holds
    (hk : (Invocation.submit operator handle result args).pdas rt book.address cfg ⊆ book.known)
    (hsub : submit pkg cfg operator handle result args = .ok (ix, thought))
    (hlen : (textEncode args.traceUri).length < 2 ^ 32) (hacc : ix.invoke book.address rt s = .ok (s₁, evs))
    (hrun : Run (Program.step rt) s₁ g s₂) :
    (∃ t, s₂.thoughts (book.address thought) = some t ∧
      Holds pkg rt book.address cfg operator handle result args s.slot t) ∧
      ∀ r, ix.invoke book.address rt s₂ ≠ .ok r := by
  obtain ⟨read, hsame, hn, hthought, henc⟩ := submit_passes ha hid hk hsub hlen
  obtain ⟨a, p, v, d, n, hok, -, rfl⟩ := Program.submitThought_eq_ok.1 ((henc.invoke_iff book.bytes_address).1 hacc)
  obtain ⟨t, ht, hcommit⟩ := (Program.Run.kept hrun).thoughts _ _ (write_eq_some.2 (.inl ⟨rfl, rfl⟩))
  rw [hn, ← hthought] at ht
  refine ⟨⟨t, ht, Holds.same hcommit ?_⟩, ?_⟩
  · exact ⟨rfl, hsame.modelId, hsame.policyId, hsame.inputCommitment, hsame.outputCommitment,
      List.Vector.toList_injective hsame.traceUriHash, hsame.vrfSeed, hn, hsame.actionPda, rfl⟩
  · intro r hagain
    obtain ⟨_, _, _, _, _, hok', -, -⟩ := Program.submitThought_eq_ok.1 ((henc.invoke_iff book.bytes_address).1 hagain)
    have hfresh := hok'.fresh
    rw [hn, ← hthought, ht] at hfresh
    cases hfresh

end Lands

/-- **From the request to the record**, where the bytes of the PDAs of the two instructions keep them apart. The request
is accepted just when its agent may ask for the nonce. After it and any run, the submission of a thought made with its
handle is accepted just when the chain admits it; from then on the account at the address that `submit` returned holds
the commitments of the thought's documents, the seed in them and what the client named, and the submission is never
accepted again. -/
theorem thought_lands {lib : Library} {inference : Inference} {result : ThinkReturn} {slot : UInt64}
    {L : Ledger Program.Pubkey} {h : List (State × Action)} (ha : Addressing lib.toPackages rt book cfg.programId)
    (hid : cfg.programId = Program.ID)
    (hk : (Invocation.requestVRF operator nonceIdx seed).pdas rt book.address cfg ⊆ book.known)
    (hks : (Invocation.submit operator handle result.toThinkResult args).pdas rt book.address cfg ⊆ book.known)
    (hreq : requestVRF lib.toPackages cfg operator nonceIdx seed = .ok (request, handle))
    (hthink : think lib handle inference = .ok result)
    (hsub : submit lib.toPackages cfg operator handle result.toThinkResult args = .ok (ix, thought))
    (hlen : (textEncode args.traceUri).length < 2 ^ 32) (hr : Reaches rt slot L h s) :
    ((∃ r, request.invoke book.address rt s = .ok r) ↔ ∃ a, Asks rt s (book.address operator) (wireU64 nonceIdx) a) ∧
      ∀ s₁ evs g s₂, request.invoke book.address rt s = .ok (s₁, evs) → Run (Program.step rt) s₁ g s₂ →
        ((∃ r, ix.invoke book.address rt s₂ = .ok r) ↔ ∃ modelId policyId : Bytes32, ∃ a p,
          modelId.toList = cfg.modelId ∧ policyId.toList = cfg.policyId ∧
          Admits rt s₂ (book.address operator) modelId policyId (wireU64 nonceIdx) s.slot a p) ∧
        ∀ s₃ evs' g' s₄, ix.invoke book.address rt s₂ = .ok (s₃, evs') → Run (Program.step rt) s₃ g' s₄ →
          (∃ t input output, s₄.thoughts (book.address thought) = some t ∧
            Holds lib.toPackages rt book.address cfg operator handle result.toThinkResult args s₂.slot t ∧
            Thinking.documents ⟨handle, inference⟩ = .ok (input, output) ∧
            lib.hashCommitment input.toValue = .ok t.inputCommitment ∧
            lib.hashCommitment output.toValue = .ok t.outputCommitment ∧ t.vrfSeed.toList = input.vrfSeed) ∧
          ∀ r, ix.invoke book.address rt s₄ ≠ .ok r := by
  refine ⟨requestVRF_invoke_iff ha hid hk hreq hr, fun s₁ evs g s₂ hacc hrun => ?_⟩
  refine ⟨?_, fun s₃ evs' g' s₄ hacc' hrun' => ?_⟩
  · obtain ⟨⟨h', hr'⟩, hle, v, hv, hseed, hslot⟩ := requestVRF_stays ha hid hk hreq hr hacc hrun
    obtain ⟨_, -, hsd, hn, hvrf, -⟩ := requestVRF_passes ha hid hk hreq
    rw [← hvrf] at hv
    rw [← hslot] at hle
    have hfits : (Invocation.submit operator handle result.toThinkResult args).Fits rt book.address := by
      rw [Invocation.Fits, hvrf, hn]
    rw [submit_invoke_iff ha hid hks hsub hlen hr' hfits hv (hseed.trans hsd.symm) hle, hn, hslot]
  · obtain ⟨⟨t, ht, hholds⟩, hagain⟩ := submit_holds ha hid hks hsub hlen hacc' hrun'
    obtain ⟨input, output, ci, co, hreturned, hseed, hinput, houtput, hci, hri, hco, hro⟩ :=
      think_ok (t := ⟨handle, inference⟩) hthink
    obtain rfl : t.inputCommitment = ci := List.Vector.toList_injective (hholds.inputCommitment.trans hri)
    obtain rfl : t.outputCommitment = co := List.Vector.toList_injective (hholds.outputCommitment.trans hro)
    refine ⟨⟨t, input, output, ht, hholds, ?_, hci, hco, ?_⟩, hagain⟩
    · simp only [Thinking.documents, seq_ok_iff, pure_ok_iff, mapError_eq_ok]
      exact ⟨_, hreturned, _, hinput, _, houtput, rfl⟩
    · rw [hholds.vrfSeed]
      exact Option.some.inj (hseed.symm.trans (validateCanonicalInput_bytes hinput).1)

/-! ## A thought of the sample client -/

namespace Sample

/-- The packages of the sample client, with the digests of the sample thought. -/
def documented : Library where
  toPackages := { client with blake3 := digest }
  encode := encode
  encode_string := library.encode_string

/-- A request, a thought with its handle, and the submission. -/
def thoughtful : Option (InstructionRequest × VrfHandle × ThinkReturn × InstructionRequest × PublicKey) := do
  let (request, handle) ←
    (requestVRF documented.toPackages config operatorKey 0 Program.Sample.commitment.toList).toOption
  let result ← (think documented handle agent).toOption
  let (ix, thought) ←
    (submit documented.toPackages config operatorKey handle result.toThinkResult submitArgs).toOption
  return (request, handle, result, ix, thought)

end Sample

open Program.Sample (chain funds setup) in
/-- The theorem at a thought of the sample client. -/
theorem thought_lands_honest : ∃ h s request handle result ix thought s₁ evs s₂ evs' t,
    Reaches chain 1000 funds h s ∧ Sample.thoughtful = some (request, handle, result, ix, thought) ∧
    InstructionRequest.invoke Sample.addresses.address chain s request = .ok (s₁, evs) ∧
    InstructionRequest.invoke Sample.addresses.address chain s₁ ix = .ok (s₂, evs') ∧
    s₂.thoughts (Sample.addresses.address thought) = some t ∧
    Holds Sample.documented.toPackages chain Sample.addresses.address Sample.config Sample.operatorKey handle
      result.toThinkResult Sample.submitArgs s₁.slot t := by
  obtain ⟨⟨request, handle, result, ix, thought⟩, hx⟩ :=
    Option.isSome_iff_exists.1 (show Sample.thoughtful.isSome = true by decide +kernel)
  have hcalls := hx
  simp only [Sample.thoughtful, Option.bind_eq_bind, Option.bind_eq_some_iff, toOption_eq_some, Option.pure_def,
    Option.some.injEq, Prod.mk.injEq, Prod.exists] at hcalls
  obtain ⟨request, handle, hreq, result, hthink, ix, thought, hsub, rfl, rfl, rfl, rfl, rfl⟩ := hcalls
  have ha : Addressing Sample.documented.toPackages chain Sample.addresses Sample.config.programId :=
    ⟨Sample.addressing.system, Sample.addressing.found⟩
  have hop : Sample.addresses.address Sample.operatorKey = Program.Sample.operator := by decide +kernel
  have hrequested : (Invocation.requestVRF Sample.operatorKey 0 Program.Sample.commitment.toList).pdas chain
      Sample.addresses.address Sample.config ⊆ Sample.addresses.known := by decide +kernel
  -- the two steps of the model, at the state after the setup
  obtain ⟨h, s, hr, -, hs⟩ := Program.Sample.exists_run setup
    (fun s => (perform (Program.step chain) s (Program.Sample.submit 0)).isSome) true (by decide +kernel)
  obtain ⟨⟨_, e⟩, hp⟩ := Option.isSome_iff_exists.1 hs
  simp only [Program.Sample.submit, perform, Option.bind_eq_some_iff, Option.map_eq_some_iff,
    Program.step_instruction] at hp
  obtain ⟨m, ⟨evs, hask⟩, _, ⟨_, ⟨_, hsubmit⟩, -⟩, -⟩ := hp
  obtain ⟨seed', hseed, hsd, hn, hvrf, henc⟩ := requestVRF_passes ha rfl hrequested hreq
  have hsubmitted : (Invocation.submit Sample.operatorKey handle result.toThinkResult Sample.submitArgs).pdas chain
      Sample.addresses.address Sample.config ⊆ Sample.addresses.known := by
    simp only [Invocation.pdas, hn]
    decide +kernel
  obtain rfl : seed' = Program.Sample.commitment := List.Vector.toList_injective hseed
  rw [hop] at henc
  have hacc := (henc.invoke_iff Sample.addresses.bytes_address).2 hask
  obtain ⟨⟨h', hr'⟩, hle, v, hv, hvs, hslot⟩ := requestVRF_stays ha rfl hrequested hreq hr hacc .nil
  obtain ⟨-, hlands⟩ := thought_lands ha rfl hrequested hsubmitted hreq hthink hsub (by decide +kernel) hr
  obtain ⟨hiff, hholds⟩ := hlands m evs [] m hacc .nil
  rw [hop] at hv hiff
  rw [← hslot] at hiff
  obtain ⟨a, p, hadmits⟩ := (submitThought_accepted_iff (Program.wf_of_reaches hr') (Program.paired_of_reaches hr')
    ⟨Program.Sample.modelId, _, _, _, Program.Sample.commitment, Program.Sample.policyId, _, 0⟩ hv
    (List.Vector.toList_injective hvs) (hslot ▸ hle)).1 ⟨_, hsubmit⟩
  obtain ⟨⟨s₂, evs'⟩, hacc'⟩ := hiff.2 ⟨_, _, a, p, rfl, rfl, hadmits⟩
  obtain ⟨⟨t, -, -, ht, hh, -⟩, -⟩ := hholds s₂ evs' [] s₂ hacc' .nil
  exact ⟨h, s, _, _, _, _, _, m, evs, s₂, evs', t, hr, hx, hacc, hacc', ht, hh⟩

end ProofOfThought.Sdk
