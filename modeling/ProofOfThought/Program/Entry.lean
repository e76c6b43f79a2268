import Mathlib.Data.List.Forall2
import ProofOfThought.Program.Requests
import ProofOfThought.Program.Wire

/-!
# Accounts by position

The account list of an invocation: how the four instructions that clients build take their accounts, and what each field
of their `Accounts` structs asks of the entry in its place. In a state that is ready for the instruction, the validation
succeeds exactly on the lists the fields take.
-/

namespace ProofOfThought.Program

open Base

/-! ## Seeds -/

namespace Seeds

variable {K L : Type}

/-- The first seed. -/
def tag : Seeds K → String
  | agent _ => "agent"
  | vault _ => "vault"
  | model _ => "model"
  | policy _ => "policy"
  | vrf _ _ => "vrf"
  | thought _ _ => "thought"
  | challenge _ _ => "challenge"
  | bond _ => "bond"

/-- The seeds, as the constraints write them. -/
def bytes (x : Seeds Bytes32) : List Bytes :=
  utf8 x.tag :: match x with
    | agent k | vault k | bond k => [k.toList]
    | model i | policy i => [i.toList]
    | vrf k n | thought k n => [k.toList, leBytes 8 n.toNat]
    | challenge t c => [t.toList, c.toList]

/-- The same seeds of other keys. -/
def map (f : K → L) : Seeds K → Seeds L
  | agent k => agent (f k)
  | vault k => vault (f k)
  | model i => model i
  | policy i => policy i
  | vrf k n => vrf (f k) n
  | thought k n => thought (f k) n
  | challenge t c => challenge (f t) (f c)
  | bond k => bond (f k)

theorem leBytes_inj {n m : UInt64} (h : leBytes 8 n.toNat = leBytes 8 m.toNat) : n = m := by
  have h := congrArg ofLe h
  rw [ofLe_leBytes n.toNat_lt, ofLe_leBytes m.toNat_lt] at h
  exact UInt64.toNat_inj.1 h

/-- The list of its seeds determines a PDA. -/
theorem bytes_inj {x y : Seeds Bytes32} (h : x.bytes = y.bytes) : x = y := by
  obtain ⟨htag, hrest⟩ := List.cons.inj h
  have htag := utf8_inj htag
  cases x <;> cases y <;> simp [tag] at htag <;>
    simp_all [List.Vector.toList_injective.eq_iff]
  all_goals exact leBytes_inj hrest.2

end Seeds

/-! ## Binding -/

/-- The first eight bytes of the SHA-256 of `global:request_vrf`. -/
def RequestVrf.DISCRIMINATOR : List.Vector UInt8 8 := ⟨[5, 87, 79, 152, 164, 176, 190, 226], rfl⟩

/-- The first eight bytes of the SHA-256 of `global:challenge`. -/
def OpenChallenge.DISCRIMINATOR : List.Vector UInt8 8 := ⟨[16, 107, 14, 39, 244, 150, 81, 187], rfl⟩

/-- The first eight bytes of the SHA-256 of `global:consume_thought`. -/
def ConsumeThought.DISCRIMINATOR : List.Vector UInt8 8 := ⟨[1, 84, 124, 197, 132, 206, 134, 63], rfl⟩

def RequestVrf.bind : List AccountInfo → Except EntryError RequestVrf :=
  bindAccounts 4 fun operator agent vrfRequest systemProgram => { operator, agent, vrfRequest, systemProgram }

def OpenChallenge.bind : List AccountInfo → Except EntryError OpenChallenge :=
  bindAccounts 6 fun challenger thought policy challenge bondVault systemProgram =>
    { challenger, thought, policy, challenge, bondVault, systemProgram }

def ConsumeThought.bind : List AccountInfo → Except EntryError ConsumeThought :=
  bindAccounts 4 fun consumer thought policy action => { consumer, thought, policy, action }

/-- The account validation of an invocation. -/
def validate (address : Bytes32 → Pubkey) (rt : Runtime) (s : State) (data : Bytes) (accounts : List AccountInfo) :
    Except EntryError Unit :=
  if data.take 8 = RequestVrf.DISCRIMINATOR.toList then do
    let ((nonceIdx, _), _) ← RequestVrf.deserialize (data.drop 8)
    let ctx ← RequestVrf.bind accounts
    let _ ← (ctx.tryAccounts rt s nonceIdx).mapError .instruction
    return ()
  else if data.take 8 = SubmitThought.DISCRIMINATOR.toList then do
    let ((args, _), _) ← SubmitThought.deserialize address (data.drop 8)
    let ctx ← SubmitThought.bind accounts
    let _ ← (ctx.tryAccounts rt s args).mapError .instruction
    return ()
  else if data.take 8 = OpenChallenge.DISCRIMINATOR.toList then do
    let _ ← OpenChallenge.deserialize (data.drop 8)
    let ctx ← OpenChallenge.bind accounts
    let _ ← (ctx.tryAccounts rt s).mapError .instruction
    return ()
  else if data.take 8 = ConsumeThought.DISCRIMINATOR.toList then do
    let ctx ← ConsumeThought.bind accounts
    let _ ← (ctx.tryAccounts s).mapError .instruction
    return ()
  else .error .instructionFallbackNotFound

section Validate

variable {address : Bytes32 → Pubkey} {rt : Runtime} {s : State} {bs : Bytes} {accounts : List AccountInfo}

/-- The discriminator of an instruction in front of its arguments. -/
theorem take_discriminator (d : List.Vector UInt8 8) (bs : Bytes) : (d.toList ++ bs).take 8 = d.toList :=
  List.take_left' (List.Vector.toList_length d)

theorem drop_discriminator (d : List.Vector UInt8 8) (bs : Bytes) : (d.toList ++ bs).drop 8 = bs :=
  List.drop_left' (List.Vector.toList_length d)

theorem validate_requestVrf :
    validate address rt s (RequestVrf.DISCRIMINATOR.toList ++ bs) accounts = .ok () ↔
      ∃ n seed rest ctx acc, RequestVrf.deserialize bs = .ok ((n, seed), rest) ∧ RequestVrf.bind accounts = .ok ctx ∧
        ctx.tryAccounts rt s n = .ok acc := by
  rw [validate, take_discriminator, drop_discriminator, if_pos rfl]
  simp only [seq_ok_iff, mapError_eq_ok, pure_ok_iff, Prod.exists, and_true]
  grind

theorem validate_submitThought :
    validate address rt s (SubmitThought.DISCRIMINATOR.toList ++ bs) accounts = .ok () ↔
      ∃ args uri rest ctx acc, SubmitThought.deserialize address bs = .ok ((args, uri), rest) ∧
        SubmitThought.bind accounts = .ok ctx ∧ ctx.tryAccounts rt s args = .ok acc := by
  rw [validate, take_discriminator, drop_discriminator, if_neg (by decide), if_pos rfl]
  simp only [seq_ok_iff, mapError_eq_ok, pure_ok_iff, Prod.exists, and_true]
  grind

theorem validate_challenge (h : validate address rt s (OpenChallenge.DISCRIMINATOR.toList ++ bs) accounts = .ok ()) :
    ∃ ctx acc, OpenChallenge.bind accounts = .ok ctx ∧ ctx.tryAccounts rt s = .ok acc := by
  rw [validate, take_discriminator, drop_discriminator, if_neg (by decide), if_neg (by decide), if_pos rfl] at h
  simp only [seq_ok_iff, mapError_eq_ok] at h
  obtain ⟨_, -, ctx, hb, acc, ha, -⟩ := h
  exact ⟨ctx, acc, hb, ha⟩

theorem validate_consumeThought
    (h : validate address rt s (ConsumeThought.DISCRIMINATOR.toList ++ bs) accounts = .ok ()) :
    ∃ ctx acc, ConsumeThought.bind accounts = .ok ctx ∧ ctx.tryAccounts s = .ok acc := by
  rw [validate, take_discriminator, if_neg (by decide), if_neg (by decide), if_neg (by decide), if_pos rfl] at h
  simp only [seq_ok_iff, mapError_eq_ok] at h
  obtain ⟨ctx, hb, acc, ha, -⟩ := h
  exact ⟨ctx, acc, hb, ha⟩

end Validate

/-! ## Fields -/

/-- A field of an `Accounts` struct: the address its constraints fix, if any, and its flags. -/
structure Field where
  key : Option Pubkey
  isSigner : Bool
  isWritable : Bool

/-- The entry is what the field asks for. -/
def Field.Takes (f : Field) (i : AccountInfo) : Prop :=
  (∀ k, f.key = some k → i.key = k) ∧ (f.isSigner = true → i.isSigner = true) ∧
    (f.isWritable = true → i.isWritable = true)

section Fields

variable (rt : Runtime) (s : State)

/-- `RequestVrf` for an operator and a nonce. -/
def RequestVrf.fields (operator : Pubkey) (nonceIdx : UInt64) : List Field :=
  [⟨some operator, true, true⟩, ⟨some (rt.pda (.agent operator)), false, true⟩,
    ⟨some (rt.pda (.vrf (rt.pda (.agent operator)) nonceIdx)), false, true⟩, ⟨some systemProgramId, false, false⟩]

/-- `SubmitThought` for an operator and the arguments. -/
def SubmitThought.fields (operator : Pubkey) (modelId policyId : Bytes32) (vrfNonceIdx : UInt64) : List Field :=
  [⟨some operator, true, true⟩, ⟨some (rt.pda (.agent operator)), false, true⟩,
    ⟨some (rt.pda (.model modelId)), false, false⟩, ⟨some (rt.pda (.policy policyId)), false, false⟩,
    ⟨some (rt.pda (.vrf (rt.pda (.agent operator)) vrfNonceIdx)), false, true⟩,
    ⟨some (rt.pda (.thought (rt.pda (.agent operator)) vrfNonceIdx)), false, true⟩,
    ⟨some systemProgramId, false, false⟩]

/-- The policy account of the thought at `thought`. -/
def State.policyOf (thought : Pubkey) : Option Pubkey :=
  (s.thoughts thought).map fun t => rt.pda (.policy t.policyId)

/-- `OpenChallenge` for a challenger and a thought. -/
def OpenChallenge.fields (challenger thought : Pubkey) : List Field :=
  [⟨some challenger, true, true⟩, ⟨some thought, false, true⟩, ⟨s.policyOf rt thought, false, false⟩,
    ⟨some (rt.pda (.challenge thought challenger)), false, true⟩,
    ⟨some (rt.pda (.bond (rt.pda (.challenge thought challenger)))), false, true⟩, ⟨some systemProgramId, false, false⟩]

/-- `ConsumeThought` for a consumer, a thought and its action, which the handler compares. -/
def ConsumeThought.fields (consumer thought action : Pubkey) : List Field :=
  [⟨some consumer, true, false⟩, ⟨some thought, false, true⟩, ⟨s.policyOf rt thought, false, false⟩,
    ⟨some action, false, false⟩]

end Fields

/-! ## States ready for an instruction -/

variable {rt : Runtime} {s : State}

/-- The agent has its account, the request has none, and the operator can pay its rent. -/
structure RequestVrf.Ready (rt : Runtime) (s : State) (operator : Pubkey) (nonceIdx : UInt64) : Prop where
  agent : ∃ a, s.agents (rt.pda (.agent operator)) = some a
  fresh : s.vrfRequests (rt.pda (.vrf (rt.pda (.agent operator)) nonceIdx)) = none
  rent : rt.rentDue (s.lamports (rt.pda (.vrf (rt.pda (.agent operator)) nonceIdx))) VrfRequest.LEN ≤
    s.lamports operator

/-- The agent, the model, the policy and the request have their accounts, the thought has none, and the operator can
pay its rent. -/
structure SubmitThought.Ready (rt : Runtime) (s : State) (operator : Pubkey) (modelId policyId : Bytes32)
    (vrfNonceIdx : UInt64) : Prop where
  agent : ∃ a, s.agents (rt.pda (.agent operator)) = some a
  model : ∃ m, s.models (rt.pda (.model modelId)) = some m
  policy : ∃ p, s.policies (rt.pda (.policy policyId)) = some p
  request : ∃ v, s.vrfRequests (rt.pda (.vrf (rt.pda (.agent operator)) vrfNonceIdx)) = some v
  fresh : s.thoughts (rt.pda (.thought (rt.pda (.agent operator)) vrfNonceIdx)) = none
  rent : rt.rentDue (s.lamports (rt.pda (.thought (rt.pda (.agent operator)) vrfNonceIdx))) ThoughtRecord.LEN ≤
    s.lamports operator

/-- The thought and its policy have their accounts, the challenge has none, and the challenger can pay its rent. -/
structure OpenChallenge.Ready (rt : Runtime) (s : State) (challenger thought : Pubkey) : Prop where
  policy : ∃ t p, s.thoughts thought = some t ∧ s.policies (rt.pda (.policy t.policyId)) = some p
  fresh : s.challenges (rt.pda (.challenge thought challenger)) = none
  rent : rt.rentDue (s.lamports (rt.pda (.challenge thought challenger))) Challenge.LEN ≤ s.lamports challenger

/-- The thought and its policy have their accounts. -/
structure ConsumeThought.Ready (rt : Runtime) (s : State) (thought : Pubkey) : Prop where
  policy : ∃ t p, s.thoughts thought = some t ∧ s.policies (rt.pda (.policy t.policyId)) = some p

/-- The account at an agent's address is the agent's. -/
theorem State.Wf.agent_at (hwf : s.Wf rt) {operator : Pubkey} {a : AgentProfile}
    (ha : s.agents (rt.pda (.agent operator)) = some a) :
    a.operator = operator ∧ a.bump = rt.bump (.agent operator) := by
  obtain ⟨hk, hb⟩ := hwf.agents _ _ ha
  rw [Runtime.pda_inj, Seeds.agent.injEq] at hk
  exact ⟨hk.symm, hk ▸ hb⟩

/-- The account at a policy's address is the policy's. -/
theorem State.Wf.policy_at (hwf : s.Wf rt) {i : Bytes32} {p : Policy} (hp : s.policies (rt.pda (.policy i)) = some p) :
    p.policyId = i ∧ p.bump = rt.bump (.policy i) := by
  obtain ⟨hk, hb⟩ := hwf.policies _ _ hp
  rw [Runtime.pda_inj, Seeds.policy.injEq] at hk
  exact ⟨hk.symm, hk ▸ hb⟩

/-- The account at a model's address is the model's. -/
theorem State.Paired.model_at (hpd : s.Paired rt) {i : Bytes32} {m : ModelRegistry}
    (hm : s.models (rt.pda (.model i)) = some m) : m.modelId = i ∧ m.bump = rt.bump (.model i) := by
  obtain ⟨hk, hb⟩ := hpd.models _ _ hm
  rw [Runtime.pda_inj, Seeds.model.injEq] at hk
  exact ⟨hk.symm, hk ▸ hb⟩

/-- The account at a request's address is the request of that agent. -/
theorem State.Paired.request_at (hpd : s.Paired rt) {agent : Pubkey} {n : UInt64} {v : VrfRequest}
    (hv : s.vrfRequests (rt.pda (.vrf agent n)) = some v) : v.agent = agent ∧ v.bump = rt.bump (.vrf agent n) := by
  have hat := hpd.requests _ _ hv
  have hk := hat.address
  rw [Runtime.pda_inj, Seeds.vrf.injEq] at hk
  exact ⟨hk.1.symm, hk.1 ▸ hk.2 ▸ hat.bump⟩

/-- **The accounts `request_vrf` validates** are those its fields take. -/
theorem RequestVrf.tryAccounts_iff (hwf : s.Wf rt) (operator : AccountInfo)
    {agent vrfRequest systemProgram : AccountInfo} {nonceIdx : UInt64} (hr : Ready rt s operator.key nonceIdx) :
    (∃ acc, tryAccounts rt s ⟨operator, agent, vrfRequest, systemProgram⟩ nonceIdx = .ok acc) ↔
      List.Forall₂ Field.Takes (fields rt operator.key nonceIdx) [operator, agent, vrfRequest, systemProgram] := by
  simp only [tryAccounts, fields, Field.Takes, List.forall₂_cons, List.forall₂_nil_left_iff, seq_ok_iff, signer_eq_ok,
    account_eq_ok, systemProgram_eq_ok, init_eq_ok, mutable_eq_ok, seeds_eq_ok, pure_ok_iff, require_eq_ok,
    exists_const, Option.isSome_eq_false_iff, Option.isNone_iff_eq_none, Option.some.injEq, forall_eq',
    Bool.false_eq_true, false_implies, true_implies, true_and, and_true]
  constructor
  · intro h
    obtain ⟨_, hs, a, ha, hy, _, ⟨hk, -, -, hw, rfl⟩, hwo, hwa, hsd, ho, -⟩ := h
    have hagent : agent.key = rt.pda (.agent operator.key) := ho ▸ (hwf.agents _ _ ha).1
    exact ⟨⟨hs, hwo⟩, ⟨hagent, hwa⟩, ⟨hagent ▸ hk, hw⟩, hy⟩
  · intro h
    obtain ⟨⟨hs, hwo⟩, ⟨hagent, hwa⟩, ⟨hk, hw⟩, hy⟩ := h
    obtain ⟨a, ha⟩ := hr.agent
    obtain ⟨ho, hb⟩ := hwf.agent_at ha
    rw [hagent, hk]
    exact ⟨_, hs, a, ha, hy, _, ⟨rfl, hr.fresh, hr.rent, hw, rfl⟩, hwo, hwa, hb ▸ rfl, ho, rfl⟩

/-- **The accounts `submit_thought` validates** are those its fields take. -/
theorem SubmitThought.tryAccounts_iff (hwf : s.Wf rt) (hpd : s.Paired rt) (operator : AccountInfo)
    {agent model policy vrfRequest thought systemProgram : AccountInfo} {args : ThoughtRecordArgs}
    (hr : Ready rt s operator.key args.modelId args.policyId args.vrfNonceIdx) :
    (∃ acc, tryAccounts rt s ⟨operator, agent, model, policy, vrfRequest, thought, systemProgram⟩ args = .ok acc) ↔
      List.Forall₂ Field.Takes (fields rt operator.key args.modelId args.policyId args.vrfNonceIdx)
        [operator, agent, model, policy, vrfRequest, thought, systemProgram] := by
  simp only [tryAccounts, fields, Field.Takes, List.forall₂_cons, List.forall₂_nil_left_iff, seq_ok_iff, signer_eq_ok,
    account_eq_ok, systemProgram_eq_ok, init_eq_ok, mutable_eq_ok, seeds_eq_ok, pure_ok_iff, require_eq_ok,
    exists_const, Option.isSome_eq_false_iff, Option.isNone_iff_eq_none, Option.some.injEq, forall_eq',
    Bool.false_eq_true, false_implies, true_implies, true_and, and_true]
  constructor
  · intro h
    obtain ⟨_, hs, a, ha, m, hm, p, hp, v, hv, hy, _, ⟨hk, -, -, hw, rfl⟩, hwo, hwa, hsd, ho, hms, hmi, hps, hpi, hwv,
      hvs, hva, -⟩ := h
    have hagent : agent.key = rt.pda (.agent operator.key) := ho ▸ (hwf.agents _ _ ha).1
    exact ⟨⟨hs, hwo⟩, ⟨hagent, hwa⟩, hmi ▸ (hpd.models _ _ hm).1, hpi ▸ (hwf.policies _ _ hp).1,
      ⟨hagent ▸ (hpd.request_nonce hv hvs).1, hwv⟩, ⟨hagent ▸ hk, hw⟩, hy⟩
  · intro h
    obtain ⟨⟨hs, hwo⟩, ⟨hagent, hwa⟩, hmodel, hpolicy, ⟨hrequest, hwv⟩, ⟨hk, hw⟩, hy⟩ := h
    obtain ⟨a, ha⟩ := hr.agent
    obtain ⟨m, hm⟩ := hr.model
    obtain ⟨p, hp⟩ := hr.policy
    obtain ⟨v, hv⟩ := hr.request
    obtain ⟨ho, hb⟩ := hwf.agent_at ha
    obtain ⟨hmi, hmb⟩ := hpd.model_at hm
    obtain ⟨hpi, hpb⟩ := hwf.policy_at hp
    obtain ⟨hva, hvb⟩ := hpd.request_at hv
    rw [hagent, hk, hmodel, hpolicy, hrequest]
    exact ⟨_, hs, a, ha, m, hm, p, hp, v, hv, hy, _, ⟨rfl, hr.fresh, hr.rent, hw, rfl⟩, hwo, hwa, hb ▸ rfl, ho,
      hmb ▸ rfl, hmi, hpb ▸ rfl, hpi, hwv, hvb ▸ rfl, hva, rfl⟩

/-- A state in which a `submit_thought` succeeds is ready for it. -/
theorem SubmitThought.Accepted.ready (hwf : s.Wf rt) (hpd : s.Paired rt) {ctx : SubmitThought}
    {args : ThoughtRecordArgs} {a : AgentProfile} {p : Policy} {v : VrfRequest} {d : UInt64} {n : UInt32}
    (h : ctx.Accepted rt s args a p v d n) :
    Ready rt s ctx.operator.key args.modelId args.policyId args.vrfNonceIdx := by
  have hagent : ctx.agent.key = rt.pda (.agent ctx.operator.key) := h.operator ▸ (hwf.agents _ _ h.profile).1
  obtain ⟨m, hm, -, hmi⟩ := h.model
  have hthought := h.thought
  have hrequest := (hpd.request_nonce h.requestAccount h.request).1
  rw [hagent] at hthought hrequest
  exact ⟨⟨a, hagent ▸ h.profile⟩, ⟨m, hmi ▸ (hpd.models _ _ hm).1 ▸ hm⟩,
    ⟨p, hwf.policy_key h.policyAccount h.policy ▸ h.policyAccount⟩, ⟨v, hrequest ▸ h.requestAccount⟩,
    hthought ▸ h.fresh, hthought ▸ h.rent⟩

/-- **The accounts `challenge` validates** are those its fields take. -/
theorem OpenChallenge.tryAccounts_iff (hwf : s.Wf rt)
    {challenger thought policy challenge bondVault systemProgram : AccountInfo}
    (hr : Ready rt s challenger.key thought.key) :
    (∃ acc, tryAccounts rt s ⟨challenger, thought, policy, challenge, bondVault, systemProgram⟩ = .ok acc) ↔
      List.Forall₂ Field.Takes (fields rt s challenger.key thought.key)
        [challenger, thought, policy, challenge, bondVault, systemProgram] := by
  obtain ⟨t, p, ht, hp⟩ := hr.policy
  have hpolicy : s.policyOf rt thought.key = some (rt.pda (.policy t.policyId)) := by
    rw [State.policyOf, ht, Option.map_some]
  have htat := hwf.thoughts _ _ ht
  simp only [tryAccounts, fields, Field.Takes, List.forall₂_cons, List.forall₂_nil_left_iff, seq_ok_iff, signer_eq_ok,
    account_eq_ok, systemProgram_eq_ok, init_eq_ok, mutable_eq_ok, seeds_eq_ok, canonicalSeeds_eq_ok, pure_ok_iff,
    require_eq_ok, exists_const, Option.isSome_eq_false_iff, Option.isNone_iff_eq_none, Option.some.injEq, forall_eq',
    hpolicy, ht, exists_eq_left', Bool.false_eq_true, false_implies, true_implies, true_and, and_true]
  constructor
  · intro h
    obtain ⟨_, hs, p', hp', hy, _, ⟨hk, -, -, hw, rfl⟩, hwc, hwt, -, -, hpi, hwb, hbv, -⟩ := h
    exact ⟨⟨hs, hwc⟩, hwt, hpi ▸ (hwf.policies _ _ hp').1, ⟨hk, hw⟩, ⟨hk ▸ hbv, hwb⟩, hy⟩
  · intro h
    obtain ⟨⟨hs, hwc⟩, hwt, hpk, ⟨hk, hw⟩, ⟨hbv, hwb⟩, hy⟩ := h
    obtain ⟨hpi, hpb⟩ := hwf.policy_at hp
    rw [hpk, hk]
    refine ⟨_, hs, p, hp, hy, _, ⟨rfl, hr.fresh, hr.rent, hw, rfl⟩, hwc, hwt, ?_, hpb ▸ rfl, hpi, hwb, hbv, rfl⟩
    rw [htat.bump]
    exact htat.address

/-- A state in which a `challenge` succeeds is ready for it. -/
theorem OpenChallenge.Accepted.ready (hwf : s.Wf rt) {ctx : OpenChallenge} {bond : UInt64} {t : ThoughtRecord}
    {p : Policy} (h : ctx.Accepted rt s bond t p) : Ready rt s ctx.challenger.key ctx.thought.key where
  policy := ⟨t, p, h.record, hwf.policy_key h.policyAccount h.policy ▸ h.policyAccount⟩
  fresh := h.challenge ▸ h.fresh
  rent := h.challenge ▸ h.rent

/-- **The accounts `consume_thought` validates** are those its fields take, the action aside. -/
theorem ConsumeThought.tryAccounts_iff (hwf : s.Wf rt) {consumer thought policy action : AccountInfo}
    (hr : Ready rt s thought.key) :
    (∃ acc, tryAccounts s ⟨consumer, thought, policy, action⟩ = .ok acc) ↔
      List.Forall₂ Field.Takes (fields rt s consumer.key thought.key action.key)
        [consumer, thought, policy, action] := by
  obtain ⟨t, p, ht, hp⟩ := hr.policy
  have hpolicy : s.policyOf rt thought.key = some (rt.pda (.policy t.policyId)) := by
    rw [State.policyOf, ht, Option.map_some]
  have htat := hwf.thoughts _ _ ht
  simp only [tryAccounts, fields, Field.Takes, List.forall₂_cons, List.forall₂_nil_left_iff, seq_ok_iff, signer_eq_ok,
    account_eq_ok, mutable_eq_ok, seeds_eq_ok, pure_ok_iff, require_eq_ok, exists_const, Option.some.injEq, forall_eq',
    hpolicy, ht, exists_eq_left', Bool.false_eq_true, false_implies, true_implies, true_and, and_true]
  constructor
  · intro h
    obtain ⟨_, hs, p', hp', hwt, -, -, hpi, -⟩ := h
    exact ⟨hs, hwt, hpi ▸ (hwf.policies _ _ hp').1⟩
  · intro h
    obtain ⟨hs, hwt, hpk⟩ := h
    obtain ⟨hpi, hpb⟩ := hwf.policy_at hp
    rw [hpk]
    refine ⟨_, hs, p, hp, hwt, ?_, hpb ▸ rfl, hpi, rfl⟩
    rw [htat.bump]
    exact htat.address

end ProofOfThought.Program
