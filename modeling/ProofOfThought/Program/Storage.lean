import ProofOfThought.Base.Borsh
import ProofOfThought.Base.Sha256
import ProofOfThought.Program.Entry
import ProofOfThought.Program.Frame
import ProofOfThought.Program.Layout
import ProofOfThought.Program.Requests

/-!
# The accounts in memory

The model keeps one map for each account type. On the chain there is one buffer for each address, and the type is told
by its first eight bytes. In every reachable state the buffers hold the maps (`storage_exact`): an account is loaded
from its buffer as what it is and as nothing else, and a step changes the buffers by writing accounts to their front.
-/

namespace ProofOfThought.Program

open Base

/-! ## Types of accounts -/

/-- The `#[account]` structs. -/
inductive AccountType where
  | agentProfile
  | modelRegistry
  | thoughtRecord
  | challenge
  | policy
  | vrfRequest
  deriving DecidableEq

namespace AccountType

def name : AccountType → String
  | agentProfile => "AgentProfile"
  | modelRegistry => "ModelRegistry"
  | thoughtRecord => "ThoughtRecord"
  | challenge => "Challenge"
  | policy => "Policy"
  | vrfRequest => "VrfRequest"

/-- The first eight bytes of the SHA-256 of `account:` and the name. -/
def DISCRIMINATOR : AccountType → List.Vector UInt8 8
  | agentProfile => ⟨[60, 227, 42, 24, 0, 87, 86, 205], rfl⟩
  | modelRegistry => ⟨[174, 72, 180, 46, 185, 165, 246, 200], rfl⟩
  | thoughtRecord => ⟨[83, 56, 246, 149, 200, 44, 202, 26], rfl⟩
  | challenge => ⟨[119, 250, 161, 121, 119, 81, 22, 208], rfl⟩
  | policy => ⟨[222, 135, 7, 163, 235, 177, 33, 68], rfl⟩
  | vrfRequest => ⟨[153, 180, 194, 105, 91, 34, 95, 113], rfl⟩

theorem discriminator_eq (ty : AccountType) :
    ty.DISCRIMINATOR.toList = (Sha256.sha256 (utf8 ("account:" ++ ty.name))).toList.take 8 := by
  cases ty <;> decide +kernel

theorem discriminator_inj {ty ty' : AccountType} : ty.DISCRIMINATOR.toList = ty'.DISCRIMINATOR.toList ↔ ty = ty' := by
  cases ty <;> cases ty' <;> decide

end AccountType

/-- The type of an account. -/
def Account.type : Account → AccountType
  | agentProfile _ => .agentProfile
  | modelRegistry _ => .modelRegistry
  | thoughtRecord _ => .thoughtRecord
  | challenge _ => .challenge
  | policy _ => .policy
  | vrfRequest _ => .vrfRequest

/-! ## Loading -/

/-- Failures of `try_deserialize`. -/
inductive AccountError where
  | accountDiscriminatorNotFound
  | accountDiscriminatorMismatch
  | accountDidNotDeserialize

section Load

variable (address : Bytes32 → Pubkey)

def takeField (n : Nat) (bs : Bytes) : Except AccountError (List.Vector UInt8 n × Bytes) :=
  Borsh.takeSlice .accountDidNotDeserialize n bs

def takeKey (bs : Bytes) : Except AccountError (Pubkey × Bytes) := (takeField 32 bs).map fun r => (address r.1, r.2)

def takeU8 (bs : Bytes) : Except AccountError (UInt8 × Bytes) := (takeField 1 bs).map fun r => (r.1.head, r.2)

def takeBool (bs : Bytes) : Except AccountError (Bool × Bytes) :=
  Borsh.readTag takeField .accountDidNotDeserialize Borsh.boolOfTag bs

def takeI64 (bs : Bytes) : Except AccountError (Int64 × Bytes) :=
  (Borsh.readU64 takeField bs).map fun r => (r.1.toInt64, r.2)

def AgentProfile.deserialize (bs : Bytes) : Except AccountError (AgentProfile × Bytes) := do
  let (operator, bs) ← takeKey address bs
  let (stakeVault, bs) ← takeKey address bs
  let (stakeAmount, bs) ← Borsh.readU64 takeField bs
  let (reputation, bs) ← takeI64 bs
  let (activeThoughts, bs) ← Borsh.readU32 takeField bs
  let (cooldownUntil, bs) ← Borsh.readU64 takeField bs
  let (vrfNonce, bs) ← Borsh.readU64 takeField bs
  let (bump, bs) ← takeU8 bs
  return ({ operator, stakeVault, stakeAmount, reputation, activeThoughts, cooldownUntil, vrfNonce, bump }, bs)

def ModelRegistry.deserialize (bs : Bytes) : Except AccountError (ModelRegistry × Bytes) := do
  let (modelId, bs) ← takeField 32 bs
  let (modelClass, bs) ← takeU8 bs
  let (verifierPubkey, bs) ← takeKey address bs
  let (teeRootCa, bs) ← takeKey address bs
  let (registeredBy, bs) ← takeKey address bs
  let (bump, bs) ← takeU8 bs
  return ({ modelId, modelClass, verifierPubkey, teeRootCa, registeredBy, bump }, bs)

def ThoughtRecord.deserialize (bs : Bytes) : Except AccountError (ThoughtRecord × Bytes) := do
  let (agent, bs) ← takeKey address bs
  let (modelId, bs) ← takeField 32 bs
  let (inputCommitment, bs) ← takeField 32 bs
  let (outputCommitment, bs) ← takeField 32 bs
  let (traceUriHash, bs) ← takeField 32 bs
  let (vrfSeed, bs) ← takeField 32 bs
  let (policyId, bs) ← takeField 32 bs
  let (slot, bs) ← Borsh.readU64 takeField bs
  let (actionPda, bs) ← takeKey address bs
  let (status, bs) ← takeU8 bs
  let (attestationVerified, bs) ← takeBool bs
  let (challengeDeadlineSlot, bs) ← Borsh.readU64 takeField bs
  let (consumedCount, bs) ← Borsh.readU32 takeField bs
  let (vrfNonceIdx, bs) ← Borsh.readU64 takeField bs
  let (bump, bs) ← takeU8 bs
  let (pad, bs) ← takeField 7 bs
  return ({ agent, modelId, inputCommitment, outputCommitment, traceUriHash, vrfSeed, policyId, slot, actionPda, status,
            attestationVerified, challengeDeadlineSlot, consumedCount, vrfNonceIdx, bump, pad }, bs)

def Challenge.deserialize (bs : Bytes) : Except AccountError (Challenge × Bytes) := do
  let (thought, bs) ← takeKey address bs
  let (challenger, bs) ← takeKey address bs
  let (bond, bs) ← Borsh.readU64 takeField bs
  let (claim, bs) ← takeU8 bs
  let (evidenceUriHash, bs) ← takeField 32 bs
  let (openedAtSlot, bs) ← Borsh.readU64 takeField bs
  let (resolved, bs) ← takeBool bs
  let (verdict, bs) ← takeBool bs
  let (bump, bs) ← takeU8 bs
  return ({ thought, challenger, bond, claim, evidenceUriHash, openedAtSlot, resolved, verdict, bump }, bs)

def Policy.deserialize (bs : Bytes) : Except AccountError (Policy × Bytes) := do
  let (policyId, bs) ← takeField 32 bs
  let (schemaUriHash, bs) ← takeField 32 bs
  let (equivClass, bs) ← takeU8 bs
  let (maxInferenceSlots, bs) ← Borsh.readU32 takeField bs
  let (maxActionAgeSlots, bs) ← Borsh.readU64 takeField bs
  let (challengeWindowSlots, bs) ← Borsh.readU64 takeField bs
  let (bondMin, bs) ← Borsh.readU64 takeField bs
  let (resolver, bs) ← takeKey address bs
  let (treasury, bs) ← takeKey address bs
  let (allowedModels, bs) ← Borsh.readVec takeField (takeField 32) bs
  let (bump, bs) ← takeU8 bs
  return ({ policyId, schemaUriHash, equivClass, maxInferenceSlots, maxActionAgeSlots, challengeWindowSlots, bondMin,
            resolver, treasury, allowedModels, bump }, bs)

def VrfRequest.deserialize (bs : Bytes) : Except AccountError (VrfRequest × Bytes) := do
  let (agent, bs) ← takeKey address bs
  let (nonceIdx, bs) ← Borsh.readU64 takeField bs
  let (seed, bs) ← takeField 32 bs
  let (requestSlot, bs) ← Borsh.readU64 takeField bs
  let (consumed, bs) ← takeBool bs
  let (bump, bs) ← takeU8 bs
  return ({ agent, nonceIdx, seed, requestSlot, consumed, bump }, bs)

/-- `AnchorDeserialize` of a type; what follows the fields is left over. -/
def AccountType.deserialize (bs : Bytes) : AccountType → Except AccountError Account
  | agentProfile => (AgentProfile.deserialize address bs).map fun r => .agentProfile r.1
  | modelRegistry => (ModelRegistry.deserialize address bs).map fun r => .modelRegistry r.1
  | thoughtRecord => (ThoughtRecord.deserialize address bs).map fun r => .thoughtRecord r.1
  | challenge => (Challenge.deserialize address bs).map fun r => .challenge r.1
  | policy => (Policy.deserialize address bs).map fun r => .policy r.1
  | vrfRequest => (VrfRequest.deserialize address bs).map fun r => .vrfRequest r.1

/-- `try_deserialize` of a type. -/
def AccountType.tryDeserialize (ty : AccountType) (buf : Bytes) : Except AccountError Account := do
  require (8 ≤ buf.length) .accountDiscriminatorNotFound
  require (ty.DISCRIMINATOR.toList = buf.take 8) .accountDiscriminatorMismatch
  ty.deserialize address (buf.drop 8)

end Load

/-! ## Reading what is stored -/

section Stored

variable {address : Bytes32 → Pubkey} {toBytes : Pubkey → Bytes32} {bs r : Bytes}

theorem takeField_eq_ok {n : Nat} {v : List.Vector UInt8 n} : takeField n bs = .ok (v, r) ↔ bs = v.toList ++ r :=
  Borsh.takeSlice_eq_ok

theorem fieldU64_eq_ok {n : UInt64} : Borsh.readU64 takeField bs = .ok (n, r) ↔ bs = borshU64 n ++ r :=
  Borsh.readU64_eq_ok

theorem fieldU32_eq_ok {n : UInt32} : Borsh.readU32 takeField bs = .ok (n, r) ↔ bs = borshU32 n ++ r :=
  Borsh.readU32_eq_ok

theorem takeBool_eq_ok {b : Bool} : takeBool bs = .ok (b, r) ↔ bs = borshBool b ++ r :=
  Borsh.readTag_eq_ok Borsh.boolOfTag_eq_some

theorem takeU8_eq_ok {n : UInt8} : takeU8 bs = .ok (n, r) ↔ bs = [n] ++ r := by
  simp only [takeU8, map_eq_ok, Prod.exists, Prod.mk.injEq, takeField_eq_ok]
  constructor
  · rintro ⟨v, _, rfl, rfl, rfl⟩
    rw [List.Vector.toList_singleton]
  · rintro rfl
    exact ⟨⟨[n], rfl⟩, r, rfl, rfl, rfl⟩

theorem takeI64_eq_ok {n : Int64} : takeI64 bs = .ok (n, r) ↔ bs = borshI64 n ++ r := by
  simp only [takeI64, map_eq_ok, Prod.exists, Prod.mk.injEq, fieldU64_eq_ok]
  constructor
  · rintro ⟨u, _, rfl, rfl, rfl⟩
    rfl
  · rintro rfl
    exact ⟨n.toUInt64, r, rfl, rfl, rfl⟩

theorem takeModels_eq_ok {vs : List Bytes32} :
    Borsh.readVec takeField (takeField 32) bs = .ok (vs, r) ↔
      vs.length < 2 ^ 32 ∧ bs = leBytes 4 vs.length ++ (borshElements vs ++ r) := by
  rw [← List.append_assoc]
  exact Borsh.readVec_eq_ok

/-- A key is read where its bytes stand for it. -/
theorem takeKey_append {k : Pubkey} (hk : address (toBytes k) = k) :
    takeKey address ((toBytes k).toList ++ r) = .ok (k, r) := by
  simp only [takeKey, map_eq_ok, Prod.exists, Prod.mk.injEq, takeField_eq_ok]
  exact ⟨toBytes k, r, rfl, hk, rfl⟩

theorem agentProfile_deserialize_record {a : AgentProfile} (ho : address (toBytes a.operator) = a.operator)
    (hv : address (toBytes a.stakeVault) = a.stakeVault) :
    AgentProfile.deserialize address ((a.record toBytes).bytes ++ r) = .ok (a, r) := by
  simp only [AgentProfile.deserialize, AgentProfile.record, Record.bytes_cons, Record.bytes_nil, List.append_assoc,
    List.nil_append, seq_ok_iff, pure_ok_iff, Prod.exists, Prod.mk.injEq, fieldU64_eq_ok, fieldU32_eq_ok,
    takeI64_eq_ok, takeU8_eq_ok]
  exact ⟨_, _, takeKey_append ho, _, _, takeKey_append hv, _, _, rfl, _, _, rfl, _, _, rfl, _, _, rfl, _, _, rfl, _,
    _, rfl, rfl, rfl⟩

theorem modelRegistry_deserialize_record {m : ModelRegistry}
    (hv : address (toBytes m.verifierPubkey) = m.verifierPubkey) (hc : address (toBytes m.teeRootCa) = m.teeRootCa)
    (hr : address (toBytes m.registeredBy) = m.registeredBy) :
    ModelRegistry.deserialize address ((m.record toBytes).bytes ++ r) = .ok (m, r) := by
  simp only [ModelRegistry.deserialize, ModelRegistry.record, Record.bytes_cons, Record.bytes_nil, List.append_assoc,
    List.nil_append, seq_ok_iff, pure_ok_iff, Prod.exists, Prod.mk.injEq, takeField_eq_ok, takeU8_eq_ok]
  exact ⟨_, _, rfl, _, _, rfl, _, _, takeKey_append hv, _, _, takeKey_append hc, _, _, takeKey_append hr, _, _, rfl,
    rfl, rfl⟩

theorem thoughtRecord_deserialize_record {t : ThoughtRecord} (ha : address (toBytes t.agent) = t.agent)
    (hp : address (toBytes t.actionPda) = t.actionPda) :
    ThoughtRecord.deserialize address ((t.record toBytes).bytes ++ r) = .ok (t, r) := by
  simp only [ThoughtRecord.deserialize, ThoughtRecord.record, Record.bytes_cons, Record.bytes_nil, List.append_assoc,
    List.nil_append, seq_ok_iff, pure_ok_iff, Prod.exists, Prod.mk.injEq, takeField_eq_ok, fieldU64_eq_ok,
    fieldU32_eq_ok, takeBool_eq_ok, takeU8_eq_ok]
  exact ⟨_, _, takeKey_append ha, _, _, rfl, _, _, rfl, _, _, rfl, _, _, rfl, _, _, rfl, _, _, rfl, _, _, rfl, _, _,
    takeKey_append hp, _, _, rfl, _, _, rfl, _, _, rfl, _, _, rfl, _, _, rfl, _, _, rfl, _, _, rfl, rfl, rfl⟩

theorem challenge_deserialize_record {c : Challenge} (ht : address (toBytes c.thought) = c.thought)
    (hc : address (toBytes c.challenger) = c.challenger) :
    Challenge.deserialize address ((c.record toBytes).bytes ++ r) = .ok (c, r) := by
  simp only [Challenge.deserialize, Challenge.record, Record.bytes_cons, Record.bytes_nil, List.append_assoc,
    List.nil_append, seq_ok_iff, pure_ok_iff, Prod.exists, Prod.mk.injEq, takeField_eq_ok, fieldU64_eq_ok,
    takeBool_eq_ok, takeU8_eq_ok]
  exact ⟨_, _, takeKey_append ht, _, _, takeKey_append hc, _, _, rfl, _, _, rfl, _, _, rfl, _, _, rfl, _, _, rfl, _,
    _, rfl, _, _, rfl, rfl, rfl⟩

theorem policy_deserialize_record {p : Policy} (hr : address (toBytes p.resolver) = p.resolver)
    (ht : address (toBytes p.treasury) = p.treasury) (hm : p.allowedModels.length < 2 ^ 32) :
    Policy.deserialize address ((p.record toBytes).bytes ++ r) = .ok (p, r) := by
  simp only [Policy.deserialize, Policy.record, Record.bytes_cons, Record.bytes_nil, List.append_assoc,
    List.nil_append, seq_ok_iff, pure_ok_iff, Prod.exists, Prod.mk.injEq, takeField_eq_ok, fieldU64_eq_ok,
    fieldU32_eq_ok, takeModels_eq_ok, takeU8_eq_ok]
  exact ⟨_, _, rfl, _, _, rfl, _, _, rfl, _, _, rfl, _, _, rfl, _, _, rfl, _, _, rfl, _, _, takeKey_append hr, _, _,
    takeKey_append ht, _, _, ⟨hm, rfl⟩, _, _, rfl, rfl, rfl⟩

theorem vrfRequest_deserialize_record {v : VrfRequest} (ha : address (toBytes v.agent) = v.agent) :
    VrfRequest.deserialize address ((v.record toBytes).bytes ++ r) = .ok (v, r) := by
  simp only [VrfRequest.deserialize, VrfRequest.record, Record.bytes_cons, Record.bytes_nil, List.append_assoc,
    List.nil_append, seq_ok_iff, pure_ok_iff, Prod.exists, Prod.mk.injEq, takeField_eq_ok, fieldU64_eq_ok,
    takeBool_eq_ok, takeU8_eq_ok]
  exact ⟨_, _, takeKey_append ha, _, _, rfl, _, _, rfl, _, _, rfl, _, _, rfl, _, _, rfl, rfl, rfl⟩

namespace Account

/-- The keys in the fields. -/
def keys : Account → List Pubkey
  | agentProfile a => [a.operator, a.stakeVault]
  | modelRegistry m => [m.verifierPubkey, m.teeRootCa, m.registeredBy]
  | thoughtRecord t => [t.agent, t.actionPda]
  | challenge c => [c.thought, c.challenger]
  | policy p => [p.resolver, p.treasury]
  | vrfRequest v => [v.agent]

/-- The keys in the fields can be told from their bytes. -/
def Legible (address : Bytes32 → Pubkey) (toBytes : Pubkey → Bytes32) (x : Account) : Prop :=
  ∀ k ∈ x.keys, address (toBytes k) = k

/-- **Fields are read as they were written.** -/
theorem deserialize_record (x : Account) (hl : x.Legible address toBytes) (hb : x.Bounded) (r : Bytes) :
    x.type.deserialize address ((x.record toBytes).bytes ++ r) = .ok x := by
  cases x with
  | agentProfile a =>
    simp only [Legible, keys, List.forall_mem_cons] at hl
    obtain ⟨ho, hv, -⟩ := hl
    rw [type, AccountType.deserialize, record, agentProfile_deserialize_record ho hv]
    rfl
  | modelRegistry m =>
    simp only [Legible, keys, List.forall_mem_cons] at hl
    obtain ⟨hv, hc, hr, -⟩ := hl
    rw [type, AccountType.deserialize, record, modelRegistry_deserialize_record hv hc hr]
    rfl
  | thoughtRecord t =>
    simp only [Legible, keys, List.forall_mem_cons] at hl
    obtain ⟨ha, hp, -⟩ := hl
    rw [type, AccountType.deserialize, record, thoughtRecord_deserialize_record ha hp]
    rfl
  | challenge c =>
    simp only [Legible, keys, List.forall_mem_cons] at hl
    obtain ⟨ht, hc, -⟩ := hl
    rw [type, AccountType.deserialize, record, challenge_deserialize_record ht hc]
    rfl
  | policy p =>
    simp only [Legible, keys, List.forall_mem_cons] at hl
    obtain ⟨hr, ht, -⟩ := hl
    have hm := hb p rfl
    rw [Policy.MAX_ALLOWED_MODELS] at hm
    rw [type, AccountType.deserialize, record, policy_deserialize_record hr ht (by omega)]
    rfl
  | vrfRequest v =>
    simp only [Legible, keys, List.forall_mem_cons] at hl
    obtain ⟨ha, -⟩ := hl
    rw [type, AccountType.deserialize, record, vrfRequest_deserialize_record ha]
    rfl

/-- The serialized account. -/
def bytes (toBytes : Pubkey → Bytes32) (x : Account) : Bytes := x.data toBytes fun _ => x.type.DISCRIMINATOR

/-- The buffer of the account, as large as `init` made it. -/
def image (toBytes : Pubkey → Bytes32) (x : Account) : Bytes := padTo x.LEN (x.bytes toBytes)

/-- **A buffer is loaded as what was written to it**, and as no other type. -/
theorem tryDeserialize_image (x : Account) (hl : x.Legible address toBytes) (hb : x.Bounded) (ty : AccountType)
    (y : Account) : ty.tryDeserialize address (x.image toBytes) = .ok y ↔ ty = x.type ∧ y = x := by
  have himage : x.image toBytes = x.type.DISCRIMINATOR.toList ++
      ((x.record toBytes).bytes ++ List.replicate (x.LEN - (x.bytes toBytes).length) 0) := List.append_assoc _ _ _
  have hlen : 8 ≤ (x.image toBytes).length := by
    rw [himage, List.length_append, List.Vector.toList_length]
    omega
  rw [himage] at hlen ⊢
  simp only [AccountType.tryDeserialize, seq_ok_iff, require_eq_ok, exists_const,
    List.take_left' (List.Vector.toList_length x.type.DISCRIMINATOR),
    List.drop_left' (List.Vector.toList_length x.type.DISCRIMINATOR), AccountType.discriminator_inj]
  constructor
  · rintro ⟨-, rfl, h⟩
    rw [deserialize_record x hl hb, Except.ok.injEq] at h
    exact ⟨rfl, h.symm⟩
  · rintro ⟨rfl, rfl⟩
    exact ⟨hlen, rfl, deserialize_record y hl hb _⟩

theorem length_image (x : Account) (hb : x.Bounded) : (x.image toBytes).length = x.LEN :=
  length_padTo (x.length_data_le toBytes _ hb)

/-- The serialized length of an account other than a policy depends on its type alone. -/
theorem length_bytes_eq {x y : Account} (ht : y.type = x.type) (hp : ∀ p, x = policy p → y = x) :
    (y.bytes toBytes).length = (x.bytes toBytes).length := by
  cases x with
  | policy p => rw [hp p rfl]
  | agentProfile a => cases y <;> simp_all [type, bytes, data, record, AgentProfile.record]
  | modelRegistry m => cases y <;> simp_all [type, bytes, data, record, ModelRegistry.record]
  | thoughtRecord t => cases y <;> simp_all [type, bytes, data, record, ThoughtRecord.record]
  | challenge c => cases y <;> simp_all [type, bytes, data, record, Challenge.record]
  | vrfRequest v => cases y <;> simp_all [type, bytes, data, record, VrfRequest.record]

theorem LEN_eq {x y : Account} (ht : y.type = x.type) : y.LEN = x.LEN := by
  cases x <;> cases y <;> first | rfl | cases ht

end Account

end Stored

/-! ## The buffers of a state -/

/-- The account at an address. -/
def State.Stored (s : State) (k : Pubkey) : Account → Prop
  | .agentProfile a => s.agents k = some a
  | .modelRegistry m => s.models k = some m
  | .thoughtRecord t => s.thoughts k = some t
  | .challenge c => s.challenges k = some c
  | .policy p => s.policies k = some p
  | .vrfRequest v => s.vrfRequests k = some v

/-- The account at an address, in the first map that has one. -/
def State.accountAt (s : State) (k : Pubkey) : Option Account :=
  ((s.agents k).map .agentProfile).or <| ((s.models k).map .modelRegistry).or <|
    ((s.thoughts k).map .thoughtRecord).or <| ((s.challenges k).map .challenge).or <|
      ((s.policies k).map .policy).or <| (s.vrfRequests k).map .vrfRequest

/-- The first seed of the addresses of a type. -/
def AccountType.tag : AccountType → String
  | agentProfile => "agent"
  | modelRegistry => "model"
  | thoughtRecord => "thought"
  | challenge => "challenge"
  | policy => "policy"
  | vrfRequest => "vrf"

/-- The buffers of the program's accounts. -/
def State.memory (toBytes : Pubkey → Bytes32) (s : State) (k : Pubkey) : Option Bytes :=
  (s.accountAt k).map (Account.image toBytes)

/-- `Account::try_from` on the buffer at an address; `none` when there is no account or it is of another type. -/
def State.load (address : Bytes32 → Pubkey) (toBytes : Pubkey → Bytes32) (s : State) (k : Pubkey) (ty : AccountType) :
    Option Account :=
  (s.memory toBytes k).bind fun buf => (ty.tryDeserialize address buf).toOption

/-- What the exit of an instruction makes of a buffer: `init` allocates zeros, and the account is written to the
front. -/
def Account.save (toBytes : Pubkey → Bytes32) (x : Account) (buf : Option Bytes) : Bytes :=
  overwrite (buf.getD (List.replicate x.LEN 0)) (x.bytes toBytes)

variable {rt : Runtime} {s s' : State} {act : Action} {slot : UInt64} {L : Ledger Pubkey}
  {h : List (State × Action)} {k : Pubkey} {x y : Account}

theorem State.Stored.address (hr : Reaches rt slot L h s) (hx : s.Stored k x) :
    ∃ seeds : Seeds Pubkey, k = rt.pda seeds ∧ seeds.tag = x.type.tag := by
  have hwf := wf_of_reaches hr
  have hpd := paired_of_reaches hr
  cases x with
  | agentProfile a => exact ⟨_, (hwf.agents _ _ hx).1, rfl⟩
  | modelRegistry m => exact ⟨_, (hpd.models _ _ hx).1, rfl⟩
  | thoughtRecord t => exact ⟨_, (hwf.thoughts _ _ hx).address, rfl⟩
  | challenge c => exact ⟨_, (hwf.challenges _ _ hx).1, rfl⟩
  | policy p => exact ⟨_, (hwf.policies _ _ hx).1, rfl⟩
  | vrfRequest v => exact ⟨_, (hpd.requests _ _ hx).address, rfl⟩

/-- **There is one account at an address.** -/
theorem State.Stored.unique (hr : Reaches rt slot L h s) (hx : s.Stored k x) (hy : s.Stored k y) : x = y := by
  obtain ⟨seeds, rfl, htag⟩ := hx.address hr
  obtain ⟨seeds', hk, htag'⟩ := hy.address hr
  rw [rt.pda_inj.1 hk, htag'] at htag
  cases x <;> cases y <;> simp only [Account.type, AccountType.tag, String.reduceEq] at htag
  all_goals exact congrArg _ (Option.some.inj (Eq.trans (Eq.symm hx) hy))

theorem accountAt_eq_some (hr : Reaches rt slot L h s) : s.accountAt k = some x ↔ s.Stored k x := by
  have hsome : ∀ y, s.accountAt k = some y → s.Stored k y := by
    intro y hy
    simp only [State.accountAt, Option.or_eq_some_iff, Option.map_eq_some_iff] at hy
    grind [State.Stored]
  have hnone : s.accountAt k = none → ¬s.Stored k x := by
    intro hn
    simp only [State.accountAt, Option.or_eq_none_iff, Option.map_eq_none_iff] at hn
    cases x <;> simp [State.Stored, hn]
  refine ⟨hsome x, fun hx => ?_⟩
  cases hy : s.accountAt k with
  | none => exact absurd hx (hnone hy)
  | some y => rw [hx.unique hr (hsome y hy)]

/-- An account stays what it is, and as long. -/
theorem Stored.kept (toBytes : Pubkey → Bytes32) (ha : step rt s act = some s') (hx : s.Stored k x) :
    ∃ y, s'.Stored k y ∧ y.type = x.type ∧ (y.bytes toBytes).length = (x.bytes toBytes).length := by
  have hkept : Kept s s' := Run.kept (Run.single ha)
  cases x with
  | agentProfile a =>
    obtain ⟨a', ha', -⟩ := hkept.agents _ _ hx
    exact ⟨.agentProfile a', ha', rfl, Account.length_bytes_eq rfl (by simp)⟩
  | modelRegistry m =>
    obtain ⟨m', hm', -⟩ := hkept.models _ _ hx
    exact ⟨.modelRegistry m', hm', rfl, Account.length_bytes_eq rfl (by simp)⟩
  | thoughtRecord t =>
    obtain ⟨t', ht', -⟩ := hkept.thoughts _ _ hx
    exact ⟨.thoughtRecord t', ht', rfl, Account.length_bytes_eq rfl (by simp)⟩
  | challenge c =>
    obtain ⟨c', hc', -⟩ := hkept.challenges _ _ hx
    exact ⟨.challenge c', hc', rfl, Account.length_bytes_eq rfl (by simp)⟩
  | policy p =>
    obtain ⟨_, hp', rfl⟩ := hkept.policies _ _ hx
    exact ⟨.policy p, hp', rfl, rfl⟩
  | vrfRequest v =>
    obtain ⟨v', hv', -⟩ := hkept.requests _ _ hx
    exact ⟨.vrfRequest v', hv', rfl, Account.length_bytes_eq rfl (by simp)⟩

/-- **One step writes to the front of buffers.** -/
theorem memory_step (toBytes : Pubkey → Bytes32) (hr : Reaches rt slot L h s) (ha : step rt s act = some s')
    (k : Pubkey) : s'.memory toBytes k = (s'.accountAt k).map fun y => y.save toBytes (s.memory toBytes k) := by
  have hr' : Reaches rt slot L (h ++ [(s, act)]) s' := hr.snoc ha
  simp only [State.memory]
  cases hx : s.accountAt k with
  | none =>
    refine Option.map_congr fun y _ => ?_
    rw [Account.save, Option.map_none, Option.getD_none, overwrite_zeros, Account.image]
  | some x =>
    obtain ⟨y, hy, htype, hlen⟩ := Stored.kept toBytes ha ((accountAt_eq_some hr).1 hx)
    rw [(accountAt_eq_some hr').2 hy, Option.map_some, Option.map_some, Account.save, Option.map_some,
      Option.getD_some, Account.image, Account.image, ← Account.LEN_eq htype, overwrite_padTo hlen.symm]

/-- **Storage.** In every reachable state whose accounts name keys that their bytes tell apart: loading an account of a
type from the buffer at an address gives what the map of that type has there, and nothing else; a buffer is as large as
its type asks for; and a step writes the accounts it leaves to the front of the buffers, or of zeros for new ones. -/
theorem storage_exact {address : Bytes32 → Pubkey} {toBytes : Pubkey → Bytes32} (hr : Reaches rt slot L h s)
    (hl : ∀ k x, s.Stored k x → x.Legible address toBytes) :
    (∀ k ty x, s.load address toBytes k ty = some x ↔ s.Stored k x ∧ x.type = ty) ∧
      (∀ k x, s.Stored k x → ∃ buf, s.memory toBytes k = some buf ∧ buf.length = x.LEN) ∧
      ∀ act s', step rt s act = some s' → ∀ k,
        s'.memory toBytes k = (s'.accountAt k).map fun y => y.save toBytes (s.memory toBytes k) := by
  have hbounded : ∀ k x, s.Stored k x → x.Bounded := by
    intro k x hx
    refine bounded_of_reaches hr (x := x) ?_
    cases x <;> exact ⟨k, hx⟩
  refine ⟨fun k ty x => ?_, fun k x hx => ?_, fun act s' ha => memory_step toBytes hr ha⟩
  · simp only [State.load, State.memory, Option.bind_map, Option.bind_eq_some_iff, Function.comp_apply,
      toOption_eq_some, accountAt_eq_some hr]
    constructor
    · rintro ⟨y, hy, hload⟩
      obtain ⟨rfl, rfl⟩ := (y.tryDeserialize_image (hl k y hy) (hbounded k y hy) ty x).1 hload
      exact ⟨hy, rfl⟩
    · rintro ⟨hx, rfl⟩
      exact ⟨x, hx, (x.tryDeserialize_image (hl k x hx) (hbounded k x hx) _ _).2 ⟨rfl, rfl⟩⟩
  · rw [State.memory, (accountAt_eq_some hr).2 hx]
    exact ⟨_, rfl, x.length_image (hbounded k x hx)⟩

namespace Sample

/-- Bytes for the addresses of a registration. -/
def symbolBytes : Pubkey → Bytes32
  | .key bytes => bytes
  | _ => List.Vector.replicate 32 201

/-- The address of the bytes. -/
def symbolOf (bytes : Bytes32) : Pubkey := if bytes = List.Vector.replicate 32 201 then vault else .key bytes

def registering : RegisterAgent := ⟨signed operator, unsigned agent, unsigned vault, system⟩

end Sample

open Sample in
/-- After a registration the buffer of the agent holds the agent, and no policy. -/
theorem storage_exact_registered :
    ∃ h s, Reaches chain 1000 funds h s ∧
      s.load symbolOf symbolBytes agent .agentProfile =
        some (.agentProfile (registering.profile chain 10000000000)) ∧
      s.load symbolOf symbolBytes agent .policy = none := by
  have hacc : registering.Accepted chain (State.genesis 1000 funds) 10000000000 :=
    ⟨rfl, rfl, rfl, rfl, by decide, by decide, rfl, by decide, by decide⟩
  have hstep : step chain (State.genesis 1000 funds) (.instruction (.registerAgent registering 10000000000)) =
      some (registering.after chain (State.genesis 1000 funds) 10000000000) :=
    step_instruction.2 ⟨[], registerAgent_eq_ok.2 ⟨hacc, rfl, rfl⟩⟩
  have hr : Reaches chain 1000 funds _ _ := Run.single hstep
  have hagent : (registering.after chain (State.genesis 1000 funds) 10000000000).agents agent =
      some (registering.profile chain 10000000000) := by
    simp only [RegisterAgent.after]
    exact Function.update_self registering.agent.key _ _
  have hl : ∀ k x, (registering.after chain (State.genesis 1000 funds) 10000000000).Stored k x →
      x.Legible symbolOf symbolBytes := by
    intro k x hx
    cases x with
    | agentProfile a =>
      rcases write_eq_some.1 hx with ⟨-, rfl⟩ | ⟨-, hx⟩
      · show ∀ k ∈ [operator, vault], symbolOf (symbolBytes k) = k
        decide
      · cases hx
    | _ => cases hx
  obtain ⟨hload, -, -⟩ := storage_exact hr hl
  refine ⟨_, _, hr, (hload _ _ _).2 ⟨hagent, rfl⟩, ?_⟩
  cases hp : State.load _ _ _ _ _ with
  | none => rfl
  | some x =>
    obtain ⟨hx, ht⟩ := (hload _ _ _).1 hp
    obtain rfl := hx.unique hr (show State.Stored _ agent (.agentProfile _) from hagent)
    cases ht

end ProofOfThought.Program
