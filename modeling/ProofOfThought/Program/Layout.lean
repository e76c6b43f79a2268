import ProofOfThought.Base.Layout
import ProofOfThought.Base.Store
import ProofOfThought.Program.Step

/-!
# The bytes of accounts

What Anchor stores for an account: an 8-byte discriminator and the fields in Borsh, in the order of their declaration.
Beside it stand the sizes the program asks for and the offsets that `types.ts` lists. Every account fits
(`layouts_agree_iff`); every field starts where it is listed, except that the bump of a policy follows the models that
are really there, and is listed behind sixteen of them.
-/

namespace ProofOfThought.Program

open Base

/-! ## Fields in Borsh -/

def borshU64 (n : UInt64) : Bytes := leBytes 8 n.toNat

def borshI64 (n : Int64) : Bytes := borshU64 n.toUInt64

def borshU32 (n : UInt32) : Bytes := leBytes 4 n.toNat

def borshBool (b : Bool) : Bytes := [if b then 1 else 0]

/-- The elements of a `Vec`, without the length before them. -/
def borshElements {n : Nat} (vs : List (List.Vector UInt8 n)) : Bytes := (vs.map List.Vector.toList).flatten

@[simp] theorem length_borshU64 (n : UInt64) : (borshU64 n).length = 8 := length_leBytes 8 _

@[simp] theorem length_borshI64 (n : Int64) : (borshI64 n).length = 8 := length_leBytes 8 _

@[simp] theorem length_borshU32 (n : UInt32) : (borshU32 n).length = 4 := length_leBytes 4 _

@[simp] theorem length_borshBool (b : Bool) : (borshBool b).length = 1 := rfl

@[simp] theorem length_borshElements {n : Nat} (vs : List (List.Vector UInt8 n)) :
    (borshElements vs).length = vs.length * n := by
  induction vs with
  | nil => simp [borshElements]
  | cons v vs ih =>
    rw [borshElements, List.map_cons, List.flatten_cons, List.length_append, List.Vector.toList_length, ← borshElements,
      ih, List.length_cons, Nat.succ_mul, Nat.add_comm]

/-! ## The records -/

section

variable (toBytes : Pubkey → Bytes32)

def AgentProfile.record (a : AgentProfile) : Record :=
  [("operator", (toBytes a.operator).toList), ("stake_vault", (toBytes a.stakeVault).toList),
    ("stake_amount", borshU64 a.stakeAmount), ("reputation", borshI64 a.reputation),
    ("active_thoughts", borshU32 a.activeThoughts), ("cooldown_until", borshU64 a.cooldownUntil),
    ("vrf_nonce", borshU64 a.vrfNonce), ("bump", [a.bump])]

def ModelRegistry.record (m : ModelRegistry) : Record :=
  [("model_id", m.modelId.toList), ("class", [m.modelClass]), ("verifier_pubkey", (toBytes m.verifierPubkey).toList),
    ("tee_root_ca", (toBytes m.teeRootCa).toList), ("registered_by", (toBytes m.registeredBy).toList),
    ("bump", [m.bump])]

def ThoughtRecord.record (t : ThoughtRecord) : Record :=
  [("agent", (toBytes t.agent).toList), ("model_id", t.modelId.toList),
    ("input_commitment", t.inputCommitment.toList), ("output_commitment", t.outputCommitment.toList),
    ("trace_uri_hash", t.traceUriHash.toList), ("vrf_seed", t.vrfSeed.toList), ("policy_id", t.policyId.toList),
    ("slot", borshU64 t.slot), ("action_pda", (toBytes t.actionPda).toList), ("status", [t.status]),
    ("attestation_verified", borshBool t.attestationVerified),
    ("challenge_deadline_slot", borshU64 t.challengeDeadlineSlot), ("consumed_count", borshU32 t.consumedCount),
    ("vrf_nonce_idx", borshU64 t.vrfNonceIdx), ("bump", [t.bump]), ("_pad", t.pad.toList)]

def Challenge.record (c : Challenge) : Record :=
  [("thought", (toBytes c.thought).toList), ("challenger", (toBytes c.challenger).toList), ("bond", borshU64 c.bond),
    ("claim", [c.claim]), ("evidence_uri_hash", c.evidenceUriHash.toList),
    ("opened_at_slot", borshU64 c.openedAtSlot), ("resolved", borshBool c.resolved), ("verdict", borshBool c.verdict),
    ("bump", [c.bump])]

def Policy.record (p : Policy) : Record :=
  [("policy_id", p.policyId.toList), ("schema_uri_hash", p.schemaUriHash.toList), ("equiv_class", [p.equivClass]),
    ("max_inference_slots", borshU32 p.maxInferenceSlots), ("max_action_age_slots", borshU64 p.maxActionAgeSlots),
    ("challenge_window_slots", borshU64 p.challengeWindowSlots), ("bond_min", borshU64 p.bondMin),
    ("resolver", (toBytes p.resolver).toList), ("treasury", (toBytes p.treasury).toList),
    ("allowed_models len", leBytes 4 p.allowedModels.length), ("allowed_models", borshElements p.allowedModels),
    ("bump", [p.bump])]

def VrfRequest.record (v : VrfRequest) : Record :=
  [("agent", (toBytes v.agent).toList), ("nonce_idx", borshU64 v.nonceIdx), ("seed", v.seed.toList),
    ("request_slot", borshU64 v.requestSlot), ("consumed", borshBool v.consumed), ("bump", [v.bump])]

end

/-! ## The tables of `types.ts` -/

def AgentProfile.listed : List (String × Nat) :=
  [("operator", 8), ("stake_vault", 40), ("stake_amount", 72), ("reputation", 80), ("active_thoughts", 88),
    ("cooldown_until", 92), ("vrf_nonce", 100), ("bump", 108)]

def ModelRegistry.listed : List (String × Nat) :=
  [("model_id", 8), ("class", 40), ("verifier_pubkey", 41), ("tee_root_ca", 73), ("registered_by", 105),
    ("bump", 137)]

def ThoughtRecord.listed : List (String × Nat) :=
  [("agent", 8), ("model_id", 40), ("input_commitment", 72), ("output_commitment", 104), ("trace_uri_hash", 136),
    ("vrf_seed", 168), ("policy_id", 200), ("slot", 232), ("action_pda", 240), ("status", 272),
    ("attestation_verified", 273), ("challenge_deadline_slot", 274), ("consumed_count", 282), ("vrf_nonce_idx", 286),
    ("bump", 294), ("_pad", 295)]

def Challenge.listed : List (String × Nat) :=
  [("thought", 8), ("challenger", 40), ("bond", 72), ("claim", 80), ("evidence_uri_hash", 81), ("opened_at_slot", 113),
    ("resolved", 121), ("verdict", 122), ("bump", 123)]

/-- "Bytes (fixed — Anchor reserves max length for the bounded Vec)". -/
def Policy.listed : List (String × Nat) :=
  [("policy_id", 8), ("schema_uri_hash", 40), ("equiv_class", 72), ("max_inference_slots", 73),
    ("max_action_age_slots", 77), ("challenge_window_slots", 85), ("bond_min", 93), ("resolver", 101),
    ("treasury", 133), ("allowed_models len", 165), ("allowed_models", 169), ("bump", 681)]

def VrfRequest.listed : List (String × Nat) :=
  [("agent", 8), ("nonce_idx", 40), ("seed", 48), ("request_slot", 80), ("consumed", 88), ("bump", 89)]

/-! ## Accounts of the six types -/

inductive Account where
  | agentProfile (a : AgentProfile)
  | modelRegistry (m : ModelRegistry)
  | thoughtRecord (t : ThoughtRecord)
  | challenge (c : Challenge)
  | policy (p : Policy)
  | vrfRequest (v : VrfRequest)

namespace Account

/-- The name of the type, which the discriminator is taken from. -/
def typeName : Account → String
  | agentProfile _ => "AgentProfile"
  | modelRegistry _ => "ModelRegistry"
  | thoughtRecord _ => "ThoughtRecord"
  | challenge _ => "Challenge"
  | policy _ => "Policy"
  | vrfRequest _ => "VrfRequest"

/-- The size that `init` asks for. -/
def LEN : Account → Nat
  | agentProfile _ => AgentProfile.LEN
  | modelRegistry _ => ModelRegistry.LEN
  | thoughtRecord _ => ThoughtRecord.LEN
  | challenge _ => Challenge.LEN
  | policy _ => Policy.LEN
  | vrfRequest _ => VrfRequest.LEN

/-- The offsets that `types.ts` lists. -/
def listed : Account → List (String × Nat)
  | agentProfile _ => AgentProfile.listed
  | modelRegistry _ => ModelRegistry.listed
  | thoughtRecord _ => ThoughtRecord.listed
  | challenge _ => Challenge.listed
  | policy _ => Policy.listed
  | vrfRequest _ => VrfRequest.listed

/-- The models of a policy are as many as `register_policy` admits. -/
def Bounded (x : Account) : Prop := ∀ p, x = policy p → p.allowedModels.length ≤ Policy.MAX_ALLOWED_MODELS

variable (toBytes : Pubkey → Bytes32) (discriminator : String → List.Vector UInt8 8)

def record : Account → Record
  | agentProfile a => a.record toBytes
  | modelRegistry m => m.record toBytes
  | thoughtRecord t => t.record toBytes
  | challenge c => c.record toBytes
  | policy p => p.record toBytes
  | vrfRequest v => v.record toBytes

/-- The serialized account. -/
def data (x : Account) : Bytes := (discriminator x.typeName).toList ++ (x.record toBytes).bytes

/-- Where the fields start. -/
def offsets (x : Account) : List (String × Nat) := (x.record toBytes).offsets 8

end Account

/-! ## Sizes and offsets -/

section

variable (toBytes : Pubkey → Bytes32) (discriminator : String → List.Vector UInt8 8)

/-- The size of a policy grows with its models. -/
theorem policy_length (p : Policy) :
    ((Account.policy p).data toBytes discriminator).length = 170 + 32 * p.allowedModels.length := by
  simp [Account.data, Account.record, Policy.record]
  omega

/-- Every field of a policy but the last starts where it is listed. -/
theorem policy_offsets (p : Policy) :
    (Account.policy p).offsets toBytes = Policy.listed.dropLast ++ [("bump", 169 + 32 * p.allowedModels.length)] := by
  simp [Account.offsets, Account.record, Policy.record, Record.offsets, Policy.listed]
  omega

theorem policy_offsets_eq_listed (p : Policy) :
    (Account.policy p).offsets toBytes = Policy.listed ↔ p.allowedModels.length = Policy.MAX_ALLOWED_MODELS := by
  have hlast : Policy.listed = Policy.listed.dropLast ++ [("bump", 681)] := rfl
  rw [policy_offsets, hlast, List.dropLast_concat, List.append_cancel_left_eq, List.cons.injEq, Prod.mk.injEq,
    Policy.MAX_ALLOWED_MODELS]
  simp only [true_and, and_true]
  omega

namespace Account

/-- An account fits into the size its `init` asks for. -/
theorem length_data_le (x : Account) (hx : x.Bounded) : (x.data toBytes discriminator).length ≤ x.LEN := by
  cases x with
  | policy p =>
    have hp := hx p rfl
    rw [policy_length]
    simp only [LEN, Policy.LEN, Policy.MAX_ALLOWED_MODELS] at hp ⊢
    omega
  | agentProfile a => simp [data, record, AgentProfile.record, LEN, AgentProfile.LEN]
  | modelRegistry m => simp [data, record, ModelRegistry.record, LEN, ModelRegistry.LEN]
  | thoughtRecord t => simp [data, record, ThoughtRecord.record, LEN, ThoughtRecord.LEN]
  | challenge c => simp [data, record, Challenge.record, LEN, Challenge.LEN]
  | vrfRequest v => simp [data, record, VrfRequest.record, LEN, VrfRequest.LEN]

/-- The fields start where they are listed, in a policy only with sixteen models. -/
theorem offsets_eq_listed_iff (x : Account) :
    x.offsets toBytes = x.listed ↔ ∀ p, x = policy p → p.allowedModels.length = Policy.MAX_ALLOWED_MODELS := by
  have hfixed : x.offsets toBytes = x.listed → (∀ p, x ≠ policy p) → (x.offsets toBytes = x.listed ↔
      ∀ p, x = policy p → p.allowedModels.length = Policy.MAX_ALLOWED_MODELS) :=
    fun h hx => iff_of_true h fun p hp => absurd hp (hx p)
  cases x with
  | policy p =>
    rw [listed, policy_offsets_eq_listed]
    exact ⟨fun h _ hp => policy.inj hp ▸ h, fun h => h p rfl⟩
  | agentProfile a => exact hfixed (by simp [offsets, record, AgentProfile.record, Record.offsets, listed,
      AgentProfile.listed]) (by simp)
  | modelRegistry m => exact hfixed (by simp [offsets, record, ModelRegistry.record, Record.offsets, listed,
      ModelRegistry.listed]) (by simp)
  | thoughtRecord t => exact hfixed (by simp [offsets, record, ThoughtRecord.record, Record.offsets, listed,
      ThoughtRecord.listed]) (by simp)
  | challenge c => exact hfixed (by simp [offsets, record, Challenge.record, Record.offsets, listed,
      Challenge.listed]) (by simp)
  | vrfRequest v => exact hfixed (by simp [offsets, record, VrfRequest.record, Record.offsets, listed,
      VrfRequest.listed]) (by simp)

/-- The bytes of a field are read where it starts. -/
theorem read_at (x : Account) {name : String} {o : Nat} (h : (name, o) ∈ x.offsets toBytes) :
    ∃ bs, (name, bs) ∈ x.record toBytes ∧ ((x.data toBytes discriminator).drop o).take bs.length = bs := by
  refine Record.read_at (discriminator x.typeName).toList ?_
  rw [List.Vector.toList_length]
  exact h

end Account

/-- **Layouts.** Every account that can be stored fits, its fields are read where they start, and they start where
`types.ts` lists them, except in a policy with fewer than sixteen models. -/
theorem layouts_agree_iff (x : Account) (hx : x.Bounded) :
    (x.data toBytes discriminator).length ≤ x.LEN ∧
      (x.offsets toBytes = x.listed ↔
        ∀ p, x = .policy p → p.allowedModels.length = Policy.MAX_ALLOWED_MODELS) ∧
      ∀ name o, (name, o) ∈ x.offsets toBytes →
        ∃ bs, (name, bs) ∈ x.record toBytes ∧ ((x.data toBytes discriminator).drop o).take bs.length = bs :=
  ⟨x.length_data_le toBytes discriminator hx, x.offsets_eq_listed_iff toBytes,
    fun _ _ => x.read_at toBytes discriminator⟩

end

/-! ## Accounts of a run -/

/-- The account is one of the program's. -/
def State.Stores (s : State) : Account → Prop
  | .agentProfile a => ∃ k, s.agents k = some a
  | .modelRegistry m => ∃ k, s.models k = some m
  | .thoughtRecord t => ∃ k, s.thoughts k = some t
  | .challenge c => ∃ k, s.challenges k = some c
  | .policy p => ∃ k, s.policies k = some p
  | .vrfRequest v => ∃ k, s.vrfRequests k = some v

variable {rt : Runtime} {s : State} {slot : UInt64} {L : Ledger Pubkey} {h : List (State × Action)}

/-- What the handlers store is bounded. -/
theorem bounded_of_reaches (hr : Reaches rt slot L h s) {x : Account} (hx : s.Stores x) : x.Bounded := by
  have hall : AllOf s.policies fun _ p => p.allowedModels.length ≤ Policy.MAX_ALLOWED_MODELS := by
    refine hr.inv (fun _ s => AllOf s.policies fun _ p => p.allowedModels.length ≤ Policy.MAX_ALLOWED_MODELS)
      .empty ?_
    intro h s a s' _ ih ha
    cases step_effect ha with
    | registerPolicy hacc => exact ih.write hacc.models
    | _ => exact ih
  rintro p rfl
  obtain ⟨k, hk⟩ := hx
  exact hall k p hk

/-- Every account of a run fits into the size its `init` asked for. -/
theorem stored_fits (toBytes : Pubkey → Bytes32) (discriminator : String → List.Vector UInt8 8)
    (hr : Reaches rt slot L h s) {x : Account} (hx : s.Stores x) :
    (x.data toBytes discriminator).length ≤ x.LEN :=
  x.length_data_le toBytes discriminator (bounded_of_reaches hr hx)

namespace Sample

/-- Some bytes for an address. -/
def addressBytes : Pubkey → Bytes32
  | .key bytes => bytes
  | _ => List.Vector.replicate 32 9

/-- A policy with sixteen models. -/
def fullPolicy : Policy :=
  { policyArgs.toPolicy chain with allowedModels := List.replicate 16 modelId }

end Sample

open Sample in
theorem layouts_agree_iff_full :
    (Account.policy fullPolicy).offsets addressBytes = Policy.listed ∧
      ((Account.policy fullPolicy).data addressBytes fun _ => List.Vector.replicate 8 1).length ≤ Policy.LEN := by
  have hbounded : (Account.policy fullPolicy).Bounded := by
    rintro _ ⟨⟩
    decide
  have hagree := layouts_agree_iff addressBytes (fun _ => List.Vector.replicate 8 1) _ hbounded
  exact ⟨hagree.2.1.2 (by rintro _ ⟨⟩; decide), hagree.1⟩

open Sample in
/-- The bump of a registered policy is not where it is listed: with one model it starts at 201. -/
theorem policy_bump_misplaced :
    ∃ h s p, Reaches chain 1000 funds h s ∧ s.policies policy = some p ∧
      ("bump", 201) ∈ (Account.policy p).offsets addressBytes ∧ ("bump", 681) ∈ (Account.policy p).listed ∧
      (Account.policy p).offsets addressBytes ≠ (Account.policy p).listed := by
  obtain ⟨h, s, hr, -, hs⟩ := exists_run setup (fun s => (s.policies policy).map fun p => p.allowedModels.length)
    (some 1) (by decide +kernel)
  obtain ⟨p, hp, hlen⟩ := Option.map_eq_some_iff.1 hs
  refine ⟨h, s, p, hr, hp, ?_, by simp [Account.listed, Policy.listed], ?_⟩
  · rw [policy_offsets, hlen]
    simp
  · intro heq
    rw [Account.listed, policy_offsets_eq_listed, hlen] at heq
    exact absurd heq (by decide)

end ProofOfThought.Program
