import ProofOfThought.Program.Derive
import ProofOfThought.Sdk.Codec
import ProofOfThought.Sdk.Handover

/-!
# The accounts of the client's instructions

The account lists of `client.ts` against the `Accounts` structs of the program. `requestVRF` and `submit` list what the
program takes; `challenge` leaves out the policy, and `consumeThoughtAccounts` lists the accounts of another interface.
-/

namespace ProofOfThought.Sdk

open Base
open Program (AddressBook Bytes32 Runtime State AccountInfo Field Seeds Reaches validate)

variable {pkg : Packages} {rt : Runtime} {address : Bytes32 → Program.Pubkey} {book : AddressBook} {s : State}
  {cfg : ProofOfThoughtConfig} {ix : InstructionRequest}

/-! ## Addresses -/

/-- A nonce among the seeds, as the program writes it. -/
theorem u64Le_eq (n : Int) : u64Le n = leBytes 8 (wireU64 n).toNat := encodeU64Le_eq n

/-- The client and the program mean the same addresses: what `findProgramAddressSync` finds are the bytes of the
program's PDAs. -/
structure Addressing (pkg : Packages) (rt : Runtime) (book : AddressBook) (programId : PublicKey) : Prop where
  system : Program.systemProgramId ∈ book.known
  found : ∀ (x : Seeds Program.Pubkey) k b, pkg.findProgramAddressSync (x.map book.bytes).bytes programId = .ok (k, b) →
    k = book.bytes (rt.pda x)

namespace Addressing

variable {programId : PublicKey} (ha : Addressing pkg rt book programId) {k : PublicKey} {b : UInt8}

include ha

theorem address_system : book.address SYSTEM_PROGRAM_ID = Program.systemProgramId :=
  Program.AddressBook.address_bytes ha.system

/-- A known PDA is read from the bytes that the client finds for its seeds. -/
theorem derived {x : Seeds PublicKey} (hk : rt.pda (x.map book.address) ∈ book.known)
    (h : pkg.findProgramAddressSync x.bytes programId = .ok (k, b)) : book.address k = rt.pda (x.map book.address) := by
  rw [← book.map_bytes_address x] at h
  rw [ha.found _ _ _ h]
  exact Program.AddressBook.address_bytes hk

theorem agent {operator : PublicKey} (hk : rt.pda (.agent (book.address operator)) ∈ book.known)
    (h : agentPda pkg operator programId = .ok (k, b)) : book.address k = rt.pda (.agent (book.address operator)) :=
  ha.derived (x := .agent operator) hk h

theorem model {modelId : Bytes32} (hk : rt.pda (.model modelId) ∈ book.known)
    (h : modelPda pkg modelId.toList programId = .ok (k, b)) : book.address k = rt.pda (.model modelId) :=
  ha.derived (x := .model modelId) hk h

theorem policy {policyId : Bytes32} (hk : rt.pda (.policy policyId) ∈ book.known)
    (h : policyPda pkg policyId.toList programId = .ok (k, b)) : book.address k = rt.pda (.policy policyId) :=
  ha.derived (x := .policy policyId) hk h

theorem vrf {agent : PublicKey} {nonceIdx : Int}
    (hk : rt.pda (.vrf (book.address agent) (wireU64 nonceIdx)) ∈ book.known)
    (h : vrfRequestPda pkg agent nonceIdx programId = .ok (k, b)) :
    book.address k = rt.pda (.vrf (book.address agent) (wireU64 nonceIdx)) := by
  refine ha.derived (x := .vrf agent (wireU64 nonceIdx)) (b := b) hk ?_
  rw [← h, vrfRequestPda, u64Le_eq]
  rfl

theorem thought {agent : PublicKey} {nonceIdx : Int}
    (hk : rt.pda (.thought (book.address agent) (wireU64 nonceIdx)) ∈ book.known)
    (h : thoughtPda pkg agent nonceIdx programId = .ok (k, b)) :
    book.address k = rt.pda (.thought (book.address agent) (wireU64 nonceIdx)) := by
  refine ha.derived (x := .thought agent (wireU64 nonceIdx)) (b := b) hk ?_
  rw [← h, thoughtPda, u64Le_eq]
  rfl

end Addressing

/-! ## Instructions -/

/-- An instruction the client builds, with its arguments. -/
inductive Invocation where
  | requestVRF (operator : PublicKey) (nonceIdx : Int) (seed : Bytes)
  | submit (operator : PublicKey) (handle : VrfHandle) (result : ThinkResult) (args : SubmitArgs)
  | challenge (challenger thought : PublicKey) (claim : JsNumber) (bond : Int) (evidenceUriHash : Bytes)
  | consumeThoughtAccounts (operator thought actionPda : PublicKey)

namespace Invocation

/-- The instruction, if the method does not throw. -/
def build (pkg : Packages) (cfg : ProofOfThoughtConfig) : Invocation → Except String InstructionRequest
  | requestVRF operator nonceIdx seed => (Sdk.requestVRF pkg cfg operator nonceIdx seed).map Prod.fst
  | submit operator handle result args => (Sdk.submit pkg cfg operator handle result args).map Prod.fst
  | challenge challenger thought claim bond evidenceUriHash =>
    (Sdk.challenge pkg cfg challenger thought claim bond evidenceUriHash).map Prod.fst
  | consumeThoughtAccounts operator thought actionPda =>
    let (accounts, data) := Sdk.consumeThoughtAccounts operator thought actionPda
    .ok { programId := cfg.programId, data, accounts }

/-- A configured id, as the program reads it. -/
def idOf (b : Bytes) : Option Bytes32 := if h : b.length = 32 then some ⟨b, h⟩ else none

/-- The PDAs that the fields of the instruction name. -/
def pdas (rt : Runtime) (address : Bytes32 → Program.Pubkey) (cfg : ProofOfThoughtConfig) :
    Invocation → List Program.Pubkey
  | requestVRF operator nonceIdx _ =>
    [rt.pda (.agent (address operator)), rt.pda (.vrf (rt.pda (.agent (address operator))) (wireU64 nonceIdx))]
  | submit operator handle _ _ =>
    [rt.pda (.agent (address operator)), rt.pda (.vrf (rt.pda (.agent (address operator))) (wireU64 handle.nonceIdx)),
        rt.pda (.thought (rt.pda (.agent (address operator))) (wireU64 handle.nonceIdx))] ++
      (idOf cfg.modelId).toList.map (fun i => rt.pda (.model i)) ++
        (idOf cfg.policyId).toList.map fun i => rt.pda (.policy i)
  | challenge .. | consumeThoughtAccounts .. => []

/-- The fields of the program's struct for the arguments. -/
def fields (rt : Runtime) (address : Bytes32 → Program.Pubkey) (cfg : ProofOfThoughtConfig) (s : State) :
    Invocation → List Field
  | requestVRF operator nonceIdx _ => Program.RequestVrf.fields rt (address operator) (wireU64 nonceIdx)
  | submit operator handle _ _ =>
    match idOf cfg.modelId, idOf cfg.policyId with
    | some modelId, some policyId =>
      Program.SubmitThought.fields rt (address operator) modelId policyId (wireU64 handle.nonceIdx)
    | _, _ => []
  | challenge challenger thought _ _ _ => Program.OpenChallenge.fields rt s (address challenger) (address thought)
  | consumeThoughtAccounts operator thought actionPda =>
    Program.ConsumeThought.fields rt s (address operator) (address thought) (address actionPda)

theorem idOf_toList (v : Bytes32) : idOf v.toList = some v := dif_pos (List.Vector.toList_length v)

theorem fields_submit {operator : PublicKey} {handle : VrfHandle} {result : ThinkResult} {args : SubmitArgs}
    {modelId policyId : Bytes32} (hm : modelId.toList = cfg.modelId) (hp : policyId.toList = cfg.policyId) :
    (submit operator handle result args).fields rt address cfg s =
      Program.SubmitThought.fields rt (address operator) modelId policyId (wireU64 handle.nonceIdx) := by
  rw [fields, ← hm, ← hp, idOf_toList, idOf_toList]

/-- The model and the policy of a submission are among its PDAs. -/
theorem mem_pdas_submit {operator : PublicKey} {handle : VrfHandle} {result : ThinkResult} {args : SubmitArgs}
    {modelId policyId : Bytes32} (hm : modelId.toList = cfg.modelId) (hp : policyId.toList = cfg.policyId) :
    rt.pda (.model modelId) ∈ (submit operator handle result args).pdas rt address cfg ∧
      rt.pda (.policy policyId) ∈ (submit operator handle result args).pdas rt address cfg := by
  rw [pdas, ← hm, ← hp, idOf_toList, idOf_toList]
  simp

/-- The state is ready for the instruction, and a URI can be read. -/
def Ready (rt : Runtime) (address : Bytes32 → Program.Pubkey) (cfg : ProofOfThoughtConfig) (s : State) :
    Invocation → Prop
  | requestVRF operator nonceIdx _ => Program.RequestVrf.Ready rt s (address operator) (wireU64 nonceIdx)
  | submit operator handle _ args => (textEncode args.traceUri).length < 2 ^ 32 ∧ ∃ modelId policyId : Bytes32,
    modelId.toList = cfg.modelId ∧ policyId.toList = cfg.policyId ∧
      Program.SubmitThought.Ready rt s (address operator) modelId policyId (wireU64 handle.nonceIdx)
  | challenge challenger thought _ _ _ => Program.OpenChallenge.Ready rt s (address challenger) (address thought)
  | consumeThoughtAccounts _ thought _ => Program.ConsumeThought.Ready rt s (address thought)

/-- The list is the one the program takes: that of `requestVRF`, and that of `submit` with a handle of the operator. -/
def Fits (rt : Runtime) (address : Bytes32 → Program.Pubkey) : Invocation → Prop
  | requestVRF .. => True
  | submit operator handle _ _ =>
    address handle.vrfRequestPda = rt.pda (.vrf (rt.pda (.agent (address operator))) (wireU64 handle.nonceIdx))
  | challenge .. => False
  | consumeThoughtAccounts .. => False

end Invocation

/-- The account list as the program receives it. -/
def InstructionRequest.infos (address : Bytes32 → Program.Pubkey) (ix : InstructionRequest) : List AccountInfo :=
  ix.accounts.map (·.info address)

/-- The program validates the accounts of the instruction. -/
def InstructionRequest.Validates (rt : Runtime) (address : Bytes32 → Program.Pubkey) (s : State)
    (ix : InstructionRequest) : Prop := validate address rt s ix.data (ix.infos address) = .ok ()

/-! ## The discriminators -/

theorem requestVrf_discriminator : IX.requestVrf = Program.RequestVrf.DISCRIMINATOR :=
  (Watcher.get_discriminator (by decide) _).trans Watcher.program_discriminators.2.1.symm

theorem submitThought_discriminator : IX.submitThought = Program.SubmitThought.DISCRIMINATOR :=
  (Watcher.get_discriminator (by decide) _).trans Watcher.program_discriminators.2.2.1.symm

theorem challenge_discriminator : IX.challenge = Program.OpenChallenge.DISCRIMINATOR :=
  (Watcher.get_discriminator (by decide) _).trans Watcher.program_discriminators.2.2.2.1.symm

theorem consumeThought_discriminator : IX.consumeThought = Program.ConsumeThought.DISCRIMINATOR :=
  (Watcher.get_discriminator (by decide) _).trans Watcher.program_discriminators.2.2.2.2.symm

/-! ## What each method lists -/

section

variable (ha : Addressing pkg rt book cfg.programId)

include ha

theorem requestVRF_built {operator : PublicKey} {nonceIdx : Int} {seed : Bytes} {handle : VrfHandle}
    (hk : (Invocation.requestVRF operator nonceIdx seed).pdas rt book.address cfg ⊆ book.known)
    (h : requestVRF pkg cfg operator nonceIdx seed = .ok (ix, handle)) :
    let agent := rt.pda (.agent (book.address operator))
    let vrf := rt.pda (.vrf agent (wireU64 nonceIdx))
    ix.infos book.address = [⟨book.address operator, true, true⟩, ⟨agent, false, true⟩, ⟨vrf, false, true⟩,
        ⟨Program.systemProgramId, false, false⟩] ∧
      (∃ bytes, encodeRequestVrfArgs nonceIdx seed = .ok bytes ∧
        ix.data = Program.RequestVrf.DISCRIMINATOR.toList ++ bytes) ∧
      book.address handle.vrfRequestPda = vrf ∧ handle.nonceIdx = nonceIdx := by
  simp only [Invocation.pdas, List.cons_subset, List.nil_subset, and_true] at hk
  obtain ⟨hka, hkv⟩ := hk
  simp only [requestVRF, seq_ok_iff, pure_ok_iff, Prod.exists, Prod.mk.injEq, requestVrf_discriminator] at h
  obtain ⟨_, -, agent, _, hagent, vrf, _, hvrf, bytes, hbytes, rfl, rfl⟩ := h
  have hagent := ha.agent hka hagent
  rw [← hagent] at hkv
  have hvrf := ha.vrf hkv hvrf
  rw [hagent] at hvrf
  refine ⟨?_, ⟨bytes, hbytes, rfl⟩, hvrf, rfl⟩
  simp only [InstructionRequest.infos, AccountMeta.info, List.map, hagent, hvrf, ha.address_system]

theorem submit_built {operator : PublicKey} {handle : VrfHandle} {result : ThinkResult} {args : SubmitArgs}
    {thought : PublicKey}
    (hk : (Invocation.submit operator handle result args).pdas rt book.address cfg ⊆ book.known)
    (h : submit pkg cfg operator handle result args = .ok (ix, thought)) :
    let agent := rt.pda (.agent (book.address operator))
    ∃ bytes read, ix.data = Program.SubmitThought.DISCRIMINATOR.toList ++ bytes ∧
      Program.ThoughtRecordArgs.deserialize book.address bytes = .ok (read, encodeString args.traceUri) ∧
      read.modelId.toList = cfg.modelId ∧ read.policyId.toList = cfg.policyId ∧
      read.vrfNonceIdx = wireU64 handle.nonceIdx ∧
      ix.infos book.address = [⟨book.address operator, true, true⟩, ⟨agent, false, true⟩,
        ⟨rt.pda (.model read.modelId), false, false⟩, ⟨rt.pda (.policy read.policyId), false, false⟩,
        ⟨book.address handle.vrfRequestPda, false, true⟩, ⟨rt.pda (.thought agent read.vrfNonceIdx), false, true⟩,
        ⟨Program.systemProgramId, false, false⟩] ∧
      book.address thought = rt.pda (.thought agent read.vrfNonceIdx) := by
  obtain ⟨bytes, hdata, hbytes⟩ := submit_encodes h
  obtain ⟨read, hread, hsame, hnonce⟩ := deserialize_encoded book.address hbytes
  have hn : read.vrfNonceIdx = wireU64 handle.nonceIdx := hnonce
  have hm : read.modelId.toList = cfg.modelId := hsame.modelId
  have hp : read.policyId.toList = cfg.policyId := hsame.policyId
  refine ⟨bytes, read, submitThought_discriminator ▸ hdata, hread, hm, hp, hn, ?_⟩
  simp only [submit, seq_ok_iff, pure_ok_iff, Prod.exists, Prod.mk.injEq] at h
  obtain ⟨agent, _, hagent, model, _, hmodel, policy, _, hpolicy, thought, _, hthought, _, -, rfl, rfl⟩ := h
  rw [← hm] at hmodel
  rw [← hp] at hpolicy
  have hmodel := ha.model (hk (Invocation.mem_pdas_submit hm hp).1) hmodel
  have hpolicy := ha.policy (hk (Invocation.mem_pdas_submit hm hp).2) hpolicy
  have hagent := ha.agent (hk (by simp [Invocation.pdas])) hagent
  have hthought := ha.thought (by rw [hagent]; exact hk (by simp [Invocation.pdas])) hthought
  rw [hagent] at hthought
  rw [hn]
  refine ⟨?_, hthought⟩
  simp only [InstructionRequest.infos, AccountMeta.info, List.map, hagent, hmodel, hpolicy, hthought,
    ha.address_system]

/-! ## What the program makes of the lists -/

theorem requestVRF_takes {operator : PublicKey} {nonceIdx : Int} {seed : Bytes} {handle : VrfHandle}
    (hk : (Invocation.requestVRF operator nonceIdx seed).pdas rt book.address cfg ⊆ book.known)
    (h : requestVRF pkg cfg operator nonceIdx seed = .ok (ix, handle)) :
    List.Forall₂ Field.Takes (Program.RequestVrf.fields rt (book.address operator) (wireU64 nonceIdx))
      (ix.infos book.address) := by
  rw [(requestVRF_built ha hk h).1]
  simp [Program.RequestVrf.fields, Field.Takes]

theorem requestVRF_validates {operator : PublicKey} {nonceIdx : Int} {seed : Bytes} {handle : VrfHandle}
    (hk : (Invocation.requestVRF operator nonceIdx seed).pdas rt book.address cfg ⊆ book.known)
    (h : requestVRF pkg cfg operator nonceIdx seed = .ok (ix, handle)) (hwf : s.Wf rt)
    (hr : Program.RequestVrf.Ready rt s (book.address operator) (wireU64 nonceIdx)) :
    ix.Validates rt book.address s := by
  have htakes := requestVRF_takes ha hk h
  obtain ⟨hinfos, ⟨bytes, hbytes, hdata⟩, -⟩ := requestVRF_built ha hk h
  obtain ⟨seed', hread, -⟩ := requestDeserialize_encoded hbytes
  rw [InstructionRequest.Validates, hdata, Program.validate_requestVrf]
  rw [hinfos] at htakes ⊢
  obtain ⟨acc, hacc⟩ := (Program.RequestVrf.tryAccounts_iff hwf ⟨book.address operator, true, true⟩ hr).2 htakes
  exact ⟨_, _, _, _, acc, hread, rfl, hacc⟩

theorem submit_takes_iff {operator : PublicKey} {handle : VrfHandle} {result : ThinkResult} {args : SubmitArgs}
    {thought : PublicKey}
    (hk : (Invocation.submit operator handle result args).pdas rt book.address cfg ⊆ book.known)
    (h : submit pkg cfg operator handle result args = .ok (ix, thought)) :
    List.Forall₂ Field.Takes ((Invocation.submit operator handle result args).fields rt book.address cfg s)
        (ix.infos book.address) ↔ (Invocation.submit operator handle result args).Fits rt book.address := by
  obtain ⟨_, read, -, -, hm, hp, hn, hinfos, -⟩ := submit_built ha hk h
  rw [Invocation.fields_submit hm hp, hinfos, hn]
  simp [Invocation.Fits, Program.SubmitThought.fields, Field.Takes]

theorem submit_validates_iff {operator : PublicKey} {handle : VrfHandle} {result : ThinkResult} {args : SubmitArgs}
    {thought : PublicKey}
    (hk : (Invocation.submit operator handle result args).pdas rt book.address cfg ⊆ book.known)
    (h : submit pkg cfg operator handle result args = .ok (ix, thought)) (hwf : s.Wf rt)
    (hpd : s.Paired rt) (hr : (Invocation.submit operator handle result args).Ready rt book.address cfg s) :
    ix.Validates rt book.address s ↔ (Invocation.submit operator handle result args).Fits rt book.address := by
  rw [← submit_takes_iff (s := s) ha hk h]
  obtain ⟨hl, m, p, hm, hp, hr⟩ := hr
  obtain ⟨bytes, read, hdata, hread, hmodel, hpolicy, hn, hinfos, -⟩ := submit_built ha hk h
  have hdes := (submitDeserialize_encoded book.address hread).2 ⟨rfl, rfl, hl⟩
  -- the arguments the program reads are those the fields are for
  obtain rfl : read.modelId = m := List.Vector.toList_injective (hmodel.trans hm.symm)
  obtain rfl : read.policyId = p := List.Vector.toList_injective (hpolicy.trans hp.symm)
  rw [← hn] at hr
  rw [InstructionRequest.Validates, hdata, Program.validate_submitThought, Invocation.fields_submit hm hp, ← hn, hinfos,
    ← Program.SubmitThought.tryAccounts_iff hwf hpd ⟨book.address operator, true, true⟩ hr]
  constructor
  · intro hx
    obtain ⟨_, _, _, _, acc, hd, hbind, hacc⟩ := hx
    cases hdes.symm.trans hd
    cases hbind
    exact ⟨acc, hacc⟩
  · intro hx
    obtain ⟨acc, hacc⟩ := hx
    exact ⟨_, _, _, _, acc, hdes, rfl, hacc⟩

end

/-! The two lists that are too short. -/

theorem challenge_length {challenger thought k : PublicKey} {claim : JsNumber} {bond : Int} {evidenceUriHash : Bytes}
    (h : challenge pkg cfg challenger thought claim bond evidenceUriHash = .ok (ix, k)) : ix.accounts.length = 5 := by
  simp only [challenge, seq_ok_iff, pure_ok_iff, Prod.exists, Prod.mk.injEq] at h
  obtain ⟨_, _, -, _, _, -, _, -, rfl, -⟩ := h
  rfl

theorem challenge_not_validates {challenger thought k : PublicKey} {claim : JsNumber} {bond : Int}
    {evidenceUriHash : Bytes} (h : challenge pkg cfg challenger thought claim bond evidenceUriHash = .ok (ix, k)) :
    ¬ix.Validates rt address s := by
  simp only [challenge, seq_ok_iff, pure_ok_iff, Prod.exists, Prod.mk.injEq, challenge_discriminator] at h
  obtain ⟨_, _, -, _, _, -, _, -, rfl, -⟩ := h
  intro hv
  obtain ⟨_, _, hbind, -⟩ := Program.validate_challenge hv
  cases hbind

theorem consumeThoughtAccounts_not_validates {operator thought actionPda : PublicKey}
    (h : (Invocation.consumeThoughtAccounts operator thought actionPda).build pkg cfg = .ok ix) :
    ¬ix.Validates rt address s := by
  obtain rfl := Except.ok.inj h
  intro hv
  have hdata : IX.consumeThought.toList = Program.ConsumeThought.DISCRIMINATOR.toList ++ [] := by
    rw [consumeThought_discriminator, List.append_nil]
  rw [InstructionRequest.Validates, hdata] at hv
  obtain ⟨_, _, hbind, -⟩ := Program.validate_consumeThought hv
  cases hbind

/-! ## The accounts -/

/-- **Which account lists are right.** Where the bytes of the PDAs at hand keep them apart, the list of an instruction
is what the program's struct asks for, in every state, and passes validation in every reachable state that is ready for
it, exactly when the instruction is a `request_vrf` or a `submit_thought` with the request of its operator and nonce; a
handle that `requestVRF` returned has that request. -/
theorem accounts_fit_iff (ha : Addressing pkg rt book cfg.programId) {i : Invocation}
    (hk : i.pdas rt book.address cfg ⊆ book.known) (hb : i.build pkg cfg = .ok ix) :
    (∀ s, List.Forall₂ Field.Takes (i.fields rt book.address cfg s) (ix.infos book.address) ↔
        i.Fits rt book.address) ∧
      (∀ slot L h s, Reaches rt slot L h s → i.Ready rt book.address cfg s →
        (ix.Validates rt book.address s ↔ i.Fits rt book.address)) ∧
      ∀ operator nonceIdx seed request handle,
        (Invocation.requestVRF operator nonceIdx seed).pdas rt book.address cfg ⊆ book.known →
          requestVRF pkg cfg operator nonceIdx seed = .ok (request, handle) →
            ∀ result args, (Invocation.submit operator handle result args).Fits rt book.address := by
  have hhandle : ∀ operator nonceIdx seed request handle,
      (Invocation.requestVRF operator nonceIdx seed).pdas rt book.address cfg ⊆ book.known →
        requestVRF pkg cfg operator nonceIdx seed = .ok (request, handle) →
          ∀ result args, (Invocation.submit operator handle result args).Fits rt book.address := by
    intro operator nonceIdx seed request handle hk h _ _
    obtain ⟨-, -, hvrf, hn⟩ := requestVRF_built ha hk h
    rw [Invocation.Fits, hvrf, hn]
  cases i with
  | requestVRF operator nonceIdx seed =>
    obtain ⟨⟨ix, handle⟩, h, rfl⟩ := map_eq_ok.1 hb
    exact ⟨fun s => iff_of_true (requestVRF_takes ha hk h) trivial,
      fun _ _ _ s hr hready => iff_of_true (requestVRF_validates ha hk h (Program.wf_of_reaches hr) hready) trivial,
      hhandle⟩
  | submit operator handle result args =>
    obtain ⟨⟨ix, thought⟩, h, rfl⟩ := map_eq_ok.1 hb
    exact ⟨fun s => submit_takes_iff ha hk h, fun _ _ _ s hr hready =>
      submit_validates_iff ha hk h (Program.wf_of_reaches hr) (Program.paired_of_reaches hr) hready, hhandle⟩
  | challenge challenger thought claim bond evidenceUriHash =>
    obtain ⟨⟨ix, k⟩, h, rfl⟩ := map_eq_ok.1 hb
    refine ⟨fun s => iff_of_false (fun hf => ?_) id, fun _ _ _ s _ _ => iff_of_false (challenge_not_validates h) id,
      hhandle⟩
    have hl := hf.length_eq
    rw [InstructionRequest.infos, List.length_map, challenge_length h] at hl
    cases hl
  | consumeThoughtAccounts operator thought actionPda =>
    refine ⟨fun s => iff_of_false (fun hf => ?_) id,
      fun _ _ _ s _ _ => iff_of_false (consumeThoughtAccounts_not_validates hb) id, hhandle⟩
    have hl := hf.length_eq
    obtain rfl := Except.ok.inj hb
    cases hl

/-! ## The sample client -/

namespace Sample

open Program.Sample (chain funds modelId policyId commitment setup)

def challengerKey : PublicKey := List.Vector.replicate 32 4

def challengeKey : PublicKey :=
  ⟨[222, 251, 247, 237, 197, 110, 156, 28, 75, 22, 40, 244, 23, 208, 19, 181, 139, 58, 186, 228, 94, 254, 17, 185, 155,
    40, 132, 55, 110, 254, 0, 152], rfl⟩

def bondKey : PublicKey :=
  ⟨[68, 81, 121, 176, 150, 66, 55, 96, 139, 249, 240, 166, 220, 236, 128, 214, 28, 238, 54, 6, 0, 11, 12, 105, 164, 218,
    131, 162, 98, 63, 213, 17], rfl⟩

/-- The PDAs around the first thought: their seeds, bytes and addresses. The bump of each is 255. -/
def knownPdas : List (Seeds PublicKey × PublicKey × Program.Pubkey) :=
  [(.agent operatorKey, agentKey, Program.Sample.agent), (.model modelId, modelKey, chain.pda (.model modelId)),
    (.policy policyId, policyKey, Program.Sample.policy),
    (.vrf agentKey 0, vrfKey, chain.pda (.vrf Program.Sample.agent 0)),
    (.thought agentKey 0, thoughtKey, Program.Sample.thought 0),
    (.challenge thoughtKey challengerKey, challengeKey,
      chain.pda (.challenge (Program.Sample.thought 0) Program.Sample.challenger)),
    (.bond challengeKey, bondKey,
      chain.pda (.bond (chain.pda (.challenge (Program.Sample.thought 0) Program.Sample.challenger))))]

/-- The hash of the seeds of the known PDAs. -/
def create (preimage : Bytes) : Bytes32 :=
  ((knownPdas.find? (·.1.preimage 255 = preimage)).map (·.2.1)).getD (List.Vector.replicate 32 255)

/-- The addresses around the first thought. -/
def known : List Program.Pubkey :=
  Program.systemProgramId :: Program.Sample.operator :: Program.Sample.challenger :: knownPdas.map (·.2.2)

def addresses : AddressBook where
  create := create
  known := known
  separates := Program.separates_of_nodup (by decide) (by decide +kernel)

/-- The packages: for all seeds of the program an address is found, by the hash of the known PDAs. -/
def client : Packages where
  blake3 := blake3
  cbor2 := packages.cbor2
  findProgramAddressSync := fun seeds programId =>
    if programId = Program.ID then .ok (create (seeds ++ [[255]]).flatten, 255) else .error "no such program"

def config : ProofOfThoughtConfig := ⟨Program.ID, policyId.toList, modelId.toList⟩

theorem addressing : Addressing client chain addresses Program.ID where
  system := List.mem_cons_self
  found := by
    intro x k b h
    obtain ⟨rfl, -⟩ := Prod.mk.inj (Except.ok.inj h)
    exact (Program.onChain_address addresses.create x 255).symm

/-- The submission with a handle. -/
def submission (handle : VrfHandle) : Invocation :=
  .submit operatorKey handle ⟨commitment.toList, commitment.toList⟩ ⟨List.Vector.replicate 32 5, uri⟩

/-- A request and the submission with its handle. -/
def requested : Except String (InstructionRequest × VrfHandle × InstructionRequest) := do
  let (request, handle) ← requestVRF client config operatorKey 0 commitment.toList
  let ix ← (submission handle).build client config
  return (request, handle, ix)

/-- The challenge of the first thought. -/
def dispute : Invocation := .challenge challengerKey thoughtKey (.finite 1) 500000000 commitment.toList

end Sample

open Program.Sample (chain funds setup) in
/-- A challenge that the program would take with the policy in its place is refused without it. -/
theorem challenge_unaddressed : ∃ h s ix, Reaches chain 1000 funds h s ∧
    (Program.step chain s (Program.Sample.dispute 0)).isSome = true ∧
    Sample.dispute.Ready chain Sample.addresses.address Sample.config s ∧
    Sample.dispute.build Sample.client Sample.config = .ok ix ∧
    ¬List.Forall₂ Field.Takes (Sample.dispute.fields chain Sample.addresses.address Sample.config s)
      (ix.infos Sample.addresses.address) ∧
    ¬ix.Validates chain Sample.addresses.address s := by
  obtain ⟨h, s, hr, -, hs⟩ := Program.Sample.exists_run (setup ++ Program.Sample.submit 0)
    (fun s => (Program.step chain s (Program.Sample.dispute 0)).isSome) true (by decide +kernel)
  obtain ⟨ix, hbuild⟩ : ∃ ix, Sample.dispute.build Sample.client Sample.config = .ok ix :=
    exists_eq_ok (by decide +kernel)
  have hix := hbuild
  simp only [Sample.dispute, Invocation.build, map_eq_ok, Prod.exists, exists_and_right, exists_eq_right] at hix
  obtain ⟨k, hix⟩ := hix
  have hready : Sample.dispute.Ready chain Sample.addresses.address Sample.config s := by
    obtain ⟨s', hstep⟩ := Option.isSome_iff_exists.1 hs
    have heff := Program.step_effect hstep
    cases heff with
    | challenge hacc =>
      have hready := hacc.ready (Program.wf_of_reaches hr)
      have h1 : Sample.addresses.address Sample.challengerKey = Program.Sample.challenger := by decide +kernel
      have h2 : Sample.addresses.address Sample.thoughtKey = Program.Sample.thought 0 := by decide +kernel
      rw [Sample.dispute, Invocation.Ready, h1, h2]
      exact hready
  refine ⟨h, s, ix, hr, hs, hready, hbuild, fun hf => ?_, challenge_not_validates hix⟩
  have hl := hf.length_eq
  rw [InstructionRequest.infos, List.length_map, challenge_length hix] at hl
  cases hl

open Program.Sample (chain funds setup) in
/-- The submission of the sample client, with the handle it got, passes validation. -/
theorem accounts_fit_iff_submission : ∃ h s request handle ix, Reaches chain 1000 funds h s ∧
    Sample.requested = .ok (request, handle, ix) ∧
    List.Forall₂ Field.Takes ((Sample.submission handle).fields chain Sample.addresses.address Sample.config s)
      (ix.infos Sample.addresses.address) ∧
    ix.Validates chain Sample.addresses.address s := by
  obtain ⟨⟨request, handle, ix⟩, hx⟩ := exists_eq_ok (show Sample.requested.toOption.isSome = true by decide +kernel)
  obtain ⟨hrequest, hix⟩ : requestVRF Sample.client Sample.config Sample.operatorKey 0
      Program.Sample.commitment.toList = .ok (request, handle) ∧
      (Sample.submission handle).build Sample.client Sample.config = .ok ix := by
    simp only [Sample.requested, seq_ok_iff, pure_ok_iff, Prod.exists, Prod.mk.injEq] at hx
    obtain ⟨_, _, h1, _, h2, rfl, rfl, rfl⟩ := hx
    exact ⟨h1, h2⟩
  obtain ⟨h, s, hr, -, hs⟩ := Program.Sample.exists_run (setup ++ (Program.Sample.submit 0).take 1)
    (fun s => (Program.step chain s (Program.Sample.submit 0)[1]).isSome) true (by decide +kernel)
  have hask : (Invocation.requestVRF Sample.operatorKey 0 Program.Sample.commitment.toList).pdas chain
      Sample.addresses.address Sample.config ⊆ Sample.addresses.known := by decide +kernel
  have haddr : Addressing Sample.client chain Sample.addresses Sample.config.programId := Sample.addressing
  obtain ⟨-, -, -, hnonce⟩ := requestVRF_built haddr hask hrequest
  have hsubmit : (Sample.submission handle).pdas chain Sample.addresses.address Sample.config ⊆
      Sample.addresses.known := by
    simp only [Sample.submission, Invocation.pdas, hnonce]
    decide +kernel
  obtain ⟨hfit, hvalid, hhandle⟩ := accounts_fit_iff haddr hsubmit hix
  have hfits := hhandle _ _ _ _ _ hask hrequest
    ⟨Program.Sample.commitment.toList, Program.Sample.commitment.toList⟩ ⟨List.Vector.replicate 32 5, Sample.uri⟩
  refine ⟨h, s, request, handle, ix, hr, hx, (hfit s).2 hfits, (hvalid _ _ _ s hr ?_).2 hfits⟩
  obtain ⟨s', hstep⟩ := Option.isSome_iff_exists.1 hs
  have heff : Program.Effect chain s (.instruction (.submitThought _ _ _)) s' := Program.step_effect hstep
  cases heff with
  | submitThought hacc =>
    have hready := hacc.ready (Program.wf_of_reaches hr) (Program.paired_of_reaches hr)
    have hop : Sample.addresses.address Sample.operatorKey = Program.Sample.operator := by decide +kernel
    refine ⟨by decide +kernel, _, _, rfl, rfl, ?_⟩
    rw [hop, hnonce]
    exact hready

end ProofOfThought.Sdk
