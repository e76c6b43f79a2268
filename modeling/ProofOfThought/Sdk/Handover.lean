import ProofOfThought.Base.Cbor
import ProofOfThought.Program.Step
import ProofOfThought.Program.Wire
import ProofOfThought.Sdk.Codec
import ProofOfThought.Watcher.Discriminator
import ProofOfThought.Watcher.Subscribe

/-!
# From the SDK to the watcher

An instruction built by `submit`, executed by the program, read back from the log. The bytes agree on every field
(`submitted_event`), but the hash that goes with the URI is taken of its CBOR encoding, and the watcher takes it of the
URI itself (`uri_hash_mismatch`).
-/

namespace ProofOfThought.Sdk

open Base
open Program (Bytes32 Runtime State Event ThoughtSubmitted)
open Watcher (FetchError lineEvent dataLine verifyUriHash)

variable {pkg : Packages} {address : Bytes32 → Program.Pubkey} {toBytes : Program.Pubkey → Bytes32} {rt : Runtime}
  {s s' : State} {cfg : ProofOfThoughtConfig} {operator : PublicKey} {handle : VrfHandle} {result : ThinkResult}
  {args : SubmitArgs} {ix : InstructionRequest} {thought : PublicKey} {evs : List Event}

/-- The account as the program receives it. -/
def AccountMeta.info (address : Bytes32 → Program.Pubkey) (m : AccountMeta) : Program.AccountInfo :=
  ⟨address m.pubkey, m.isSigner, m.isWritable⟩

/-- The program's execution of an instruction request. -/
def InstructionRequest.exec (address : Bytes32 → Program.Pubkey) (rt : Runtime) (s : State) (ix : InstructionRequest) :
    Except Program.EntryError (State × List Event) :=
  Program.submitThoughtEntry address rt s ix.programId ix.data (ix.accounts.map (·.info address))

/-! ## The event -/

/-- The event as the watcher decodes it. -/
def watched (toBytes : Program.Pubkey → Bytes32) (ev : ThoughtSubmitted) : Watcher.ThoughtSubmittedEvent where
  agent := toBytes ev.agent
  thoughtPda := toBytes ev.thoughtPda
  modelId := ev.modelId
  inputCommitment := ev.inputCommitment
  outputCommitment := ev.outputCommitment
  traceUriHash := ev.traceUriHash
  vrfSeed := ev.vrfSeed
  policyId := ev.policyId
  slot := ev.slot
  traceUri := ev.traceUri

/-- The program and the watcher name the event alike. -/
theorem discriminator_eq : ThoughtSubmitted.DISCRIMINATOR = Watcher.THOUGHT_SUBMITTED_DISCRIMINATOR :=
  Watcher.watcher_discriminators.1.symm

/-- **The watcher decodes what the program logs.** -/
theorem lineEvent_data {ev : ThoughtSubmitted} (h : (utf8 ev.traceUri).length < 2 ^ 32) :
    lineEvent (dataLine (ev.data toBytes)) = some (watched toBytes ev) := by
  have hdata : ev.data toBytes = Watcher.THOUGHT_SUBMITTED_DISCRIMINATOR.toList ++ (watched toBytes ev).borsh := by
    rw [← discriminator_eq]
    rfl
  rw [hdata]
  exact Watcher.lineEvent_eq_some.2 (Watcher.carries_dataLine h)

/-- **The event of an accepted submission** has the hash the SDK computed, and a URI that the SDK's encoding of its own
URI contains. -/
theorem submitted_event (hsubmit : submit pkg cfg operator handle result args = .ok (ix, thought))
    (haccepted : ix.exec address rt s = .ok (s', evs)) :
    ∃ ev, evs = [.thoughtSubmitted ev] ∧ ev.traceUriHash = hashCommitment pkg args.traceUri ∧
      (utf8 ev.traceUri).length < 2 ^ 32 ∧ ∃ rest, encodeString args.traceUri = borshString ev.traceUri ++ rest := by
  obtain ⟨read, hread, hsame, -⟩ := submit_reads address hsubmit
  obtain ⟨fields, uri, bs, rest, ctx, hargs, hbs, hlt, rfl⟩ := Program.submitThoughtEntry_emits address haccepted
  rw [hread] at hargs
  obtain ⟨rfl, rfl⟩ := Prod.mk.inj (Except.ok.inj hargs)
  exact ⟨_, rfl, List.Vector.toList_injective hsame.traceUriHash, hlt, rest, hbs⟩

/-! ## The check of the URI -/

/-- What the watcher makes of the log line of an event: the check of the URI of the event it decodes. -/
def uriCheck (blake3 : Bytes → Bytes32) (toBytes : Program.Pubkey → Bytes32) (ev : ThoughtSubmitted) :
    Option (Except FetchError Unit) :=
  (lineEvent (dataLine (ev.data toBytes))).map fun e => verifyUriHash blake3 e.traceUri e.traceUriHash

theorem uriCheck_eq {blake3 : Bytes → Bytes32} {ev : ThoughtSubmitted} (h : (utf8 ev.traceUri).length < 2 ^ 32) :
    uriCheck blake3 toBytes ev = some (verifyUriHash blake3 ev.traceUri ev.traceUriHash) := by
  rw [uriCheck, lineEvent_data h, Option.map_some]
  rfl

/-! ## A submission on the sample chain -/

namespace Sample

open Program.Sample (chain setup modelId policyId commitment)

def uri : JsString := "ar://abc".toList.map fun c => UInt16.ofNat c.toNat

/-- BLAKE3 of the URI and of its CBOR encoding. -/
def blake3 (bs : Bytes) : Bytes32 :=
  if bs = utf8 "ar://abc" then
    ⟨[121, 238, 146, 8, 76, 28, 168, 163, 184, 84, 254, 2, 221, 149, 203, 0, 46, 50, 40, 98, 125, 50, 204, 245, 254,
      250, 251, 119, 179, 221, 236, 213], rfl⟩
  else if bs = Cbor.text "ar://abc" then
    ⟨[212, 89, 187, 16, 53, 145, 166, 21, 124, 70, 163, 89, 241, 48, 67, 158, 125, 167, 191, 86, 137, 0, 139, 201, 149,
      231, 143, 56, 6, 128, 154, 96], rfl⟩
  else List.Vector.replicate 32 0

def operatorKey : PublicKey := List.Vector.replicate 32 7

def agentKey : PublicKey :=
  ⟨[54, 132, 43, 136, 219, 119, 135, 185, 204, 71, 103, 167, 109, 235, 215, 62, 142, 188, 227, 205, 236, 124, 198, 161,
    123, 145, 233, 162, 205, 82, 188, 232], rfl⟩

def modelKey : PublicKey :=
  ⟨[210, 201, 163, 17, 137, 151, 118, 33, 143, 227, 202, 59, 89, 218, 193, 246, 147, 31, 3, 8, 85, 160, 17, 192, 165,
    210, 227, 133, 62, 11, 214, 193], rfl⟩

def policyKey : PublicKey :=
  ⟨[13, 106, 168, 167, 217, 51, 219, 89, 60, 35, 72, 94, 255, 221, 155, 39, 62, 75, 120, 223, 83, 230, 232, 4, 6, 99,
    162, 214, 183, 238, 83, 88], rfl⟩

def vrfKey : PublicKey :=
  ⟨[65, 61, 98, 220, 67, 136, 55, 183, 139, 134, 188, 92, 191, 36, 198, 245, 32, 83, 38, 149, 155, 31, 216, 203, 94,
    236, 69, 122, 235, 22, 91, 79], rfl⟩

def thoughtKey : PublicKey :=
  ⟨[255, 120, 42, 212, 165, 124, 108, 43, 216, 178, 187, 106, 178, 249, 1, 155, 172, 205, 2, 49, 174, 53, 22, 212, 152,
    87, 42, 203, 148, 94, 125, 133], rfl⟩

/-- The PDAs of the submission: their seeds, bytes and addresses. The bump of each is 255. -/
def pdas : List (List Bytes × PublicKey × Program.Pubkey) :=
  [([utf8 "agent", operatorKey.toList], agentKey, Program.Sample.agent),
    ([utf8 "model", modelId.toList], modelKey, chain.pda (.model modelId)),
    ([utf8 "policy", policyId.toList], policyKey, Program.Sample.policy),
    ([utf8 "vrf", agentKey.toList, u64Le 0], vrfKey, chain.pda (.vrf Program.Sample.agent 0)),
    ([utf8 "thought", agentKey.toList, u64Le 0], thoughtKey, Program.Sample.thought 0)]

def addressOf (k : PublicKey) : Program.Pubkey := ((pdas.find? (·.2.1 = k)).map (·.2.2)).getD (.key k)

def bytesOf : Program.Pubkey → Bytes32
  | .key k => k
  | a => ((pdas.find? (·.2.2 = a)).map (·.2.1)).getD (List.Vector.replicate 32 0)

def packages : Packages where
  blake3 := blake3
  cbor2 := fun uri => Cbor.text uri.text
  findProgramAddressSync := fun seeds programId =>
    if programId = Program.ID then okOr ((pdas.find? (·.1 = seeds)).map fun x => (x.2.1, 255)) "no such seeds"
    else .error "no such program"

/-- The call: an agent with a fresh VRF request for nonce 0. -/
def call : Except String (InstructionRequest × PublicKey) :=
  submit packages ⟨Program.ID, policyId.toList, modelId.toList⟩ operatorKey ⟨commitment.toList, 0, vrfKey⟩
    ⟨commitment.toList, commitment.toList⟩ ⟨List.Vector.replicate 32 5, uri⟩

/-- The state the instruction is executed in. -/
def before : Option State := (Program.Sample.run (setup ++ (Program.Sample.submit 0).take 1)).map Prod.snd

/-- The URI of an event and the hash that goes with it. -/
def observe : Event → Option (String × Bytes32)
  | .thoughtSubmitted ev => some (ev.traceUri, ev.traceUriHash)
  | _ => none

def outcome : Option (List (Option (String × Bytes32))) := do
  let s ← before
  let (ix, _) ← call.toOption
  let (_, evs) ← (ix.exec addressOf chain s).toOption
  return evs.map observe

theorem outcome_eq : outcome = some [some ("ar://abc", blake3 (Cbor.text uri.text))] := by decide +kernel

/-- The call is accepted, and its one event has the URI and the hash computed. -/
theorem accepted : ∃ ix thought s s' ev, call = .ok (ix, thought) ∧
    ix.exec addressOf chain s = .ok (s', [.thoughtSubmitted ev]) ∧ ev.traceUri = "ar://abc" ∧
      ev.traceUriHash = blake3 (Cbor.text uri.text) := by
  have h := outcome_eq
  simp only [outcome, Option.bind_eq_bind, Option.bind_eq_some_iff, Prod.exists] at h
  obtain ⟨s, -, ix, thought, hcall, s', evs, hexec, hout⟩ := h
  obtain ⟨e, rfl, he⟩ := List.map_eq_singleton_iff.1 (Option.some.inj hout)
  cases e with
  | thoughtSubmitted ev =>
    obtain ⟨huri, hhash⟩ := Prod.mk.inj (Option.some.inj he)
    exact ⟨ix, thought, s, s', ev, toOption_eq_some.1 hcall, toOption_eq_some.1 hexec, huri, hhash⟩
  | _ => cases he

theorem blake3_ne : blake3 (utf8 "ar://abc") ≠ blake3 (Cbor.text uri.text) := by decide +kernel

end Sample

/-! ## The hash of the URI -/

/-- **The watcher rejects every thought the SDK submits**: whatever is accepted, unless BLAKE3 gives the URI of the
event and the CBOR encoding of the SDK's URI one digest, the URI fails its check. -/
theorem uri_hash_mismatch (toBytes : Program.Pubkey → Bytes32) (hcbor : ∀ uri, pkg.cbor2 uri = Cbor.text uri.text)
    (hsubmit : submit pkg cfg operator handle result args = .ok (ix, thought))
    (haccepted : ix.exec address rt s = .ok (s', evs)) :
    ∃ ev, evs = [.thoughtSubmitted ev] ∧
      (Set.InjOn pkg.blake3 {utf8 ev.traceUri, Cbor.text args.traceUri.text} →
        uriCheck pkg.blake3 toBytes ev = some (.error (.uriHashMismatch
          (pkg.blake3 (Cbor.text args.traceUri.text)) (pkg.blake3 (utf8 ev.traceUri))))) := by
  obtain ⟨ev, rfl, hhash, hlt, rest, henc⟩ := submitted_event hsubmit haccepted
  refine ⟨ev, rfl, fun hinj => ?_⟩
  have hexpected : ev.traceUriHash = pkg.blake3 (Cbor.text args.traceUri.text) := by
    rw [hhash, hashCommitment, canonicalEncode, hcbor]
  -- the encoding is longer than any URI read from the same string
  have hne : utf8 ev.traceUri ≠ Cbor.text args.traceUri.text := by
    intro he
    have hle := length_le_of_encodeString henc
    have hlt' := Cbor.length_utf8_lt_text args.traceUri.text
    rw [← he] at hlt'
    exact absurd hlt' (Nat.not_lt.2 hle)
  have hdigest : pkg.blake3 (utf8 ev.traceUri) ≠ pkg.blake3 (Cbor.text args.traceUri.text) :=
    fun he => hne (hinj (Set.mem_insert _ _) (Set.mem_insert_of_mem _ rfl) he)
  rw [uriCheck_eq hlt, verifyUriHash, hexpected, if_pos hdigest]

/-- The honest submission of `ar://abc` is rejected, and its digests do not collide. -/
theorem honest_uri_rejected : ¬∀ (pkg : Packages) (address : Bytes32 → Program.Pubkey)
    (toBytes : Program.Pubkey → Bytes32) (rt : Runtime) (s s' : State) (cfg : ProofOfThoughtConfig)
    (operator : PublicKey) (handle : VrfHandle) (result : ThinkResult) (args : SubmitArgs) (ix : InstructionRequest)
    (thought : PublicKey) (evs : List Event), (∀ uri, pkg.cbor2 uri = Cbor.text uri.text) →
      submit pkg cfg operator handle result args = .ok (ix, thought) → ix.exec address rt s = .ok (s', evs) →
      ∃ ev, evs = [.thoughtSubmitted ev] ∧ (Set.InjOn pkg.blake3 {utf8 ev.traceUri, Cbor.text args.traceUri.text} →
        uriCheck pkg.blake3 toBytes ev = some (.ok ())) := by
  intro h
  obtain ⟨ix, thought, s, s', ev, hcall, hexec, huri, hhash⟩ := Sample.accepted
  obtain ⟨ev', he, hok⟩ := h Sample.packages Sample.addressOf Sample.bytesOf Program.Sample.chain s s' _ _ _ _ _ ix
    thought _ (fun _ => rfl) hcall hexec
  obtain rfl : ev = ev' := by injection he with he; injection he
  have hinj : Set.InjOn Sample.blake3 {utf8 ev.traceUri, Cbor.text Sample.uri.text} := by
    rw [huri, Set.injOn_pair]
    exact fun hb => absurd hb Sample.blake3_ne
  have hpass := Option.some.inj ((uriCheck_eq (huri ▸ by decide +kernel)).symm.trans (hok hinj))
  rw [Watcher.verifyUriHash_eq_ok, huri, hhash] at hpass
  exact Sample.blake3_ne hpass

/-- The theorem at the submission of `ar://abc`. -/
theorem uri_hash_mismatch_abc : ∃ ix thought s s' ev, Sample.call = .ok (ix, thought) ∧
    ix.exec Sample.addressOf Program.Sample.chain s = .ok (s', [.thoughtSubmitted ev]) ∧
    uriCheck Sample.blake3 Sample.bytesOf ev = some (.error (.uriHashMismatch
      (Sample.blake3 (Cbor.text Sample.uri.text)) (Sample.blake3 (utf8 "ar://abc")))) := by
  obtain ⟨ix, thought, s, s', ev, hcall, hexec, huri, -⟩ := Sample.accepted
  obtain ⟨ev', he, hrejected⟩ := uri_hash_mismatch Sample.bytesOf (fun _ => rfl) hcall hexec
  obtain rfl : ev = ev' := by injection he with he; injection he
  rw [huri] at hrejected
  exact ⟨ix, thought, s, s', ev, hcall, hexec, hrejected (Set.injOn_pair.2 fun hb => absurd hb Sample.blake3_ne)⟩

end ProofOfThought.Sdk
