import Mathlib.Data.List.Forall2
import Mathlib.Data.List.Sort
import ProofOfThought.Base.Run
import ProofOfThought.Sdk.Accounts
import ProofOfThought.Sdk.Canonical

/-!
# Sessions

Runs of `requestVRF`, `think` and `submit` on one client. `think` compares the seed of the input with that of its
handle; `submit` takes any handle with any result, and the policy and the model of the client. So a submission agrees
with the documents behind its commitments only when the caller makes it so (`coherent_iff`).
-/

namespace ProofOfThought.Sdk

open Base

/-! ## `think` -/

structure ThinkContext where
  seed : Bytes
  nonceIdx : Int

/-- The user's callback. -/
abbrev Inference := ThinkContext → Except Thrown (Value × Value)

/-- What `think` returns: its result, with the documents as the callback returned them. -/
structure ThinkReturn extends ThinkResult where
  input : Value
  output : Value
  traceManifestHash : Bytes

/-- A `vrf_seed` that is no `Uint8Array` is refused at once; the source leaves some of these to the validator. -/
def think (lib : Library) (handle : VrfHandle) (inference : Inference) : Except Thrown ThinkReturn := do
  let (input, output) ← inference { seed := handle.seed, nonceIdx := handle.nonceIdx }
  require (input.bytesAt "vrf_seed" = some handle.seed)
    (.error "canonical input.vrf_seed must equal the VRF handle's seed — agent is not binding freshness")
  let inputHash ← lib.hashCommitment input
  let outputHash ← lib.hashCommitment output
  let built ← buildThoughtCommitment lib input output
    [⟨JsString.ofText "canonical_input.cbor", inputHash.toList⟩,
      ⟨JsString.ofText "canonical_output.cbor", outputHash.toList⟩]
  return { input, output
           inputCommitment := built.inputCommitment.toList
           outputCommitment := built.outputCommitment.toList
           traceManifestHash := built.traceManifestHash.toList }

/-! ## Calls -/

/-- The think results so far. -/
structure Session where
  results : List ThinkReturn

def Session.start : Session := ⟨[]⟩

inductive Call where
  | requestVRF (operator : PublicKey) (nonceIdx : Int) (seed : Bytes)
  | think (handle : VrfHandle) (inference : Inference)
  /-- The result is the one of the `k`-th call of `think`. -/
  | submit (operator : PublicKey) (handle : VrfHandle) (k : Nat) (args : SubmitArgs)

section

variable (lib : Library) (cfg : ProofOfThoughtConfig)

/-- The instruction that a call hands to the submitter, and the session after it; `none` if it throws. -/
def Call.make (s : Session) : Call → Option (Option InstructionRequest × Session)
  | requestVRF operator nonceIdx seed => do
    let (ix, _) ← (Sdk.requestVRF lib.toPackages cfg operator nonceIdx seed).toOption
    return (some ix, s)
  | think handle inference => do
    let result ← (Sdk.think lib handle inference).toOption
    return (none, { results := s.results ++ [result] })
  | submit operator handle k args => do
    let result ← s.results[k]?
    let (ix, _) ← (Sdk.submit lib.toPackages cfg operator handle result.toThinkResult args).toOption
    return (some ix, s)

def step (s : Session) (c : Call) : Option Session := (c.make lib cfg s).map Prod.snd

def emitted (s : Session) (c : Call) : Option InstructionRequest := (c.make lib cfg s).bind Prod.fst

end

/-! ## Thoughts -/

/-- A call of `think`. -/
structure Thinking where
  handle : VrfHandle
  inference : Inference

namespace Thinking

/-- What the callback returns. -/
def returned (t : Thinking) : Except Thrown (Value × Value) := t.inference ⟨t.handle.seed, t.handle.nonceIdx⟩

/-- The canonical documents of the thought. -/
def documents (t : Thinking) : Except Thrown (CanonicalInput × CanonicalOutput) := do
  let (input, output) ← t.returned
  let validatedInput ← (validateCanonicalInput input).mapError .schema
  let validatedOutput ← (validateCanonicalOutput output).mapError .schema
  return (validatedInput, validatedOutput)

end Thinking

def Call.thinking? : Call → Option Thinking
  | think handle inference => some ⟨handle, inference⟩
  | _ => none

/-- The calls of `think` of a session, in order. -/
def thinkings (h : List (Session × Call)) : List Thinking := (h.map Prod.snd).filterMap Call.thinking?

/-- The arguments carry the hashes of the documents, and the seed, the policy and the model in them. -/
structure Carries (lib : Library) (input : CanonicalInput) (output : CanonicalOutput)
    (read : Program.ThoughtRecordArgs) : Prop where
  inputCommitment : lib.hashCommitment input.toValue = .ok read.inputCommitment
  outputCommitment : lib.hashCommitment output.toValue = .ok read.outputCommitment
  vrfSeed : read.vrfSeed.toList = input.vrfSeed
  policyId : read.policyId.toList = input.policyId
  modelId : read.modelId.toList = output.modelId

/-- Every `submit_thought` of the session carries what is in the documents of the thought submitted. -/
def Coherent (lib : Library) (cfg : ProofOfThoughtConfig) (address : Program.Bytes32 → Program.Pubkey)
    (h : List (Session × Call)) : Prop :=
  ∀ s c ix, (s, c) ∈ h → emitted lib cfg s c = some ix → ix.data.take 8 = IX.submitThought.toList →
    ∃ operator handle k args t input output read rest, c = .submit operator handle k args ∧
      (thinkings h)[k]? = some t ∧ t.documents = .ok (input, output) ∧
      Program.ThoughtRecordArgs.deserialize address (ix.data.drop 8) = .ok (read, rest) ∧ Carries lib input output read

/-- The handle has the seed of the one the thought was made with, and the callback's documents name the policy and the
model of the client. -/
def Thinking.Matches (t : Thinking) (cfg : ProofOfThoughtConfig) (handle : VrfHandle) : Prop :=
  handle.seed = t.handle.seed ∧ ∃ input output, t.returned = .ok (input, output) ∧
    input.bytesAt "policy_id" = some cfg.policyId ∧ output.bytesAt "model_id" = some cfg.modelId

variable {lib : Library} {cfg : ProofOfThoughtConfig} {address : Program.Bytes32 → Program.Pubkey} {s s' : Session}
  {h : List (Session × Call)}

/-! ## What each method does -/

/-- **What `think` establishes**: the seed of the handle in the input, and the hashes of the validated documents. -/
theorem think_ok {t : Thinking} {result : ThinkReturn} (ht : think lib t.handle t.inference = .ok result) :
    ∃ input output, ∃ inputCommitment outputCommitment : Program.Bytes32,
      t.returned = .ok (result.input, result.output) ∧
      result.input.bytesAt "vrf_seed" = some t.handle.seed ∧ validateCanonicalInput result.input = .ok input ∧
      validateCanonicalOutput result.output = .ok output ∧
      lib.hashCommitment input.toValue = .ok inputCommitment ∧ result.inputCommitment = inputCommitment.toList ∧
      lib.hashCommitment output.toValue = .ok outputCommitment ∧ result.outputCommitment = outputCommitment.toList := by
  simp only [think, buildThoughtCommitment, seq_ok_iff, require_eq_ok, pure_ok_iff, mapError_eq_ok, exists_const,
    Prod.exists] at ht
  obtain ⟨docIn, docOut, hreturned, hseed, _, -, _, -, _, ⟨input, hinput, output, houtput, ci, hci, co, hco, _, -, _, -,
    rfl⟩, rfl⟩ := ht
  exact ⟨input, output, ci, co, hreturned, hseed, hinput, houtput, hci, rfl, hco, rfl⟩

/-- What a call that does not throw makes of a session. -/
inductive Made (lib : Library) (cfg : ProofOfThoughtConfig) (s : Session) :
    Call → Option InstructionRequest → Session → Prop
  | requestVRF {operator nonceIdx seed ix handle}
    (built : Sdk.requestVRF lib.toPackages cfg operator nonceIdx seed = .ok (ix, handle)) :
    Made lib cfg s (.requestVRF operator nonceIdx seed) (some ix) s
  | think {handle inference result} (thought : Sdk.think lib handle inference = .ok result) :
    Made lib cfg s (.think handle inference) none { results := s.results ++ [result] }
  | submit {operator handle k args result ix thought} (found : s.results[k]? = some result)
    (built : Sdk.submit lib.toPackages cfg operator handle result.toThinkResult args = .ok (ix, thought)) :
    Made lib cfg s (.submit operator handle k args) (some ix) s

theorem make_made {c : Call} {o : Option InstructionRequest} (hm : c.make lib cfg s = some (o, s')) :
    Made lib cfg s c o s' := by
  cases c with
  | requestVRF operator nonceIdx seed =>
    simp only [Call.make, Option.bind_eq_bind, Option.bind_eq_some_iff, toOption_eq_some, Option.pure_def,
      Option.some.injEq, Prod.mk.injEq, Prod.exists] at hm
    obtain ⟨ix, handle, hbuilt, rfl, rfl⟩ := hm
    exact .requestVRF hbuilt
  | think handle inference =>
    simp only [Call.make, Option.bind_eq_bind, Option.bind_eq_some_iff, toOption_eq_some, Option.pure_def,
      Option.some.injEq, Prod.mk.injEq] at hm
    obtain ⟨result, hthought, rfl, rfl⟩ := hm
    exact .think hthought
  | submit operator handle k args =>
    simp only [Call.make, Option.bind_eq_bind, Option.bind_eq_some_iff, toOption_eq_some, Option.pure_def,
      Option.some.injEq, Prod.mk.injEq, Prod.exists] at hm
    obtain ⟨result, hfound, ix, thought, hbuilt, rfl, rfl⟩ := hm
    exact .submit hfound hbuilt

theorem step_made {c : Call} (hs : step lib cfg s c = some s') :
    ∃ o, emitted lib cfg s c = o ∧ Made lib cfg s c o s' := by
  obtain ⟨⟨o, _⟩, hm, rfl⟩ := Option.map_eq_some_iff.1 hs
  exact ⟨o, by rw [emitted, hm, Option.bind_some], make_made hm⟩

/-! ## The results of a session -/

@[simp] theorem thinkings_append (h₁ h₂ : List (Session × Call)) :
    thinkings (h₁ ++ h₂) = thinkings h₁ ++ thinkings h₂ := by
  rw [thinkings, List.map_append, List.filterMap_append, thinkings, thinkings]

theorem thinkings_snoc (h : List (Session × Call)) (s : Session) (c : Call) :
    thinkings (h ++ [(s, c)]) = thinkings h ++ c.thinking?.toList := by
  rw [thinkings_append]
  cases c <;> rfl

/-- The results are those of the calls of `think`, in order. -/
theorem results_of_thinkings (hr : Run (step lib cfg) Session.start h s) :
    List.Forall₂ (fun t r => think lib t.handle t.inference = .ok r) (thinkings h) s.results := by
  refine hr.inv (fun h s => List.Forall₂ _ (thinkings h) s.results) .nil fun h s c s' _ ih hs => ?_
  rw [thinkings_snoc]
  obtain ⟨_, -, hmade⟩ := step_made hs
  cases hmade with
  | requestVRF _ => simpa [Call.thinking?] using ih
  | think hthought => exact List.rel_append ih (.cons hthought .nil)
  | submit _ _ => simpa [Call.thinking?] using ih

/-- A result in a state of the session is that of a call of `think`. -/
theorem thinking_of_result {c : Call} {k : Nat} {result : ThinkReturn} (hr : Run (step lib cfg) Session.start h s')
    (hm : (s, c) ∈ h) (hk : s.results[k]? = some result) :
    ∃ t, (thinkings h)[k]? = some t ∧ think lib t.handle t.inference = .ok result := by
  obtain ⟨h₁, h₂, _, rfl, hr₁, -⟩ := hr.mem hm
  obtain ⟨hl, hget⟩ := List.forall₂_iff_get.1 (results_of_thinkings hr₁)
  obtain ⟨hlt, rfl⟩ := List.getElem?_eq_some_iff.1 hk
  refine ⟨(thinkings h₁)[k], ?_, hget k (hl ▸ hlt) hlt⟩
  rw [thinkings_append, List.getElem?_append_left (hl ▸ hlt), List.getElem?_eq_getElem]

/-! ## Submissions -/

theorem requestVRF_data {pkg : Packages} {operator : PublicKey} {nonceIdx : Int} {seed : Bytes}
    {ix : InstructionRequest} {handle : VrfHandle} (hb : requestVRF pkg cfg operator nonceIdx seed = .ok (ix, handle)) :
    ix.data.take 8 = IX.requestVrf.toList := by
  simp only [requestVRF, seq_ok_iff, pure_ok_iff, Prod.exists, Prod.mk.injEq] at hb
  obtain ⟨_, -, _, _, -, _, _, -, _, -, rfl, -⟩ := hb
  exact List.take_left' (List.Vector.toList_length _)

theorem submit_data {pkg : Packages} {operator : PublicKey} {handle : VrfHandle} {result : ThinkResult}
    {args : SubmitArgs} {ix : InstructionRequest} {thought : PublicKey}
    (hb : submit pkg cfg operator handle result args = .ok (ix, thought)) :
    ix.data.take 8 = IX.submitThought.toList := by
  obtain ⟨bytes, hdata, -⟩ := submit_encodes hb
  rw [hdata]
  exact List.take_left' (List.Vector.toList_length _)

/-- **A submission agrees with the documents of its thought exactly when it matches the thought.** -/
theorem submit_carries_iff (address : Program.Bytes32 → Program.Pubkey) {operator : PublicKey} {handle : VrfHandle}
    {args : SubmitArgs} {ix : InstructionRequest} {thought : PublicKey} {t : Thinking} {result : ThinkReturn}
    (ht : think lib t.handle t.inference = .ok result)
    (hb : submit lib.toPackages cfg operator handle result.toThinkResult args = .ok (ix, thought)) :
    ∃ input output read rest, t.documents = .ok (input, output) ∧
      Program.ThoughtRecordArgs.deserialize address (ix.data.drop 8) = .ok (read, rest) ∧
      (Carries lib input output read ↔ t.Matches cfg handle) := by
  obtain ⟨input, output, ci, co, hreturned, hseed, hinput, houtput, hci, hri, hco, hro⟩ := think_ok ht
  obtain ⟨read, hread, hsame, -⟩ := submit_reads address hb
  obtain ⟨hvrf, hpolicy⟩ := validateCanonicalInput_bytes hinput
  have hmodel := validateCanonicalOutput_bytes houtput
  have hdocuments : t.documents = .ok (input, output) := by
    simp only [Thinking.documents, seq_ok_iff, pure_ok_iff, mapError_eq_ok]
    exact ⟨_, hreturned, _, hinput, _, houtput, rfl⟩
  obtain rfl : read.inputCommitment = ci := List.Vector.toList_injective (hsame.inputCommitment.trans hri)
  obtain rfl : read.outputCommitment = co := List.Vector.toList_injective (hsame.outputCommitment.trans hro)
  -- what is read is the handle's seed and the client's ids; the validated documents have the bytes of the returned ones
  have hv : read.vrfSeed.toList = handle.seed := hsame.vrfSeed
  have hp : read.policyId.toList = cfg.policyId := hsame.policyId
  have hm : read.modelId.toList = cfg.modelId := hsame.modelId
  obtain hin : t.handle.seed = input.vrfSeed := Option.some.inj (hseed.symm.trans hvrf)
  refine ⟨input, output, read, _, hdocuments, hread, ?_⟩
  constructor
  · intro hc
    refine ⟨hv.symm.trans (hc.vrfSeed.trans hin.symm), _, _, hreturned, ?_, ?_⟩
    · rw [hpolicy, ← hp, hc.policyId]
    · rw [hmodel, ← hm, hc.modelId]
  · intro hmatch
    obtain ⟨hs, docIn, docOut, hdocs, hpol, hmod⟩ := hmatch
    cases hreturned.symm.trans hdocs
    exact ⟨hci, hco, hv.trans (hs.trans hin), hp.trans (Option.some.inj (hpol.symm.trans hpolicy)),
      hm.trans (Option.some.inj (hmod.symm.trans hmodel))⟩

/-- **A submission of a session** is that of a thought of the session. -/
theorem submission_iff (address : Program.Bytes32 → Program.Pubkey) (hr : Run (step lib cfg) Session.start h s)
    {m : Session} {operator : PublicKey} {handle : VrfHandle} {k : Nat} {args : SubmitArgs}
    (hm : (m, .submit operator handle k args) ∈ h) :
    ∃ ix t input output read rest, emitted lib cfg m (.submit operator handle k args) = some ix ∧
      ix.data.take 8 = IX.submitThought.toList ∧ (thinkings h)[k]? = some t ∧ t.documents = .ok (input, output) ∧
      Program.ThoughtRecordArgs.deserialize address (ix.data.drop 8) = .ok (read, rest) ∧
      (Carries lib input output read ↔ t.Matches cfg handle) := by
  obtain ⟨-, -, _, -, -, hs, -⟩ := hr.mem hm
  obtain ⟨_, he, hmade⟩ := step_made hs
  cases hmade with
  | submit hfound hbuilt =>
    obtain ⟨t, ht, hthought⟩ := thinking_of_result hr hm hfound
    obtain ⟨input, output, read, rest, hdoc, hread, hiff⟩ := submit_carries_iff address hthought hbuilt
    exact ⟨_, t, input, output, read, rest, he, submit_data hbuilt, ht, hdoc, hread, hiff⟩

/-- Only `submit` emits a `submit_thought`. -/
theorem submit_of_emitted (hr : Run (step lib cfg) Session.start h s) {m : Session} {c : Call}
    {ix : InstructionRequest} (hm : (m, c) ∈ h) (he : emitted lib cfg m c = some ix)
    (hd : ix.data.take 8 = IX.submitThought.toList) : ∃ operator handle k args, c = .submit operator handle k args := by
  obtain ⟨-, -, _, -, -, hs, -⟩ := hr.mem hm
  obtain ⟨_, ho, hmade⟩ := step_made hs
  obtain rfl := ho.symm.trans he
  cases hmade with
  | requestVRF hbuilt =>
    rw [requestVRF_data hbuilt] at hd
    exact absurd hd (by decide +kernel)
  | submit _ _ => exact ⟨_, _, _, _, rfl⟩

theorem matches_of_coherent (hr : Run (step lib cfg) Session.start h s) (hc : Coherent lib cfg address h)
    {m : Session} {operator : PublicKey} {handle : VrfHandle} {k : Nat} {args : SubmitArgs}
    (hm : (m, .submit operator handle k args) ∈ h) : ∃ t, (thinkings h)[k]? = some t ∧ t.Matches cfg handle := by
  obtain ⟨ix, t, input, output, read, rest, he, hd, ht, hdoc, hread, hiff⟩ := submission_iff address hr hm
  obtain ⟨_, _, _, _, _, _, _, _, _, hcall, ht', hdoc', hread', hcarries⟩ := hc _ _ _ hm he hd
  cases hcall
  cases ht.symm.trans ht'
  cases hdoc.symm.trans hdoc'
  cases hread.symm.trans hread'
  exact ⟨t, ht, hiff.1 hcarries⟩

theorem coherent_of_matches (hr : Run (step lib cfg) Session.start h s)
    (hall : ∀ s operator handle k args, (s, .submit operator handle k args) ∈ h →
      ∃ t, (thinkings h)[k]? = some t ∧ t.Matches cfg handle) : Coherent lib cfg address h := by
  intro m c ix hm he hd
  obtain ⟨operator, handle, k, args, rfl⟩ := submit_of_emitted hr hm he hd
  obtain ⟨ix', t, input, output, read, rest, he', -, ht, hdoc, hread, hiff⟩ := submission_iff address hr hm
  obtain ⟨t', ht', hmatch⟩ := hall _ _ _ _ _ hm
  cases he.symm.trans he'
  cases ht.symm.trans ht'
  exact ⟨operator, handle, k, args, t, input, output, read, rest, rfl, ht, hdoc, hread, hiff.2 hmatch⟩

/-! ## Sample sessions -/

namespace Sample

open Program (Bytes32 Seeds)
open Program.Sample (modelId policyId commitment)

/-- An integer of major type 0 or 1. -/
def cborInt (n : Int) : Bytes := if 0 ≤ n then Cbor.head 0 n.toNat else Cbor.head 1 (-1 - n).toNat

/-- Keys in the order of `sortLengthFirstDeterministic`. -/
def keyBefore (a b : Bytes × Bytes) : Prop := a.1.length < b.1.length ∨ a.1.length = b.1.length ∧ a.1 ≤ b.1

instance : DecidableRel keyBefore := fun _ _ => inferInstanceAs (Decidable (_ ∨ _))

mutual

/-- `cbor2` on what the sample documents are made of. -/
def encode : Value → Except String Bytes
  | .null => .ok [0xF6]
  | .string s => .ok (Cbor.text s.text)
  | .number (.finite q) => if q.den = 1 then .ok (cborInt q.num) else .error "no such document"
  | .bigint n => .ok (cborInt n)
  | .bytes b => .ok (Cbor.head 2 b.length ++ b)
  | .array vs => do
    let items ← encodeElements vs
    return Cbor.head 4 vs.length ++ items
  | .object fields => do
    let entries ← encodeFields fields
    return Cbor.head 5 entries.length ++ (entries.insertionSort keyBefore).flatMap fun e => e.1 ++ e.2
  | _ => .error "no such document"

def encodeElements : List Value → Except String Bytes
  | [] => .ok []
  | v :: vs => do
    let item ← encode v
    let items ← encodeElements vs
    return item ++ items

def encodeFields : List (JsString × Value) → Except String (List (Bytes × Bytes))
  | [] => .ok []
  | f :: fields => do
    let entry ← encodeField f
    let entries ← encodeFields fields
    return entry :: entries

def encodeField : JsString × Value → Except String (Bytes × Bytes)
  | (key, v) => do
    let item ← encode v
    return (Cbor.text key.text, item)

end

def document (seed : Bytes) : CanonicalInput where
  system := []
  messages := []
  tools := []
  toolCalls := []
  memorySnap := List.replicate 32 0
  contextT := 0
  vrfSeed := seed
  policyId := policyId.toList

def decision : CanonicalOutput where
  decision := .null
  reasoning := .text []
  toolIntents := []
  selfScore := none
  modelId := modelId.toList
  sampling := ⟨.finite 0, .finite 1, 7, .finite 256⟩

/-- The callback of an agent that binds the seed. -/
def agent : Inference := fun ctx => .ok ((document ctx.seed).toValue, decision.toValue)

def inputHash : Bytes32 :=
  ⟨[153, 5, 50, 154, 151, 28, 161, 208, 73, 142, 161, 164, 251, 182, 234, 57, 48, 162, 64, 103, 82, 72, 199, 75, 169,
    241, 96, 125, 192, 187, 92, 106], rfl⟩

def outputHash : Bytes32 :=
  ⟨[149, 227, 112, 65, 214, 26, 62, 203, 209, 225, 207, 226, 45, 165, 147, 78, 18, 163, 67, 108, 158, 126, 140, 154,
    167, 71, 123, 220, 42, 243, 155, 177], rfl⟩

def manifestHash : Bytes32 :=
  ⟨[26, 36, 96, 19, 156, 94, 142, 241, 157, 54, 77, 39, 86, 39, 98, 9, 240, 168, 53, 86, 137, 240, 46, 155, 186, 202,
    117, 187, 87, 232, 127, 144], rfl⟩

def manifest : List TraceManifestEntry :=
  [⟨JsString.ofText "canonical_input.cbor", inputHash.toList⟩,
    ⟨JsString.ofText "canonical_output.cbor", outputHash.toList⟩]

/-- BLAKE3 of the documents and the manifest of the sample thought, and of the URI. -/
def digest (bs : Bytes) : Bytes32 :=
  if encode (document commitment.toList).toValue = .ok bs then inputHash
  else if encode decision.toValue = .ok bs then outputHash
  else if encode (manifestValue manifest) = .ok bs then manifestHash
  else blake3 bs

def secondVrfKey : PublicKey :=
  ⟨[230, 235, 53, 94, 101, 215, 97, 110, 82, 45, 215, 68, 81, 211, 163, 112, 7, 158, 234, 36, 190, 108, 95, 39, 7, 114,
    126, 93, 62, 93, 87, 40], rfl⟩

def secondThoughtKey : PublicKey :=
  ⟨[168, 252, 211, 109, 46, 68, 133, 42, 84, 25, 123, 126, 179, 241, 58, 176, 107, 39, 137, 137, 233, 99, 142, 196, 90,
    25, 148, 102, 168, 149, 93, 88], rfl⟩

/-- The PDAs of the first two nonces, with their bumps. -/
def derived : List (Seeds PublicKey × PublicKey × UInt8) :=
  knownPdas.map (fun e => (e.1, e.2.1, 255)) ++
    [(.vrf agentKey 1, secondVrfKey, 255), (.thought agentKey 1, secondThoughtKey, 252)]

def library : Library where
  blake3 := digest
  cbor2 := fun s => Cbor.text s.text
  findProgramAddressSync := fun seeds programId =>
    if programId = Program.ID then okOr ((derived.find? (·.1.bytes = seeds)).map Prod.snd) "no such seeds"
    else .error "no such program"
  encode := encode
  encode_string := fun _ _ => rfl

def secondSeed : Bytes := List.replicate 32 9

/-- The handles that the two requests return. -/
def firstHandle : VrfHandle := ⟨commitment.toList, 0, vrfKey⟩

def secondHandle : VrfHandle := ⟨secondSeed, 1, secondVrfKey⟩

def submitArgs : SubmitArgs := ⟨List.Vector.replicate 32 5, uri⟩

/-- One thought, submitted with its handle. -/
def honestCalls : List Call :=
  [.requestVRF operatorKey 0 commitment.toList, .think firstHandle agent, .submit operatorKey firstHandle 0 submitArgs]

/-- One thought, submitted with the handle of the next request. -/
def mixedCalls : List Call :=
  [.requestVRF operatorKey 0 commitment.toList, .requestVRF operatorKey 1 secondSeed, .think firstHandle agent,
    .submit operatorKey secondHandle 0 submitArgs]

/-- A session of calls that do not throw. -/
theorem exists_session (calls : List Call)
    (hc : ((perform (step library config) Session.start calls).map fun _ => ()) = some ()) :
    ∃ h s, Run (step library config) Session.start h s ∧ h.map Prod.snd = calls := by
  obtain ⟨h, s, hr, hm, -⟩ := exists_run_of_perform (fun _ => ()) hc
  exact ⟨h, s, hr, hm⟩

theorem thinking_matches : Thinking.Matches ⟨firstHandle, agent⟩ config firstHandle :=
  ⟨rfl, _, _, rfl, by decide +kernel, by decide +kernel⟩

end Sample

/-- **When a session is coherent**: exactly when each call of `submit` matches the thought whose result it takes. -/
theorem coherent_iff (address : Program.Bytes32 → Program.Pubkey) (hr : Run (step lib cfg) Session.start h s) :
    Coherent lib cfg address h ↔ ∀ s operator handle k args, (s, .submit operator handle k args) ∈ h →
      ∃ t, (thinkings h)[k]? = some t ∧ t.Matches cfg handle :=
  ⟨fun hc _ _ _ _ _ hm => matches_of_coherent hr hc hm, coherent_of_matches hr⟩

/-- A thought submitted with the handle of another request: the seed on chain is not the one in the input. -/
theorem mixed_handles_incoherent : ∃ h s, Run (step Sample.library Sample.config) Session.start h s ∧
    h.map Prod.snd = Sample.mixedCalls ∧ ¬Coherent Sample.library Sample.config .key h := by
  obtain ⟨h, s, hr, hm⟩ := Sample.exists_session Sample.mixedCalls (by decide +kernel)
  refine ⟨h, s, hr, hm, fun hc => ?_⟩
  have hcall : Call.submit Sample.operatorKey Sample.secondHandle 0 Sample.submitArgs ∈ h.map Prod.snd := by
    rw [hm]
    simp [Sample.mixedCalls]
  obtain ⟨⟨m, _⟩, hx, rfl⟩ := List.mem_map.1 hcall
  obtain ⟨t, ht, hseed, -⟩ := matches_of_coherent hr hc hx
  rw [thinkings, hm] at ht
  obtain rfl := Option.some.inj ht
  exact absurd hseed (by decide)

/-- The theorem at a thought submitted with its own handle. -/
theorem coherent_iff_honest : ∃ h s, Run (step Sample.library Sample.config) Session.start h s ∧
    h.map Prod.snd = Sample.honestCalls ∧ Coherent Sample.library Sample.config .key h := by
  obtain ⟨h, s, hr, hm⟩ := Sample.exists_session Sample.honestCalls (by decide +kernel)
  refine ⟨h, s, hr, hm, (coherent_iff .key hr).2 fun m operator handle k args hx => ?_⟩
  have hcall : Call.submit operator handle k args ∈ Sample.honestCalls := hm ▸ List.mem_map_of_mem hx
  simp only [Sample.honestCalls, List.mem_cons, reduceCtorEq, List.not_mem_nil, or_false, false_or,
    Call.submit.injEq] at hcall
  obtain ⟨rfl, rfl, rfl, rfl⟩ := hcall
  refine ⟨⟨Sample.firstHandle, Sample.agent⟩, ?_, Sample.thinking_matches⟩
  rw [thinkings, hm]
  rfl

end ProofOfThought.Sdk
