import ProofOfThought.Sdk.Binding
import ProofOfThought.Sdk.Verbatim
import ProofOfThought.Watcher.Verify

/-!
# What `think` commits to

`think` commits to the validated documents, and returns and lists in the manifest the given ones. The two agree exactly
when validation drops and changes nothing (`think_agrees_iff`).
-/

namespace ProofOfThought.Sdk

open Base
open Watcher (ThoughtSubmittedEvent TraceBundle)

/-- The manifest of a trace with the two documents alone. -/
def documentManifest (inputHash outputHash : Bytes) : List TraceManifestEntry :=
  [⟨JsString.ofText "canonical_input.cbor", inputHash⟩, ⟨JsString.ofText "canonical_output.cbor", outputHash⟩]

/-- The commitments are the hashes of the returned documents, in the manifest too, and the watcher finds a trace with
these documents to match. -/
structure Agrees (lib : Library) (r : ThinkReturn) : Prop where
  input : ∃ c, lib.hashCommitment r.input = .ok c ∧ r.inputCommitment = c.toList
  output : ∃ c, lib.hashCommitment r.output = .ok c ∧ r.outputCommitment = c.toList
  manifest : ∃ c, lib.hashCommitment (manifestValue (documentManifest r.inputCommitment r.outputCommitment)) = .ok c ∧
    r.traceManifestHash = c.toList
  verdict : ∀ (event : ThoughtSubmittedEvent) (bundle : TraceBundle),
    event.outputCommitment.toList = r.outputCommitment → lib.canonicalEncode r.output = .ok bundle.rawCanonicalOutput →
    Watcher.ByteCompareVerifier.verify lib.blake3 event bundle = .matched

/-- The manifest lists the hashes of the given documents. -/
theorem think_manifest {lib : Library} {t : Thinking} {r : ThinkReturn} (ht : think lib t.handle t.inference = .ok r) :
    ∃ inputHash outputHash manifestHash : Program.Bytes32, lib.hashCommitment r.input = .ok inputHash ∧
      lib.hashCommitment r.output = .ok outputHash ∧
      lib.hashCommitment (manifestValue (documentManifest inputHash.toList outputHash.toList)) = .ok manifestHash ∧
      r.traceManifestHash = manifestHash.toList := by
  simp only [think, buildThoughtCommitment, seq_ok_iff, pure_ok_iff, Prod.exists] at ht
  obtain ⟨docIn, docOut, -, _, -, inputHash, hin, outputHash, hout, _, ⟨_, -, _, -, _, -, _, -, _, -, manifestHash,
    hmanifest, rfl⟩, rfl⟩ := ht
  exact ⟨inputHash, outputHash, manifestHash, hin, hout, hmanifest, rfl⟩

section

variable {lib : Library} {floatBits : JsNumber → Option Cbor.FloatBits}

/-- Two encoded values have one hash if they are encoded alike, and only then if `blake3` keeps them apart. -/
theorem hash_eq_iff (h : lib.Deterministic floatBits) {v w : Value} {only : Bool} {c d : Program.Bytes32}
    (hv : lib.hashCommitment v = .ok c) (hw : lib.hashCommitment w = .ok d)
    (hiff : ∀ b, v.encoded floatBits = some b → (w.encoded floatBits = some b ↔ only = true)) :
    (only = true → c = d) ∧ (lib.CollisionFree v w → c = d → only = true) := by
  obtain ⟨x, hx, rfl⟩ := Library.hashCommitment_eq_ok.1 hv
  obtain ⟨y, hy, rfl⟩ := Library.hashCommitment_eq_ok.1 hw
  have hvx : v.encoded floatBits = some x := (h.canonicalEncode_eq_ok.1 hx).2
  have hwy : w.encoded floatBits = some y := (h.canonicalEncode_eq_ok.1 hy).2
  constructor
  · intro honly
    have hwx := (hiff x hvx).2 honly
    rw [Option.some.inj (hwx.symm.trans hwy)]
  · intro hfree heq
    obtain rfl := hfree x y hx hy heq
    exact (hiff x hvx).1 hwy

/-- **When a thought agrees with its documents**: if validation drops and changes nothing in them, and only then if
`blake3` keeps the given and the validated documents apart. -/
theorem think_agrees_iff (h : lib.Deterministic floatBits) {t : Thinking} {r : ThinkReturn}
    (ht : think lib t.handle t.inference = .ok r) :
    (r.input.isVerbatimInput = true ∧ r.output.isVerbatimOutput = true → Agrees lib r) ∧
      ((∀ input, validateCanonicalInput r.input = .ok input → lib.CollisionFree r.input input.toValue) →
        (∀ output, validateCanonicalOutput r.output = .ok output → lib.CollisionFree r.output output.toValue) →
        Agrees lib r → r.input.isVerbatimInput = true ∧ r.output.isVerbatimOutput = true) := by
  obtain ⟨input, output, ci, co, -, -, hinput, houtput, hci, hri, hco, hro⟩ := think_ok ht
  obtain ⟨inputHash, outputHash, manifestHash, hin, hout, hmanifest, hrm⟩ := think_manifest ht
  have hinIff := hash_eq_iff h hin hci fun b hb => input_encoded_iff h.float_inj hinput hb
  have houtIff := hash_eq_iff h hout hco fun b hb => output_encoded_iff h.float_inj houtput hb
  constructor
  · intro hverbatim
    obtain rfl := hinIff.1 hverbatim.1
    obtain rfl := houtIff.1 hverbatim.2
    rw [← hri, ← hro] at hmanifest
    refine ⟨⟨_, hin, hri⟩, ⟨_, hout, hro⟩, ⟨_, hmanifest, hrm⟩, fun event bundle hevent hbundle => ?_⟩
    obtain ⟨x, hx, hhash⟩ := Library.hashCommitment_eq_ok.1 hout
    obtain rfl := Except.ok.inj (hbundle.symm.trans hx)
    exact Watcher.byteCompare_eq_matched.2 (hhash.trans (List.Vector.toList_injective (hro.symm.trans hevent.symm)))
  · intro hfreeIn hfreeOut hagrees
    obtain ⟨c, hc, hrc⟩ := hagrees.input
    obtain ⟨d, hd, hrd⟩ := hagrees.output
    obtain rfl := Except.ok.inj (hin.symm.trans hc)
    obtain rfl := Except.ok.inj (hout.symm.trans hd)
    exact ⟨hinIff.2 (hfreeIn input hinput) (List.Vector.toList_injective (hrc.symm.trans hri)),
      houtIff.2 (hfreeOut output houtput) (List.Vector.toList_injective (hrd.symm.trans hro))⟩

/-- **A watcher accuses** the honest trace of an output that validation drops something from. -/
theorem honest_trace_accused (h : lib.Deterministic floatBits) {t : Thinking} {r : ThinkReturn}
    (ht : think lib t.handle t.inference = .ok r) (hr : r.output.isVerbatimOutput = false)
    (hfree : ∀ output, validateCanonicalOutput r.output = .ok output → lib.CollisionFree r.output output.toValue)
    {event : ThoughtSubmittedEvent} {bundle : TraceBundle} (hevent : event.outputCommitment.toList = r.outputCommitment)
    (hbundle : lib.canonicalEncode r.output = .ok bundle.rawCanonicalOutput) :
    Watcher.ByteCompareVerifier.verify lib.blake3 event bundle = .mismatch .inconsistentCommitments event.traceUri := by
  obtain ⟨input, output, ci, co, -, -, -, houtput, -, -, hco, hro⟩ := think_ok ht
  obtain ⟨-, outputHash, -, -, hout, -, -⟩ := think_manifest ht
  have houtIff := hash_eq_iff h hout hco fun b hb => output_encoded_iff h.float_inj houtput hb
  rw [Watcher.ByteCompareVerifier.verify, if_neg]
  intro heq
  obtain ⟨x, hx, rfl⟩ := Library.hashCommitment_eq_ok.1 hout
  obtain rfl := Except.ok.inj (hbundle.symm.trans hx)
  have hc : lib.blake3 bundle.rawCanonicalOutput = co := heq.trans (List.Vector.toList_injective (hevent.trans hro))
  rw [houtIff.2 (hfree output houtput) hc] at hr
  cases hr

end

/-! ## Sample thoughts -/

namespace Sample

/-- An object with one more property. -/
def extended (v : Value) (key : String) (w : Value) : Value :=
  match v with
  | .object fields => .object (fields ++ [(JsString.ofText key, w)])
  | v => v

/-- The sample decision with a property that is not in the schema. -/
def chatty : Value := extended decision.toValue "finish_reason" (.string (JsString.ofText "stop"))

def chattyAgent : Inference := fun ctx => .ok ((document ctx.seed).toValue, chatty)

def chattyHash : Program.Bytes32 :=
  ⟨[42, 10, 53, 213, 59, 175, 193, 210, 76, 20, 125, 193, 229, 151, 154, 23, 184, 189, 249, 240, 94, 209, 158, 212, 166,
    188, 195, 145, 47, 236, 126, 27], rfl⟩

def chattyManifestHash : Program.Bytes32 :=
  ⟨[127, 244, 38, 151, 124, 102, 28, 161, 155, 36, 93, 65, 12, 126, 173, 173, 231, 5, 8, 178, 94, 230, 55, 77, 217, 43,
    106, 93, 96, 186, 18, 12], rfl⟩

/-- BLAKE3 of that decision and of the manifest with it, too. -/
def chattyDigest (bs : Bytes) : Program.Bytes32 :=
  if chatty.encoded floatBits = some bs then chattyHash
  else if (manifestValue (documentManifest inputHash.toList chattyHash.toList)).encoded floatBits = some bs then
    chattyManifestHash
  else digest bs

def chattyLibrary : Library := { deterministic with blake3 := chattyDigest }

theorem chattyLibrary_deterministic : chattyLibrary.Deterministic floatBits where
  encode_iff := fun _ _ _ => okOr_eq_ok
  float_inj := fun _ _ _ => floatBits_inj

end Sample

/-- A property that is not in the schema: the commitment is not the hash of the returned output. -/
theorem extra_property_disagrees : Sample.chattyLibrary.Deterministic Sample.floatBits ∧
    ∃ r, think Sample.chattyLibrary Sample.firstHandle Sample.chattyAgent = .ok r ∧
      r.outputCommitment = Sample.outputHash.toList ∧
      Sample.chattyLibrary.hashCommitment r.output = .ok Sample.chattyHash ∧ ¬Agrees Sample.chattyLibrary r := by
  refine ⟨Sample.chattyLibrary_deterministic, ?_⟩
  have hrun : (think Sample.chattyLibrary Sample.firstHandle Sample.chattyAgent).toOption.map (fun r =>
      (r.outputCommitment, (Sample.chattyLibrary.hashCommitment r.output).toOption)) =
        some (Sample.outputHash.toList, some Sample.chattyHash) := by decide +kernel
  obtain ⟨r, hr, heq⟩ := Option.map_eq_some_iff.1 hrun
  obtain ⟨hcommitment, hhash⟩ := Prod.mk.inj heq
  rw [toOption_eq_some] at hr hhash
  refine ⟨r, hr, hcommitment, hhash, fun hagrees => ?_⟩
  obtain ⟨c, hc, hrc⟩ := hagrees.output
  obtain rfl := Except.ok.inj (hhash.symm.trans hc)
  exact absurd (hcommitment.symm.trans hrc) (by decide)

/-- The theorem at the documents of the sample agent. -/
theorem think_agrees_iff_honest : ∃ r, think Sample.deterministic Sample.firstHandle Sample.agent = .ok r ∧
    Agrees Sample.deterministic r := by
  obtain ⟨r, hr⟩ := exists_eq_ok (x := think Sample.deterministic Sample.firstHandle Sample.agent) (by decide +kernel)
  let t : Thinking := ⟨Sample.firstHandle, Sample.agent⟩
  obtain ⟨_, _, _, _, hreturned, -⟩ := think_ok (t := t) hr
  obtain ⟨hin, hout⟩ := Prod.mk.inj (Except.ok.inj hreturned)
  refine ⟨r, hr, (think_agrees_iff Sample.deterministic_deterministic (t := t) hr).1 ?_⟩
  rw [← hin, ← hout]
  exact ⟨by decide +kernel, by decide +kernel⟩

end ProofOfThought.Sdk
