import ProofOfThought.Sdk.Client
import ProofOfThought.Sdk.Schema

/-!
# Canonical encodings and commitments

The walk of `cbor.ts` over a value before it is encoded, the hash of the encoding, and `buildThoughtCommitment` of
`builder.ts`.
-/

namespace ProofOfThought.Sdk

open Base
open Program (Bytes32)

/-! ## Forbidden values -/

/-- A step of the path of an error. -/
inductive Segment where
  | index (i : Nat)
  | field (key : JsString)
  /-- `<key:i>` of a `Map`. -/
  | mapKey (i : Nat)
  /-- The value of a `Map` under a key. -/
  | mapValue (key : Value)

/-- `CanonicalEncodingError`. -/
structure EncodingError where
  path : List Segment
  message : String

def MIN_I64 : Int := -2 ^ 63

def Foreign.message : Foreign → String
  | function => "function is not canonically encodable"
  | symbol => "symbol is not canonically encodable"
  | view => "typed arrays other than Uint8Array are forbidden"
  | classInstance name => s!"non-plain object (proto={name}) forbidden"

mutual

def assertCanonicalValue : Value → List Segment → Except EncodingError Unit
  | .null, _ => .ok ()
  | .string _, _ => .ok ()
  | .boolean _, _ => .ok ()
  | .bytes _, _ => .ok ()
  | .undefined, path => .error ⟨path, "undefined is not canonically encodable"⟩
  | .number n, path => require (n.isFinite = true) ⟨path, s!"non-finite number forbidden (got {n.nonFiniteText})"⟩
  | .bigint n, path =>
    require (¬(n < MIN_I64 ∨ MAX_U64 < n)) ⟨path, s!"bigint out of [i64.min, u64.max] range: {n}"⟩
  | .array vs, path => assertElements vs path 0
  | .map entries, path => assertEntries entries path 0
  | .object fields, path => assertFields fields path
  | .foreign f, path => .error ⟨path, f.message⟩

def assertElements : List Value → List Segment → Nat → Except EncodingError Unit
  | [], _, _ => .ok ()
  | v :: vs, path, i => do
    assertCanonicalValue v (path ++ [.index i])
    assertElements vs path (i + 1)

def assertEntries : List (Value × Value) → List Segment → Nat → Except EncodingError Unit
  | [], _, _ => .ok ()
  | e :: entries, path, i => do
    assertEntry e path i
    assertEntries entries path (i + 1)

def assertEntry : Value × Value → List Segment → Nat → Except EncodingError Unit
  | (k, v), path, i => do
    assertCanonicalValue k (path ++ [.mapKey i])
    assertCanonicalValue v (path ++ [.mapValue k])

def assertFields : List (JsString × Value) → List Segment → Except EncodingError Unit
  | [], _ => .ok ()
  | f :: fields, path => do
    assertField f path
    assertFields fields path

def assertField : JsString × Value → List Segment → Except EncodingError Unit
  | (key, v), path => assertCanonicalValue v (path ++ [.field key])

end

/-! ## Hashing -/

/-- What the SDK throws. -/
inductive Thrown where
  | error (message : String)
  | schema (e : SchemaError)
  | encoding (e : EncodingError)

/-- The packages, with `encode` of `cbor2` on every value. No text of `2^64` bytes or more is a data item. -/
structure Library extends Packages where
  encode : Value → Except String Bytes
  encode_string : ∀ s, (textEncode s).length < 2 ^ 64 → encode (.string s) = .ok (cbor2 s)

namespace Library

variable (lib : Library)

def canonicalEncode (value : Value) : Except Thrown Bytes := do
  (assertCanonicalValue value []).mapError .encoding
  (lib.encode value).mapError .error

def hashCommitment (value : Value) : Except Thrown Bytes32 := do
  let bytes ← lib.canonicalEncode value
  return lib.blake3 bytes

/-- Of a string it is the hash that `submit` takes. -/
theorem hashCommitment_string {s : JsString} (h : (textEncode s).length < 2 ^ 64) :
    lib.hashCommitment (.string s) = .ok (Sdk.hashCommitment lib.toPackages s) := by
  simp only [hashCommitment, canonicalEncode, assertCanonicalValue, lib.encode_string s h]
  rfl

end Library

/-! ## Documents as values -/

/-- An object literal. -/
def objectLit (fields : List (String × Value)) : Value := .object (fields.map fun f => (JsString.ofText f.1, f.2))

/-- The message as a value: a missing list of attachments is left out. -/
def Message.toValue (m : Message) : Value :=
  objectLit ([("role", .string m.role), ("content", .string m.content)] ++
    (m.attachments.map fun ss => ("attachments", Value.array (ss.map .string))).toList)

def ToolCall.toValue (c : ToolCall) : Value := objectLit [("call", .string c.call), ("response", c.response)]

def ToolIntent.toValue (t : ToolIntent) : Value := objectLit [("tool", .string t.tool), ("args", t.args)]

def Sampling.toValue (s : Sampling) : Value :=
  objectLit [("temperature", .number s.temperature), ("top_p", .number s.topP), ("seed", .bigint s.seed),
    ("max_tokens", .number s.maxTokens)]

def Reasoning.toValue : Reasoning → Value
  | text s => .string s
  | steps ss => .array (ss.map .string)

def CanonicalInput.toValue (i : CanonicalInput) : Value :=
  objectLit [("system", .string i.system), ("messages", .array (i.messages.map Message.toValue)),
    ("tools", .array i.tools), ("tool_calls", .array (i.toolCalls.map ToolCall.toValue)),
    ("memory_snap", .bytes i.memorySnap), ("context_t", .bigint i.contextT), ("vrf_seed", .bytes i.vrfSeed),
    ("policy_id", .bytes i.policyId)]

def CanonicalOutput.toValue (o : CanonicalOutput) : Value :=
  objectLit ([("decision", o.decision), ("reasoning", o.reasoning.toValue),
    ("tool_intents", .array (o.toolIntents.map ToolIntent.toValue)), ("model_id", .bytes o.modelId),
    ("sampling", o.sampling.toValue)] ++ (o.selfScore.map fun n => ("self_score", Value.number n)).toList)

/-! ## `buildThoughtCommitment` -/

structure TraceManifestEntry where
  name : JsString
  hash : Bytes

structure ThoughtCommitment where
  inputCommitment : Bytes32
  outputCommitment : Bytes32
  traceManifest : List TraceManifestEntry
  traceManifestHash : Bytes32

/-- The checks of the parts, from the index `i`. -/
def checkParts : Nat → List TraceManifestEntry → Except Thrown Unit
  | _, [] => .ok ()
  | i, p :: parts => do
    require (p.name ≠ []) (.error s!"trace manifest entry {i}: name must be a non-empty string")
    require (p.hash.length = 32) (.error s!"trace manifest entry {i} ({p.name.text}): hash must be 32 bytes")
    checkParts (i + 1) parts

/-- The manifest as an array of pairs. -/
def manifestValue (parts : List TraceManifestEntry) : Value :=
  .array (parts.map fun p => .array [.string p.name, .bytes p.hash])

def buildThoughtCommitment (lib : Library) (input output : Value) (traceParts : List TraceManifestEntry) :
    Except Thrown ThoughtCommitment := do
  let validatedInput ← (validateCanonicalInput input).mapError .schema
  let validatedOutput ← (validateCanonicalOutput output).mapError .schema
  let inputCommitment ← lib.hashCommitment validatedInput.toValue
  let outputCommitment ← lib.hashCommitment validatedOutput.toValue
  checkParts 0 traceParts
  let traceManifestHash ← lib.hashCommitment (manifestValue traceParts)
  return { inputCommitment, outputCommitment, traceManifest := traceParts, traceManifestHash }

end ProofOfThought.Sdk
