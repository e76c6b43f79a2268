import Mathlib.Logic.Function.Basic
import ProofOfThought.Base.Bytes
import ProofOfThought.Program.Keys

/-!
# Events and trace bundles

What the watcher reads: the `ThoughtSubmitted` event of the log, and the trace bundle behind its URI. `blake3` and the
CBOR reader are parameters; `Value` is the reader's data model.
-/

namespace ProofOfThought.Watcher

open Base
open Program (Bytes32)

/-! ## The event -/

/-- `solana_sdk::Pubkey`. -/
abbrev Pubkey := Bytes32

structure ThoughtSubmittedEvent where
  agent : Pubkey
  thoughtPda : Pubkey
  modelId : Bytes32
  inputCommitment : Bytes32
  outputCommitment : Bytes32
  traceUriHash : Bytes32
  vrfSeed : Bytes32
  policyId : Bytes32
  slot : UInt64
  traceUri : String
  deriving DecidableEq

/-- BLAKE3 on what the samples hash: no bytes, a URI, two samples, and a triple of commitments. -/
def Sample.digests : List (Bytes × Bytes32) :=
  [([], ⟨[175, 19, 73, 185, 245, 249, 161, 166, 160, 64, 77, 234, 54, 220, 201, 73, 155, 203, 37, 201, 173, 193, 18,
      183, 204, 154, 147, 202, 228, 31, 50, 98], rfl⟩),
    (utf8 "ar://trace", ⟨[21, 224, 84, 96, 249, 81, 175, 206, 198, 42, 77, 125, 97, 103, 154, 7, 122, 127, 202, 75, 227,
      79, 10, 251, 174, 253, 134, 106, 230, 18, 119, 251], rfl⟩),
    (List.replicate 32 1 ++ List.replicate 32 2, ⟨[141, 103, 188, 120, 54, 209, 40, 177, 8, 190, 44, 150, 85, 56, 243,
      123, 188, 238, 62, 117, 3, 227, 94, 88, 251, 176, 68, 100, 50, 224, 82, 6], rfl⟩),
    (List.replicate 32 2 ++ List.replicate 32 3 ++ List.replicate 32 5, ⟨[184, 2, 99, 139, 210, 68, 52, 100, 134, 127,
      99, 140, 105, 97, 170, 63, 188, 129, 170, 26, 134, 199, 0, 29, 216, 163, 115, 123, 65, 225, 218, 194], rfl⟩)]

def Sample.digest (bs : Bytes) : Bytes32 :=
  ((digests.find? (·.1 = bs)).map Prod.snd).getD (List.Vector.replicate 32 0)

/-- An event with the given commitments. -/
def Sample.event (inputCommitment outputCommitment : Bytes32) : ThoughtSubmittedEvent where
  agent := List.Vector.replicate 32 10
  thoughtPda := List.Vector.replicate 32 11
  modelId := List.Vector.replicate 32 1
  inputCommitment := inputCommitment
  outputCommitment := outputCommitment
  traceUriHash := Sample.digest (utf8 "ar://trace")
  vrfSeed := List.Vector.replicate 32 5
  policyId := List.Vector.replicate 32 6
  slot := 1
  traceUri := "ar://trace"

/-- A digest other than `x`. -/
def Sample.other (x : Bytes32) : Bytes32 :=
  if x = List.Vector.replicate 32 0 then List.Vector.replicate 32 1 else List.Vector.replicate 32 0

theorem Sample.ne_other (x : Bytes32) : x ≠ Sample.other x := by
  unfold Sample.other
  split
  · rename_i h
    rw [h]
    decide
  · assumption

/-- Mirrors the program's enum: the numbers are the wire format. -/
inductive ChallengeClaim where
  | modelMismatch
  | outputMismatch
  | inputOmission
  | replay
  | staleVRF
  | attestationInvalid
  | inconsistentCommitments
  deriving DecidableEq

def ChallengeClaim.toU8 : ChallengeClaim → UInt8
  | .modelMismatch => 0
  | .outputMismatch => 1
  | .inputOmission => 2
  | .replay => 3
  | .staleVRF => 4
  | .attestationInvalid => 5
  | .inconsistentCommitments => 6

/-! ## CBOR values -/

/-- `ciborium::Value`; floats by their bits. -/
inductive Value where
  | integer (n : Int)
  | bytes (b : Bytes)
  | float (bits : UInt64)
  | text (s : String)
  | bool (b : Bool)
  | null
  | tag (t : UInt64) (v : Value)
  | array (vs : List Value)
  | map (entries : List (Value × Value))

/-- `==` of `f64`: NaN equals nothing, and the two zeros are equal. -/
def f64Eq (a b : UInt64) : Bool :=
  let isNan (x : UInt64) : Bool := decide ((0xFFE0000000000000 : UInt64) < x <<< 1)
  !isNan a && !isNan b && (a == b || a <<< 1 == 0 && b <<< 1 == 0)

mutual

/-- The derived `PartialEq`. -/
def Value.eq : Value → Value → Bool
  | .integer a, .integer b => a == b
  | .bytes a, .bytes b => a == b
  | .float a, .float b => f64Eq a b
  | .text a, .text b => a == b
  | .bool a, .bool b => a == b
  | .null, .null => true
  | .tag s a, .tag t b => s == t && Value.eq a b
  | .array as, .array bs => Value.eqArray as bs
  | .map as, .map bs => Value.eqMap as bs
  | _, _ => false

def Value.eqArray : List Value → List Value → Bool
  | [], [] => true
  | a :: as, b :: bs => Value.eq a b && Value.eqArray as bs
  | _, _ => false

def Value.eqMap : List (Value × Value) → List (Value × Value) → Bool
  | [], [] => true
  | (k, v) :: as, (l, w) :: bs => Value.eq k l && Value.eq v w && Value.eqMap as bs
  | _, _ => false

end

def Value.asMap : Value → Option (List (Value × Value))
  | .map entries => some entries
  | _ => none

def Value.asText : Value → Option String
  | .text s => some s
  | _ => none

def Value.asBytes : Value → Option Bytes
  | .bytes b => some b
  | _ => none

/-! ## Trace bundles -/

inductive FetchError where
  | http (message : String)
  | badManifest (message : String)
  | uriHashMismatch (expected actual : Bytes32)
  | unsupportedScheme (uri : String)
  | notFound (url : String)
  deriving DecidableEq

structure TraceBundle where
  rawCanonicalOutput : Bytes
  rawCanonicalInput : Bytes
  /-- The TEE quote, for the attested regime. -/
  attestation : Option Bytes
  /-- `canonical_output`, decoded. -/
  manifest : Value

/-- `blake3(uri) == expected`. -/
def verifyUriHash (blake3 : Bytes → Bytes32) (uri : String) (expected : Bytes32) : Except FetchError Unit :=
  let actual := blake3 (utf8 uri)
  if actual ≠ expected then .error (.uriHashMismatch expected actual) else .ok ()

theorem verifyUriHash_eq_ok {blake3 : Bytes → Bytes32} {uri : String} {expected : Bytes32} :
    verifyUriHash blake3 uri expected = .ok () ↔ blake3 (utf8 uri) = expected := by
  unfold verifyUriHash
  dsimp only
  split <;> simp_all

/-- The entries of the manifest by name, the last one of a name winning. -/
def manifestFields : List (Value × Value) → (String → Option Value) → Except FetchError (String → Option Value)
  | [], fields => .ok fields
  | (k, v) :: entries, fields => do
    let key ← okOr k.asText (.badManifest "non-string key")
    manifestFields entries (Function.update fields key (some v))

/-- The trace bundle of a manifest blob. `fromReader` decodes the first CBOR item of its argument. -/
def decodeManifest (fromReader : Bytes → Option Value) (bytes : Bytes) : Except FetchError TraceBundle := do
  let value ← okOr (fromReader bytes) (.badManifest "cbor decode")
  let map ← okOr value.asMap (.badManifest "manifest not a map")
  let fields ← manifestFields map (fun _ => none)
  let rawCanonicalInput ← okOr ((fields "canonical_input").bind Value.asBytes)
    (.badManifest "missing canonical_input")
  let rawCanonicalOutput ← okOr ((fields "canonical_output").bind Value.asBytes)
    (.badManifest "missing canonical_output")
  let attestation := (fields "attestation").bind Value.asBytes
  -- the raw bytes are enough for the strict regime, so an undecodable output is no error
  let manifest := (fromReader rawCanonicalOutput).getD .null
  return { rawCanonicalOutput, rawCanonicalInput, attestation, manifest }

end ProofOfThought.Watcher
