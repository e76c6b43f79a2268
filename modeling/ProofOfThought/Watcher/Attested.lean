import ProofOfThought.Watcher.Verify

/-!
# The attested regime

The structure of a TDX quote, the report data it carries, and what it is compared with. The certificate chain is not
checked. Every index into the quote carries the proof that it is in range.
-/

namespace ProofOfThought.Watcher

open Base
open Program (Bytes32)

/-! ## Quotes -/

structure TdxQuoteHeader where
  version : UInt16
  attestationKeyType : UInt16
  teeType : UInt32
  qeSvn : UInt16
  pceSvn : UInt16
  qeVendorId : List.Vector UInt8 16
  userData : List.Vector UInt8 20

def TDX_HEADER_LEN : Nat := 48

def TDX_BODY_LEN : Nat := 584

def TDX_REPORT_DATA_OFFSET_IN_BODY : Nat := 520

def TDX_REPORT_DATA_LEN : Nat := 64

inductive TdxParseError where
  | tooShort (length : Nat)
  | unsupportedVersion (version : UInt16)
  | unsupportedAkt (attestationKeyType : UInt16)
  | unsupportedTeeType
  | missingBody
  | missingSignature
  deriving DecidableEq

/-- `u16::from_le_bytes` at an offset. -/
def u16At (raw : Bytes) (off : Nat) (h : off + 2 ≤ raw.length) : UInt16 :=
  UInt16.ofNat (ofLe (slice raw off 2 h).toList)

/-- `u32::from_le_bytes` at an offset. -/
def u32At (raw : Bytes) (off : Nat) (h : off + 4 ≤ raw.length) : UInt32 :=
  UInt32.ofNat (ofLe (slice raw off 4 h).toList)

/-- The fields of the header. -/
def TdxQuoteHeader.ofBytes (raw : Bytes) (h : TDX_HEADER_LEN ≤ raw.length) : TdxQuoteHeader where
  version := u16At raw 0 (by unfold TDX_HEADER_LEN at h; omega)
  attestationKeyType := u16At raw 2 (by unfold TDX_HEADER_LEN at h; omega)
  teeType := u32At raw 4 (by unfold TDX_HEADER_LEN at h; omega)
  qeSvn := u16At raw 8 (by unfold TDX_HEADER_LEN at h; omega)
  pceSvn := u16At raw 10 (by unfold TDX_HEADER_LEN at h; omega)
  qeVendorId := slice raw 12 16 (by unfold TDX_HEADER_LEN at h; omega)
  userData := slice raw 28 20 (by unfold TDX_HEADER_LEN at h; omega)

/-- The header, and the body and signature after it. -/
def parseTdxHeader (raw : Bytes) : Except TdxParseError (TdxQuoteHeader × Bytes) :=
  if h : raw.length < TDX_HEADER_LEN then .error (.tooShort raw.length)
  else
    let header := TdxQuoteHeader.ofBytes raw (Nat.le_of_not_lt h)
    if header.version ≠ 4 ∧ header.version ≠ 5 then .error (.unsupportedVersion header.version)
    else if header.attestationKeyType ≠ 2 ∧ header.attestationKeyType ≠ 3 then
      .error (.unsupportedAkt header.attestationKeyType)
    else if header.teeType ≠ 0x81 then .error .unsupportedTeeType
    else .ok (header, raw.drop TDX_HEADER_LEN)

/-- The report data within the body. -/
def extractReportData (bodyAndSig : Bytes) : Except TdxParseError (List.Vector UInt8 TDX_REPORT_DATA_LEN) :=
  if h : bodyAndSig.length < TDX_BODY_LEN then .error .missingBody
  else
    .ok (slice (bodyAndSig.take TDX_BODY_LEN) TDX_REPORT_DATA_OFFSET_IN_BODY TDX_REPORT_DATA_LEN (by
      rw [List.length_take]
      unfold TDX_BODY_LEN TDX_REPORT_DATA_OFFSET_IN_BODY TDX_REPORT_DATA_LEN at *
      omega))

/-- `H(input_commitment ‖ output_commitment ‖ vrf_seed)`, padded with zeros. -/
def expectedReportData (blake3 : Bytes → Bytes32) (inputCommitment outputCommitment vrfSeed : Bytes32) :
    List.Vector UInt8 TDX_REPORT_DATA_LEN :=
  let h := blake3 (inputCommitment.toList ++ outputCommitment.toList ++ vrfSeed.toList)
  ⟨h.toList ++ List.replicate 32 0, by simp [TDX_REPORT_DATA_LEN]⟩

def validateQuoteStructure (raw : Bytes) : Except TdxParseError TdxQuoteHeader := do
  let (header, rest) ← parseTdxHeader raw
  require (TDX_BODY_LEN ≤ rest.length) .missingBody
  require (rest.length ≠ TDX_BODY_LEN) .missingSignature
  return header

/-! ## The verifier -/

structure AttestedVerifier where
  trustedRootCas : List Bytes32

def AttestedVerifier.withTestCas : AttestedVerifier := ⟨[List.Vector.replicate 32 0]⟩

def AttestedVerifier.verify (v : AttestedVerifier) (blake3 : Bytes → Bytes32) (event : ThoughtSubmittedEvent)
    (bundle : TraceBundle) : VerifyOutcome :=
  match bundle.attestation with
  | none => .inconclusive "no attestation present in trace bundle"
  | some quote =>
    match validateQuoteStructure quote with
    | .error _ => .mismatch .outputMismatch event.traceUri
    | .ok _ =>
      match extractReportData (quote.drop TDX_HEADER_LEN) with
      | .error _ => .mismatch .outputMismatch event.traceUri
      | .ok reportData =>
        if reportData ≠ expectedReportData blake3 event.inputCommitment event.outputCommitment event.vrfSeed then
          .mismatch .outputMismatch event.traceUri
        else if v.trustedRootCas.isEmpty then .inconclusive "no trusted TEE root CAs configured"
        else .matched

variable {v : AttestedVerifier} {blake3 : Bytes → Bytes32} {event : ThoughtSubmittedEvent} {bundle : TraceBundle}

theorem attested_eq_matched : v.verify blake3 event bundle = .matched ↔ ∃ quote header,
    bundle.attestation = some quote ∧ validateQuoteStructure quote = .ok header ∧
      extractReportData (quote.drop TDX_HEADER_LEN) =
        .ok (expectedReportData blake3 event.inputCommitment event.outputCommitment event.vrfSeed) ∧
      v.trustedRootCas ≠ [] := by
  unfold AttestedVerifier.verify
  cases bundle.attestation with
  | none => simp
  | some quote =>
    dsimp only
    cases hq : validateQuoteStructure quote with
    | error e => simp [hq]
    | ok header =>
      dsimp only
      cases hr : extractReportData (quote.drop TDX_HEADER_LEN) with
      | error e => simp [hr]
      | ok reportData =>
        dsimp only
        split
        · simp_all
        · split <;> simp_all

end ProofOfThought.Watcher
