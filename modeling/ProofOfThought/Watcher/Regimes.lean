import ProofOfThought.Watcher.Attested

/-!
# What a match confirms

The four regimes, and for each exactly what has been checked when it answers `Match` (`match_confirms`). The output
commitment is bound to the trace by the byte comparison alone; the canonical input of the trace is bound to the input
commitment by no regime (`match_unbound`).
-/

namespace ProofOfThought.Watcher

open Base
open Program (Bytes32)

inductive Regime where
  | byteCompare
  | strict (engine : LocalInferenceEngine)
  | soft (v : SoftVerifier)
  | attested (v : AttestedVerifier)

section

variable (blake3 : Bytes → Bytes32) (event : ThoughtSubmittedEvent) (bundle : TraceBundle)

def Regime.verify : Regime → VerifyOutcome
  | .byteCompare => ByteCompareVerifier.verify blake3 event bundle
  | .strict engine => StrictVerifier.verify blake3 event bundle engine
  | .soft v => v.verify event bundle
  | .attested v => v.verify blake3 event bundle

/-- What has been checked when the regime answers `Match`. -/
def Regime.Confirmed : Regime → Prop
  | .byteCompare => blake3 bundle.rawCanonicalOutput = event.outputCommitment
  | .strict engine => blake3 bundle.rawCanonicalOutput = event.outputCommitment ∧
      ∃ bytes, engine event.modelId bundle.rawCanonicalInput event.vrfSeed = .output bytes ∧
        blake3 bytes = event.outputCommitment
  | .soft v => ∃ decision reference, StructuralJsonEquiv.extractDecision bundle.manifest = some decision ∧
      v.structural.referenceDecision = some reference ∧ decision.eq reference = true
  | .attested v => ∃ quote header, bundle.attestation = some quote ∧ validateQuoteStructure quote = .ok header ∧
      extractReportData (quote.drop TDX_HEADER_LEN) =
        .ok (expectedReportData blake3 event.inputCommitment event.outputCommitment event.vrfSeed) ∧
      v.trustedRootCas ≠ []

/-- A match of the regime ties the output of the trace to the output commitment. -/
def Regime.BindsOutput (r : Regime) : Prop :=
  ∀ event bundle, r.verify blake3 event bundle = .matched → blake3 bundle.rawCanonicalOutput = event.outputCommitment

/-- A match of the regime ties the input of the trace to the input commitment. -/
def Regime.BindsInput (r : Regime) : Prop :=
  ∀ event bundle, r.verify blake3 event bundle = .matched → blake3 bundle.rawCanonicalInput = event.inputCommitment

/-- **A match confirms exactly what its regime checks.** -/
theorem match_confirms (r : Regime) : r.verify blake3 event bundle = .matched ↔ r.Confirmed blake3 event bundle := by
  cases r with
  | byteCompare => exact byteCompare_eq_matched
  | strict engine => exact strict_eq_matched
  | soft v => exact soft_eq_matched.trans structural_eq_matched
  | attested v => exact attested_eq_matched

end

/-! ## Traces of another thought -/

namespace Sample

/-- A well-formed quote with the given report data. -/
def quote (reportData : List.Vector UInt8 64) : Bytes :=
  [4, 0, 2, 0, 0x81, 0, 0, 0, 1, 0, 1, 0] ++ List.replicate 16 0xCC ++ List.replicate 20 0 ++
    (List.replicate 520 0 ++ (reportData.toList ++ List.replicate 64 0))

theorem validate_quote (reportData : List.Vector UInt8 64) :
    ∃ header, validateQuoteStructure (quote reportData) = .ok header := by
  have hlen : (quote reportData).length = 696 := by
    simp only [quote, List.length_append, List.length_replicate, List.Vector.toList_length]
    rfl
  have hparse : ∃ header, parseTdxHeader (quote reportData) = .ok (header, (quote reportData).drop 48) := by
    refine ⟨.ofBytes (quote reportData) (by rw [hlen]; decide), ?_⟩
    unfold parseTdxHeader
    rw [dif_neg (by rw [hlen]; decide)]
    rfl
  obtain ⟨header, hp⟩ := hparse
  refine ⟨header, ?_⟩
  unfold validateQuoteStructure
  simp only [seq_ok_iff, require_eq_ok, pure_ok_iff, hp, Except.ok.injEq, Prod.exists, Prod.mk.injEq]
  refine ⟨header, _, ⟨rfl, rfl⟩, (), ?_, (), ?_, rfl⟩
  · rw [List.length_drop, hlen]; decide
  · rw [List.length_drop, hlen]; decide

theorem extract_quote (reportData : List.Vector UInt8 64) :
    extractReportData ((quote reportData).drop TDX_HEADER_LEN) = .ok reportData := by
  have hdrop : (quote reportData).drop TDX_HEADER_LEN =
      List.replicate 520 0 ++ (reportData.toList ++ List.replicate 64 0) := rfl
  have htake : (List.replicate 520 0 ++ (reportData.toList ++ List.replicate 64 0)).take TDX_BODY_LEN =
      List.replicate 520 0 ++ (reportData.toList ++ []) := by
    rw [← List.append_assoc, List.append_nil]
    exact List.take_left' (by rw [List.length_append, List.length_replicate, List.Vector.toList_length]; rfl)
  have hlen : ¬(List.replicate 520 0 ++ (reportData.toList ++ List.replicate 64 0)).length < TDX_BODY_LEN := by
    rw [List.length_append, List.length_append, List.length_replicate, List.Vector.toList_length,
      List.length_replicate]
    decide
  unfold extractReportData
  simp only [hdrop, dif_neg hlen, htake]
  exact congrArg Except.ok (slice_append List.length_replicate reportData [] _)

end Sample

open Sample in
/-- Whatever the hash: no regime binds the input of the trace, and the soft and attested regimes not its output. -/
theorem match_unbound : ¬∃ blake3 : Bytes → Bytes32,
    Regime.byteCompare.BindsInput blake3 ∨ (Regime.strict fun _ _ _ => .output []).BindsInput blake3 ∨
      (Regime.soft ⟨⟨some (.text "buy")⟩, ⟨[], 0⟩⟩).BindsInput blake3 ∨
      (Regime.soft ⟨⟨some (.text "buy")⟩, ⟨[], 0⟩⟩).BindsOutput blake3 ∨
      (Regime.attested .withTestCas).BindsInput blake3 ∨ (Regime.attested .withTestCas).BindsOutput blake3 := by
  intro hx
  rcases hx with ⟨blake3, h⟩
  -- a trace with empty input and output, whatever else it carries
  let x := blake3 []
  let bad := other x
  let bundle : TraceBundle := ⟨[], [], some (quote (expectedReportData blake3 bad bad (event bad bad).vrfSeed)),
    .map [(.text "decision", .text "buy")]⟩
  have hstrict : StrictVerifier.verify blake3 (event bad x) bundle (fun _ _ _ => .output []) = .matched :=
    strict_eq_matched.2 ⟨rfl, [], rfl, rfl⟩
  have hsoft : (SoftVerifier.mk ⟨some (.text "buy")⟩ ⟨[], 0⟩).verify (event bad bad) bundle = .matched := by
    refine soft_eq_matched.2 (structural_eq_matched.2 ⟨_, _, rfl, rfl, ?_⟩)
    simp [Value.eq]
  have hattested : AttestedVerifier.withTestCas.verify blake3 (event bad bad) bundle = .matched := by
    obtain ⟨header, hq⟩ := validate_quote (expectedReportData blake3 bad bad (event bad bad).vrfSeed)
    exact attested_eq_matched.2 ⟨_, header, rfl, hq, extract_quote _, by decide⟩
  rcases h with h | h | h | h | h | h
  · exact ne_other x (h (event bad x) bundle (byteCompare_eq_matched.2 rfl))
  · exact ne_other x (h (event bad x) bundle hstrict)
  · exact ne_other x (h (event bad bad) bundle hsoft)
  · exact ne_other x (h (event bad bad) bundle hsoft)
  · exact ne_other x (h (event bad bad) bundle hattested)
  · exact ne_other x (h (event bad bad) bundle hattested)

end ProofOfThought.Watcher
