import ProofOfThought.Watcher.Trace

/-!
# The strict and soft regimes

A verifier looks at the event and the trace bundle and answers `VerifyOutcome`. `blake3` is a parameter, as are the
inference engine and the committee.
-/

namespace ProofOfThought.Watcher

open Base
open Program (Bytes32)

inductive VerifyOutcome where
  /-- `Match` -/
  | matched
  | mismatch (claim : ChallengeClaim) (evidenceUri : String)
  | inconclusive (reason : String)
  deriving DecidableEq

section Strict

variable (blake3 : Bytes → Bytes32) (event : ThoughtSubmittedEvent) (bundle : TraceBundle)

/-! ## Strict -/

def ByteCompareVerifier.verify : VerifyOutcome :=
  if blake3 bundle.rawCanonicalOutput = event.outputCommitment then .matched
  else .mismatch .inconsistentCommitments event.traceUri

inductive EngineResult where
  | output (bytes : Bytes)
  | unavailable (reason : String)

/-- `execute(model_id, canonical_input, vrf_seed)`. -/
abbrev LocalInferenceEngine := Bytes32 → Bytes → Bytes32 → EngineResult

def NoopEngine : LocalInferenceEngine := fun _ _ _ =>
  .unavailable "re-exec disabled in MVP — see docs/future-work.md"

def StrictVerifier.verify (engine : LocalInferenceEngine) : VerifyOutcome :=
  -- 1. the byte-compare gate
  match ByteCompareVerifier.verify blake3 event bundle with
  | .mismatch claim evidenceUri => .mismatch claim evidenceUri
  | .inconclusive reason => .inconclusive reason
  | .matched =>
    -- 2. re-execution
    match engine event.modelId bundle.rawCanonicalInput event.vrfSeed with
    | .unavailable reason => .inconclusive reason
    | .output bytes =>
      if blake3 bytes = event.outputCommitment then .matched else .mismatch .outputMismatch event.traceUri

variable {blake3 event bundle}

theorem byteCompare_eq_matched : ByteCompareVerifier.verify blake3 event bundle = .matched ↔
    blake3 bundle.rawCanonicalOutput = event.outputCommitment := by
  unfold ByteCompareVerifier.verify
  split <;> simp_all

theorem strict_eq_matched {engine : LocalInferenceEngine} :
    StrictVerifier.verify blake3 event bundle engine = .matched ↔
      blake3 bundle.rawCanonicalOutput = event.outputCommitment ∧
        ∃ bytes, engine event.modelId bundle.rawCanonicalInput event.vrfSeed = .output bytes ∧
          blake3 bytes = event.outputCommitment := by
  rw [← byteCompare_eq_matched]
  unfold StrictVerifier.verify
  cases ByteCompareVerifier.verify blake3 event bundle with
  | mismatch claim uri => simp
  | inconclusive reason => simp
  | matched =>
    cases engine event.modelId bundle.rawCanonicalInput event.vrfSeed with
    | unavailable reason => simp
    | output bytes =>
      dsimp only
      split <;> simp_all

/-- Without re-execution the strict regime accuses where the byte comparison does, and confirms nothing. -/
theorem strict_noop : StrictVerifier.verify blake3 event bundle NoopEngine =
    match ByteCompareVerifier.verify blake3 event bundle with
    | .matched => .inconclusive "re-exec disabled in MVP — see docs/future-work.md"
    | outcome => outcome := by
  unfold StrictVerifier.verify
  cases ByteCompareVerifier.verify blake3 event bundle with
  | matched => rfl
  | mismatch claim uri => rfl
  | inconclusive reason => rfl

theorem strict_noop_ne_matched : StrictVerifier.verify blake3 event bundle NoopEngine ≠ .matched := by
  intro h
  obtain ⟨-, bytes, hbytes, -⟩ := strict_eq_matched.1 h
  cases hbytes

end Strict

/-! ## Soft -/

/-- `StructuralJsonEquiv`, with the decision to compare against, if there is one. -/
structure StructuralJsonEquiv where
  referenceDecision : Option Value

/-- The first `decision` entry of a CBOR map. -/
def StructuralJsonEquiv.extractDecision (manifest : Value) : Option Value :=
  manifest.asMap.bind fun map => (map.find? fun e => e.1.asText == some "decision").map Prod.snd

def StructuralJsonEquiv.verify (v : StructuralJsonEquiv) (event : ThoughtSubmittedEvent) (bundle : TraceBundle) :
    VerifyOutcome :=
  match StructuralJsonEquiv.extractDecision bundle.manifest with
  | none => .mismatch .outputMismatch event.traceUri
  | some decision =>
    match v.referenceDecision with
    | none => .inconclusive "no reference decision available — committee regime required"
    | some reference => if decision.eq reference then .matched else .mismatch .outputMismatch event.traceUri

inductive CommitteeVote where
  | same
  | different
  | unsure

/-- `entails_same_action(output_a, output_b)`. -/
abbrev CommitteeMember := Value → Value → CommitteeVote

structure SemanticCommitteeEquiv where
  members : List CommitteeMember
  quorum : Nat

/-- The committee is not asked: no second output exists to compare. -/
def SemanticCommitteeEquiv.verify (v : SemanticCommitteeEquiv) : VerifyOutcome :=
  if v.members.isEmpty then .inconclusive "empty committee"
  else .inconclusive "semantic committee re-execution not implemented (NoopMember)"

/-- The soft regime: the structural comparison, then the committee. -/
structure SoftVerifier where
  structural : StructuralJsonEquiv
  committee : SemanticCommitteeEquiv

def SoftVerifier.verify (v : SoftVerifier) (event : ThoughtSubmittedEvent) (bundle : TraceBundle) : VerifyOutcome :=
  match v.structural.verify event bundle with
  | .matched => .matched
  | .mismatch claim evidenceUri => .mismatch claim evidenceUri
  | .inconclusive _ => v.committee.verify

theorem committee_inconclusive (v : SemanticCommitteeEquiv) : ∃ reason, v.verify = .inconclusive reason := by
  unfold SemanticCommitteeEquiv.verify
  split <;> exact ⟨_, rfl⟩

theorem structural_eq_matched {v : StructuralJsonEquiv} {event : ThoughtSubmittedEvent} {bundle : TraceBundle} :
    v.verify event bundle = .matched ↔ ∃ decision reference,
      StructuralJsonEquiv.extractDecision bundle.manifest = some decision ∧
        v.referenceDecision = some reference ∧ decision.eq reference = true := by
  unfold StructuralJsonEquiv.verify
  cases StructuralJsonEquiv.extractDecision bundle.manifest with
  | none => simp
  | some decision =>
    cases v.referenceDecision with
    | none => simp
    | some reference =>
      dsimp only
      split <;> simp_all

/-- The committee confirms nothing: a soft match is a structural one. -/
theorem soft_eq_matched {v : SoftVerifier} {event : ThoughtSubmittedEvent} {bundle : TraceBundle} :
    v.verify event bundle = .matched ↔ v.structural.verify event bundle = .matched := by
  obtain ⟨reason, hc⟩ := committee_inconclusive v.committee
  unfold SoftVerifier.verify
  cases v.structural.verify event bundle with
  | matched => simp
  | mismatch claim uri => simp
  | inconclusive reason => simp [hc]

end ProofOfThought.Watcher
