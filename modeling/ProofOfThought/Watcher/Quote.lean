import ProofOfThought.Base.Panic
import ProofOfThought.Watcher.Regimes

/-!
# Quotes as bytes

The attested regime with every index as the code computes it: it does not panic (`verify_eq`), it answers `Match` on
exactly the quotes laid out for the commitments (`QuoteFor`), and so on no other commitments with the same quote
(`quote_binds_triple`).
-/

namespace ProofOfThought.Watcher

open Base Panicking
open Program (Bytes32)

/-! ## The verifier as written -/

namespace Indexed

/-- `u16::from_le_bytes([raw[i], raw[i + 1]])`. -/
def u16At {ε : Type} (raw : Bytes) (i : Nat) : Panicking ε UInt16 := do
  let b0 ← byteAt raw i
  let b1 ← byteAt raw (i + 1)
  return UInt16.ofNat (ofLe [b0, b1])

/-- `u32::from_le_bytes([raw[i], raw[i + 1], raw[i + 2], raw[i + 3]])`. -/
def u32At {ε : Type} (raw : Bytes) (i : Nat) : Panicking ε UInt32 := do
  let b0 ← byteAt raw i
  let b1 ← byteAt raw (i + 1)
  let b2 ← byteAt raw (i + 2)
  let b3 ← byteAt raw (i + 3)
  return UInt32.ofNat (ofLe [b0, b1, b2, b3])

/-- `copy_from_slice(&raw[lo..hi])` into a new array of `n` bytes. -/
def arrayAt {ε : Type} (n : Nat) (raw : Bytes) (lo hi : Nat) : Panicking ε (List.Vector UInt8 n) := do
  let s ← sliceRange raw lo hi
  copyFromSlice n s

def parseTdxHeader (raw : Bytes) : Panicking TdxParseError (TdxQuoteHeader × Bytes) := do
  if raw.length < TDX_HEADER_LEN then throw (.tooShort raw.length)
  else
    let version ← u16At raw 0
    let attestationKeyType ← u16At raw 2
    let teeType ← u32At raw 4
    let qeSvn ← u16At raw 8
    let pceSvn ← u16At raw 10
    let qeVendorId ← arrayAt 16 raw 12 28
    let userData ← arrayAt 20 raw 28 48
    if version ≠ 4 ∧ version ≠ 5 then throw (.unsupportedVersion version)
    else if attestationKeyType ≠ 2 ∧ attestationKeyType ≠ 3 then throw (.unsupportedAkt attestationKeyType)
    else if teeType ≠ 0x81 then throw .unsupportedTeeType
    else
      let rest ← sliceFrom raw TDX_HEADER_LEN
      return ({ version, attestationKeyType, teeType, qeSvn, pceSvn, qeVendorId, userData }, rest)

def extractReportData (bodyAndSig : Bytes) : Panicking TdxParseError (List.Vector UInt8 TDX_REPORT_DATA_LEN) := do
  if bodyAndSig.length < TDX_BODY_LEN then throw .missingBody
  else
    let body ← sliceTo bodyAndSig TDX_BODY_LEN
    arrayAt TDX_REPORT_DATA_LEN body TDX_REPORT_DATA_OFFSET_IN_BODY
      (TDX_REPORT_DATA_OFFSET_IN_BODY + TDX_REPORT_DATA_LEN)

def validateQuoteStructure (raw : Bytes) : Panicking TdxParseError TdxQuoteHeader := do
  let (header, rest) ← parseTdxHeader raw
  if rest.length < TDX_BODY_LEN then throw .missingBody
  else if rest.length = TDX_BODY_LEN then throw .missingSignature
  else return header

/-- `none` is a panic. -/
def AttestedVerifier.verify (v : AttestedVerifier) (blake3 : Bytes → Bytes32) (event : ThoughtSubmittedEvent)
    (bundle : TraceBundle) : Option VerifyOutcome :=
  match bundle.attestation with
  | none => some (.inconclusive "no attestation present in trace bundle")
  | some quote => do
    match ← (validateQuoteStructure quote).run with
    | .error _ => return .mismatch .outputMismatch event.traceUri
    | .ok _ =>
      match ← (sliceFrom quote TDX_HEADER_LEN >>= extractReportData).run with
      | .error _ => return .mismatch .outputMismatch event.traceUri
      | .ok reportData =>
        if reportData ≠ expectedReportData blake3 event.inputCommitment event.outputCommitment event.vrfSeed then
          return .mismatch .outputMismatch event.traceUri
        else if v.trustedRootCas.isEmpty then return .inconclusive "no trusted TEE root CAs configured"
        else return .matched

/-! ## No panic -/

section

variable {ε : Type} {raw : Bytes}

theorem u16At_eq {i : Nat} (h : i + 2 ≤ raw.length) :
    (u16At raw i : Panicking ε UInt16) = pure (Watcher.u16At raw i h) := by
  have hs : (slice raw i 2 h).toList = [raw[i], raw[i + 1]] := by
    show (raw.drop i).take 2 = _
    rw [List.drop_eq_getElem_cons (by omega), List.drop_eq_getElem_cons (by omega)]
    rfl
  rw [u16At, byteAt_eq (by omega), byteAt_eq (by omega), Watcher.u16At, hs]
  rfl

theorem u32At_eq {i : Nat} (h : i + 4 ≤ raw.length) :
    (u32At raw i : Panicking ε UInt32) = pure (Watcher.u32At raw i h) := by
  have hs : (slice raw i 4 h).toList = [raw[i], raw[i + 1], raw[i + 2], raw[i + 3]] := by
    show (raw.drop i).take 4 = _
    rw [List.drop_eq_getElem_cons (by omega), List.drop_eq_getElem_cons (by omega),
      List.drop_eq_getElem_cons (by omega), List.drop_eq_getElem_cons (by omega)]
    rfl
  rw [u32At, byteAt_eq (by omega), byteAt_eq (by omega), byteAt_eq (by omega), byteAt_eq (by omega), Watcher.u32At,
    hs]
  rfl

theorem arrayAt_eq {n lo : Nat} (h : lo + n ≤ raw.length) :
    (arrayAt n raw lo (lo + n) : Panicking ε (List.Vector UInt8 n)) = pure (slice raw lo n h) := by
  rw [arrayAt, sliceRange_eq h, pure_bind, copyFromSlice_toList]

end

theorem parseTdxHeader_simulates (raw : Bytes) : Simulates Eq (parseTdxHeader raw) (Watcher.parseTdxHeader raw) := by
  unfold parseTdxHeader Watcher.parseTdxHeader
  by_cases hlen : raw.length < TDX_HEADER_LEN
  · rw [if_pos hlen, dif_pos hlen]
    exact .error _
  · have h48 : 48 ≤ raw.length := Nat.le_of_not_lt hlen
    rw [if_neg hlen, dif_neg hlen, u16At_eq (by omega), pure_bind, u16At_eq (by omega), pure_bind,
      u32At_eq (by omega), pure_bind, u16At_eq (by omega), pure_bind, u16At_eq (by omega), pure_bind,
      arrayAt_eq (show 12 + 16 ≤ raw.length by omega), pure_bind, arrayAt_eq (show 28 + 20 ≤ raw.length by omega),
      pure_bind]
    refine .ite (fun _ => .error _) fun _ => .ite (fun _ => .error _) fun _ => .ite (fun _ => .error _) fun _ => ?_
    rw [sliceFrom_eq (Nat.le_of_not_lt hlen)]
    exact .ok rfl

theorem extractReportData_simulates (bodyAndSig : Bytes) :
    Simulates Eq (extractReportData bodyAndSig) (Watcher.extractReportData bodyAndSig) := by
  unfold extractReportData Watcher.extractReportData
  by_cases hlen : bodyAndSig.length < TDX_BODY_LEN
  · rw [if_pos hlen, dif_pos hlen]
    exact .error _
  · have hin : TDX_REPORT_DATA_OFFSET_IN_BODY + TDX_REPORT_DATA_LEN ≤ (bodyAndSig.take TDX_BODY_LEN).length := by
      rw [List.length_take_of_le (Nat.le_of_not_lt hlen)]
      decide
    rw [if_neg hlen, dif_neg hlen, sliceTo_eq (Nat.le_of_not_lt hlen), pure_bind, arrayAt_eq hin]
    exact .ok rfl

theorem validateQuoteStructure_simulates (raw : Bytes) :
    Simulates Eq (validateQuoteStructure raw) (Watcher.validateQuoteStructure raw) := by
  apply (parseTdxHeader_simulates raw).bind
  intro r r' hr
  subst hr
  obtain ⟨header, rest⟩ := r
  dsimp only
  by_cases h1 : rest.length < TDX_BODY_LEN
  · rw [if_pos h1, require, if_neg (Nat.not_le_of_lt h1)]
    exact .error _
  · rw [if_neg h1, require, if_pos (Nat.le_of_not_lt h1)]
    by_cases h2 : rest.length = TDX_BODY_LEN
    · rw [if_pos h2, require, if_neg (not_not.2 h2)]
      exact .error _
    · rw [if_neg h2, require, if_pos h2]
      exact .ok rfl

end Indexed

/-! ## The layout -/

/-- The header of a quote in a version and of a kind that are supported. -/
structure SupportedHeader (q : Bytes) : Prop where
  version : ofLe (q.take 2) = 4 ∨ ofLe (q.take 2) = 5
  attestationKeyType : ofLe ((q.drop 2).take 2) = 2 ∨ ofLe ((q.drop 2).take 2) = 3
  teeType : ofLe ((q.drop 4).take 4) = 0x81

section Layout

variable {q rest : Bytes} {header : TdxQuoteHeader}

theorem u16At_eq_iff {off : Nat} (h : off + 2 ≤ q.length) {k : Nat} (hk : k < 2 ^ 16) :
    u16At q off h = UInt16.ofNat k ↔ ofLe ((q.drop off).take 2) = k := by
  have hlt : ofLe (slice q off 2 h).toList < 2 ^ 16 := ofLe_toList_lt _
  rw [← UInt16.toNat_inj, u16At, UInt16.toNat_ofNat_of_lt' hk, UInt16.toNat_ofNat_of_lt' hlt]
  rfl

theorem u32At_eq_iff {off : Nat} (h : off + 4 ≤ q.length) {k : Nat} (hk : k < 2 ^ 32) :
    u32At q off h = UInt32.ofNat k ↔ ofLe ((q.drop off).take 4) = k := by
  have hlt : ofLe (slice q off 4 h).toList < 2 ^ 32 := ofLe_toList_lt _
  rw [← UInt32.toNat_inj, u32At, UInt32.toNat_ofNat_of_lt' hk, UInt32.toNat_ofNat_of_lt' hlt]
  rfl

theorem supported_iff (h : TDX_HEADER_LEN ≤ q.length) : SupportedHeader q ↔
    ¬((TdxQuoteHeader.ofBytes q h).version ≠ 4 ∧ (TdxQuoteHeader.ofBytes q h).version ≠ 5) ∧
      ¬((TdxQuoteHeader.ofBytes q h).attestationKeyType ≠ 2 ∧ (TdxQuoteHeader.ofBytes q h).attestationKeyType ≠ 3) ∧
        ¬(TdxQuoteHeader.ofBytes q h).teeType ≠ 0x81 := by
  have h48 : 48 ≤ q.length := h
  have h0 : 0 + 2 ≤ q.length := by omega
  have h2 : 2 + 2 ≤ q.length := by omega
  have h4 : 4 + 4 ≤ q.length := by omega
  have hv4 := u16At_eq_iff h0 (k := 4) (by decide)
  have hv5 := u16At_eq_iff h0 (k := 5) (by decide)
  have hk2 := u16At_eq_iff h2 (k := 2) (by decide)
  have hk3 := u16At_eq_iff h2 (k := 3) (by decide)
  have ht := u32At_eq_iff h4 (k := 0x81) (by decide)
  rw [List.drop_zero] at hv4 hv5
  simp only [not_and_or, not_not]
  constructor
  · intro h
    exact ⟨h.version.imp hv4.2 hv5.2, h.attestationKeyType.imp hk2.2 hk3.2, ht.2 h.teeType⟩
  · intro h
    exact ⟨h.1.imp hv4.1 hv5.1, h.2.1.imp hk2.1 hk3.1, ht.1 h.2.2⟩

theorem parseTdxHeader_eq_ok : parseTdxHeader q = .ok (header, rest) ↔
    SupportedHeader q ∧ (∃ h : TDX_HEADER_LEN ≤ q.length, header = .ofBytes q h) ∧ rest = q.drop TDX_HEADER_LEN := by
  unfold parseTdxHeader
  by_cases hlen : q.length < TDX_HEADER_LEN
  · rw [dif_pos hlen]
    simp only [reduceCtorEq, false_iff]
    intro h
    obtain ⟨-, ⟨hle, -⟩, -⟩ := h
    exact absurd hle (Nat.not_le_of_lt hlen)
  · have hle := Nat.le_of_not_lt hlen
    rw [dif_neg hlen, supported_iff hle]
    dsimp only
    rw [ite_error_eq_ok, ite_error_eq_ok, ite_error_eq_ok, Except.ok.injEq, Prod.mk.injEq]
    constructor
    · intro h
      obtain ⟨h1, h2, h3, rfl, rfl⟩ := h
      exact ⟨⟨h1, h2, h3⟩, ⟨hle, rfl⟩, rfl⟩
    · intro h
      obtain ⟨⟨h1, h2, h3⟩, ⟨_, rfl⟩, rfl⟩ := h
      exact ⟨h1, h2, h3, rfl, rfl⟩

/-- A well-formed quote has a supported header, a body, and something after the body. -/
theorem validateQuoteStructure_ok : (∃ header, validateQuoteStructure q = .ok header) ↔
    633 ≤ q.length ∧ SupportedHeader q := by
  simp only [validateQuoteStructure, seq_ok_iff, require_eq_ok, pure_ok_iff, Prod.exists, parseTdxHeader_eq_ok,
    exists_const]
  constructor
  · intro h
    obtain ⟨_, _, rest, ⟨hs, ⟨hlen, rfl⟩, rfl⟩, h1, h2, -⟩ := h
    rw [List.length_drop] at h1 h2
    unfold TDX_BODY_LEN TDX_HEADER_LEN at *
    exact ⟨by omega, hs⟩
  · intro h
    obtain ⟨hlen, hs⟩ := h
    have hle : TDX_HEADER_LEN ≤ q.length := Nat.le_trans (by decide) hlen
    refine ⟨_, _, _, ⟨hs, ⟨hle, rfl⟩, rfl⟩, ?_, ?_, rfl⟩ <;>
    · rw [List.length_drop]
      unfold TDX_BODY_LEN TDX_HEADER_LEN
      omega

theorem extractReportData_eq_ok {data : List.Vector UInt8 TDX_REPORT_DATA_LEN} (h : 633 ≤ q.length) :
    extractReportData (q.drop TDX_HEADER_LEN) = .ok data ↔ (q.drop 568).take 64 = data.toList := by
  have hlen : ¬(q.drop TDX_HEADER_LEN).length < TDX_BODY_LEN := by
    rw [List.length_drop]
    unfold TDX_BODY_LEN TDX_HEADER_LEN
    omega
  -- the report data within the body within the quote
  have hin : TDX_REPORT_DATA_OFFSET_IN_BODY + TDX_REPORT_DATA_LEN ≤
      ((q.drop TDX_HEADER_LEN).take TDX_BODY_LEN).length := by
    rw [List.length_take_of_le (Nat.le_of_not_lt hlen)]
    decide
  have hdata : (slice _ _ _ hin).toList = (q.drop 568).take 64 := by
    show ((((q.drop 48).take 584).drop 520).take 64) = (q.drop 568).take 64
    rw [List.drop_take, List.drop_drop, List.take_take]
    rfl
  rw [extractReportData, dif_neg hlen, Except.ok.injEq, ← hdata]
  exact ⟨fun h => congrArg _ h, fun h => List.Vector.toList_injective h⟩

end Layout

/-! ## No panic -/

/-- **The verifier as written does not panic**, and answers what the model of it answers. -/
theorem verify_eq (v : AttestedVerifier) (blake3 : Bytes → Bytes32) (event : ThoughtSubmittedEvent)
    (bundle : TraceBundle) : Indexed.AttestedVerifier.verify v blake3 event bundle =
      some (v.verify blake3 event bundle) := by
  unfold Indexed.AttestedVerifier.verify AttestedVerifier.verify
  cases bundle.attestation with
  | none => rfl
  | some quote =>
    dsimp only
    rw [(Indexed.validateQuoteStructure_simulates quote).run_eq, Option.bind_eq_bind, Option.bind_some]
    cases hq : validateQuoteStructure quote with
    | error e => rfl
    | ok header =>
      dsimp only
      have hlen : TDX_HEADER_LEN ≤ quote.length :=
        Nat.le_trans (by decide) (validateQuoteStructure_ok.1 ⟨header, hq⟩).1
      rw [sliceFrom_eq hlen, pure_bind, (Indexed.extractReportData_simulates _).run_eq, Option.bind_eq_bind,
        Option.bind_some]
      cases extractReportData (quote.drop TDX_HEADER_LEN) with
      | error e => rfl
      | ok reportData =>
        dsimp only
        split
        · rfl
        · split <;> rfl

/-! ## What a quote binds -/

/-- The commitments of an event, as they are hashed into the report data. -/
def ThoughtSubmittedEvent.triple (event : ThoughtSubmittedEvent) : Bytes :=
  event.inputCommitment.toList ++ event.outputCommitment.toList ++ event.vrfSeed.toList

/-- The commitments stand at fixed widths: equal bytes are equal commitments. -/
theorem eq_of_triple_eq {event event' : ThoughtSubmittedEvent} (h : event.triple = event'.triple) :
    event.inputCommitment = event'.inputCommitment ∧ event.outputCommitment = event'.outputCommitment ∧
      event.vrfSeed = event'.vrfSeed := by
  have hlen : ∀ v w : Bytes32, v.toList.length = w.toList.length := by
    intro v w
    rw [List.Vector.toList_length, List.Vector.toList_length]
  obtain ⟨h12, h3⟩ := List.append_inj' h (hlen _ _)
  obtain ⟨h1, h2⟩ := List.append_inj' h12 (hlen _ _)
  exact ⟨List.Vector.toList_injective h1, List.Vector.toList_injective h2, List.Vector.toList_injective h3⟩

/-- A quote laid out for the commitments of the event. -/
structure QuoteFor (blake3 : Bytes → Bytes32) (event : ThoughtSubmittedEvent) (q : Bytes) : Prop where
  length : 633 ≤ q.length
  header : SupportedHeader q
  reportData : (q.drop 568).take 64 = (blake3 event.triple).toList ++ List.replicate 32 0

theorem attested_eq_matched_iff {v : AttestedVerifier} {blake3 : Bytes → Bytes32} {event : ThoughtSubmittedEvent}
    {bundle : TraceBundle} {q : Bytes} (hq : bundle.attestation = some q) :
    v.verify blake3 event bundle = .matched ↔ QuoteFor blake3 event q ∧ v.trustedRootCas ≠ [] := by
  rw [attested_eq_matched, hq]
  constructor
  · intro h
    obtain ⟨_, header, he, hv, hr, hca⟩ := h
    obtain rfl := Option.some.inj he
    obtain ⟨hlen, hs⟩ := validateQuoteStructure_ok.1 ⟨header, hv⟩
    exact ⟨⟨hlen, hs, (extractReportData_eq_ok hlen).1 hr⟩, hca⟩
  · intro h
    obtain ⟨hf, hca⟩ := h
    obtain ⟨header, hv⟩ := validateQuoteStructure_ok.2 ⟨hf.length, hf.header⟩
    exact ⟨q, header, rfl, hv, (extractReportData_eq_ok hf.length).2 hf.reportData, hca⟩

/-- **A quote binds one triple of commitments.** As written the verifier does not panic on it, and answers `Match` when
it is laid out for the event and there is a trusted CA; so it does for the commitments of one event alone, unless
BLAKE3 collides on two. -/
theorem quote_binds_triple (blake3 : Bytes → Bytes32) (q : Bytes) :
    (∀ (v : AttestedVerifier) (event : ThoughtSubmittedEvent) (bundle : TraceBundle), bundle.attestation = some q →
      ∃ outcome, Indexed.AttestedVerifier.verify v blake3 event bundle = some outcome ∧
        (outcome = .matched ↔ QuoteFor blake3 event q ∧ v.trustedRootCas ≠ [])) ∧
    ∀ (v v' : AttestedVerifier) (event event' : ThoughtSubmittedEvent) (bundle bundle' : TraceBundle),
      bundle.attestation = some q → bundle'.attestation = some q →
      Indexed.AttestedVerifier.verify v blake3 event bundle = some .matched →
      Indexed.AttestedVerifier.verify v' blake3 event' bundle' = some .matched →
      Set.InjOn blake3 {event.triple, event'.triple} →
      event.inputCommitment = event'.inputCommitment ∧ event.outputCommitment = event'.outputCommitment ∧
        event.vrfSeed = event'.vrfSeed := by
  constructor
  · intro v event bundle hq
    exact ⟨_, verify_eq v blake3 event bundle, attested_eq_matched_iff hq⟩
  · intro v v' event event' bundle bundle' hq hq' hm hm' hinj
    rw [verify_eq, Option.some.injEq] at hm hm'
    have hr := ((attested_eq_matched_iff hq).1 hm).1.reportData
    have hr' := ((attested_eq_matched_iff hq').1 hm').1.reportData
    have hlist := (List.append_inj' (hr.symm.trans hr') rfl).1
    exact eq_of_triple_eq (hinj (Set.mem_insert _ _) (Set.mem_insert_of_mem _ rfl) (List.Vector.toList_injective hlist))

open Sample in
/-- The theorem at the sample quote: it matches two events of one triple of commitments. -/
theorem quote_binds_triple_sample : ∃ (ev ev' : ThoughtSubmittedEvent) (bundle : TraceBundle), ev.slot ≠ ev'.slot ∧
      Indexed.AttestedVerifier.verify .withTestCas digest ev bundle = some .matched ∧
      Indexed.AttestedVerifier.verify .withTestCas digest ev' bundle = some .matched ∧
      ev.inputCommitment = ev'.inputCommitment ∧ ev.outputCommitment = ev'.outputCommitment ∧
        ev.vrfSeed = ev'.vrfSeed := by
  let ev := event (List.Vector.replicate 32 2) (List.Vector.replicate 32 3)
  let ev' := { ev with slot := 2 }
  let data := expectedReportData digest ev.inputCommitment ev.outputCommitment ev.vrfSeed
  let bundle : TraceBundle := ⟨[], [], some (quote data), .null⟩
  obtain ⟨hlen, hs⟩ := validateQuoteStructure_ok.1 (validate_quote data)
  have hdata := (extractReportData_eq_ok hlen).1 (extract_quote data)
  obtain ⟨hquote, hbinds⟩ := quote_binds_triple digest (quote data)
  obtain ⟨outcome, hv, hm⟩ := hquote .withTestCas ev bundle rfl
  obtain ⟨outcome', hv', hm'⟩ := hquote .withTestCas ev' bundle rfl
  rw [hm.2 ⟨⟨hlen, hs, hdata⟩, by decide⟩] at hv
  rw [hm'.2 ⟨⟨hlen, hs, hdata⟩, by decide⟩] at hv'
  refine ⟨ev, ev', bundle, by decide, hv, hv', ?_⟩
  apply hbinds .withTestCas .withTestCas ev ev' bundle bundle rfl rfl hv hv'
  rw [Set.injOn_pair]
  exact fun _ => rfl

end ProofOfThought.Watcher
