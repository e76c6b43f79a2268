import Mathlib.Data.List.Permutation
import ProofOfThought.Base.Cbor
import ProofOfThought.Watcher.Verify

/-!
# Readings of a manifest

What an adversarial manifest can make the watcher do. The soft regime accuses where the output has no decision, whether
or not there is a reference (`soft_accuses_iff`). Repeated keys are resolved by their position: a manifest has one
reading exactly when it has none, or its repetitions agree (`one_reading_iff`).
-/

namespace ProofOfThought.Watcher

open Base

variable {fromReader : Bytes → Option Value} {bytes : Bytes} {bundle : TraceBundle}

/-! ## The soft regime -/

/-- The bytes decode to a map whose first decision is `decision`. -/
def Decides (fromReader : Bytes → Option Value) (output : Bytes) (decision : Value) : Prop :=
  ∃ entries, fromReader output = some (.map entries) ∧
    StructuralJsonEquiv.extractDecision (.map entries) = some decision

theorem extractDecision_map {entries : List (Value × Value)} :
    (∃ decision, StructuralJsonEquiv.extractDecision (.map entries) = some decision) ↔
      ∃ e ∈ entries, e.1 = .text "decision" := by
  have hkey : ∀ v : Value, (v.asText == some "decision") = true ↔ v = .text "decision" := by
    intro v
    cases v <;> simp [Value.asText]
  simp only [StructuralJsonEquiv.extractDecision, Value.asMap, Option.bind_some, Option.map_eq_some_iff]
  constructor
  · intro hx
    obtain ⟨_, e, hf, -⟩ := hx
    have hk : (e.1.asText == some "decision") = true := by
      have := List.find?_some hf
      exact this
    exact ⟨e, List.mem_of_find?_eq_some hf, (hkey _).1 hk⟩
  · intro hx
    obtain ⟨e, he, hk⟩ := hx
    have hs : (entries.find? fun e => e.1.asText == some "decision").isSome := by
      rw [List.find?_isSome]
      exact ⟨e, he, (hkey _).2 hk⟩
    obtain ⟨e', hf⟩ := Option.isSome_iff_exists.1 hs
    exact ⟨e'.2, e', hf, rfl⟩

/-- The decision that the soft regime finds is the one of the raw output. -/
theorem extractDecision_eq_some (h : decodeManifest fromReader bytes = .ok bundle) {decision : Value} :
    StructuralJsonEquiv.extractDecision bundle.manifest = some decision ↔
      Decides fromReader bundle.rawCanonicalOutput decision := by
  have hm : bundle.manifest = (fromReader bundle.rawCanonicalOutput).getD .null := by
    simp only [decodeManifest, seq_ok_iff, pure_ok_iff] at h
    obtain ⟨_, _, _, _, _, _, _, _, _, _, rfl⟩ := h
    rfl
  rw [hm, Decides]
  cases fromReader bundle.rawCanonicalOutput with
  | none => simp [StructuralJsonEquiv.extractDecision, Value.asMap]
  | some v => cases v <;> simp [StructuralJsonEquiv.extractDecision, Value.asMap]

/-- An accusation is a structural one. -/
theorem soft_eq_mismatch {v : SoftVerifier} {event : ThoughtSubmittedEvent} {claim : ChallengeClaim} {uri : String} :
    v.verify event bundle = .mismatch claim uri ↔ v.structural.verify event bundle = .mismatch claim uri := by
  obtain ⟨reason, hc⟩ := committee_inconclusive v.committee
  unfold SoftVerifier.verify
  cases v.structural.verify event bundle with
  | matched => simp
  | mismatch claim uri => simp
  | inconclusive reason => simp [hc]

/-- The soft regime accuses of a divergence alone, and an undecodable output is inconclusive. -/
structure SoftAccusesOfDivergence (fromReader : Bytes → Option Value) (v : SoftVerifier)
    (event : ThoughtSubmittedEvent) (bundle : TraceBundle) : Prop where
  diverges : ∀ claim uri, v.verify event bundle = .mismatch claim uri → ∃ decision reference,
    Decides fromReader bundle.rawCanonicalOutput decision ∧ v.structural.referenceDecision = some reference ∧
      decision.eq reference = false
  undecodable : fromReader bundle.rawCanonicalOutput = none → ∃ reason, v.verify event bundle = .inconclusive reason

/-- **The soft regime accuses of a divergence alone** exactly when the output decodes to a map with a decision. -/
theorem soft_accuses_iff (h : decodeManifest fromReader bytes = .ok bundle) (v : SoftVerifier)
    (event : ThoughtSubmittedEvent) : SoftAccusesOfDivergence fromReader v event bundle ↔
      ∃ entries, fromReader bundle.rawCanonicalOutput = some (.map entries) ∧
        ∃ e ∈ entries, e.1 = .text "decision" := by
  have hdec : (∃ entries, fromReader bundle.rawCanonicalOutput = some (.map entries) ∧
      ∃ e ∈ entries, e.1 = .text "decision") ↔ ∃ decision, Decides fromReader bundle.rawCanonicalOutput decision := by
    simp only [← extractDecision_map, Decides]
    tauto
  rw [hdec]
  cases hx : StructuralJsonEquiv.extractDecision bundle.manifest with
  | none =>
    -- no decision: a mismatch, with nothing to diverge
    have hno : ∀ decision, ¬Decides fromReader bundle.rawCanonicalOutput decision := by
      intro decision hd
      rw [← extractDecision_eq_some h, hx] at hd
      cases hd
    have hmis : v.verify event bundle = .mismatch .outputMismatch event.traceUri := by
      rw [soft_eq_mismatch, StructuralJsonEquiv.verify, hx]
    constructor
    · intro hs
      obtain ⟨decision, _, hd, -⟩ := hs.diverges _ _ hmis
      exact ⟨decision, hd⟩
    · intro hx
      obtain ⟨decision, hd⟩ := hx
      exact absurd hd (hno decision)
  | some decision =>
    have hd := (extractDecision_eq_some h).1 hx
    refine ⟨fun _ => ⟨decision, hd⟩, fun _ => ⟨?_, ?_⟩⟩
    · intro claim uri hm
      rw [soft_eq_mismatch, StructuralJsonEquiv.verify, hx] at hm
      cases hr : v.structural.referenceDecision with
      | none => simp [hr] at hm
      | some reference =>
        refine ⟨decision, reference, hd, rfl, ?_⟩
        cases he : decision.eq reference with
        | false => rfl
        | true => simp [hr, he] at hm
    · intro hnone
      obtain ⟨entries, hsome, -⟩ := hd
      rw [hnone] at hsome
      cases hsome

/-! ### Sample blobs -/

namespace Sample

/-- A CBOR map of byte strings under text keys, for up to 23 short fields. -/
def fieldsBlob (fields : List (String × Bytes)) : Bytes :=
  UInt8.ofNat (0xA0 + fields.length) ::
    fields.flatMap fun f => Cbor.text f.1 ++ UInt8.ofNat (0x40 + f.2.length) :: f.2

def fieldsEntries (fields : List (String × Bytes)) : List (Value × Value) :=
  fields.map fun f => (.text f.1, .bytes f.2)

/-- The reader on the blobs of the given fields; nothing else is decoded. -/
def readerOf (known : List (List (String × Bytes))) (bytes : Bytes) : Option Value :=
  (known.find? fun fields => fieldsBlob fields = bytes).map fun fields => .map (fieldsEntries fields)

theorem readerOf_eq {known : List (List (String × Bytes))} {fields : List (String × Bytes)} {bytes : Bytes}
    (h : (known.find? fun fields => fieldsBlob fields = bytes) = some fields) :
    readerOf known bytes = some (.map (fieldsEntries fields)) := by
  rw [readerOf, h]
  rfl

/-- A manifest with the given output. -/
def manifest (output : Bytes) : List (String × Bytes) := [("canonical_input", []), ("canonical_output", output)]

/-- A map with a decision. -/
def buy : List (String × Bytes) := [("decision", utf8 "buy")]

/-- The soft regime without reference and committee. -/
def noReference : SoftVerifier := ⟨⟨none⟩, ⟨[], 0⟩⟩

end Sample

open Sample in
/-- An output that is no CBOR is accused, with no reference at all. -/
theorem undecodable_accused : ¬∀ (fromReader : Bytes → Option Value) (bytes : Bytes) (bundle : TraceBundle)
    (v : SoftVerifier) (event : ThoughtSubmittedEvent), decodeManifest fromReader bytes = .ok bundle →
      SoftAccusesOfDivergence fromReader v event bundle := by
  intro h
  have hb : readerOf [manifest [0xFF]] (fieldsBlob (manifest [0xFF])) = some (.map (fieldsEntries (manifest [0xFF]))) :=
    readerOf_eq (by decide +kernel)
  have ho : readerOf [manifest [0xFF]] [0xFF] = none := by
    rw [readerOf, List.find?_eq_none.2 (by decide +kernel)]
    rfl
  have hd : decodeManifest (readerOf [manifest [0xFF]]) (fieldsBlob (manifest [0xFF])) =
      .ok ⟨[0xFF], [], none, .null⟩ := by
    simp only [decodeManifest, hb]
    show Except.ok (TraceBundle.mk [0xFF] [] none ((readerOf [manifest [0xFF]] [0xFF]).getD .null)) = _
    rw [ho]
    rfl
  obtain ⟨reason, hv⟩ := (h _ _ _ noReference (event (List.Vector.replicate 32 2) (List.Vector.replicate 32 3))
    hd).undecodable ho
  cases hv

open Sample in
/-- The theorem at an output that decides to buy. -/
theorem soft_accuses_iff_buy : ∃ bundle,
    decodeManifest (readerOf [manifest (fieldsBlob buy), buy]) (fieldsBlob (manifest (fieldsBlob buy))) = .ok bundle ∧
      SoftAccusesOfDivergence (readerOf [manifest (fieldsBlob buy), buy]) noReference
        (event (List.Vector.replicate 32 2) (List.Vector.replicate 32 3)) bundle := by
  have hb : readerOf [manifest (fieldsBlob buy), buy] (fieldsBlob (manifest (fieldsBlob buy))) =
      some (.map (fieldsEntries (manifest (fieldsBlob buy)))) := readerOf_eq (by decide +kernel)
  have ho : readerOf [manifest (fieldsBlob buy), buy] (fieldsBlob buy) = some (.map (fieldsEntries buy)) :=
    readerOf_eq (by decide +kernel)
  have hd : decodeManifest (readerOf [manifest (fieldsBlob buy), buy]) (fieldsBlob (manifest (fieldsBlob buy))) =
      .ok ⟨fieldsBlob buy, [], none, .map (fieldsEntries buy)⟩ := by
    simp only [decodeManifest, hb]
    show Except.ok (TraceBundle.mk (fieldsBlob buy) [] none
      ((readerOf [manifest (fieldsBlob buy), buy] (fieldsBlob buy)).getD .null)) = _
    rw [ho]
    rfl
  exact ⟨_, hd, (soft_accuses_iff hd noReference _).2 ⟨_, ho, _, List.mem_cons_self, rfl⟩⟩

/-! ## Repeated keys -/

/-- The values under a name, in order. -/
def named (n : String) (entries : List (Value × Value)) : List Value :=
  (entries.filter fun e => e.1.asText == some n).map Prod.snd

/-- Every key is text. -/
def AllText (entries : List (Value × Value)) : Prop := ∀ e ∈ entries, e.1.asText.isSome = true

/-- The bytes under a name, where the last value wins. -/
def reading (n : String) (entries : List (Value × Value)) : Option Bytes :=
  (named n entries).getLast?.bind Value.asBytes

section Entries

variable {entries entries' : List (Value × Value)} {e : Value × Value} {n : String} {v w : Value}

theorem mem_named : v ∈ named n entries ↔ ∃ k, (k, v) ∈ entries ∧ k.asText = some n := by
  simp [named]

theorem named_cons_pos (h : e.1.asText = some n) : named n (e :: entries) = e.2 :: named n entries := by
  simp [named, h]

theorem named_cons_neg (h : e.1.asText ≠ some n) : named n (e :: entries) = named n entries := by
  simp [named, h]

theorem manifestFields_eq_ok {fields g : String → Option Value} : manifestFields entries fields = .ok g ↔
    AllText entries ∧ g = fun n => (named n entries).getLast?.or (fields n) := by
  induction entries generalizing fields with
  | nil =>
    rw [manifestFields, Except.ok.injEq]
    exact ⟨fun h => ⟨nofun, h.symm⟩, fun h => h.2.symm⟩
  | cons e entries ih =>
    obtain ⟨k, v⟩ := e
    simp only [manifestFields, seq_ok_iff, okOr_eq_ok, AllText, List.forall_mem_cons]
    cases hk : k.asText with
    | none => simp
    | some key =>
      have hlast : (fun n => (named n entries).getLast?.or (Function.update fields key (some v) n)) =
          fun n => (named n ((k, v) :: entries)).getLast?.or (fields n) := by
        funext n
        by_cases hn : key = n
        · subst hn
          rw [named_cons_pos hk, List.getLast?_cons, Function.update_self]
          cases (named key entries).getLast? <;> rfl
        · rw [named_cons_neg (by simpa [hk] using hn), Function.update_of_ne (Ne.symm hn)]
      simp only [Option.some.injEq, exists_eq_left', ih, hlast, Option.isSome_some, true_and]
      exact Iff.rfl

/-- **The bundle of a manifest** of the given entries. -/
theorem decodeManifest_eq_ok (hb : fromReader bytes = some (.map entries)) :
    decodeManifest fromReader bytes = .ok bundle ↔ AllText entries ∧
      reading "canonical_input" entries = some bundle.rawCanonicalInput ∧
      reading "canonical_output" entries = some bundle.rawCanonicalOutput ∧
      reading "attestation" entries = bundle.attestation ∧
      (fromReader bundle.rawCanonicalOutput).getD .null = bundle.manifest := by
  simp only [decodeManifest, seq_ok_iff, okOr_eq_ok, pure_ok_iff, hb, Option.some.injEq, exists_eq_left', Value.asMap,
    manifestFields_eq_ok, Option.or_none]
  constructor
  · intro h
    obtain ⟨_, ⟨ht, rfl⟩, input, hi, output, ho, rfl⟩ := h
    exact ⟨ht, hi, ho, rfl, rfl⟩
  · intro h
    obtain ⟨ht, hi, ho, ha, hm⟩ := h
    obtain ⟨output, input, attestation, manifest⟩ := bundle
    dsimp only at ha hm
    exact ⟨_, ⟨ht, rfl⟩, input, hi, output, ho, by rw [← ha, ← hm]; rfl⟩

/-! ### Orders -/

theorem perm_named (h : entries.Perm entries') (n : String) : (named n entries).Perm (named n entries') :=
  (h.filter _).map _

theorem perm_allText (h : entries.Perm entries') : AllText entries ↔ AllText entries' := by
  simp only [AllText, h.mem_iff]

/-- Any entry can be the last one; the order under other names stays. -/
theorem exists_perm_last (he : e ∈ entries) : ∃ last, last.Perm entries ∧
    (∀ n, e.1.asText = some n → (named n last).getLast? = some e.2) ∧
      ∀ n, e.1.asText ≠ some n → named n last = named n entries := by
  obtain ⟨pre, post, rfl⟩ := List.append_of_mem he
  refine ⟨pre ++ post ++ [e], ?_, fun n hn => ?_, fun n hn => ?_⟩
  · exact (List.perm_append_singleton e _).trans List.perm_middle.symm
  · simp [named, hn]
  · simp [named, hn]

/-- A value of a name can be made the one that is read, without changing what other names read. -/
theorem exists_perm_reading (hv : v ∈ named n entries) : ∃ last, last.Perm entries ∧
    reading n last = v.asBytes ∧ ∀ m, m ≠ n → reading m last = reading m entries := by
  obtain ⟨k, he, hk⟩ := mem_named.1 hv
  obtain ⟨last, hp, hlast, hother⟩ := exists_perm_last he
  refine ⟨last, hp, ?_, fun m hm => ?_⟩
  · rw [reading, hlast n hk, Option.bind_some]
  · have hne : k.asText ≠ some m := by
      rw [hk]
      exact fun h => hm (Option.some.inj h).symm
    rw [reading, hother m hne, reading]

/-- Where all values of a name read alike, the order does not matter. -/
theorem reading_of_perm (h : entries.Perm entries')
    (hall : ∀ v ∈ named n entries, ∀ w ∈ named n entries, v.asBytes = w.asBytes) :
    reading n entries = reading n entries' := by
  have hp := perm_named h n
  unfold reading
  cases hl : (named n entries).getLast? with
  | none =>
    rw [List.getLast?_eq_none_iff] at hl
    rw [hl] at hp
    rw [List.perm_nil.1 hp.symm]
    rfl
  | some v =>
    cases hl' : (named n entries').getLast? with
    | none =>
      rw [List.getLast?_eq_none_iff] at hl'
      rw [hl', List.perm_nil] at hp
      rw [hp] at hl
      cases hl
    | some w =>
      exact hall v (List.mem_of_getLast? hl) w (hp.mem_iff.2 (List.mem_of_getLast? hl'))

/-! ### One reading -/

/-- Two blobs with one result: one bundle, or no bundle. -/
def SameResult (fromReader : Bytes → Option Value) (bytes bytes' : Bytes) : Prop :=
  ∀ bundle, decodeManifest fromReader bytes = .ok bundle ↔ decodeManifest fromReader bytes' = .ok bundle

/-- Every blob with the same entries, in whatever order, has the same result. -/
def OneReading (fromReader : Bytes → Option Value) (bytes : Bytes) (entries : List (Value × Value)) : Prop :=
  ∀ bytes' entries', fromReader bytes' = some (.map entries') → entries'.Perm entries →
    SameResult fromReader bytes bytes'

/-- The entries have no reading in any order, or repeated names read alike. -/
def Unambiguous (entries : List (Value × Value)) : Prop :=
  ¬AllText entries ∨ (∀ v ∈ named "canonical_input" entries, v.asBytes = none) ∨
    (∀ v ∈ named "canonical_output" entries, v.asBytes = none) ∨
    ∀ n ∈ ["canonical_input", "canonical_output", "attestation"], ∀ v ∈ named n entries, ∀ w ∈ named n entries,
      v.asBytes = w.asBytes

/-- A name without bytes has no reading. -/
theorem reading_eq_none (h : ∀ v ∈ named n entries, v.asBytes = none) : reading n entries = none := by
  unfold reading
  cases hl : (named n entries).getLast? with
  | none => rfl
  | some v => exact h v (List.mem_of_getLast? hl)

/-- Unambiguous entries have one reading. -/
theorem Unambiguous.oneReading (h : Unambiguous entries) (hb : fromReader bytes = some (.map entries)) :
    OneReading fromReader bytes entries := by
  intro bytes' entries' hb' hp bundle
  rw [decodeManifest_eq_ok hb, decodeManifest_eq_ok hb', perm_allText hp]
  have hnone : ∀ n, (∀ v ∈ named n entries, v.asBytes = none) → reading n entries = none ∧ reading n entries' = none :=
    fun n hn => ⟨reading_eq_none hn, reading_eq_none fun v hv => hn v ((perm_named hp n).mem_iff.1 hv)⟩
  rcases h with h | h | h | h
  · exact ⟨fun hx => absurd hx.1 h, fun hx => absurd hx.1 h⟩
  · obtain ⟨h1, h2⟩ := hnone _ h
    simp [h1, h2]
  · obtain ⟨h1, h2⟩ := hnone _ h
    simp [h1, h2]
  · rw [reading_of_perm hp.symm (h "canonical_input" (by decide)),
      reading_of_perm hp.symm (h "canonical_output" (by decide)),
      reading_of_perm hp.symm (h "attestation" (by decide))]

/-- Two orders of entries with one reading read alike, if the first of them reads input and output. -/
theorem OneReading.reading_eq (h : OneReading fromReader bytes entries)
    (horders : ∀ entries', entries'.Perm entries → ∃ bytes', fromReader bytes' = some (.map entries'))
    (ht : AllText entries) {L L' : List (Value × Value)} (hp : L.Perm entries) (hp' : L'.Perm entries)
    {input output : Bytes} (hi : reading "canonical_input" L = some input)
    (ho : reading "canonical_output" L = some output)
    (hn : n ∈ ["canonical_input", "canonical_output", "attestation"]) : reading n L' = reading n L := by
  obtain ⟨b, hb⟩ := horders L hp
  obtain ⟨b', hb'⟩ := horders L' hp'
  have hok : decodeManifest fromReader b =
      .ok ⟨output, input, reading "attestation" L, (fromReader output).getD .null⟩ :=
    (decodeManifest_eq_ok hb).2 ⟨(perm_allText hp).2 ht, hi, ho, rfl, rfl⟩
  -- the bundle of the first order is that of the second
  obtain ⟨-, hi', ho', ha', -⟩ := (decodeManifest_eq_ok hb').1 ((h _ _ hb' hp' _).1 ((h _ _ hb hp _).2 hok))
  simp only [List.mem_cons, List.not_mem_nil, or_false] at hn
  rcases hn with rfl | rfl | rfl
  · rw [hi, hi']
  · rw [ho, ho']
  · exact ha'

/-- **Two orders of ambiguous entries**: where input and output can be read, and some name reads in two ways, so does
the manifest. -/
theorem OneReading.alike (h : OneReading fromReader bytes entries)
    (horders : ∀ entries', entries'.Perm entries → ∃ bytes', fromReader bytes' = some (.map entries'))
    (ht : AllText entries) {vi vo : Value} (hvi : vi ∈ named "canonical_input" entries)
    (hi : vi.asBytes ≠ none) (hvo : vo ∈ named "canonical_output" entries) (ho : vo.asBytes ≠ none)
    (hn : n ∈ ["canonical_input", "canonical_output", "attestation"]) (hv : v ∈ named n entries)
    (hw : w ∈ named n entries) : v.asBytes = w.asBytes := by
  obtain ⟨input, hi⟩ := Option.ne_none_iff_exists'.1 hi
  obtain ⟨output, ho⟩ := Option.ne_none_iff_exists'.1 ho
  -- an order that reads input and output
  obtain ⟨L₁, hp₁, hr₁, -⟩ := exists_perm_reading hvi
  obtain ⟨L₂, hp₂, hr₂, hk₂⟩ := exists_perm_reading ((perm_named hp₁ _).mem_iff.2 hvo)
  have hperm : L₂.Perm entries := hp₂.trans hp₁
  have hri : reading "canonical_input" L₂ = some input := by
    rw [hk₂ _ (by decide), hr₁, hi]
  have hro : reading "canonical_output" L₂ = some output := by rw [hr₂, ho]
  -- two orders more, which read one and the other value of the name
  have hread : ∀ x ∈ named n entries, ∃ L, List.Perm L entries ∧ reading n L = x.asBytes ∧
      ∀ m, m ≠ n → reading m L = reading m L₂ := by
    intro x hx
    obtain ⟨L, hp, hr, hk⟩ := exists_perm_reading ((perm_named hperm n).mem_iff.2 hx)
    exact ⟨L, hp.trans hperm, hr, hk⟩
  have hsame : ∀ x ∈ named n entries, ∀ y ∈ named n entries, ∀ b, x.asBytes = some b → y.asBytes = some b := by
    intro x hx y hy b hb
    obtain ⟨L₃, hp₃, hr₃, hk₃⟩ := hread x hx
    obtain ⟨L₄, hp₄, hr₄, -⟩ := hread y hy
    have hsome : ∀ m o, reading m L₂ = some o → ∃ o', reading m L₃ = some o' := by
      intro m o hm
      by_cases hmn : m = n
      · exact ⟨b, by rw [hmn, hr₃, hb]⟩
      · exact ⟨o, by rw [hk₃ m hmn, hm]⟩
    obtain ⟨i, hi₃⟩ := hsome _ _ hri
    obtain ⟨o, ho₃⟩ := hsome _ _ hro
    rw [← hr₄, h.reading_eq horders ht hp₃ hp₄ hi₃ ho₃ hn, hr₃, hb]
  cases hvb : v.asBytes with
  | some b => exact (hsame v hv w hw b hvb).symm
  | none =>
    cases hwb : w.asBytes with
    | none => rfl
    | some b =>
      rw [hsame w hw v hv b hwb] at hvb
      cases hvb

end Entries

/-- **A manifest has one reading** exactly when its entries are unambiguous. Every order of the entries is that of some
blob. -/
theorem one_reading_iff {entries : List (Value × Value)} (hb : fromReader bytes = some (.map entries))
    (horders : ∀ entries', entries'.Perm entries → ∃ bytes', fromReader bytes' = some (.map entries')) :
    OneReading fromReader bytes entries ↔ Unambiguous entries := by
  refine ⟨fun h => ?_, fun h => h.oneReading hb⟩
  by_cases ht : AllText entries
  · by_cases hi : ∀ v ∈ named "canonical_input" entries, v.asBytes = none
    · exact .inr (.inl hi)
    · by_cases ho : ∀ v ∈ named "canonical_output" entries, v.asBytes = none
      · exact .inr (.inr (.inl ho))
      · push Not at hi ho
        obtain ⟨vi, hvi, hi⟩ := hi
        obtain ⟨vo, hvo, ho⟩ := ho
        exact .inr (.inr (.inr fun n hn v hv w hw => h.alike horders ht hvi hi hvo ho hn hv hw))
  · exact .inl ht

namespace Sample

/-- Two outputs under one name, in this order. -/
def twice (first second : UInt8) : List (String × Bytes) :=
  [("canonical_input", []), ("canonical_output", [first]), ("canonical_output", [second])]

end Sample

open Sample in
/-- Two blobs with the same three entries have two bundles: the last output wins. -/
theorem last_output_wins : ¬∀ (fromReader : Bytes → Option Value) (bytes bytes' : Bytes)
    (entries entries' : List (Value × Value)), fromReader bytes = some (.map entries) →
      fromReader bytes' = some (.map entries') → entries'.Perm entries → SameResult fromReader bytes bytes' := by
  intro h
  have h1 : readerOf [twice 1 2, twice 2 1] (fieldsBlob (twice 1 2)) = some (.map (fieldsEntries (twice 1 2))) :=
    readerOf_eq (by decide +kernel)
  have h2 : readerOf [twice 1 2, twice 2 1] (fieldsBlob (twice 2 1)) = some (.map (fieldsEntries (twice 2 1))) :=
    readerOf_eq (by decide +kernel)
  have hp : (fieldsEntries (twice 2 1)).Perm (fieldsEntries (twice 1 2)) := (List.Perm.swap _ _ _).cons _
  have hall : AllText (fieldsEntries (twice 1 2)) := by
    simp [AllText, fieldsEntries, twice, Value.asText]
  have hd : decodeManifest (readerOf [twice 1 2, twice 2 1]) (fieldsBlob (twice 1 2)) =
      .ok ⟨[2], [], none, (readerOf [twice 1 2, twice 2 1] [2]).getD .null⟩ :=
    (decodeManifest_eq_ok h1).2 ⟨hall, rfl, rfl, rfl, rfl⟩
  have hlast : reading "canonical_output" (fieldsEntries (twice 2 1)) = some [1] := rfl
  have hout := ((decodeManifest_eq_ok h2).1 ((h _ _ _ _ _ h1 h2 hp _).1 hd)).2.2.1
  rw [hlast] at hout
  cases hout

open Sample in
/-- The theorem at a manifest of input and output: it has one reading. -/
theorem one_reading_iff_pair : OneReading
    (readerOf [manifest [], (manifest []).reverse]) (fieldsBlob (manifest [])) (fieldsEntries (manifest [])) := by
  have h1 : readerOf [manifest [], (manifest []).reverse] (fieldsBlob (manifest [])) =
      some (.map (fieldsEntries (manifest []))) := readerOf_eq (by decide +kernel)
  have h2 : readerOf [manifest [], (manifest []).reverse] (fieldsBlob (manifest []).reverse) =
      some (.map (fieldsEntries (manifest []).reverse)) := readerOf_eq (by decide +kernel)
  refine (one_reading_iff h1 ?_).2 (.inr (.inr (.inr ?_)))
  · intro entries' hp
    rcases List.perm_pair.1 hp with rfl | rfl
    · exact ⟨_, h1⟩
    · exact ⟨_, h2⟩
  · intro n hn v hv w hw
    have hall : ∀ x ∈ named n (fieldsEntries (manifest [])), x.asBytes = some [] := by
      intro x hx
      obtain ⟨k, hk, -⟩ := mem_named.1 hx
      simp only [fieldsEntries, manifest, List.map_cons, List.map_nil, List.mem_cons, Prod.mk.injEq,
        List.not_mem_nil, or_false] at hk
      rcases hk with ⟨-, rfl⟩ | ⟨-, rfl⟩ <;> rfl
    rw [hall v hv, hall w hw]

end ProofOfThought.Watcher
