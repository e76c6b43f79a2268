import ProofOfThought.Base.Panic
import ProofOfThought.Sdk.Handover

/-!
# The event codec

The decoder of `ThoughtSubmitted` with every index as the code computes it, the simulation of it by the decoder over
proof-carrying cursors (`parse_simulates`), and what it makes of any bytes (`event_codec`).
-/

namespace ProofOfThought.Watcher

open Base Panicking
open Program (Bytes32 ThoughtSubmitted)
open Sdk (watched)

/-! ## The decoder as written -/

namespace Indexed

/-- A position in a buffer, as the code keeps it. -/
structure Cursor where
  buf : Bytes
  pos : Nat

namespace Cursor

def new (buf : Bytes) : Cursor := ⟨buf, 0⟩

def take (c : Cursor) (n : Nat) : Panicking SubscribeError (Bytes × Cursor) := do
  let last ← usizeAdd c.pos n
  if last > c.buf.length then throw (.badPayload "unexpected EOF")
  else
    let bytes ← sliceRange c.buf c.pos last
    return (bytes, ⟨c.buf, last⟩)

/-- The next `n` bytes as an array. -/
def readArray (n : Nat) (c : Cursor) : Panicking SubscribeError (List.Vector UInt8 n × Cursor) := do
  let (s, c) ← c.take n
  let arr ← copyFromSlice n s
  return (arr, c)

def readPubkey (c : Cursor) : Panicking SubscribeError (Pubkey × Cursor) := c.readArray 32

def readArray32 (c : Cursor) : Panicking SubscribeError (Bytes32 × Cursor) := c.readArray 32

def readU64Le (c : Cursor) : Panicking SubscribeError (UInt64 × Cursor) := do
  let (a, c) ← c.readArray 8
  return (UInt64.ofNat (ofLe a.toList), c)

def readU32Le (c : Cursor) : Panicking SubscribeError (UInt32 × Cursor) := do
  let (a, c) ← c.readArray 4
  return (UInt32.ofNat (ofLe a.toList), c)

def readBorshString (c : Cursor) : Panicking SubscribeError (String × Cursor) := do
  let (len, c) ← c.readU32Le
  let (s, c) ← c.take len.toNat
  match fromUtf8 s with
  | some s => return (s, c)
  | none => throw (.badPayload "non-utf8 trace_uri")

end Cursor

def decodeThoughtSubmittedBody (body : Bytes) : Panicking SubscribeError ThoughtSubmittedEvent := do
  let cursor := Cursor.new body
  let (agent, cursor) ← cursor.readPubkey
  let (thoughtPda, cursor) ← cursor.readPubkey
  let (modelId, cursor) ← cursor.readArray32
  let (inputCommitment, cursor) ← cursor.readArray32
  let (outputCommitment, cursor) ← cursor.readArray32
  let (traceUriHash, cursor) ← cursor.readArray32
  let (vrfSeed, cursor) ← cursor.readArray32
  let (policyId, cursor) ← cursor.readArray32
  let (slot, cursor) ← cursor.readU64Le
  let (traceUri, _) ← cursor.readBorshString
  return { agent, thoughtPda, modelId, inputCommitment, outputCommitment, traceUriHash, vrfSeed, policyId, slot,
           traceUri }

def parseAnchorEventBytes (bytes : Bytes) : Panicking SubscribeError (Option ThoughtSubmittedEvent) := do
  if bytes.length < 8 then throw (.badPayload "payload < 8 bytes")
  else
    let (disc, body) ← splitAt bytes 8
    if disc ≠ THOUGHT_SUBMITTED_DISCRIMINATOR.toList then return none
    else
      let event ← decodeThoughtSubmittedBody body
      return some event

/-! ## No panic -/

/-- The two cursors stand at one position, of a buffer that fits into memory. -/
def Cursor.At (c : Cursor) (c' : Watcher.Cursor) : Prop :=
  c.buf = c'.buf ∧ c.pos = c'.pos ∧ c'.buf.length < 2 ^ 63

section Simulation

variable {α γ δ : Type} {c : Cursor} {c' : Watcher.Cursor}

/-- Reads in step: one value, and cursors at one position. -/
abbrev ReadsAlike (raw : Panicking SubscribeError (α × Cursor)) (model : Except SubscribeError (α × Watcher.Cursor)) :
    Prop :=
  Simulates (fun r r' => r.1 = r'.1 ∧ r.2.At r'.2) raw model

theorem ReadsAlike.bind {Q : γ → δ → Prop} {x : Panicking SubscribeError (α × Cursor)}
    {y : Except SubscribeError (α × Watcher.Cursor)} {f : α × Cursor → Panicking SubscribeError γ}
    {g : α × Watcher.Cursor → Except SubscribeError δ} (h : ReadsAlike x y)
    (hfg : ∀ a c c', c.At c' → Simulates Q (f (a, c)) (g (a, c'))) : Simulates Q (x >>= f) (y >>= g) := by
  apply Simulates.bind h
  intro r r' hr
  obtain ⟨a, c⟩ := r
  obtain ⟨a', c'⟩ := r'
  obtain ⟨rfl, hc⟩ := hr
  exact hfg a c c' hc

theorem take_simulates (h : c.At c') {n : Nat} (hn : n ≤ 2 ^ 63) :
    Simulates (fun r r' => r.1 = r'.1.toList ∧ r.2.At r'.2) (c.take n) (c'.take n) := by
  obtain ⟨hbuf, hpos, hlen⟩ := h
  have hin := c'.inBuf
  rw [Cursor.take, Watcher.Cursor.take, hbuf, hpos, usizeAdd_eq (by omega), pure_bind]
  by_cases hle : c'.pos + n > c'.buf.length
  · rw [if_pos hle, dif_pos hle]
    exact .error _
  · rw [if_neg hle, dif_neg hle, sliceRange_eq (Nat.le_of_not_lt hle), pure_bind]
    exact .ok ⟨rfl, rfl, rfl, hlen⟩

theorem readArray_simulates (h : c.At c') {n : Nat} (hn : n ≤ 2 ^ 63) : ReadsAlike (c.readArray n) (c'.take n) := by
  rw [ReadsAlike, ← bind_pure (c'.take n)]
  apply (take_simulates h hn).bind
  intro r r' hr
  obtain ⟨s, d⟩ := r
  obtain ⟨v, d'⟩ := r'
  obtain ⟨hv, hd⟩ := hr
  dsimp only at hv
  subst hv
  dsimp only
  rw [copyFromSlice_toList, pure_bind]
  exact .ok ⟨rfl, hd⟩

theorem readU64Le_simulates (h : c.At c') : ReadsAlike c.readU64Le c'.readU64Le := by
  apply (readArray_simulates h (by decide)).map
  intro r r' hr
  exact .ok ⟨by rw [hr.1], hr.2⟩

theorem readU32Le_simulates (h : c.At c') : ReadsAlike c.readU32Le c'.readU32Le := by
  apply (readArray_simulates h (by decide)).map
  intro r r' hr
  exact .ok ⟨by rw [hr.1], hr.2⟩

theorem readBorshString_simulates (h : c.At c') : ReadsAlike c.readBorshString c'.readBorshString := by
  apply (readU32Le_simulates h).bind
  intro len d d' hd
  have hlen : len.toNat ≤ 2 ^ 63 := by
    have := len.toNat_lt
    omega
  apply (take_simulates hd hlen).bind
  intro r r' hr
  obtain ⟨s, e⟩ := r
  obtain ⟨v, e'⟩ := r'
  obtain ⟨hv, he⟩ := hr
  dsimp only at hv
  subst hv
  dsimp only
  cases fromUtf8 v.toList with
  | none => exact .error _
  | some s => exact .ok ⟨rfl, he⟩

theorem decode_simulates {body : Bytes} (hlen : body.length < 2 ^ 63) :
    Simulates Eq (decodeThoughtSubmittedBody body) (Watcher.decodeThoughtSubmittedBody body) := by
  have harray : ∀ {c : Cursor} {c' : Watcher.Cursor}, c.At c' → ReadsAlike (c.readArray 32) (c'.take 32) :=
    fun h => readArray_simulates h (by decide)
  have h0 : (Cursor.new body).At (Watcher.Cursor.new body) := ⟨rfl, rfl, hlen⟩
  refine (harray h0).bind fun _ _ _ h1 => (harray h1).bind fun _ _ _ h2 => (harray h2).bind fun _ _ _ h3 =>
    (harray h3).bind fun _ _ _ h4 => (harray h4).bind fun _ _ _ h5 => (harray h5).bind fun _ _ _ h6 =>
    (harray h6).bind fun _ _ _ h7 => (harray h7).bind fun _ _ _ h8 => ?_
  refine (readU64Le_simulates h8).bind fun _ _ _ h9 => (readBorshString_simulates h9).bind fun _ _ _ _ => ?_
  exact .ok rfl

/-- **The decoder as written does not panic**, and is the decoder over proof-carrying cursors. -/
theorem parse_simulates {bytes : Bytes} (hlen : bytes.length < 2 ^ 63) :
    Simulates Eq (parseAnchorEventBytes bytes) (Watcher.parseAnchorEventBytes bytes) := by
  unfold parseAnchorEventBytes Watcher.parseAnchorEventBytes
  by_cases h8 : bytes.length < 8
  · rw [if_pos h8, if_pos h8]
    exact .error _
  · rw [if_neg h8, if_neg h8, splitAt_eq (Nat.le_of_not_lt h8), pure_bind]
    dsimp only
    by_cases hd : bytes.take 8 ≠ THOUGHT_SUBMITTED_DISCRIMINATOR.toList
    · rw [if_pos hd, if_pos hd]
      exact .ok rfl
    · rw [if_neg hd, if_neg hd]
      have hbody : (bytes.drop 8).length < 2 ^ 63 := by
        rw [List.length_drop]
        omega
      apply (decode_simulates hbody).map
      intro ev ev' he
      exact .ok (congrArg some he)

end Simulation

end Indexed

/-! ## What is decoded -/

/-- The discriminator and the fields in Borsh. A string of 2^32 bytes or more has no encoding. -/
def ThoughtSubmittedEvent.enc (ev : ThoughtSubmittedEvent) : Bytes :=
  THOUGHT_SUBMITTED_DISCRIMINATOR.toList ++ ev.borsh

theorem data_eq_enc (toBytes : Program.Pubkey → Bytes32) (ev : ThoughtSubmitted) :
    ev.data toBytes = (watched toBytes ev).enc := by
  rw [ThoughtSubmittedEvent.enc, ← Sdk.discriminator_eq]
  rfl

theorem length_enc (ev : ThoughtSubmittedEvent) : ev.enc.length = 276 + (utf8 ev.traceUri).length := by
  simp only [ThoughtSubmittedEvent.enc, ThoughtSubmittedEvent.borsh, borshString, List.length_append,
    List.Vector.toList_length, length_leBytes]
  omega

section

variable {b : Bytes}

theorem parse_eq_event {ev : ThoughtSubmittedEvent} : parseAnchorEventBytes b = .ok (some ev) ↔
    (utf8 ev.traceUri).length < 2 ^ 32 ∧ ev.enc <+: b := by
  rw [parseAnchorEventBytes_eq_some]
  simp only [ThoughtSubmittedEvent.enc, List.IsPrefix, List.append_assoc, eq_comm (b := b)]

theorem parse_eq_none : parseAnchorEventBytes b = .ok none ↔
    8 ≤ b.length ∧ b.take 8 ≠ THOUGHT_SUBMITTED_DISCRIMINATOR.toList := by
  unfold parseAnchorEventBytes
  split
  · simp only [reduceCtorEq, false_iff]
    omega
  · split
    · simp only [true_iff]
      exact ⟨by omega, ‹_›⟩
    · rename_i hd
      simp only [map_eq_ok, reduceCtorEq, and_false, exists_false, false_iff]
      exact fun h => hd h.2

/-- Whatever is neither an event nor of another kind is an error. -/
theorem parse_eq_error : (∃ e, parseAnchorEventBytes b = .error e) ↔
    (∀ ev : ThoughtSubmittedEvent, ¬((utf8 ev.traceUri).length < 2 ^ 32 ∧ ev.enc <+: b)) ∧
      ¬(8 ≤ b.length ∧ b.take 8 ≠ THOUGHT_SUBMITTED_DISCRIMINATOR.toList) := by
  simp only [← parse_eq_event, ← parse_eq_none]
  cases parseAnchorEventBytes b with
  | error e => simp
  | ok o => cases o <;> simp

end

/-- **The event codec.** The decoder as written gives back every event the program encodes. Of any bytes of a slice it
makes, without a panic, the event whose encoding they start with, nothing of those of another kind, and an error of all
others. -/
theorem event_codec (toBytes : Program.Pubkey → Bytes32) :
    (∀ ev : ThoughtSubmitted, (utf8 ev.traceUri).length < 2 ^ 32 →
      (Indexed.parseAnchorEventBytes (ev.data toBytes)).run = some (.ok (some (watched toBytes ev)))) ∧
    ∀ b : Bytes, b.length < 2 ^ 63 → ∃ r, (Indexed.parseAnchorEventBytes b).run = some r ∧
      (∀ ev, r = .ok (some ev) ↔ (utf8 ev.traceUri).length < 2 ^ 32 ∧ ev.enc <+: b) ∧
      (r = .ok none ↔ 8 ≤ b.length ∧ b.take 8 ≠ THOUGHT_SUBMITTED_DISCRIMINATOR.toList) ∧
      ((∃ e, r = .error e) ↔
        (∀ ev : ThoughtSubmittedEvent, ¬((utf8 ev.traceUri).length < 2 ^ 32 ∧ ev.enc <+: b)) ∧
          ¬(8 ≤ b.length ∧ b.take 8 ≠ THOUGHT_SUBMITTED_DISCRIMINATOR.toList)) := by
  constructor
  · intro ev hlt
    rw [data_eq_enc]
    have hlen : (watched toBytes ev).enc.length < 2 ^ 63 := by
      have huri : (utf8 (watched toBytes ev).traceUri).length < 2 ^ 32 := hlt
      rw [length_enc]
      omega
    rw [(Indexed.parse_simulates hlen).run_eq, parse_eq_event.2 ⟨hlt, List.prefix_refl _⟩]
  · intro b hlen
    exact ⟨parseAnchorEventBytes b, (Indexed.parse_simulates hlen).run_eq, fun _ => parse_eq_event, parse_eq_none,
      parse_eq_error⟩

namespace Sample

open Program.Sample (agent modelId policyId commitment thought)

/-- The event of a submission. -/
def logged : ThoughtSubmitted :=
  ⟨agent, thought 0, modelId, commitment, commitment, commitment, commitment, policyId, 1000, "ar://abc"⟩

def loggedBytes : Bytes := logged.data Sdk.Sample.bytesOf

end Sample

open Sample in
/-- The theorem at the bytes of an event, and at those bytes but the last. -/
theorem event_codec_logged :
    (Indexed.parseAnchorEventBytes loggedBytes).run = some (.ok (some (watched Sdk.Sample.bytesOf logged))) ∧
      ∃ e, (Indexed.parseAnchorEventBytes loggedBytes.dropLast).run = some (.error e) := by
  obtain ⟨hwhole, hany⟩ := event_codec Sdk.Sample.bytesOf
  have hlogged := hwhole logged (by decide +kernel)
  obtain ⟨r, hr, hevent, -⟩ := hany loggedBytes (by decide +kernel)
  obtain ⟨r', hr', -, -, herror⟩ := hany loggedBytes.dropLast (by decide +kernel)
  have hcut : ∀ ev : ThoughtSubmittedEvent,
      ¬((utf8 ev.traceUri).length < 2 ^ 32 ∧ ev.enc <+: loggedBytes.dropLast) := by
    intro ev h
    -- the only event that the bytes start with is longer
    have hev := (hevent ev).2 ⟨h.1, h.2.trans (List.dropLast_prefix _)⟩
    rw [hev] at hr
    obtain rfl : ev = watched Sdk.Sample.bytesOf logged := by
      simpa using (hr.symm.trans hlogged)
    have hlen := h.2.length_le
    rw [← data_eq_enc, List.length_dropLast] at hlen
    have hpos : 0 < loggedBytes.length := by decide +kernel
    exact absurd hlen (by show ¬loggedBytes.length ≤ _; omega)
  obtain ⟨e, rfl⟩ := herror.2 ⟨hcut, fun h => h.2 (by decide +kernel)⟩
  exact ⟨hlogged, e, hr'⟩

end ProofOfThought.Watcher
