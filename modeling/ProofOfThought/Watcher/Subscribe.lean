import ProofOfThought.Base.Base64
import ProofOfThought.Base.Borsh
import ProofOfThought.Watcher.Sha256
import ProofOfThought.Watcher.Trace

/-!
# The log subscription

From the log lines of delivered transactions to `ThoughtSubmitted` events: the cursor, the event decoder
(`decodeBody_eq_ok`), the line parser (`lineEvent_eq_some`), and the pump (`pump_eq`).
-/

namespace ProofOfThought.Watcher

open Base
open Program (Bytes32)

inductive SubscribeError where
  | connect (message : String)
  | badPayload (message : String)
  | badPubkey (message : String)
  deriving DecidableEq

/-! ## The cursor -/

/-- A position in a buffer. -/
structure Cursor where
  buf : Bytes
  pos : Nat
  inBuf : pos ≤ buf.length

namespace Cursor

def new (buf : Bytes) : Cursor := ⟨buf, 0, Nat.zero_le _⟩

def take (c : Cursor) (n : Nat) : Except SubscribeError (List.Vector UInt8 n × Cursor) :=
  if h : c.pos + n > c.buf.length then .error (.badPayload "unexpected EOF")
  else .ok (slice c.buf c.pos n (Nat.le_of_not_lt h), ⟨c.buf, c.pos + n, Nat.le_of_not_lt h⟩)

def readPubkey (c : Cursor) : Except SubscribeError (Pubkey × Cursor) := c.take 32

def readArray32 (c : Cursor) : Except SubscribeError (Bytes32 × Cursor) := c.take 32

def readU64Le (c : Cursor) : Except SubscribeError (UInt64 × Cursor) :=
  (c.take 8).map fun r => (UInt64.ofNat (ofLe r.1.toList), r.2)

def readU32Le (c : Cursor) : Except SubscribeError (UInt32 × Cursor) :=
  (c.take 4).map fun r => (UInt32.ofNat (ofLe r.1.toList), r.2)

def readBorshString (c : Cursor) : Except SubscribeError (String × Cursor) := do
  let (len, c) ← c.readU32Le
  let (s, c) ← c.take len.toNat
  let s ← okOr (fromUtf8 s.toList) (.badPayload "non-utf8 trace_uri")
  return (s, c)

/-- What is left to read. -/
def rest (c : Cursor) : Bytes := c.buf.drop c.pos

@[simp] theorem rest_new (buf : Bytes) : (new buf).rest = buf := rfl

theorem take_reads (n : Nat) : Reads rest (fun c => c.take n) List.Vector.toList fun _ => True := by
  intro c v bs
  simp only [true_and]
  constructor
  · intro h
    rcases h with ⟨c', hc, rfl⟩
    unfold take at hc
    split at hc
    · cases hc
    · cases hc
      exact (toList_slice_append_drop _ _ _ _).symm
  · intro hr
    have hlen : ¬c.pos + n > c.buf.length := by
      have hl := congrArg List.length hr
      have hi := c.inBuf
      rw [rest, List.length_drop, List.length_append, List.Vector.toList_length] at hl
      omega
    have hbuf : c.buf = c.buf.take c.pos ++ (v.toList ++ bs) := by
      rw [← hr, rest, List.take_append_drop]
    have hpos : (c.buf.take c.pos).length = c.pos := List.length_take_of_le c.inBuf
    refine ⟨⟨c.buf, c.pos + n, Nat.le_of_not_lt hlen⟩, ?_, ?_⟩
    · unfold take
      rw [dif_neg hlen]
      congr 2
      generalize hx : c.buf.take c.pos = x at hbuf hpos
      simp only [hbuf]
      exact slice_append hpos v bs _
    · rw [rest, ← List.drop_drop, ← rest, hr]
      exact List.drop_left' (List.Vector.toList_length v)

theorem readU64Le_reads : Reads rest readU64Le (fun n => leBytes 8 n.toNat) fun _ => True :=
  Borsh.readU64_reads take_reads

theorem readBorshString_reads : Reads rest readBorshString borshString fun s => (utf8 s).length < 2 ^ 32 :=
  Borsh.readString_reads take_reads _

end Cursor

/-! ## Events -/

/-- The fields of an event in Borsh, as documented on the struct. -/
def ThoughtSubmittedEvent.borsh (ev : ThoughtSubmittedEvent) : Bytes :=
  ev.agent.toList ++ (ev.thoughtPda.toList ++ (ev.modelId.toList ++ (ev.inputCommitment.toList ++
    (ev.outputCommitment.toList ++ (ev.traceUriHash.toList ++ (ev.vrfSeed.toList ++ (ev.policyId.toList ++
      (leBytes 8 ev.slot.toNat ++ borshString ev.traceUri))))))))

def decodeThoughtSubmittedBody (body : Bytes) : Except SubscribeError ThoughtSubmittedEvent := do
  let cursor := Cursor.new body
  let (agent, cursor) ← cursor.readPubkey
  let (thoughtPda, cursor) ← cursor.readPubkey
  let (modelId, cursor) ← cursor.readArray32
  let (inputCommitment, cursor) ← cursor.readArray32
  let (outputCommitment, cursor) ← cursor.readArray32
  let (traceUriHash, cursor) ← cursor.readArray32
  let (vrfSeed, cursor) ← cursor.readArray32
  let (policyId, cursor) ← cursor.readArray32
  let (slot, cursor) ← cursor.readU64Le
  let (traceUri, _) ← cursor.readBorshString
  return { agent, thoughtPda, modelId, inputCommitment, outputCommitment, traceUriHash, vrfSeed, policyId, slot,
           traceUri }

/-- **The decoder reads the Borsh encoding of an event, and ignores what follows it.** -/
theorem decodeBody_eq_ok {body : Bytes} {ev : ThoughtSubmittedEvent} : decodeThoughtSubmittedBody body = .ok ev ↔
    (utf8 ev.traceUri).length < 2 ^ 32 ∧ ∃ rest, body = ev.borsh ++ rest := by
  simp only [decodeThoughtSubmittedBody, Cursor.readPubkey, Cursor.readArray32, seq_ok_iff, pure_ok_iff, Prod.exists]
  constructor
  · rintro ⟨_, c1, h1, _, c2, h2, _, c3, h3, _, c4, h4, _, c5, h5, _, c6, h6, _, c7, h7, _, c8, h8, _, c9, h9, _, c10,
      h10, rfl⟩
    obtain ⟨hlt, h10⟩ := Cursor.readBorshString_reads.sound h10
    refine ⟨hlt, c10.rest, ?_⟩
    rw [← Cursor.rest_new body, ((Cursor.take_reads _).sound h1).2, ((Cursor.take_reads _).sound h2).2,
      ((Cursor.take_reads _).sound h3).2, ((Cursor.take_reads _).sound h4).2, ((Cursor.take_reads _).sound h5).2,
      ((Cursor.take_reads _).sound h6).2, ((Cursor.take_reads _).sound h7).2, ((Cursor.take_reads _).sound h8).2,
      (Cursor.readU64Le_reads.sound h9).2, h10, ThoughtSubmittedEvent.borsh]
    simp only [List.append_assoc]
  · intro h
    rcases h with ⟨hlt, rest, rfl⟩
    have h0 := Cursor.rest_new (ev.borsh ++ rest)
    simp only [ThoughtSubmittedEvent.borsh, List.append_assoc] at h0 ⊢
    obtain ⟨c1, h1, r1⟩ := (Cursor.take_reads 32).complete trivial h0
    obtain ⟨c2, h2, r2⟩ := (Cursor.take_reads 32).complete trivial r1
    obtain ⟨c3, h3, r3⟩ := (Cursor.take_reads 32).complete trivial r2
    obtain ⟨c4, h4, r4⟩ := (Cursor.take_reads 32).complete trivial r3
    obtain ⟨c5, h5, r5⟩ := (Cursor.take_reads 32).complete trivial r4
    obtain ⟨c6, h6, r6⟩ := (Cursor.take_reads 32).complete trivial r5
    obtain ⟨c7, h7, r7⟩ := (Cursor.take_reads 32).complete trivial r6
    obtain ⟨c8, h8, r8⟩ := (Cursor.take_reads 32).complete trivial r7
    obtain ⟨c9, h9, r9⟩ := Cursor.readU64Le_reads.complete trivial r8
    obtain ⟨c10, h10, -⟩ := Cursor.readBorshString_reads.complete hlt r9
    exact ⟨_, c1, h1, _, c2, h2, _, c3, h3, _, c4, h4, _, c5, h5, _, c6, h6, _, c7, h7, _, c8, h8, _, c9, h9, _, c10,
      h10, rfl⟩

def parseAnchorEventBytes (bytes : Bytes) : Except SubscribeError (Option ThoughtSubmittedEvent) :=
  if bytes.length < 8 then .error (.badPayload "payload < 8 bytes")
  else if bytes.take 8 ≠ THOUGHT_SUBMITTED_DISCRIMINATOR.toList then .ok none
  else (decodeThoughtSubmittedBody (bytes.drop 8)).map some

theorem parseAnchorEventBytes_eq_some {bytes : Bytes} {ev : ThoughtSubmittedEvent} :
    parseAnchorEventBytes bytes = .ok (some ev) ↔ (utf8 ev.traceUri).length < 2 ^ 32 ∧
      ∃ rest, bytes = THOUGHT_SUBMITTED_DISCRIMINATOR.toList ++ (ev.borsh ++ rest) := by
  have hdisc : THOUGHT_SUBMITTED_DISCRIMINATOR.toList.length = 8 := List.Vector.toList_length _
  have hmap : ∀ r : Except SubscribeError ThoughtSubmittedEvent, r.map some = .ok (some ev) ↔ r = .ok ev := by
    intro r
    cases r <;> simp [Except.map]
  unfold parseAnchorEventBytes
  constructor
  · intro h
    split at h
    · cases h
    · split at h
      · cases h
      · rename_i hd
        obtain ⟨hlt, rest, hb⟩ := decodeBody_eq_ok.1 ((hmap _).1 h)
        refine ⟨hlt, rest, ?_⟩
        rw [← hb, ← not_not.1 hd, List.take_append_drop]
  · intro hx
    rcases hx with ⟨hlt, rest, rfl⟩
    rw [if_neg (by rw [List.length_append, hdisc]; omega), if_neg (not_not.2 (List.take_left' hdisc)),
      List.drop_left' hdisc, hmap]
    exact decodeBody_eq_ok.2 ⟨hlt, rest, rfl⟩

/-! ## Lines -/

/-- The Unicode property `White_Space`. -/
def isWhitespace (c : Char) : Bool :=
  let n := c.toNat
  9 ≤ n && n ≤ 13 || n == 0x20 || n == 0x85 || n == 0xA0 || n == 0x1680 || 0x2000 ≤ n && n ≤ 0x200A || n == 0x2028 ||
    n == 0x2029 || n == 0x202F || n == 0x205F || n == 0x3000

/-- `str::trim`. -/
def trim (cs : List Char) : List Char := ((cs.dropWhile isWhitespace).reverse.dropWhile isWhitespace).reverse

def parseAnchorEventLine (line : String) : Except SubscribeError (Option ThoughtSubmittedEvent) :=
  match "Program data: ".toList.isPrefixOf? line.toList with
  | none => .ok none
  | some b64 => do
    let bytes ← okOr (Base64.decode (trim b64)) (.badPayload "base64 decode")
    parseAnchorEventBytes bytes

/-- The event of a line, if there is one; a malformed line is skipped. -/
def lineEvent (line : String) : Option ThoughtSubmittedEvent :=
  match parseAnchorEventLine line with
  | .ok event => event
  | .error _ => none

theorem isPrefixOf?_eq_some {p l s : List Char} : p.isPrefixOf? l = some s ↔ l = p ++ s := by
  induction p generalizing l with
  | nil => simp [List.isPrefixOf?]
  | cons a p ih =>
    cases l with
    | nil => simp [List.isPrefixOf?]
    | cons b l =>
      simp only [List.isPrefixOf?, List.cons_append, List.cons.injEq]
      split
      · simp_all
      · rename_i hab
        simp only [reduceCtorEq, false_iff]
        intro h
        rcases h with ⟨rfl, -⟩
        exact hab BEq.rfl

/-- The line carries the event: behind the prefix, the base64 of the discriminator, the event, and anything more. -/
def Carries (line : String) (ev : ThoughtSubmittedEvent) : Prop :=
  (utf8 ev.traceUri).length < 2 ^ 32 ∧ ∃ b64 rest, line.toList = "Program data: ".toList ++ b64 ∧
    Base64.decode (trim b64) = some (THOUGHT_SUBMITTED_DISCRIMINATOR.toList ++ (ev.borsh ++ rest))

/-- **A line yields the event it carries.** -/
theorem lineEvent_eq_some {line : String} {ev : ThoughtSubmittedEvent} :
    lineEvent line = some ev ↔ Carries line ev := by
  have hok : lineEvent line = some ev ↔ parseAnchorEventLine line = .ok (some ev) := by
    unfold lineEvent
    split <;> simp_all
  rw [hok]
  unfold parseAnchorEventLine Carries
  cases hp : "Program data: ".toList.isPrefixOf? line.toList with
  | none =>
    simp only [Except.ok.injEq, reduceCtorEq, false_iff, not_and, not_exists]
    intro _ b64 _ hl _
    rw [isPrefixOf?_eq_some.2 hl] at hp
    cases hp
  | some b64 =>
    simp only [seq_ok_iff, okOr_eq_ok, parseAnchorEventBytes_eq_some]
    have hl := isPrefixOf?_eq_some.1 hp
    constructor
    · intro h
      rcases h with ⟨bytes, hd, hlt, rest, rfl⟩
      exact ⟨hlt, b64, rest, hl, hd⟩
    · intro hx
      rcases hx with ⟨hlt, b64', rest, hl', hd⟩
      obtain rfl := List.append_cancel_left (hl.symm.trans hl')
      exact ⟨_, hd, hlt, rest, rfl⟩

/-- What a program logs with `sol_log_data`. -/
def dataLine (bytes : Bytes) : String := "Program data: " ++ String.ofList (Base64.encode bytes)

theorem toList_dataLine (bytes : Bytes) :
    (dataLine bytes).toList = "Program data: ".toList ++ Base64.encode bytes := by
  rw [dataLine, String.toList_append, String.toList_ofList (l := Base64.encode bytes)]

theorem trim_encode (bytes : Bytes) : trim (Base64.encode bytes) = Base64.encode bytes := by
  have hall : ('=' :: Base64.alphabet).all (fun c => !isWhitespace c) = true := by decide +kernel
  have hws : ∀ c ∈ '=' :: Base64.alphabet, isWhitespace c = false := by
    simpa only [List.all_eq_true, Bool.not_eq_true'] using hall
  have hdrop : ∀ cs : List Char, (∀ c ∈ cs, isWhitespace c = false) → cs.dropWhile isWhitespace = cs := by
    intro cs h
    cases cs with
    | nil => rfl
    | cons c cs => rw [List.dropWhile_cons_of_neg (by simp [h c List.mem_cons_self])]
  unfold trim
  rw [hdrop _ fun c hc => hws c (Base64.mem_encode hc), hdrop, List.reverse_reverse]
  intro c hc
  exact hws c (Base64.mem_encode (List.mem_reverse.1 hc))

/-- Any program can log the line of any event. -/
theorem carries_dataLine {ev : ThoughtSubmittedEvent} (h : (utf8 ev.traceUri).length < 2 ^ 32) :
    Carries (dataLine (THOUGHT_SUBMITTED_DISCRIMINATOR.toList ++ ev.borsh)) ev := by
  refine ⟨h, _, [], toList_dataLine _, ?_⟩
  rw [trim_encode, Base64.decode_encode, List.append_nil]

/-! ## The pump -/

/-- What `logsSubscribe` delivers of a transaction. -/
structure LogsResponse where
  err : Option String
  logs : List String

/-- The lines of one transaction, with what has been sent so far. `accepts` tells whether the receiver still takes an
event; `false` is the early return. -/
def pumpLogs (accepts : List ThoughtSubmittedEvent → Bool) :
    List String → List ThoughtSubmittedEvent → List ThoughtSubmittedEvent × Bool
  | [], sent => (sent, true)
  | line :: lines, sent =>
    match lineEvent line with
    | none => pumpLogs accepts lines sent
    | some event => if accepts sent then pumpLogs accepts lines (sent ++ [event]) else (sent, false)

/-- The loop over the stream: the events sent. -/
def pump (accepts : List ThoughtSubmittedEvent → Bool) :
    List LogsResponse → List ThoughtSubmittedEvent → List ThoughtSubmittedEvent
  | [], sent => sent
  | resp :: stream, sent =>
    match pumpLogs accepts resp.logs sent with
    | (sent, true) => pump accepts stream sent
    | (sent, false) => sent

/-- `connect_and_pump`: the events sent and the result, for a connection, a subscription and a receiver. -/
def connectAndPump (connect : Except String Unit) (subscribe : Except String (List LogsResponse))
    (accepts : List ThoughtSubmittedEvent → Bool) : List ThoughtSubmittedEvent × Except SubscribeError Unit :=
  match connect with
  | .error e => ([], .error (.connect e))
  | .ok () =>
    match subscribe with
    | .error e => ([], .error (.connect e))
    | .ok stream => (pump accepts stream [], .ok ())

/-- The events of the delivered lines, in order. -/
def offered (stream : List LogsResponse) : List ThoughtSubmittedEvent :=
  stream.flatMap fun resp => resp.logs.filterMap lineEvent

section Pump

variable {accepts : List ThoughtSubmittedEvent → Bool}

/-- **One transaction**: its events are sent in order, all of them unless the receiver stops. -/
theorem pumpLogs_eq (lines : List String) (sent : List ThoughtSubmittedEvent) :
    ∃ more, (pumpLogs accepts lines sent).1 = sent ++ more ∧ more <+: lines.filterMap lineEvent ∧
      ((pumpLogs accepts lines sent).2 = true → more = lines.filterMap lineEvent) := by
  induction lines generalizing sent with
  | nil => exact ⟨[], by simp [pumpLogs]⟩
  | cons line lines ih =>
    rw [pumpLogs]
    cases hl : lineEvent line with
    | none =>
      rw [List.filterMap_cons_none hl]
      exact ih sent
    | some event =>
      rw [List.filterMap_cons_some hl]
      dsimp only
      cases accepts sent with
      | false => exact ⟨[], by simp⟩
      | true =>
        obtain ⟨more, he, hp, hall⟩ := ih (sent ++ [event])
        refine ⟨event :: more, by simpa using he, List.cons_prefix_cons.2 ⟨rfl, hp⟩, fun h => ?_⟩
        rw [hall h]

theorem pumpLogs_open (ha : ∀ sent, accepts sent = true) (lines : List String) (sent : List ThoughtSubmittedEvent) :
    (pumpLogs accepts lines sent).2 = true := by
  induction lines generalizing sent with
  | nil => rfl
  | cons line lines ih =>
    rw [pumpLogs]
    cases lineEvent line with
    | none => exact ih sent
    | some event =>
      dsimp only
      rw [if_pos (ha sent)]
      exact ih _

/-- **The pump sends the events of the delivered lines**, in order, until the receiver stops. -/
theorem pump_eq (stream : List LogsResponse) (sent : List ThoughtSubmittedEvent) :
    ∃ more, pump accepts stream sent = sent ++ more ∧ more <+: offered stream ∧
      ((∀ sent, accepts sent = true) → more = offered stream) := by
  induction stream generalizing sent with
  | nil => exact ⟨[], by simp [pump, offered]⟩
  | cons resp stream ih =>
    obtain ⟨more, he, hp, hall⟩ := pumpLogs_eq resp.logs sent
    have hopen := fun ha : ∀ sent, accepts sent = true => pumpLogs_open ha resp.logs sent
    have hoff : offered (resp :: stream) = resp.logs.filterMap lineEvent ++ offered stream := rfl
    rw [pump, hoff]
    cases hr : pumpLogs accepts resp.logs sent with
    | mk sent' go =>
      rw [hr] at he hall hopen
      obtain rfl := he
      cases go with
      | false =>
        refine ⟨more, rfl, hp.trans (List.prefix_append _ _), fun ha => ?_⟩
        cases hopen ha
      | true =>
        obtain ⟨rest, he', hp', hall'⟩ := ih (sent ++ more)
        rw [hall rfl] at he' ⊢
        refine ⟨resp.logs.filterMap lineEvent ++ rest, ?_, (List.prefix_append_right_inj _).2 hp', fun ha => ?_⟩
        · rw [← List.append_assoc]
          exact he'
        · rw [hall' ha]

end Pump

end ProofOfThought.Watcher
