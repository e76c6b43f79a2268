import Mathlib.Data.List.Perm.Subperm
import ProofOfThought.Base.Pool
import ProofOfThought.Watcher.Fetch
import ProofOfThought.Watcher.Subscribe

/-!
# The watcher's actors

The daemon as `main` wires it: the loop that connects and reconnects the log stream, the bounded channel, and a task for
each event received, from its fetch to the counter of bonds. All steps interleave. No event of a delivered line is lost,
doubled or put out of order, and once the actors are idle the challenges submitted are those due, as far as the cap has
room for them (`actors_exact`); and the actors become idle however they are scheduled (`actors_drain`).
-/

namespace ProofOfThought.Watcher

open Base
open Program (Bytes32)

/-! ## Actors -/

/-- What `main` wires. -/
structure Wiring where
  channelCapacity : Nat
  fetcher : TraceFetcher
  bondStrategy : BondStrategy
  maxStakeAtRiskLamports : UInt64

def Wiring.filer (w : Wiring) : ChallengeFiler := .new w.bondStrategy w.maxStakeAtRiskLamports

/-- `handle_event` of an event. -/
structure Handler where
  event : ThoughtSubmittedEvent
  /-- `none` while the trace is fetched. -/
  task : Option Task

structure ActorState where
  /-- The failures to connect in a row. -/
  attempt : UInt32
  /-- The lines of the last response that the pump has yet to read; `none` without a connection. -/
  pump : Option (List String)
  /-- The channel. -/
  queue : List ThoughtSubmittedEvent
  handlers : List Handler
  inFlightBond : UInt64
  submitted : List ChallengeArgs

def ActorState.init : ActorState := ⟨0, none, [], [], 0, []⟩

inductive ActorAction where
  | connect
  /-- The connection fails, at a time with these nanoseconds. -/
  | refuse (nanos : UInt64)
  /-- The stream ends. -/
  | close
  | response (logs : List String)
  /-- The pump reads a line, and sends its event. -/
  | line
  /-- `run_pipeline` receives an event and spawns its task. -/
  | recv
  /-- The fetch returns; `get` is what the gateway answers. -/
  | fetch (i : Nat) (get : String → Except String Response)
  | decide (i : Nat)
  | submit (i : Nat)
  | fetchAdd (i : Nat)

/-- `handle_event` after its fetch. -/
def Task.start : Option Call → Task
  | some call => .deciding call
  | none => .done

section

variable (w : Wiring) (net : Net)

/-- One step of one actor. -/
def actorStep (s : ActorState) : ActorAction → Option ActorState
  | .connect => if s.pump = none then some { s with pump := some [] } else none
  | .refuse _ => if s.pump = none then some { s with attempt := saturatingAdd32 s.attempt 1 } else none
  | .close => if s.pump = some [] then some { s with pump := none, attempt := 0 } else none
  | .response logs => if s.pump = some [] then some { s with pump := some logs } else none
  | .line =>
    match s.pump with
    | some (line :: lines) =>
      match lineEvent line with
      | none => some { s with pump := some lines }
      | some event =>
        -- `send` waits while the channel is full
        if s.queue.length < w.channelCapacity then
          some { s with pump := some lines, queue := s.queue ++ [event] }
        else none
    | _ => none
  | .recv =>
    match s.queue with
    | event :: queue => some { s with queue, handlers := s.handlers ++ [⟨event, none⟩] }
    | [] => none
  | .fetch i get =>
    match s.handlers[i]? with
    | some ⟨event, none⟩ =>
      let fetched := w.fetcher.fetch { net with get } event.traceUri event.traceUriHash
      some { s with handlers := s.handlers.set i ⟨event, some (.start (handleEvent net.blake3 event fetched))⟩ }
    | _ => none
  | .decide i =>
    match s.handlers[i]? with
    | some ⟨event, some (.deciding call)⟩ =>
      match w.filer.decide net.blake3 s.inFlightBond call with
      | .file args => some { s with handlers := s.handlers.set i ⟨event, some (.submitting args)⟩ }
      | _ => some { s with handlers := s.handlers.set i ⟨event, some .done⟩ }
    | _ => none
  | .submit i =>
    -- the submitter is the one that always succeeds
    match s.handlers[i]? with
    | some ⟨event, some (.submitting args)⟩ =>
      some { s with
        handlers := s.handlers.set i ⟨event, some (.reserving args.bond)⟩, submitted := s.submitted ++ [args] }
    | _ => none
  | .fetchAdd i =>
    match s.handlers[i]? with
    | some ⟨event, some (.reserving bond)⟩ =>
      some { s with handlers := s.handlers.set i ⟨event, some .done⟩, inFlightBond := s.inFlightBond + bond }
    | _ => none

/-- What each step does. -/
inductive ActorEffect (s : ActorState) : ActorAction → ActorState → Prop
  | connect : s.pump = none → ActorEffect s .connect { s with pump := some [] }
  | refuse {nanos} : s.pump = none →
      ActorEffect s (.refuse nanos) { s with attempt := saturatingAdd32 s.attempt 1 }
  | close : s.pump = some [] → ActorEffect s .close { s with pump := none, attempt := 0 }
  | response {logs} : s.pump = some [] → ActorEffect s (.response logs) { s with pump := some logs }
  | pass {line lines} : s.pump = some (line :: lines) → lineEvent line = none →
      ActorEffect s .line { s with pump := some lines }
  | send {line lines event} : s.pump = some (line :: lines) → lineEvent line = some event →
      s.queue.length < w.channelCapacity →
      ActorEffect s .line { s with pump := some lines, queue := s.queue ++ [event] }
  | recv {event queue} : s.queue = event :: queue →
      ActorEffect s .recv { s with queue, handlers := s.handlers ++ [⟨event, none⟩] }
  | fetch {i get event} : s.handlers[i]? = some ⟨event, none⟩ →
      ActorEffect s (.fetch i get) { s with handlers := s.handlers.set i ⟨event, some (.start (handleEvent net.blake3
        event (w.fetcher.fetch { net with get } event.traceUri event.traceUriHash)))⟩ }
  | file {i event call args} : s.handlers[i]? = some ⟨event, some (.deciding call)⟩ →
      w.filer.decide net.blake3 s.inFlightBond call = .file args →
      ActorEffect s (.decide i) { s with handlers := s.handlers.set i ⟨event, some (.submitting args)⟩ }
  | skip {i event call} : s.handlers[i]? = some ⟨event, some (.deciding call)⟩ →
      (∀ args, w.filer.decide net.blake3 s.inFlightBond call ≠ .file args) →
      ActorEffect s (.decide i) { s with handlers := s.handlers.set i ⟨event, some .done⟩ }
  | submit {i event args} : s.handlers[i]? = some ⟨event, some (.submitting args)⟩ →
      ActorEffect s (.submit i) { s with
        handlers := s.handlers.set i ⟨event, some (.reserving args.bond)⟩, submitted := s.submitted ++ [args] }
  | fetchAdd {i event bond} : s.handlers[i]? = some ⟨event, some (.reserving bond)⟩ →
      ActorEffect s (.fetchAdd i)
        { s with handlers := s.handlers.set i ⟨event, some .done⟩, inFlightBond := s.inFlightBond + bond }

end

variable {w : Wiring} {net : Net} {s s' : ActorState} {act : ActorAction} {h : List (ActorState × ActorAction)}

theorem actorStep_iff : actorStep w net s act = some s' ↔ ActorEffect w net s act s' := by
  constructor
  · intro h
    cases act with
    | connect =>
      simp only [actorStep, Option.ite_none_right_eq_some, Option.some.injEq] at h
      obtain ⟨hp, rfl⟩ := h
      exact .connect hp
    | refuse nanos =>
      simp only [actorStep, Option.ite_none_right_eq_some, Option.some.injEq] at h
      obtain ⟨hp, rfl⟩ := h
      exact .refuse hp
    | close =>
      simp only [actorStep, Option.ite_none_right_eq_some, Option.some.injEq] at h
      obtain ⟨hp, rfl⟩ := h
      exact .close hp
    | response logs =>
      simp only [actorStep, Option.ite_none_right_eq_some, Option.some.injEq] at h
      obtain ⟨hp, rfl⟩ := h
      exact .response hp
    | line =>
      simp only [actorStep] at h
      split at h
      · rename_i line lines hp
        split at h
        · rename_i hl
          cases h
          exact .pass hp hl
        · rename_i event hl
          simp only [Option.ite_none_right_eq_some, Option.some.injEq] at h
          obtain ⟨hroom, rfl⟩ := h
          exact .send hp hl hroom
      · cases h
    | recv =>
      simp only [actorStep] at h
      split at h <;> cases h
      rename_i event queue hq
      exact .recv hq
    | fetch i get =>
      simp only [actorStep] at h
      split at h <;> cases h
      rename_i event hi
      exact .fetch hi
    | decide i =>
      simp only [actorStep] at h
      split at h
      · rename_i event call hi
        split at h <;> cases h
        · rename_i args hd
          exact .file hi hd
        · rename_i hd
          exact .skip hi hd
      · cases h
    | submit i =>
      simp only [actorStep] at h
      split at h <;> cases h
      rename_i event args hi
      exact .submit hi
    | fetchAdd i =>
      simp only [actorStep] at h
      split at h <;> cases h
      rename_i event bond hi
      exact .fetchAdd hi
  · intro h
    cases h with
    | connect hp => simp [actorStep, hp]
    | refuse hp => simp [actorStep, hp]
    | close hp => simp [actorStep, hp]
    | response hp => simp [actorStep, hp]
    | pass hp hl => simp [actorStep, hp, hl]
    | send hp hl hroom => simp [actorStep, hp, hl, hroom]
    | recv hq => simp [actorStep, hq]
    | fetch hi => simp [actorStep, hi]
    | file hi hd => simp [actorStep, hi, hd]
    | skip hi hd => simp only [actorStep, hi]
    | submit hi => simp [actorStep, hi]
    | fetchAdd hi => simp [actorStep, hi]

/-! ## What is delivered, and what is due -/

def ActorAction.logs : ActorAction → List String
  | .response logs => logs
  | _ => []

/-- The events in the lines of the responses, in order. -/
def deliveredEvents (h : List (ActorState × ActorAction)) : List ThoughtSubmittedEvent :=
  (h.flatMap fun x => x.2.logs).filterMap lineEvent

section

variable (w : Wiring) (net : Net)

/-- The event of a fetch, and what its fetch returned. -/
def fetched? (x : ActorState × ActorAction) : Option (ThoughtSubmittedEvent × Except FetchError TraceBundle) :=
  match x.2 with
  | .fetch i get => (x.1.handlers[i]?).map fun hd =>
    (hd.event, w.fetcher.fetch { net with get } hd.event.traceUri hd.event.traceUriHash)
  | _ => none

/-- The fetches, in the order in which they return. -/
def fetches (h : List (ActorState × ActorAction)) :
    List (ThoughtSubmittedEvent × Except FetchError TraceBundle) := h.filterMap (fetched? w net)

/-- The bond of every challenge. -/
def Wiring.bond : UInt64 := w.filer.bondFor PLACEHOLDER_BOND_MIN

/-- The challenge due for a fetch: the output of the trace does not match its commitment. -/
def Wiring.due (event : ThoughtSubmittedEvent) : Except FetchError TraceBundle → Option ChallengeArgs
  | .error _ => none
  | .ok bundle =>
    if w.bondStrategy = .disabled ∨ net.blake3 bundle.rawCanonicalOutput = event.outputCommitment then none
    else some ⟨event.thoughtPda, .inconsistentCommitments, w.bond, net.blake3 (utf8 event.traceUri)⟩

/-- The challenges due for the fetches. -/
def dues (h : List (ActorState × ActorAction)) : List ChallengeArgs :=
  (fetches w net h).filterMap fun x => w.due net x.1 x.2

/-- The challenge due for a call. -/
def Wiring.dueOf (call : Call) : Option ChallengeArgs :=
  match call.outcome with
  | .mismatch claim evidenceUri =>
    if w.bondStrategy = .disabled then none else some ⟨call.thoughtPda, claim, w.bond, net.blake3 (utf8 evidenceUri)⟩
  | _ => none

/-- The challenge that a handler has yet to submit. -/
def Handler.awaits : Handler → Option ChallengeArgs
  | ⟨_, some (.deciding call)⟩ => w.dueOf net call
  | ⟨_, some (.submitting args)⟩ => some args
  | _ => none

end

/-- The event of a handler whose fetch has returned. -/
def Handler.fetched (hd : Handler) : Option ThoughtSubmittedEvent := hd.task.map fun _ => hd.event

/-- Submitted, and not on the counter yet. -/
def Handler.reserving : Handler → Nat
  | ⟨_, some (.reserving _)⟩ => 1
  | _ => 0

/-- The values of a handler are those `handle_event` passes. -/
def Handler.Sound (w : Wiring) : Handler → Prop
  | ⟨_, some (.deciding call)⟩ =>
    call.agentStakeLamports = PLACEHOLDER_AGENT_STAKE_LAMPORTS ∧ call.policyBondMin = PLACEHOLDER_BOND_MIN
  | ⟨_, some (.submitting args)⟩ => args.bond = w.bond
  | ⟨_, some (.reserving bond)⟩ => bond = w.bond
  | _ => True

/-- The cap has no room for a challenge more. -/
def CapSpent (w : Wiring) (s : ActorState) : Prop :=
  w.maxStakeAtRiskLamports.toNat < w.bond.toNat * (s.submitted.length + 1)

theorem due_eq (event : ThoughtSubmittedEvent) (r : Except FetchError TraceBundle) :
    w.due net event r = (handleEvent net.blake3 event r).bind (w.dueOf net) := by
  cases r with
  | error e => rfl
  | ok bundle =>
    simp only [Wiring.due, handleEvent, Option.bind_some, Wiring.dueOf, ByteCompareVerifier.verify]
    by_cases hm : net.blake3 bundle.rawCanonicalOutput = event.outputCommitment
    · simp [hm]
    · simp [hm]

/-- Every filing is worth its bond, by the values `handle_event` passes. -/
theorem worth (hs : w.bondStrategy ≠ .disabled) :
    saturatingAdd w.bond w.filer.txFeeLamports < mulDiv PLACEHOLDER_AGENT_STAKE_LAMPORTS 6 10 := by
  obtain ⟨_, _, strategy, _⟩ := w
  cases strategy with
  | conservative => show saturatingAdd 500000000 5000000 < mulDiv 100000000000 6 10; decide
  | aggressive => show saturatingAdd (saturatingMul 500000000 2) 5000000 < mulDiv 100000000000 6 10; decide
  | disabled => exact absurd rfl hs

theorem dueOf_of_file {event : ThoughtSubmittedEvent} {inFlight : UInt64} {call : Call} {args : ChallengeArgs}
    (hs : Handler.Sound w ⟨event, some (.deciding call)⟩)
    (hd : w.filer.decide net.blake3 inFlight call = .file args) :
    w.dueOf net call = some args ∧ args.bond = w.bond := by
  obtain ⟨hf, claim, evidenceUri, ho, rfl⟩ := ChallengeFiler.decide_eq_file.1 hd
  have he : w.bondStrategy ≠ .disabled := hf.enabled
  rw [Wiring.dueOf, ho, hs.2]
  exact ⟨if_neg he, rfl⟩

/-- A call that is not filed has nothing due, or the cap is in the way. -/
theorem dueOf_of_skip {event : ThoughtSubmittedEvent} {inFlight : UInt64} {call : Call}
    (hs : Handler.Sound w ⟨event, some (.deciding call)⟩)
    (hd : ∀ args, w.filer.decide net.blake3 inFlight call ≠ .file args) :
    w.dueOf net call = none ∨ w.maxStakeAtRiskLamports.toNat < w.bond.toNat + inFlight.toNat := by
  cases ho : call.outcome with
  | matched => exact .inl (by rw [Wiring.dueOf, ho])
  | inconclusive reason => exact .inl (by rw [Wiring.dueOf, ho])
  | mismatch claim evidenceUri =>
    by_cases he : w.bondStrategy = .disabled
    · exact .inl (by rw [Wiring.dueOf, ho]; exact if_pos he)
    · right
      by_contra hcap
      refine hd _ (ChallengeFiler.decide_eq_file.2 ⟨⟨he, ⟨_, _, ho⟩, ?_, ?_⟩, _, _, ho, rfl⟩)
      · rw [hs.1, hs.2]
        exact worth he
      · rw [hs.2, UInt64.le_iff_toNat_le, toNat_saturatingAdd]
        exact Nat.le_trans (Nat.min_le_left _ _) (Nat.not_lt.1 hcap)

/-! ## The balance -/

/-- What each actor holds of what was delivered, fetched and due. -/
structure Balanced (w : Wiring) (net : Net) (h : List (ActorState × ActorAction)) (s : ActorState) : Prop where
  delivered : deliveredEvents h =
    s.handlers.map Handler.event ++ s.queue ++ (s.pump.getD []).filterMap lineEvent
  room : s.queue.length ≤ w.channelCapacity
  sound : ∀ hd ∈ s.handlers, hd.Sound w
  fetched : ((fetches w net h).map Prod.fst).Perm (s.handlers.filterMap Handler.fetched)
  counter : s.inFlightBond.toNat + w.bond.toNat * total Handler.reserving s.handlers ≤
    w.bond.toNat * s.submitted.length
  /-- Something due is skipped only once the cap is spent. -/
  dues : ∃ skipped, (dues w net h).Perm (s.submitted ++ s.handlers.filterMap (Handler.awaits w net) ++ skipped) ∧
    (skipped = [] ∨ CapSpent w s)

theorem Balanced.init : Balanced w net [] .init where
  delivered := rfl
  room := Nat.zero_le _
  sound := nofun
  fetched := .refl _
  counter := Nat.le_refl _
  dues := ⟨[], .refl _, .inl rfl⟩

@[simp] theorem deliveredEvents_snoc (x : ActorState × ActorAction) :
    deliveredEvents (h ++ [x]) = deliveredEvents h ++ x.2.logs.filterMap lineEvent := by
  simp [deliveredEvents]

@[simp] theorem fetches_snoc (x : ActorState × ActorAction) :
    fetches w net (h ++ [x]) = fetches w net h ++ (fetched? w net x).toList := by
  simp only [fetches, List.filterMap_append, List.filterMap_cons, List.filterMap_nil]
  cases fetched? w net x <;> rfl

@[simp] theorem dues_snoc (x : ActorState × ActorAction) : Watcher.dues w net (h ++ [x]) =
    Watcher.dues w net h ++ (fetched? w net x).toList.filterMap fun x => w.due net x.1 x.2 := by
  rw [Watcher.dues, fetches_snoc, List.filterMap_append, Watcher.dues]

theorem dues_append (g : List (ActorState × ActorAction)) :
    Watcher.dues w net (h ++ g) = Watcher.dues w net h ++ Watcher.dues w net g := by
  simp only [Watcher.dues, fetches, List.filterMap_append]

theorem CapSpent.mono {s s' : ActorState} (h : s.submitted.length ≤ s'.submitted.length) (hc : CapSpent w s) :
    CapSpent w s' := Nat.lt_of_lt_of_le hc (Nat.mul_le_mul_left _ (Nat.succ_le_succ h))

/-- The handler that a fetch starts awaits what is due. -/
theorem awaits_start (event : ThoughtSubmittedEvent) (o : Option Call) :
    Handler.awaits w net ⟨event, some (.start o)⟩ = o.bind (w.dueOf net) := by
  cases o <;> rfl

theorem sound_start (event : ThoughtSubmittedEvent) (r : Except FetchError TraceBundle) :
    Handler.Sound w ⟨event, some (.start (handleEvent net.blake3 event r))⟩ := by
  cases r with
  | error e => trivial
  | ok bundle => exact ⟨rfl, rfl⟩

theorem sound_set {hs : List Handler} {i : Nat} {new : Handler} (hs₀ : ∀ hd ∈ hs, hd.Sound w) (hn : new.Sound w) :
    ∀ hd ∈ hs.set i new, hd.Sound w := by
  intro hd hm
  rcases List.mem_or_eq_of_mem_set hm with hm | rfl
  · exact hs₀ hd hm
  · exact hn

/-- **A step of the stream** moves events between the lines, the channel and the handlers. -/
theorem Balanced.stream {x : ActorState × ActorAction} (hb : Balanced w net h s) (hf : fetched? w net x = none)
    (hs : s'.handlers = s.handlers ∨ ∃ event, s'.handlers = s.handlers ++ [⟨event, none⟩])
    (hc : s'.inFlightBond = s.inFlightBond) (hsub : s'.submitted = s.submitted)
    (hroom : s'.queue.length ≤ w.channelCapacity)
    (hd : deliveredEvents h ++ x.2.logs.filterMap lineEvent =
      s'.handlers.map Handler.event ++ s'.queue ++ (s'.pump.getD []).filterMap lineEvent) :
    Balanced w net (h ++ [x]) s' := by
  have hnew : ∀ {β : Type} (f : Handler → Option β), (∀ event, f ⟨event, none⟩ = none) →
      s'.handlers.filterMap f = s.handlers.filterMap f := by
    intro β f hf
    rcases hs with hs | ⟨event, hs⟩
    · rw [hs]
    · rw [hs, List.filterMap_append, List.filterMap_cons, hf, List.filterMap_nil, List.append_nil]
  have hres : total Handler.reserving s'.handlers = total Handler.reserving s.handlers := by
    rcases hs with hs | ⟨event, hs⟩
    · rw [hs]
    · rw [hs, total_snoc]
      rfl
  refine ⟨by rw [deliveredEvents_snoc]; exact hd, hroom, ?_, ?_, ?_, ?_⟩
  · intro hd hm
    rcases hs with hs | ⟨event, hs⟩
    · exact hb.sound hd (hs ▸ hm)
    · rw [hs, List.mem_append, List.mem_singleton] at hm
      rcases hm with hm | rfl
      · exact hb.sound hd hm
      · trivial
  · rw [hnew _ fun _ => rfl, fetches_snoc, hf, Option.toList_none, List.append_nil]
    exact hb.fetched
  · rw [hres, hc, hsub]
    exact hb.counter
  · obtain ⟨skipped, hp, hk⟩ := hb.dues
    refine ⟨skipped, ?_, hk.imp id (CapSpent.mono (by rw [hsub]))⟩
    rw [dues_snoc, hf, hnew _ fun _ => rfl, hsub, Option.toList_none, List.filterMap_nil, List.append_nil]
    exact hp

/-- **A step of a handler** submits `sub` and skips `extra`, out of what it awaited and what its fetch made due. -/
theorem Balanced.handle {x : ActorState × ActorAction} {i : Nat} {old new : Handler} (hb : Balanced w net h s)
    (sub extra : List ChallengeArgs) (hi : s.handlers[i]? = some old) (hl : x.2.logs = []) (hp : s'.pump = s.pump)
    (hq : s'.queue = s.queue) (hs : s'.handlers = s.handlers.set i new) (he : new.event = old.event)
    (hn : new.Sound w) (hsub : s'.submitted = s.submitted ++ sub)
    (hf : new.fetched.toList = old.fetched.toList ++ ((fetched? w net x).map Prod.fst).toList)
    (hc : s'.inFlightBond.toNat + w.bond.toNat * new.reserving ≤
      s.inFlightBond.toNat + w.bond.toNat * old.reserving + w.bond.toNat * sub.length)
    (hd : ∀ a, (((fetched? w net x).toList.filterMap fun y => w.due net y.1 y.2)).count a +
      (old.awaits w net).toList.count a = sub.count a + (new.awaits w net).toList.count a + extra.count a)
    (hx : extra = [] ∨ CapSpent w s') : Balanced w net (h ++ [x]) s' where
  delivered := by
    rw [deliveredEvents_snoc, hl, List.filterMap_nil, List.append_nil, hs, hq, hp, map_set_of_eq hi he]
    exact hb.delivered
  room := hq ▸ hb.room
  sound := hs ▸ sound_set hb.sound hn
  fetched := by
    rw [hs, List.perm_iff_count]
    intro e
    have h1 := count_filterMap_set hi new Handler.fetched e
    have h2 := List.perm_iff_count.1 hb.fetched e
    rw [hf, List.count_append] at h1
    rw [fetches_snoc, List.map_append, List.count_append, h2, ← Option.toList_map]
    omega
  counter := by
    have h1 := total_set (f := Handler.reserving) hi new
    have h2 := hb.counter
    have h3 := congrArg (w.bond.toNat * ·) h1
    simp only [Nat.mul_add] at h3
    rw [hs, hsub, List.length_append, Nat.mul_add]
    omega
  dues := by
    obtain ⟨skipped, hperm, hk⟩ := hb.dues
    refine ⟨skipped ++ extra, ?_, ?_⟩
    · rw [List.perm_iff_count]
      intro a
      have h1 := count_filterMap_set hi new (Handler.awaits w net) a
      have h2 := List.perm_iff_count.1 hperm a
      have h3 := hd a
      rw [dues_snoc, hs, hsub]
      simp only [List.count_append] at h2 ⊢
      omega
    · rcases hx with rfl | hx
      · rw [List.append_nil]
        exact hk.imp id (CapSpent.mono (by rw [hsub, List.length_append]; omega))
      · exact .inr hx

/-- **Every step keeps the balance.** -/
theorem Balanced.step (hb : Balanced w net h s) (he : ActorEffect w net s act s') :
    Balanced w net (h ++ [(s, act)]) s' := by
  have hdel := hb.delivered
  cases he with
  | connect hp => exact hb.stream rfl (.inl rfl) rfl rfl hb.room (by simpa [ActorAction.logs, hp] using hdel)
  | refuse hp => exact hb.stream rfl (.inl rfl) rfl rfl hb.room (by simpa [ActorAction.logs, hp] using hdel)
  | close hp => exact hb.stream rfl (.inl rfl) rfl rfl hb.room (by simpa [ActorAction.logs, hp] using hdel)
  | response hp =>
    refine hb.stream rfl (.inl rfl) rfl rfl hb.room ?_
    rw [hdel, hp]
    simp [ActorAction.logs]
  | pass hp hl =>
    refine hb.stream rfl (.inl rfl) rfl rfl hb.room ?_
    simpa [ActorAction.logs, hp, hl] using hdel
  | send hp hl hroom =>
    refine hb.stream rfl (.inl rfl) rfl rfl (by simpa using Nat.succ_le_of_lt hroom) ?_
    simpa [ActorAction.logs, hp, hl] using hdel
  | recv hq =>
    refine hb.stream rfl (.inr ⟨_, rfl⟩) rfl rfl ?_ ?_
    · have hroom := hb.room
      rw [hq, List.length_cons] at hroom
      exact Nat.le_of_succ_le hroom
    · simpa [ActorAction.logs, hq] using hdel
  | @fetch i get event hi =>
    have hx : fetched? w net (s, .fetch i get) =
        some (event, w.fetcher.fetch { net with get } event.traceUri event.traceUriHash) := by
      show (s.handlers[i]?).map _ = _
      rw [hi]
      rfl
    refine hb.handle [] [] hi rfl rfl rfl rfl rfl (sound_start _ _) (List.append_nil _).symm ?_ ?_
      ?_ (.inl rfl)
    · rw [hx]
      rfl
    · cases handleEvent net.blake3 event (w.fetcher.fetch { net with get } event.traceUri event.traceUriHash) <;>
        exact Nat.le_refl _
    · intro a
      rw [hx, awaits_start, ← due_eq, Option.toList_some, List.filterMap_cons, List.filterMap_nil]
      cases w.due net event _ <;> simp [Handler.awaits]
  | @file i event call args hi hd =>
    have hs := hb.sound _ (List.mem_of_getElem? hi)
    obtain ⟨hdue, hbond⟩ := dueOf_of_file hs hd
    refine hb.handle [] [] hi rfl rfl rfl rfl rfl hbond (List.append_nil _).symm rfl (Nat.le_refl _)
      (fun a => ?_) (.inl rfl)
    simp [fetched?, Handler.awaits, hdue]
  | @skip i event call hi hd =>
    have hs := hb.sound _ (List.mem_of_getElem? hi)
    refine hb.handle [] (w.dueOf net call).toList hi rfl rfl rfl rfl rfl trivial
      (List.append_nil _).symm rfl (Nat.le_refl _) (fun a => ?_) ?_
    · simp [fetched?, Handler.awaits]
    · rcases dueOf_of_skip hs hd with hnone | hcap
      · exact .inl (by rw [hnone]; rfl)
      · have hcount := hb.counter
        right
        show _ < _ * (s.submitted.length + 1)
        rw [Nat.mul_add]
        omega
  | @submit i event args hi =>
    have hs := hb.sound _ (List.mem_of_getElem? hi)
    refine hb.handle [args] [] hi rfl rfl rfl rfl rfl hs rfl rfl (Nat.le_of_eq ?_) (fun a => ?_)
      (.inl rfl)
    · simp [Handler.reserving]
    · simp [fetched?, Handler.awaits]
  | @fetchAdd i event bond hi =>
    obtain rfl : bond = w.bond := hb.sound _ (List.mem_of_getElem? hi)
    refine hb.handle [] [] hi rfl rfl rfl rfl rfl trivial (List.append_nil _).symm rfl ?_
      (fun a => ?_) (.inl rfl)
    · simp only [Handler.reserving, UInt64.toNat_add, List.length_nil, Nat.mul_zero, Nat.mul_one, Nat.add_zero]
      exact Nat.mod_le _ _
    · simp [fetched?, Handler.awaits]

theorem balanced_of_run (hr : Run (actorStep w net) .init h s) : Balanced w net h s :=
  hr.inv (fun h s => Balanced w net h s) .init fun _ _ _ _ _ hb ha => hb.step (actorStep_iff.1 ha)

/-! ## Idle actors -/

/-- Nothing is left to do: every line is read, the channel is empty, and every handler is done. -/
structure ActorState.Idle (s : ActorState) : Prop where
  lines : s.pump.getD [] = []
  queue : s.queue = []
  handlers : ∀ hd ∈ s.handlers, hd.task = some .done

namespace Balanced

variable (hb : Balanced w net h s)

include hb

/-- What is fetched was delivered. -/
theorem fetched_subperm : ((fetches w net h).map Prod.fst).Subperm (deliveredEvents h) := by
  have hsub : (s.handlers.filterMap Handler.fetched).Sublist (s.handlers.map Handler.event) := by
    induction s.handlers with
    | nil => exact .slnil
    | cons hd hs ih =>
      obtain ⟨event, task⟩ := hd
      cases task with
      | none => exact ih.cons _
      | some task => exact ih.cons_cons _
  rw [hb.delivered, List.append_assoc]
  exact hb.fetched.subperm.trans (hsub.trans (List.sublist_append_left _ _)).subperm

/-- Idle actors have fetched what was delivered. -/
theorem fetched_perm (hi : s.Idle) : ((fetches w net h).map Prod.fst).Perm (deliveredEvents h) := by
  rw [hb.delivered, hi.lines, hi.queue, List.filterMap_nil, List.append_nil, List.append_nil]
  refine hb.fetched.trans (List.Perm.of_eq ?_)
  rw [← List.filterMap_eq_map]
  refine List.filterMap_congr fun hd hm => ?_
  rw [Handler.fetched, hi.handlers hd hm]
  rfl

/-- What is submitted is due. -/
theorem submitted_subperm : s.submitted.Subperm (Watcher.dues w net h) := by
  obtain ⟨skipped, hperm, -⟩ := hb.dues
  rw [List.append_assoc] at hperm
  exact ((List.sublist_append_left _ _).subperm).trans hperm.symm.subperm

/-- Idle actors have submitted what is due, or what the cap has room for. -/
theorem min_le_submitted (hi : s.Idle) :
    min (Watcher.dues w net h).length (w.maxStakeAtRiskLamports.toNat / w.bond.toNat) ≤ s.submitted.length := by
  obtain ⟨skipped, hperm, hk⟩ := hb.dues
  have hnone : s.handlers.filterMap (Handler.awaits w net) = [] := by
    rw [List.filterMap_eq_nil_iff]
    intro hd hm
    obtain ⟨event, task⟩ := hd
    obtain rfl : task = some .done := hi.handlers _ hm
    rfl
  have hlen := hperm.length_eq
  rw [hnone, List.append_nil, List.length_append] at hlen
  rcases hk with rfl | hc
  · rw [List.length_nil, Nat.add_zero] at hlen
    exact hlen ▸ Nat.min_le_left _ _
  · have hlt := Nat.div_lt_of_lt_mul hc
    exact Nat.le_trans (Nat.min_le_right _ _) (Nat.le_of_lt_succ hlt)

end Balanced

/-- **The watcher's actors.** In every state of every run, the events of the lines delivered are, in order, those that
have a handler, those in the channel and those not read yet, and the channel is within its capacity; and the challenges
submitted are among those due, none twice. Once the actors are idle every delivered event was fetched once, and the
challenges due are submitted, all of them or as many as the cap has room for. -/
theorem actors_exact (hr : Run (actorStep w net) .init h s) :
    (deliveredEvents h = s.handlers.map Handler.event ++ s.queue ++ (s.pump.getD []).filterMap lineEvent ∧
      s.queue.length ≤ w.channelCapacity) ∧
    s.submitted.Subperm (dues w net h) ∧
    (s.Idle → ((fetches w net h).map Prod.fst).Perm (deliveredEvents h) ∧
      min (dues w net h).length (w.maxStakeAtRiskLamports.toNat / w.bond.toNat) ≤ s.submitted.length) := by
  have hb := balanced_of_run hr
  exact ⟨⟨hb.delivered, hb.room⟩, hb.submitted_subperm, fun hi => ⟨hb.fetched_perm hi, hb.min_le_submitted hi⟩⟩

namespace Sample

/-- The default watcher, with the trace of the sample event in its store. -/
def wiring : Wiring where
  channelCapacity := 256
  fetcher := .mock ⟨fun _ => some ⟨[], [], none, .null⟩⟩
  bondStrategy := .conservative
  maxStakeAtRiskLamports := 5000000000

/-- BLAKE3 on the URI of the sample event and on the output of its trace. -/
def world : Net := ⟨digest, fun _ => none, fun _ => .error ""⟩

/-- An event whose trace does not match. -/
def sent : ThoughtSubmittedEvent := event (List.Vector.replicate 32 1) (List.Vector.replicate 32 2)

def sentLine : String := dataLine (THOUGHT_SUBMITTED_DISCRIMINATOR.toList ++ sent.borsh)

/-- A response with its line. -/
def accused : List ActorAction := [.refuse 7, .connect, .response ["Program log: hi", sentLine]]

/-- The steps from the channel to the counter. -/
def filing : List ActorAction := [.recv, .fetch 0 world.get, .decide 0, .submit 0, .fetchAdd 0]

def accusing : List ActorAction := .line :: .line :: filing

/-- The response is there to be read. -/
def informed : ActorState := { ActorState.init with attempt := 1, pump := some ["Program log: hi", sentLine] }

/-- Its event is in the channel. -/
def heard : ActorState := { ActorState.init with attempt := 1, pump := some [], queue := [sent] }

theorem run_informed : ∃ h, Run (actorStep wiring world) .init h informed ∧ h.map Prod.snd = accused ∧
    dues wiring world h = [] :=
  ⟨_, ((Run.nil.snoc (a := .refuse 7) rfl).snoc (a := .connect) rfl).snoc (a := .response _) rfl, rfl, rfl⟩

theorem run_heard : ∃ h, Run (actorStep wiring world) informed h heard ∧ h.map Prod.snd = [.line, .line] ∧
    dues wiring world h = [] := by
  have hhi : lineEvent "Program log: hi" = none := by decide +kernel
  have hsent : lineEvent sentLine = some sent := lineEvent_eq_some.2 (carries_dataLine (by decide +kernel))
  have hpass : actorStep wiring world informed .line = some { informed with pump := some [sentLine] } :=
    actorStep_iff.2 (.pass rfl hhi)
  have hsend : actorStep wiring world { informed with pump := some [sentLine] } .line = some heard :=
    actorStep_iff.2 (.send rfl hsent (by decide))
  exact ⟨_, (Run.single hpass).snoc hsend, rfl, rfl⟩

end Sample

/-- Nothing is left to do. -/
def ActorState.isIdle (s : ActorState) : Bool :=
  (s.pump.getD []).isEmpty && s.queue.isEmpty && s.handlers.all fun hd =>
    match hd.task with
    | some .done => true
    | _ => false

theorem isIdle_eq_true (hi : s.isIdle = true) : s.Idle := by
  simp only [ActorState.isIdle, Bool.and_eq_true, List.isEmpty_iff, List.all_eq_true] at hi
  obtain ⟨⟨hp, hq⟩, hh⟩ := hi
  refine ⟨hp, hq, fun hd hm => ?_⟩
  have hx := hh hd hm
  split at hx
  · assumption
  · cases hx

open Sample in
/-- The theorem at a run with one challenge due: it is submitted. -/
theorem actors_exact_accusing : ∃ h s, Run (actorStep wiring world) .init h s ∧
    h.map Prod.snd = accused ++ accusing ∧ (dues wiring world h).length = 1 ∧ s.submitted.length = 1 := by
  obtain ⟨h₁, hr₁, ha₁, hd₁⟩ := run_informed
  obtain ⟨h₂, hr₂, ha₂, hd₂⟩ := run_heard
  have hp : (perform (actorStep wiring world) heard filing).map
      (fun r => (r.2.isIdle, (dues wiring world r.1).length)) = some (true, 1) := by decide +kernel
  obtain ⟨⟨h₃, s⟩, hp, hx⟩ := Option.map_eq_some_iff.1 hp
  obtain ⟨hidle, hd₃⟩ := Prod.mk.inj hx
  obtain ⟨hr₃, ha₃⟩ := run_of_perform hp
  have hr := (hr₁.append hr₂).append hr₃
  have hdues : (dues wiring world (h₁ ++ h₂ ++ h₃)).length = 1 := by
    rw [dues_append, dues_append, hd₁, hd₂]
    exact hd₃
  have hacts : (h₁ ++ h₂ ++ h₃).map Prod.snd = accused ++ accusing := by
    rw [List.map_append, List.map_append, ha₁, ha₂, ha₃]
    rfl
  obtain ⟨-, hsub, hsettled⟩ := actors_exact hr
  obtain ⟨-, hmin⟩ := hsettled (isIdle_eq_true hidle)
  have hle := hsub.length_le
  have hroom : wiring.maxStakeAtRiskLamports.toNat / wiring.bond.toNat = 10 := by decide
  rw [hdues] at hle hmin
  rw [hroom] at hmin
  exact ⟨_, s, hr, hacts, hdues, Nat.le_antisymm hle hmin⟩

/-! ## Progress -/

/-- A step of the watcher, as opposed to the websocket. The return of a fetch counts as one: it is assumed that the
gateway answers, be it with an error. -/
def ActorAction.Internal : ActorAction → Prop
  | .connect | .refuse _ | .close | .response _ => False
  | _ => True

/-- The steps a handler has left, at most. -/
def Handler.rank (hd : Handler) : Nat :=
  match hd.task with
  | none => 4
  | some (.deciding _) => 3
  | some (.submitting _) => 2
  | some (.reserving _) => 1
  | some .done => 0

/-- The internal steps left, at most. -/
def ActorState.work (s : ActorState) : Nat :=
  6 * (s.pump.getD []).length + 5 * s.queue.length + total Handler.rank s.handlers

theorem work_handle {i : Nat} {old new : Handler} (hi : s.handlers[i]? = some old) (hr : new.rank < old.rank)
    (hs : s'.handlers = s.handlers.set i new) (hp : s'.pump = s.pump) (hq : s'.queue = s.queue) :
    s'.work < s.work := by
  have h1 := total_set (f := Handler.rank) hi new
  rw [ActorState.work, ActorState.work, hs, hp, hq]
  omega

theorem rank_start (event : ThoughtSubmittedEvent) (o : Option Call) :
    Handler.rank ⟨event, some (.start o)⟩ < Handler.rank ⟨event, none⟩ := by
  cases o with
  | none => show 0 < 4; decide
  | some call => show 3 < 4; decide

/-- An internal step leaves less work. -/
theorem work_lt (he : ActorEffect w net s act s') (hi : act.Internal) : s'.work < s.work := by
  cases he with
  | connect _ => exact hi.elim
  | refuse _ => exact hi.elim
  | close _ => exact hi.elim
  | response _ => exact hi.elim
  | pass hp _ =>
    simp only [ActorState.work, hp, Option.getD_some, List.length_cons]
    omega
  | send hp _ _ =>
    simp only [ActorState.work, hp, Option.getD_some, List.length_cons, List.length_append, List.length_nil]
    omega
  | recv hq =>
    simp only [ActorState.work, hq, List.length_cons, total_snoc, Handler.rank]
    omega
  | fetch hh => exact work_handle hh (rank_start _ _) rfl rfl rfl
  | file hh _ =>
    refine work_handle hh ?_ rfl rfl rfl
    exact Nat.lt_succ_self 2
  | skip hh _ =>
    refine work_handle hh ?_ rfl rfl rfl
    exact Nat.succ_pos 2
  | submit hh =>
    refine work_handle hh ?_ rfl rfl rfl
    exact Nat.lt_succ_self 1
  | fetchAdd hh =>
    refine work_handle hh ?_ rfl rfl rfl
    exact Nat.succ_pos 0

/-- A handler that is not done can take its next step. -/
theorem exists_handle {i : Nat} {hd : Handler} (hi : s.handlers[i]? = some hd) (hn : hd.task ≠ some .done) :
    ∃ act s', act.Internal ∧ ActorEffect w net s act s' := by
  obtain ⟨event, task⟩ := hd
  match task with
  | none => exact ⟨.fetch i fun _ => .error "", _, trivial, .fetch hi⟩
  | some (.deciding call) =>
    by_cases hf : ∃ args, w.filer.decide net.blake3 s.inFlightBond call = .file args
    · obtain ⟨args, hf⟩ := hf
      exact ⟨.decide i, _, trivial, .file hi hf⟩
    · exact ⟨.decide i, _, trivial, .skip hi fun args h => hf ⟨args, h⟩⟩
  | some (.submitting args) => exact ⟨.submit i, _, trivial, .submit hi⟩
  | some (.reserving bond) => exact ⟨.fetchAdd i, _, trivial, .fetchAdd hi⟩
  | some .done => exact absurd rfl hn

/-- Actors that are not idle can take an internal step. -/
theorem exists_internal (net : Net) (hcap : 0 < w.channelCapacity) (hn : ¬s.Idle) :
    ∃ act s', act.Internal ∧ ActorEffect w net s act s' := by
  by_cases hq : s.queue = []
  · by_cases hh : ∃ hd ∈ s.handlers, hd.task ≠ some .done
    · obtain ⟨hd, hm, hne⟩ := hh
      obtain ⟨i, hi⟩ := List.mem_iff_getElem?.1 hm
      exact exists_handle hi hne
    · match hp : s.pump with
      | none => exact absurd ⟨by rw [hp]; rfl, hq, fun hd hm => by_contra fun h => hh ⟨hd, hm, h⟩⟩ hn
      | some [] => exact absurd ⟨by rw [hp]; rfl, hq, fun hd hm => by_contra fun h => hh ⟨hd, hm, h⟩⟩ hn
      | some (line :: lines) =>
        cases hl : lineEvent line with
        | none => exact ⟨.line, _, trivial, .pass hp hl⟩
        | some event => exact ⟨.line, _, trivial, .send hp hl (by rw [hq]; exact hcap)⟩
  · obtain ⟨event, queue, hq⟩ := List.exists_cons_of_ne_nil hq
    exact ⟨.recv, _, trivial, .recv hq⟩

/-- **The actors become idle.** However internal steps, the gateway's answers among them, are scheduled, there are at
most as many as there is work, and where no further one can be taken, the actors are idle. -/
theorem actors_drain (hcap : 0 < w.channelCapacity) {g : List (ActorState × ActorAction)}
    (hg : Run (actorStep w net) s g s') (hi : ∀ x ∈ g, x.2.Internal) :
    g.length + s'.work ≤ s.work ∧
      ((∀ act s'', act.Internal → actorStep w net s' act ≠ some s'') → s'.Idle) := by
  refine ⟨?_, fun hstuck => ?_⟩
  · refine hg.inv (fun g s' => (∀ x ∈ g, x.2.Internal) → g.length + s'.work ≤ s.work)
      (fun _ => (Nat.zero_add _).le) ?_ hi
    intro g m act m' _ ih ha hi
    obtain ⟨hh, hlast⟩ := List.forall_mem_append.1 hi
    have hlt := work_lt (actorStep_iff.1 ha) (hlast _ (List.mem_singleton_self _))
    have hle := ih hh
    rw [List.length_append, List.length_singleton]
    omega
  · by_contra hn
    obtain ⟨act, s'', hint, he⟩ := exists_internal net hcap hn
    exact hstuck act s'' hint (actorStep_iff.2 he)

open Sample in
/-- The theorem at the steps after the response. -/
theorem actors_drain_accusing : ∃ h s g s', Run (actorStep wiring world) .init h s ∧ h.map Prod.snd = accused ∧
    Run (actorStep wiring world) s g s' ∧ g.map Prod.snd = accusing ∧ g.length ≤ s.work ∧ s'.Idle := by
  obtain ⟨h, hr, hacts, -⟩ := run_informed
  obtain ⟨g₁, hg₁, ha₁, -⟩ := run_heard
  have hp : (perform (actorStep wiring world) heard filing).map (fun r => r.2.work) = some 0 := by decide +kernel
  obtain ⟨⟨g₂, s'⟩, hp, hwork⟩ := Option.map_eq_some_iff.1 hp
  obtain ⟨hg₂, ha₂⟩ := run_of_perform hp
  obtain ⟨g, hg, hsteps⟩ : ∃ g, Run (actorStep wiring world) informed g s' ∧ g.map Prod.snd = accusing :=
    ⟨_, hg₁.append hg₂, by rw [List.map_append, ha₁, ha₂]; rfl⟩
  have hint : ∀ x ∈ g, x.2.Internal := by
    intro x hx
    have hm : x.2 ∈ accusing := hsteps ▸ List.mem_map_of_mem hx
    simp only [accusing, filing, List.mem_cons, List.not_mem_nil, or_false] at hm
    rcases hm with hm | hm | hm | hm | hm | hm | hm <;> rw [hm] <;> trivial
  obtain ⟨hle, hidle⟩ := actors_drain (w := wiring) (by decide) hg hint
  refine ⟨h, informed, g, s', hr, hacts, hg, hsteps, by omega, hidle fun act s'' hi he => ?_⟩
  have hlt := work_lt (actorStep_iff.1 he) hi
  dsimp only at hwork
  omega

/-! ## Reconnecting -/

/-- The bound on a backoff in milliseconds: it doubles with each attempt up to the sixth, and is at most a minute. -/
def boundMs (attempt : Nat) : Nat := min (1000 * 2 ^ min attempt 6) 60000

/-- The milliseconds to sleep. The shift loses no bits. -/
def jitteredBackoff (attempt : UInt32) (nanos : UInt64) : UInt64 :=
  nanos % UInt64.ofNat (max (boundMs attempt.toNat) 1)

/-- The failures to connect since the last stream that ended. -/
def failures : List (ActorState × ActorAction) → Nat :=
  List.foldl (fun n x => match x.2 with
    | .refuse _ => n + 1
    | .close => 0
    | _ => n) 0

/-- The counter of attempts saturates. -/
theorem attempt_eq (hr : Run (actorStep w net) .init h s) : s.attempt.toNat = min (failures h) (2 ^ 32 - 1) := by
  refine hr.inv (fun h s => s.attempt.toNat = min (failures h) (2 ^ 32 - 1)) rfl fun h s act s' _ ih ha => ?_
  rw [failures, List.foldl_append, ← failures]
  cases actorStep_iff.1 ha with
  | refuse _ =>
    show (saturatingAdd32 s.attempt 1).toNat = min (failures h + 1) (2 ^ 32 - 1)
    rw [toNat_saturatingAdd32, ih]
    show min (_ + 1) _ = _
    omega
  | close _ => rfl
  | _ => exact ih

theorem toNat_jitteredBackoff (attempt : UInt32) (nanos : UInt64) :
    (jitteredBackoff attempt nanos).toNat = nanos.toNat % boundMs attempt.toNat := by
  have hpos : 1 ≤ boundMs attempt.toNat := by
    have := Nat.two_pow_pos (min attempt.toNat 6)
    unfold boundMs
    omega
  have hlt : boundMs attempt.toNat ≤ 60000 := Nat.min_le_right _ _
  rw [jitteredBackoff, UInt64.toNat_mod, UInt64.toNat_ofNat_of_lt' (by rw [UInt64.size]; omega), Nat.max_eq_left hpos]

/-- **Every backoff** is below the bound for the failures in a row, and every time below it can be slept. -/
theorem backoff_lt (hr : Run (actorStep w net) .init h s) (nanos : UInt64) :
    (jitteredBackoff s.attempt nanos).toNat < boundMs (failures h) ∧
      ∀ d : UInt64, d.toNat < boundMs (failures h) → jitteredBackoff s.attempt d = d := by
  have hbound : boundMs s.attempt.toNat = boundMs (failures h) := by
    have hsix : min s.attempt.toNat 6 = min (failures h) 6 := by
      rw [attempt_eq hr]
      omega
    rw [boundMs, hsix, boundMs]
  have hpos : 0 < boundMs (failures h) := by
    have := Nat.two_pow_pos (min (failures h) 6)
    unfold boundMs
    omega
  constructor
  · rw [toNat_jitteredBackoff, hbound]
    exact Nat.mod_lt _ hpos
  · intro d hd
    rw [← UInt64.toNat_inj, toNat_jitteredBackoff, hbound, Nat.mod_eq_of_lt hd]

end ProofOfThought.Watcher
