import ProofOfThought.System.EventLog
import ProofOfThought.Watcher.Actors

/-!
# The chain and the watcher

The program, the log lines of its transactions, and the watcher's actors as one system. Any lines may be in the log that
a response carries: those of other programs, and not all of the program's own. A watcher that is connected whenever a
thought is submitted (`Attentive`) and loses no line of an event (`Untruncated`) has a fetch return for every thought,
however its actors are scheduled (`thoughts_examined`); and if the only data lines are those of the events of accepted
transactions (`Plain`), each challenge it submits rests on a trace it fetched for a thought of the chain, whose output
does not match the commitment (`challenges_sound`).
-/

namespace ProofOfThought.System

open Base
open Program (Bytes32 Pubkey Runtime State Event Action WireAction ThoughtSubmitted Recorded)
open Watcher (ActorState ActorAction Wiring Net actorStep lineEvent deliveredEvents fetches dues TraceBundle)

/-! ## Transactions -/

section

variable (address : Bytes32 → Pubkey) (rt : Runtime)

/-- A step of the chain, with the events it emits. -/
def chainStep (s : State) : WireAction → Option (State × List Event)
  | .invocation inv => (Program.invoke address rt s inv).toOption
  | .transfer src dst n => (Program.step rt s (.transfer src dst n)).map (·, [])
  | .tick n => (Program.step rt s (.tick n)).map (·, [])

/-- A transaction: its steps, all or none. -/
def transact : State → List WireAction → Option (State × List Event)
  | s, [] => some (s, [])
  | s, act :: acts => do
    let (s, evs) ← chainStep address rt s act
    let (s, evs') ← transact s acts
    return (s, evs ++ evs')

end

/-! ## The system -/

structure Joint where
  chain : State
  /-- The responses on their way to the pump: the lines of a transaction each. -/
  wire : List (List String)
  actors : ActorState

def Joint.start (slot : UInt64) (L : Ledger Pubkey) : Joint := ⟨.genesis slot L, [], .init⟩

inductive JointAction where
  /-- A transaction that mentions the program, with the lines of its log as the response has them; one that fails is
  without steps. -/
  | transaction (acts : List WireAction) (logs : List String)
  /-- The websocket delivers the next response. -/
  | deliver
  | watch (act : ActorAction)

section

variable (address : Bytes32 → Pubkey) (rt : Runtime) (w : Wiring) (net : Net)

def jointStep (j : Joint) : JointAction → Option Joint
  | .transaction acts logs =>
    (transact address rt j.chain acts).map fun r =>
      { j with chain := r.1, wire := if j.actors.pump.isSome then j.wire ++ [logs] else j.wire }
  | .deliver =>
    match j.wire with
    | logs :: wire => (actorStep w net j.actors (.response logs)).map fun actors => { j with wire, actors }
    | [] => none
  | .watch (.response _) => none
  | .watch .close => (actorStep w net j.actors .close).map fun actors => { j with wire := [], actors }
  | .watch act => (actorStep w net j.actors act).map fun actors => { j with actors }

/-- A step of an actor that leaves the subscription. -/
def Local : ActorAction → Prop
  | .response _ | .close => False
  | _ => True

/-- What each step does. -/
inductive JointEffect (j : Joint) : JointAction → Joint → Prop
  | transaction {acts logs s evs} : transact address rt j.chain acts = some (s, evs) →
      JointEffect j (.transaction acts logs)
        { j with chain := s, wire := if j.actors.pump.isSome then j.wire ++ [logs] else j.wire }
  | deliver {logs wire actors} : j.wire = logs :: wire → actorStep w net j.actors (.response logs) = some actors →
      JointEffect j .deliver { j with wire, actors }
  | close {actors} : actorStep w net j.actors .close = some actors →
      JointEffect j (.watch .close) { j with wire := [], actors }
  | watch {act actors} : Local act → actorStep w net j.actors act = some actors →
      JointEffect j (.watch act) { j with actors }

end

variable {address : Bytes32 → Pubkey} {toBytes : Pubkey → Bytes32} {rt : Runtime} {w : Wiring} {net : Net}
  {s s' : State} {acts : List WireAction} {evs : List Event} {j j' : Joint} {act : JointAction} {slot : UInt64}
  {L : Ledger Pubkey} {h g : List (Joint × JointAction)} {subs : List ThoughtSubmitted}

theorem jointStep_iff : jointStep address rt w net j act = some j' ↔
    JointEffect address rt w net j act j' := by
  constructor
  · intro h
    cases act with
    | transaction acts logs =>
      obtain ⟨⟨s, evs⟩, ht, rfl⟩ := Option.map_eq_some_iff.1 h
      exact .transaction ht
    | deliver =>
      simp only [jointStep] at h
      split at h
      · rename_i logs wire hw
        obtain ⟨actors, ha, rfl⟩ := Option.map_eq_some_iff.1 h
        exact .deliver hw ha
      · cases h
    | watch act =>
      cases act with
      | response logs => cases h
      | close =>
        obtain ⟨actors, ha, rfl⟩ := Option.map_eq_some_iff.1 h
        exact .close ha
      | _ =>
        obtain ⟨actors, ha, rfl⟩ := Option.map_eq_some_iff.1 h
        exact .watch trivial ha
  · intro h
    cases h with
    | transaction ht => simp [jointStep, ht]
    | deliver hw ha => simp [jointStep, hw, ha]
    | close ha => simp [jointStep, ha]
    | @watch act actors hl ha =>
      cases act with
      | response logs => exact hl.elim
      | close => exact hl.elim
      | _ => simp [jointStep, ha]

/-! ## What a transaction records -/

/-- A step of the chain is a step of the program, with what it emits. -/
theorem chainStep_read (hto : ∀ b, toBytes (address b) = b) {a : WireAction}
    (h : chainStep address rt s a = some (s', evs)) :
    ∃ act : Action, act.Encodable address ∧ Program.step rt s act = some s' ∧ Program.emitted rt s act = evs := by
  cases a with
  | invocation inv =>
    obtain ⟨i, henc, he⟩ := (Program.invoke_eq_ok hto).1 (toOption_eq_some.1 h)
    exact ⟨.instruction i, henc.encodable, Program.step_instruction.2 ⟨evs, he⟩, Program.emitted_of_ok he⟩
  | transfer src dst n =>
    obtain ⟨_, ha, he⟩ := Option.map_eq_some_iff.1 h
    cases he
    exact ⟨.transfer src dst n, trivial, ha, rfl⟩
  | tick n =>
    obtain ⟨_, ha, he⟩ := Option.map_eq_some_iff.1 h
    cases he
    exact ⟨.tick n, trivial, ha, rfl⟩

/-- **A transaction** records what it submits. -/
theorem transact_recorded (hto : ∀ b, toBytes (address b) = b) (h : transact address rt s acts = some (s', evs))
    (hrec : Recorded subs s) :
    Recorded (subs ++ evs.filterMap Event.submission) s' ∧ ∀ ev ∈ evs, ev.Written := by
  induction acts generalizing s evs subs with
  | nil =>
    cases h
    rw [List.filterMap_nil, List.append_nil]
    exact ⟨hrec, nofun⟩
  | cons a acts ih =>
    simp only [transact, Option.bind_eq_bind, Option.bind_eq_some_iff, Option.pure_def, Option.some.injEq,
      Prod.exists, Prod.mk.injEq] at h
    obtain ⟨m, evs₁, ha, m', evs₂, hacts, rfl, rfl⟩ := h
    obtain ⟨act, henc, hs, rfl⟩ := chainStep_read hto ha
    obtain ⟨hrec', hw⟩ := ih hacts (hrec.step hs)
    rw [List.filterMap_append, ← List.append_assoc]
    exact ⟨hrec', List.forall_mem_append.2 ⟨Program.emitted_written henc hs, hw⟩⟩

/-! ## Histories -/

section

variable (address : Bytes32 → Pubkey) (toBytes : Pubkey → Bytes32) (rt : Runtime)

/-- The events of a step of the system. -/
def emission (x : Joint × JointAction) : List Event :=
  match x.2 with
  | .transaction acts _ => ((transact address rt x.1.chain acts).map Prod.snd).getD []
  | _ => []

/-- The submissions of a history, in order. -/
def submissions (h : List (Joint × JointAction)) : List ThoughtSubmitted :=
  (h.flatMap (emission address rt)).filterMap Event.submission

/-- The watcher is connected when a thought is submitted, and its stream does not end before what it holds is
delivered. -/
def Attentive (x : Joint × JointAction) : Prop :=
  match x.2 with
  | .transaction _ _ => (emission address rt x).filterMap Event.submission ≠ [] → x.1.actors.pump.isSome = true
  | .watch .close => x.1.wire = []
  | _ => True

/-- No line of an event is lost from the log of a transaction. -/
def Untruncated (x : Joint × JointAction) : Prop :=
  match x.2 with
  | .transaction _ logs => ((emission address rt x).map (Event.line toBytes)).Sublist logs
  | _ => True

/-- A line of `sol_log_data`. -/
def isData (line : String) : Bool := ("Program data: ".toList.isPrefixOf? line.toList).isSome

/-- The data lines are those of the events of an accepted transaction. So no other program logs data, and a failed
transaction has none: the watcher reads its lines all the same, though what it did is undone. -/
def Plain (x : Joint × JointAction) : Prop :=
  match x.2 with
  | .transaction _ logs => logs.filter isData = (emission address rt x).map (Event.line toBytes)
  | _ => True

end

/-- The history of the watcher's actors. -/
def watching (h : List (Joint × JointAction)) : List (ActorState × ActorAction) :=
  h.filterMap fun x =>
    match x.2 with
    | .transaction _ _ => none
    | .deliver => x.1.wire.head?.map fun logs => (x.1.actors, .response logs)
    | .watch act => some (x.1.actors, act)

/-- The events on their way. -/
def Joint.waiting (j : Joint) : List Watcher.ThoughtSubmittedEvent := j.wire.flatten.filterMap lineEvent

theorem lineEvent_of_not_isData {line : String} (h : isData line = false) : lineEvent line = none := by
  rw [isData, Option.isSome_eq_false_iff, Option.isNone_iff_eq_none] at h
  simp only [lineEvent, Watcher.parseAnchorEventLine, h]

/-- Only data lines have events. -/
theorem filterMap_data (logs : List String) : (logs.filter isData).filterMap lineEvent = logs.filterMap lineEvent := by
  rw [List.filterMap_filter]
  refine List.filterMap_congr fun line _ => ?_
  split
  · rfl
  · rename_i hn
    rw [lineEvent_of_not_isData (Bool.eq_false_iff.2 hn)]

theorem waiting_snoc (logs : List String) :
    Joint.waiting { j with chain := s, wire := j.wire ++ [logs] } = j.waiting ++ logs.filterMap lineEvent := by
  simp [Joint.waiting]

/-- What the system keeps: the submissions recorded, and on their way to the watcher's actors. -/
structure Covered (address : Bytes32 → Pubkey) (toBytes : Pubkey → Bytes32) (rt : Runtime) (w : Wiring) (net : Net)
    (h : List (Joint × JointAction)) (j : Joint) : Prop where
  recorded : Recorded (submissions address rt h) j.chain
  watcher : Run (actorStep w net) .init (watching h) j.actors
  disconnected : j.actors.pump = none → j.wire = []
  attended : (∀ x ∈ h, Attentive address rt x) → (∀ x ∈ h, Untruncated address toBytes rt x) →
    ((submissions address rt h).map (Sdk.watched toBytes)).Sublist (deliveredEvents (watching h) ++ j.waiting)
  plain : (∀ x ∈ h, Plain address toBytes rt x) → (deliveredEvents (watching h) ++ j.waiting).Sublist
    ((submissions address rt h).map (Sdk.watched toBytes))

theorem submissions_append :
    submissions address rt (h ++ g) = submissions address rt h ++ submissions address rt g := by
  simp [submissions]

@[simp] theorem submissions_snoc (x : Joint × JointAction) : submissions address rt (h ++ [x]) =
    submissions address rt h ++ (emission address rt x).filterMap Event.submission := by
  simp [submissions]

theorem Covered.start : Covered address toBytes rt w net [] (.start slot L) where
  recorded := .genesis slot L
  watcher := .nil
  disconnected := fun _ => rfl
  attended := fun _ _ => .slnil
  plain := fun _ => .slnil

/-- **A step of the watcher** delivers what it takes from the wire. -/
theorem Covered.watcherStep (hc : Covered address toBytes rt w net h j) {x : Joint × JointAction}
    (act : ActorAction) {actors : ActorState} {wire : List (List String)} (hx : watching [x] = [(j.actors, act)])
    (he : emission address rt x = []) (ha : actorStep w net j.actors act = some actors)
    (hd : actors.pump = none → wire = [])
    (hattended : Attentive address rt x → j.waiting = act.logs.filterMap lineEvent ++ wire.flatten.filterMap lineEvent)
    (hplain : (act.logs.filterMap lineEvent ++ wire.flatten.filterMap lineEvent).Sublist j.waiting) :
    Covered address toBytes rt w net (h ++ [x]) { j with wire, actors } := by
  have hw : watching (h ++ [x]) = watching h ++ [(j.actors, act)] := by rw [← hx, watching, watching, watching,
    List.filterMap_append]
  have hdel : deliveredEvents (watching (h ++ [x])) = deliveredEvents (watching h) ++ act.logs.filterMap lineEvent := by
    rw [hw, Watcher.deliveredEvents_snoc]
  have hs : submissions address rt (h ++ [x]) = submissions address rt h := by
    rw [submissions_snoc, he, List.filterMap_nil, List.append_nil]
  refine ⟨hs ▸ hc.recorded, hw ▸ hc.watcher.snoc ha, hd, fun hat hlog => ?_, fun hp => ?_⟩
  · obtain ⟨hat, hlast⟩ := List.forall_mem_append.1 hat
    obtain ⟨hlog, -⟩ := List.forall_mem_append.1 hlog
    rw [hs, hdel, List.append_assoc]
    show List.Sublist _ (_ ++ (_ ++ wire.flatten.filterMap lineEvent))
    rw [← hattended (hlast x (List.mem_singleton_self x))]
    exact hc.attended hat hlog
  · obtain ⟨hp, -⟩ := List.forall_mem_append.1 hp
    rw [hs, hdel, List.append_assoc]
    exact ((List.Sublist.refl _).append hplain).trans (hc.plain hp)

/-- **One step.** -/
theorem Covered.step (hto : ∀ b, toBytes (address b) = b) (hc : Covered address toBytes rt w net h j)
    (he : JointEffect address rt w net j act j') : Covered address toBytes rt w net (h ++ [(j, act)]) j' := by
  cases he with
  | @transaction acts logs s evs ht =>
    obtain ⟨hrec, hw⟩ := transact_recorded hto ht hc.recorded
    have hem : emission address rt (j, .transaction acts logs) = evs := by
      simp only [emission, ht, Option.map_some, Option.getD_some]
    have hwatch : watching (h ++ [(j, .transaction acts logs)]) = watching h := by
      rw [watching, List.filterMap_append]
      exact List.append_nil _
    refine ⟨?_, ?_, ?_, fun hat hlog => ?_, fun hp => ?_⟩
    · rw [submissions_snoc, hem]
      exact hrec
    · rw [hwatch]
      exact hc.watcher
    · intro hn
      have hn' : j.actors.pump = none := hn
      rw [hn']
      exact hc.disconnected hn'
    · obtain ⟨hat, hlast⟩ := List.forall_mem_append.1 hat
      obtain ⟨hlog, hlogLast⟩ := List.forall_mem_append.1 hlog
      have hconn : evs.filterMap Event.submission ≠ [] → j.actors.pump.isSome = true :=
        hem ▸ hlast _ (List.mem_singleton_self _)
      have hl : (evs.map (Event.line toBytes)).Sublist logs := hem ▸ hlogLast _ (List.mem_singleton_self _)
      have hlogs : ((evs.filterMap Event.submission).map (Sdk.watched toBytes)).Sublist
          (logs.filterMap lineEvent) := by
        rw [← Program.filterMap_line hw]
        exact hl.filterMap _
      rw [hwatch, submissions_snoc, hem, List.map_append]
      cases hp : j.actors.pump.isSome with
      | true =>
        rw [if_pos rfl, waiting_snoc, ← List.append_assoc]
        exact (hc.attended hat hlog).append hlogs
      | false =>
        have hnone : evs.filterMap Event.submission = [] := by
          by_contra hne
          rw [hconn hne] at hp
          cases hp
        rw [hnone, List.map_nil, List.append_nil]
        exact hc.attended hat hlog
    · obtain ⟨hp, hlast⟩ := List.forall_mem_append.1 hp
      have hdata : logs.filter isData = evs.map (Event.line toBytes) := hem ▸ hlast _ (List.mem_singleton_self _)
      have heq : logs.filterMap lineEvent = (evs.filterMap Event.submission).map (Sdk.watched toBytes) := by
        rw [← Program.filterMap_line hw, ← hdata, filterMap_data]
      rw [hwatch, submissions_snoc, hem, List.map_append]
      cases hconn : j.actors.pump.isSome with
      | true =>
        rw [if_pos rfl, waiting_snoc, ← List.append_assoc, heq]
        exact (hc.plain hp).append (.refl _)
      | false => exact (hc.plain hp).trans (List.sublist_append_left _ _)
  | @deliver logs wire actors hw ha =>
    have hwait : j.waiting = logs.filterMap lineEvent ++ wire.flatten.filterMap lineEvent := by
      rw [Joint.waiting, hw, List.flatten_cons, List.filterMap_append]
    refine hc.watcherStep (.response logs) ?_ rfl ha ?_ (fun _ => hwait) ?_
    · simp [watching, hw]
    · intro hn
      cases Watcher.actorStep_iff.1 ha
      cases hn
    · rw [hwait]
      exact .refl _
  | close ha =>
    refine hc.watcherStep .close rfl rfl ha (fun _ => rfl) (fun hat => ?_) ?_
    · have hwire : j.wire = [] := hat
      rw [Joint.waiting, hwire]
      rfl
    · exact List.nil_sublist _
  | @watch act actors hl ha =>
    have hlogs : act.logs = [] := by
      cases act with
      | response logs => exact hl.elim
      | _ => rfl
    have hem : emission address rt (j, .watch act) = [] := rfl
    refine hc.watcherStep act rfl hem ha ?_ (fun _ => ?_) ?_
    · intro hn
      refine hc.disconnected ?_
      cases Watcher.actorStep_iff.1 ha with
      | close _ => exact hl.elim
      | response _ => exact hl.elim
      | connect _ => cases hn
      | pass _ _ => cases hn
      | send _ _ _ => cases hn
      | _ => exact hn
    · rw [hlogs]
      rfl
    · rw [hlogs]
      exact .refl _

theorem covered_of_run (hto : ∀ b, toBytes (address b) = b)
    (hr : Run (jointStep address rt w net) (.start slot L) h j) : Covered address toBytes rt w net h j :=
  hr.inv (Covered address toBytes rt w net) .start fun _ _ _ _ _ ih ha => ih.step hto (jointStep_iff.1 ha)

/-! ## Every thought is examined -/

/-- A step of the watcher, or an answer it waits for: the delivery of a response, and the return of a fetch, which the
gateway answers. -/
def JointAction.OfWatcher : JointAction → Prop
  | .transaction _ _ => False
  | .deliver => True
  | .watch act => act.Internal

/-- The steps of the watcher left, at most. -/
def Joint.work (j : Joint) : Nat := j.actors.work + 6 * j.wire.flatten.length + j.wire.length

theorem work_lt (he : JointEffect address rt w net j act j') (hi : act.OfWatcher) : j'.work < j.work := by
  cases he with
  | transaction _ => exact hi.elim
  | close _ => exact hi.elim
  | deliver hw ha =>
    cases Watcher.actorStep_iff.1 ha with
    | response hp =>
      simp only [Joint.work, ActorState.work, hw, hp, Option.getD_some, List.flatten_cons, List.length_append,
        List.length_nil, List.length_cons]
      omega
  | watch _ ha =>
    have hlt := Watcher.work_lt (Watcher.actorStep_iff.1 ha) hi
    simp only [Joint.work]
    omega

/-- Nothing is left to do for the watcher. -/
structure Joint.Quiet (j : Joint) : Prop where
  wire : j.wire = []
  idle : j.actors.Idle

theorem Joint.Quiet.work (hq : j.Quiet) : j.work = 0 := by
  obtain ⟨hwire, hlines, hqueue, hdone⟩ := hq
  have hranks : total Watcher.Handler.rank j.actors.handlers = 0 := by
    refine List.sum_eq_zero (List.forall_mem_map.2 fun hd hm => ?_)
    rw [Watcher.Handler.rank, hdone hd hm]
  rw [Joint.work, ActorState.work, hwire, hlines, hqueue, hranks]
  rfl

/-- Where something is left to do, the watcher can take a step. -/
theorem exists_ofWatcher (hcap : 0 < w.channelCapacity) (hd : j.actors.pump = none → j.wire = []) (hn : ¬j.Quiet) :
    ∃ act j', act.OfWatcher ∧ JointEffect address rt w net j act j' := by
  by_cases hi : j.actors.Idle
  · obtain ⟨logs, wire, hw⟩ := List.exists_cons_of_ne_nil fun hw => hn ⟨hw, hi⟩
    have hp : j.actors.pump = some [] := by
      cases hp : j.actors.pump with
      | none =>
        rw [hd hp] at hw
        cases hw
      | some lines =>
        have hl := hi.lines
        rw [hp, Option.getD_some] at hl
        rw [hl]
    exact ⟨.deliver, _, trivial, .deliver hw (Watcher.actorStep_iff.2 (.response hp))⟩
  · obtain ⟨act, actors, hint, ha⟩ := Watcher.exists_internal net hcap hi
    have hlocal : Local act := by
      cases act with
      | response logs => exact hint.elim
      | close => exact hint.elim
      | _ => trivial
    exact ⟨.watch act, _, hint, .watch hlocal (Watcher.actorStep_iff.2 ha)⟩

/-- Where the watcher can take no step, nothing is left to do. -/
theorem Covered.quiet (hc : Covered address toBytes rt w net h j) (hcap : 0 < w.channelCapacity)
    (hstuck : ∀ act j', act.OfWatcher → jointStep address rt w net j act ≠ some j') : j.Quiet := by
  by_contra hn
  obtain ⟨act, j', hact, he⟩ := exists_ofWatcher hcap hc.disconnected hn
  exact hstuck act j' hact (jointStep_iff.2 he)

/-- Then a fetch has returned for every submission. -/
theorem Covered.fetched (hc : Covered address toBytes rt w net h j) (hq : j.Quiet)
    (hat : ∀ x ∈ h, Attentive address rt x) (hlog : ∀ x ∈ h, Untruncated address toBytes rt x) :
    ((submissions address rt h).map (Sdk.watched toBytes)).Subperm ((fetches w net (watching h)).map Prod.fst) := by
  have hsub := hc.attended hat hlog
  rw [Joint.waiting, hq.wire, List.flatten_nil, List.filterMap_nil, List.append_nil] at hsub
  exact hsub.subperm.trans ((Watcher.balanced_of_run hc.watcher).fetched_perm hq.idle).symm.subperm

/-- The conditions on a history ask nothing of these steps. -/
theorem JointAction.OfWatcher.attentive {x : Joint × JointAction} (hx : x.2.OfWatcher) : Attentive address rt x := by
  obtain ⟨j, act⟩ := x
  cases act with
  | transaction _ _ => exact hx.elim
  | deliver => trivial
  | watch act =>
    cases act with
    | close => exact hx.elim
    | _ => trivial

theorem JointAction.OfWatcher.untruncated {x : Joint × JointAction} (hx : x.2.OfWatcher) :
    Untruncated address toBytes rt x := by
  obtain ⟨j, act⟩ := x
  cases act with
  | transaction _ _ => exact hx.elim
  | _ => trivial

theorem JointAction.OfWatcher.plain {x : Joint × JointAction} (hx : x.2.OfWatcher) : Plain address toBytes rt x := by
  obtain ⟨j, act⟩ := x
  cases act with
  | transaction _ _ => exact hx.elim
  | _ => trivial

/-- What the watcher does leaves the chain. -/
theorem watcher_only (hg : Run (jointStep address rt w net) j g j') (hw : ∀ x ∈ g, x.2.OfWatcher) :
    j'.chain = j.chain ∧ submissions address rt g = [] ∧ g.length + j'.work ≤ j.work := by
  refine hg.inv (fun g j' => (∀ x ∈ g, x.2.OfWatcher) → j'.chain = j.chain ∧ submissions address rt g = [] ∧
    g.length + j'.work ≤ j.work) (fun _ => ⟨rfl, rfl, (Nat.zero_add _).le⟩) ?_ hw
  intro g m act m' _ ih ha hw
  obtain ⟨hg, hlast⟩ := List.forall_mem_append.1 hw
  have hact := hlast _ (List.mem_singleton_self _)
  have he := jointStep_iff.1 ha
  have hlt := work_lt he hact
  obtain ⟨hc, hs, hle⟩ := ih hg
  refine ⟨?_, ?_, ?_⟩
  · rw [← hc]
    cases he with
    | transaction _ => exact hact.elim
    | _ => rfl
  · rw [submissions_snoc, hs]
    cases he with
    | transaction _ => exact hact.elim
    | _ => rfl
  · rw [List.length_append, List.length_singleton]
    omega

/-- **Every thought is examined.** The submissions of a run are those of the thoughts of the chain, one for each. If the
watcher was connected whenever one was made, and no line of an event was lost from a log, then however the watcher's
steps and the gateway's answers are scheduled after that, there are at most as many as there is work, and once none is
possible a fetch has returned for every one of these thoughts, with a trace or an error; and the challenges due are
submitted, if the cap has room for them. -/
theorem thoughts_examined (hto : ∀ b, toBytes (address b) = b) (hcap : 0 < w.channelCapacity)
    (hr : Run (jointStep address rt w net) (.start slot L) h j) (hat : ∀ x ∈ h, Attentive address rt x)
    (hlog : ∀ x ∈ h, Untruncated address toBytes rt x)
    (hg : Run (jointStep address rt w net) j g j') (hw : ∀ x ∈ g, x.2.OfWatcher) :
    Recorded (submissions address rt h) j'.chain ∧ g.length ≤ j.work ∧
      ((∀ act j'', act.OfWatcher → jointStep address rt w net j' act ≠ some j'') →
        ((submissions address rt h).map (Sdk.watched toBytes)).Subperm
          ((fetches w net (watching (h ++ g))).map Prod.fst) ∧
        ((dues w net (watching (h ++ g))).length ≤ w.maxStakeAtRiskLamports.toNat / w.bond.toNat →
          j'.actors.submitted.Perm (dues w net (watching (h ++ g))))) := by
  obtain ⟨hchain, hsubs, hle⟩ := watcher_only hg hw
  have hc := covered_of_run hto (hr.append hg)
  have hs : submissions address rt (h ++ g) = submissions address rt h := by
    rw [submissions_append, hsubs, List.append_nil]
  refine ⟨hs ▸ hc.recorded, by omega, fun hstuck => ?_⟩
  have hquiet := hc.quiet hcap hstuck
  have hfetched := hc.fetched hquiet (List.forall_mem_append.2 ⟨hat, fun x hx => (hw x hx).attentive⟩)
    (List.forall_mem_append.2 ⟨hlog, fun x hx => (hw x hx).untruncated⟩)
  refine ⟨hs ▸ hfetched, fun hroom => ?_⟩
  have hb := Watcher.balanced_of_run hc.watcher
  have hmin := hb.min_le_submitted hquiet.idle
  rw [Nat.min_eq_left hroom] at hmin
  exact hb.submitted_subperm.perm_of_length_le hmin

/-! ## Catching up -/

theorem isData_line (ev : Event) : isData (ev.line toBytes) = true := by
  rw [isData, Event.line, Watcher.isPrefixOf?_eq_some.2 (Watcher.toList_dataLine _)]
  rfl

theorem chainStep_write (hto : ∀ b, toBytes (address b) = b) {a : Action} (ha : a.Encodable address)
    (hs : Program.step rt s a = some s') :
    chainStep address rt s (a.write toBytes) = some (s', Program.emitted rt s a) := by
  cases a with
  | instruction i =>
    obtain ⟨evs, he⟩ := Program.step_instruction.1 hs
    rw [Program.emitted_of_ok he]
    exact toOption_eq_some.2 ((Program.invoke_eq_ok hto).2 ⟨i, i.invocation_encodes ha, he⟩)
  | transfer src dst n => exact Option.map_eq_some_iff.2 ⟨s', hs, rfl⟩
  | tick n => exact Option.map_eq_some_iff.2 ⟨s', hs, rfl⟩

/-- Every run of the program on arguments that can be written is one of the system, with a watcher that is connected and
logs that hold the lines of the events. -/
theorem joint_of_reaches (hto : ∀ b, toBytes (address b) = b) (w : Wiring) (net : Net) {hc : List (State × Action)}
    (hr : Program.Reaches rt slot L hc s) (henc : ∀ x ∈ hc, x.2.Encodable address) :
    ∃ h j, Run (jointStep address rt w net) (.start slot L) h j ∧ j.chain = s ∧
      submissions address rt h = (Program.eventLog rt hc).filterMap Event.submission ∧
      j.actors.pump.isSome = true ∧
      ∀ x ∈ h, Attentive address rt x ∧ Untruncated address toBytes rt x ∧ Plain address toBytes rt x := by
  refine hr.inv (fun hc s => (∀ x ∈ hc, x.2.Encodable address) → ∃ h j,
    Run (jointStep address rt w net) (.start slot L) h j ∧ j.chain = s ∧
      submissions address rt h = (Program.eventLog rt hc).filterMap Event.submission ∧ j.actors.pump.isSome = true ∧
      ∀ x ∈ h, Attentive address rt x ∧ Untruncated address toBytes rt x ∧ Plain address toBytes rt x)
    (fun _ => ?_) ?_ henc
  · have hconnect : jointStep address rt w net (.start slot L) (.watch .connect) =
        some ⟨.genesis slot L, [], { ActorState.init with pump := some [] }⟩ := rfl
    refine ⟨_, _, Run.single hconnect, rfl, rfl, rfl, ?_⟩
    exact List.forall_mem_singleton.2 ⟨trivial, trivial, trivial⟩
  · intro hc s a s' _ ih ha henc
    obtain ⟨henc, hlast⟩ := List.forall_mem_append.1 henc
    obtain ⟨h, j, hrun, rfl, hsubs, hp, hall⟩ := ih henc
    have ht : transact address rt j.chain [a.write toBytes] = some (s', Program.emitted rt j.chain a) := by
      simp [transact, chainStep_write hto (hlast _ (List.mem_singleton_self _)) ha]
    have hstep : jointStep address rt w net j (.transaction [a.write toBytes] ((Program.emitted rt j.chain a).map
        (Event.line toBytes))) = some _ := jointStep_iff.2 (.transaction ht)
    have hem : emission address rt (j, .transaction [a.write toBytes] ((Program.emitted rt j.chain a).map
        (Event.line toBytes))) = Program.emitted rt j.chain a := by
      simp only [emission, ht, Option.map_some, Option.getD_some]
    refine ⟨_, _, hrun.snoc hstep, rfl, ?_, hp,
      List.forall_mem_append.2 ⟨hall, List.forall_mem_singleton.2 ⟨?_, ?_, ?_⟩⟩⟩
    · rw [submissions_snoc, hem, hsubs, Program.eventLog_append, Program.eventLog_singleton, List.filterMap_append]
    · exact fun _ => hp
    · simp only [Untruncated, hem]
      exact .refl _
    · simp only [Plain, hem]
      exact List.filter_eq_self.2 (List.forall_mem_map.2 fun ev _ => isData_line ev)

/-- The watcher can always come to have nothing left to do. -/
theorem exists_stuck (hto : ∀ b, toBytes (address b) = b) (hcap : 0 < w.channelCapacity)
    (hr : Run (jointStep address rt w net) (.start slot L) h j) :
    ∃ g j', Run (jointStep address rt w net) j g j' ∧ (∀ x ∈ g, x.2.OfWatcher) ∧
      ∀ act j'', act.OfWatcher → jointStep address rt w net j' act ≠ some j'' := by
  have hnext : ∀ h j, Covered address toBytes rt w net h j → j.work ≠ 0 → ∃ g j',
      Run (jointStep address rt w net) j g j' ∧ (∀ x ∈ g, x.2.OfWatcher) ∧
        Covered address toBytes rt w net (h ++ g) j' ∧ j'.work < j.work := by
    intro h j hc hne
    obtain ⟨act, j', hact, he⟩ := exists_ofWatcher hcap hc.disconnected fun hq => hne hq.work
    exact ⟨[(j, act)], j', Run.single (jointStep_iff.2 he), List.forall_mem_singleton.2 hact, hc.step hto he,
      work_lt he hact⟩
  obtain ⟨g, j', hg, hw, -, hwork⟩ := exists_run_of_variant (Q := fun x => x.2.OfWatcher) Joint.work hnext
    (covered_of_run hto hr)
  refine ⟨g, j', hg, hw, fun act j'' hact he => ?_⟩
  have hlt := work_lt (jointStep_iff.1 he) hact
  omega

/-! ## Every challenge is about a thought -/

/-- A fetch of the history is the fetcher's, at what the gateway answered. -/
theorem mem_fetches {h : List (ActorState × ActorAction)} {event : Watcher.ThoughtSubmittedEvent}
    {r : Except Watcher.FetchError TraceBundle} (hm : (event, r) ∈ fetches w net h) :
    ∃ get, w.fetcher.fetch { net with get } event.traceUri event.traceUriHash = r := by
  obtain ⟨⟨s, act⟩, -, hx⟩ := List.mem_filterMap.1 hm
  cases act with
  | fetch i get =>
    obtain ⟨hd, -, he⟩ := Option.map_eq_some_iff.1 hx
    cases he
    exact ⟨get, rfl⟩
  | _ => cases hx

/-- What is due for a fetch: its output does not match, and its URI does. -/
theorem due_eq_some {event : Watcher.ThoughtSubmittedEvent} {r : Except Watcher.FetchError TraceBundle}
    {args : Watcher.ChallengeArgs} (hd : w.due net event r = some args) :
    ∃ bundle, r = .ok bundle ∧ net.blake3 bundle.rawCanonicalOutput ≠ event.outputCommitment ∧
      args = ⟨event.thoughtPda, .inconsistentCommitments, w.bond, net.blake3 (utf8 event.traceUri)⟩ := by
  cases r with
  | error e => cases hd
  | ok bundle =>
    rw [Wiring.due, Option.ite_none_left_eq_some, not_or, Option.some.injEq] at hd
    obtain ⟨⟨-, hne⟩, rfl⟩ := hd
    exact ⟨bundle, rfl, hne, rfl⟩

/-- A fetch that returns a trace had a URI that matches its hash. -/
theorem fetch_hash {net : Net} {uri : String} {hash : Bytes32} {bundle : TraceBundle}
    (hf : w.fetcher.fetch net uri hash = .ok bundle) : net.blake3 (utf8 uri) = hash := by
  by_contra hne
  rw [Watcher.fetch_mismatch w.fetcher hne] at hf
  cases hf

/-- **Every challenge is about a thought.** If the only data lines are those of the events of accepted transactions, a
fetch returns for each thought at most once; what the watcher submits are challenges of thoughts of the chain, with the
URI hash of the record as evidence, and each rests on a trace that one of its fetches for this thought returned, whose
output does not match the commitment of the record; and it challenges no address twice, if the thoughts have different
addresses as bytes. -/
theorem challenges_sound (hto : ∀ b, toBytes (address b) = b)
    (hr : Run (jointStep address rt w net) (.start slot L) h j) (hp : ∀ x ∈ h, Plain address toBytes rt x) :
    ((fetches w net (watching h)).map Prod.fst).Subperm ((submissions address rt h).map (Sdk.watched toBytes)) ∧
      (∀ args ∈ j.actors.submitted, ∃ k t event bundle, j.chain.thoughts k = some t ∧
        args = ⟨toBytes k, .inconsistentCommitments, w.bond, t.traceUriHash⟩ ∧
        (event, .ok bundle) ∈ fetches w net (watching h) ∧ event.thoughtPda = toBytes k ∧
        net.blake3 (utf8 event.traceUri) = t.traceUriHash ∧
        net.blake3 bundle.rawCanonicalOutput ≠ t.outputCommitment) ∧
      (Set.InjOn toBytes {k | ∃ t, j.chain.thoughts k = some t} →
        (j.actors.submitted.map (·.thoughtPda)).Nodup) := by
  have hc := covered_of_run hto hr
  have hb := Watcher.balanced_of_run hc.watcher
  have hfetched : ((fetches w net (watching h)).map Prod.fst).Subperm
      ((submissions address rt h).map (Sdk.watched toBytes)) :=
    hb.fetched_subperm.trans ((List.sublist_append_left _ _).trans (hc.plain hp)).subperm
  refine ⟨hfetched, fun args hm => ?_, fun hinj => ?_⟩
  · obtain ⟨⟨event, r⟩, hx, hdue⟩ := List.mem_filterMap.1 (hb.submitted_subperm.subset hm)
    obtain ⟨e, he, rfl⟩ := List.mem_map.1 (hfetched.subset (List.mem_map_of_mem hx))
    obtain ⟨t, ht, hd⟩ := hc.recorded.sound e he
    obtain ⟨bundle, rfl, hne, rfl⟩ := due_eq_some hdue
    obtain ⟨get, hfetch⟩ := mem_fetches hx
    have hhash : net.blake3 (utf8 e.traceUri) = t.traceUriHash := (fetch_hash hfetch).trans hd.traceUriHash.symm
    refine ⟨e.thoughtPda, t, Sdk.watched toBytes e, bundle, ht, ?_, hx, rfl, hhash, ?_⟩
    · rw [← hhash]
      rfl
    · rw [hd.outputCommitment]
      exact hne
  · refine nodup_map_of_subperm hb.submitted_subperm ?_
    have hdues : ((dues w net (watching h)).map (·.thoughtPda)).Sublist
        (((fetches w net (watching h)).map Prod.fst).map (·.thoughtPda)) := by
      rw [List.map_map]
      refine filterMap_map_sublist (fun x args hdue => ?_) _
      obtain ⟨_, _, _, rfl⟩ := due_eq_some hdue
      rfl
    refine hdues.nodup (nodup_map_of_subperm hfetched ?_)
    rw [List.map_map]
    refine List.Nodup.map_on ?_ (List.Nodup.of_map _ hc.recorded.nodup)
    intro e he e' he' heq
    obtain ⟨t, ht, -⟩ := hc.recorded.sound e he
    obtain ⟨t', ht', -⟩ := hc.recorded.sound e' he'
    exact List.inj_on_of_nodup_map hc.recorded.nodup he he' (hinj ⟨t, ht⟩ ⟨t', ht'⟩ heq)

/-! ## A thought on the sample chain -/

namespace Sample

open Program.Sample (chain funds setup signed unsigned operator agent policy modelId policyId commitment thought system
  addressBytes)
open Watcher.Sample (wiring world digest)

theorem addressBytes_key (b : Bytes32) : addressBytes (.key b) = b := rfl

/-- A thought with the hash of its URI, and an output commitment that the stored trace does not match. -/
def submitted : List Action :=
  let vrf := unsigned (chain.pda (.vrf agent 0))
  setup ++ [.instruction (.requestVrf ⟨signed operator, unsigned agent, vrf, system⟩ 0 commitment),
    .instruction (.submitThought ⟨signed operator, unsigned agent, unsigned (chain.pda (.model modelId)),
        unsigned policy, vrf, unsigned (thought 0), system⟩
      ⟨modelId, commitment, commitment, digest (utf8 "ar://trace"), commitment, policyId, Program.Sample.action, 0⟩
      "ar://trace")]

/-- It is submitted while the watcher is connected. -/
theorem exists_joint : ∃ h j t e, Run (jointStep .key chain wiring world) (.start 1000 funds) h j ∧
    j.chain.thoughts (thought 0) = some t ∧ e ∈ submissions .key chain h ∧ e.thoughtPda = thought 0 ∧
      e.traceUri = "ar://trace" ∧ e.traceUriHash = digest (utf8 "ar://trace") ∧ e.outputCommitment = commitment ∧
      ∀ x ∈ h, Attentive .key chain x ∧ Untruncated .key addressBytes chain x ∧ Plain .key addressBytes chain x := by
  have hp : (Program.Sample.run submitted).map (fun r => (r.2.thoughts (thought 0)).isSome &&
      decide (((Program.eventLog chain r.1).filterMap Event.submission).map (fun e =>
        (e.thoughtPda, e.traceUri, e.traceUriHash, e.outputCommitment)) =
          [(thought 0, "ar://trace", digest (utf8 "ar://trace"), commitment)])) = some true := by decide +kernel
  obtain ⟨⟨hc, s⟩, hperf, hx⟩ := Option.map_eq_some_iff.1 hp
  obtain ⟨hs, hlog⟩ := Bool.and_eq_true_iff.1 hx
  obtain ⟨hr, hacts⟩ := run_of_perform hperf
  obtain ⟨t, ht⟩ := Option.isSome_iff_exists.1 hs
  have henc : ∀ a ∈ hc.map Prod.snd, a.Encodable Pubkey.key := by
    rw [hacts]
    have huri : (utf8 "ar://trace").length < 4294967296 := by decide
    simp [submitted, setup, Program.Action.Encodable, Program.Instruction.Encodable, Program.Sample.policyArgs,
      operator, Program.Sample.resolver, Program.Sample.treasury, Program.Sample.action,
      Program.Sample.wallet, huri]
  obtain ⟨h, j, hrun, rfl, hsubs, -, hall⟩ :=
    joint_of_reaches addressBytes_key wiring world hr (List.forall_mem_map.1 henc)
  rw [← hsubs] at hlog
  obtain ⟨e, hsub, he⟩ := List.map_eq_singleton_iff.1 (of_decide_eq_true hlog)
  simp only [Prod.mk.injEq] at he
  obtain ⟨hk, huri, hhash, hout⟩ := he
  exact ⟨h, j, t, e, hrun, ht, hsub ▸ List.mem_singleton_self e, hk, huri, hhash, hout, hall⟩

/-- The fetch of a thought with these hashes returns the stored trace, and its challenge is due. -/
theorem due_fetch {e : ThoughtSubmitted} (get : String → Except String Watcher.Response)
    (huri : e.traceUri = "ar://trace") (hhash : e.traceUriHash = digest (utf8 "ar://trace"))
    (hout : e.outputCommitment = commitment) :
    (wiring.due world (Sdk.watched addressBytes e)
      (wiring.fetcher.fetch { world with get } e.traceUri e.traceUriHash)).isSome = true := by
  have hfetch : wiring.fetcher.fetch { world with get } e.traceUri e.traceUriHash = .ok ⟨[], [], none, .null⟩ := by
    rw [huri, hhash]
    exact seq_ok_iff.2 ⟨(), Watcher.verifyUriHash_eq_ok.2 rfl, rfl⟩
  have hmismatch : world.blake3 [] ≠ commitment := by decide +kernel
  have hdue : ¬(wiring.bondStrategy = .disabled ∨ world.blake3 [] = (Sdk.watched addressBytes e).outputCommitment) := by
    rintro (hd | hm)
    · cases hd
    · exact hmismatch (hm.trans hout)
  rw [hfetch, Wiring.due, if_neg hdue]
  rfl

end Sample

open Program.Sample (chain funds thought addressBytes) in
open Watcher.Sample (wiring world) in
/-- The theorem at the thought of the sample chain: its trace is fetched. -/
theorem thoughts_examined_submitted : ∃ h j g j' t r,
    Run (jointStep .key chain wiring world) (.start 1000 funds) h j ∧
    Run (jointStep .key chain wiring world) j g j' ∧
    j.chain.thoughts (thought 0) = some t ∧ r ∈ fetches wiring world (watching (h ++ g)) ∧
    r.1.thoughtPda = addressBytes (thought 0) := by
  obtain ⟨h, j, t, e, hr, ht, he, hk, -, -, -, hall⟩ := Sample.exists_joint
  obtain ⟨g, j', hg, hw, hstuck⟩ := exists_stuck Sample.addressBytes_key (w := wiring) (by decide) hr
  obtain ⟨-, -, hdone⟩ := thoughts_examined Sample.addressBytes_key (by decide) hr (fun x hx => (hall x hx).1)
    (fun x hx => (hall x hx).2.1) hg hw
  obtain ⟨r, hr', hre⟩ := List.mem_map.1 ((hdone hstuck).1.subset (List.mem_map_of_mem he))
  refine ⟨h, j, g, j', t, r, hr, hg, ht, hr', ?_⟩
  rw [hre, ← hk]
  rfl

open Program.Sample (chain funds addressBytes) in
open Watcher.Sample (wiring world) in
/-- The theorem at the thought of the sample chain: it is challenged. -/
theorem challenges_sound_filed : ∃ h j args k t event bundle, Run (jointStep .key chain wiring world)
    (.start 1000 funds) h j ∧ args ∈ j.actors.submitted ∧ j.chain.thoughts k = some t ∧
      args = ⟨addressBytes k, .inconsistentCommitments, wiring.bond, t.traceUriHash⟩ ∧
      (event, .ok bundle) ∈ fetches wiring world (watching h) ∧
      world.blake3 bundle.rawCanonicalOutput ≠ t.outputCommitment := by
  obtain ⟨h, j, t, e, hr, ht, he, -, huri, hhash, hout, hall⟩ := Sample.exists_joint
  obtain ⟨g, j', hg, hw, hstuck⟩ := exists_stuck Sample.addressBytes_key (w := wiring) (by decide) hr
  have hr' := hr.append hg
  have hc := covered_of_run Sample.addressBytes_key hr'
  have hb := Watcher.balanced_of_run hc.watcher
  have hquiet := hc.quiet (by decide) hstuck
  -- its fetch, and the challenge due for it
  have hall' : ∀ x ∈ h ++ g,
      Attentive .key chain x ∧ Untruncated .key addressBytes chain x ∧ Plain .key addressBytes chain x :=
    List.forall_mem_append.2 ⟨hall, fun x hx => ⟨(hw x hx).attentive, (hw x hx).untruncated, (hw x hx).plain⟩⟩
  have hsub := hc.fetched hquiet (fun x hx => (hall' x hx).1) fun x hx => (hall' x hx).2.1
  rw [submissions_append, List.map_append] at hsub
  obtain ⟨⟨_, r⟩, hx, rfl⟩ := List.mem_map.1 (hsub.subset (List.mem_append_left _ (List.mem_map_of_mem he)))
  obtain ⟨get, rfl⟩ := mem_fetches hx
  obtain ⟨due, hdue⟩ := Option.isSome_iff_exists.1 (Sample.due_fetch get huri hhash hout)
  have hpos : 0 < (dues wiring world (watching (h ++ g))).length :=
    List.length_pos_of_mem (List.mem_filterMap.2 ⟨_, hx, hdue⟩)
  have hroom : wiring.maxStakeAtRiskLamports.toNat / wiring.bond.toNat = 10 := by decide
  have hmin := hb.min_le_submitted hquiet.idle
  obtain ⟨args, hargs⟩ := List.exists_mem_of_length_pos (show 0 < j'.actors.submitted.length by omega)
  -- the theorem
  obtain ⟨-, hsound, -⟩ := challenges_sound Sample.addressBytes_key hr' fun x hx => (hall' x hx).2.2
  obtain ⟨k, t', event, bundle, ht', hk, hfetch, -, -, hne⟩ := hsound args hargs
  exact ⟨h ++ g, j', args, k, t', event, bundle, hr', hargs, ht', hk, hfetch, hne⟩

end ProofOfThought.System
