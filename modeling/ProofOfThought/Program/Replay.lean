import ProofOfThought.Program.Accounts

/-!
# The event log

The events record the thoughts and the disputes: replaying the log of a run, oldest first, gives the fields of
`ThoughtView` of every thought and those of `ChallengeView` of every challenge, as the accounts have them
(`replay_log`). The other fields are in no event, so the views leave them out: of a thought `action_pda`,
`attestation_verified`, `challenge_deadline_slot`, `vrf_nonce_idx`, `bump` and the padding, of a challenge
`evidence_uri_hash`, `opened_at_slot` and `bump`.
-/

namespace ProofOfThought.Program

open Base

variable {rt : Runtime} {s s' : State} {act : Action} {evs : List Event} {slot : UInt64} {L : Ledger Pubkey}
  {h : List (State × Action)}

/-! ## The log of a run -/

/-- The events of an action; a rejected one has none. -/
def emitted (rt : Runtime) (s : State) : Action → List Event
  | .instruction i => ((exec rt s i).toOption.map Prod.snd).getD []
  | _ => []

/-- The events of a history, in order. -/
def eventLog (rt : Runtime) (h : List (State × Action)) : List Event := h.flatMap fun x => emitted rt x.1 x.2

@[simp] theorem eventLog_append (h₁ h₂ : List (State × Action)) :
    eventLog rt (h₁ ++ h₂) = eventLog rt h₁ ++ eventLog rt h₂ := List.flatMap_append

@[simp] theorem eventLog_singleton (x : State × Action) : eventLog rt [x] = emitted rt x.1 x.2 :=
  List.flatMap_singleton _ _

theorem emitted_of_ok {i : Instruction} (h : exec rt s i = .ok (s', evs)) :
    emitted rt s (.instruction i) = evs := by
  rw [emitted, h]
  rfl

/-! ## What the log tells -/

/-- A thought as its events show it: who submitted what under which policy, its status and how often it was consumed. -/
structure ThoughtView where
  agent : Pubkey
  modelId : Bytes32
  inputCommitment : Bytes32
  outputCommitment : Bytes32
  traceUriHash : Bytes32
  vrfSeed : Bytes32
  policyId : Bytes32
  slot : UInt64
  status : UInt8
  consumedCount : UInt32

/-- A challenge as its events show it: the parties, the claim and the bond, and the outcome. -/
structure ChallengeView where
  thought : Pubkey
  challenger : Pubkey
  claim : UInt8
  bond : UInt64
  resolved : Bool
  verdict : Bool

def ThoughtRecord.view (t : ThoughtRecord) : ThoughtView where
  agent := t.agent
  modelId := t.modelId
  inputCommitment := t.inputCommitment
  outputCommitment := t.outputCommitment
  traceUriHash := t.traceUriHash
  vrfSeed := t.vrfSeed
  policyId := t.policyId
  slot := t.slot
  status := t.status
  consumedCount := t.consumedCount

def Challenge.view (c : Challenge) : ChallengeView where
  thought := c.thought
  challenger := c.challenger
  claim := c.claim
  bond := c.bond
  resolved := c.resolved
  verdict := c.verdict

/-- The views of the thoughts and of the challenges, by address. -/
structure Replica where
  thoughts : Pubkey → Option ThoughtView
  challenges : Pubkey → Option ChallengeView

def Replica.empty : Replica := ⟨fun _ => none, fun _ => none⟩

def State.replica (s : State) : Replica where
  thoughts := fun k => (s.thoughts k).map ThoughtRecord.view
  challenges := fun k => (s.challenges k).map Challenge.view

namespace Replica

/-- Change the thought at `k`. -/
def withThought (r : Replica) (k : Pubkey) (f : ThoughtView → ThoughtView) : Replica :=
  { r with thoughts := Function.update r.thoughts k ((r.thoughts k).map f) }

/-- Change the challenge at `k`. -/
def withChallenge (r : Replica) (k : Pubkey) (f : ChallengeView → ChallengeView) : Replica :=
  { r with challenges := Function.update r.challenges k ((r.challenges k).map f) }

/-- What an event says. -/
def record (r : Replica) : Event → Replica
  | .thoughtSubmitted e =>
    { r with
      thoughts := Function.update r.thoughts e.thoughtPda (some
        { agent := e.agent
          modelId := e.modelId
          inputCommitment := e.inputCommitment
          outputCommitment := e.outputCommitment
          traceUriHash := e.traceUriHash
          vrfSeed := e.vrfSeed
          policyId := e.policyId
          slot := e.slot
          status := ThoughtStatus.pending.toU8
          consumedCount := 0 }) }
  | .thoughtFinalized thoughtPda _ status _ => r.withThought thoughtPda fun t => { t with status }
  | .thoughtConsumed thoughtPda _ _ consumedCount => r.withThought thoughtPda fun t => { t with consumedCount }
  | .challengeOpened challenge thought challenger claim bond =>
    let r := r.withThought thought fun t => { t with status := ThoughtStatus.challenged.toU8 }
    { r with
      challenges := Function.update r.challenges challenge
        (some { thought, challenger, claim, bond, resolved := false, verdict := false }) }
  | .challengeResolved challenge thought verdict _ =>
    let status := if verdict then ThoughtStatus.slashed.toU8 else ThoughtStatus.finalized.toU8
    let r := r.withThought thought fun t => { t with status }
    r.withChallenge challenge fun c => { c with resolved := true, verdict }

/-- Replay a log. -/
def replay (r : Replica) (log : List Event) : Replica := log.foldl record r

theorem replay_append (r : Replica) (l₁ l₂ : List Event) : r.replay (l₁ ++ l₂) = (r.replay l₁).replay l₂ :=
  List.foldl_append

end Replica

/-! ## One step -/

section Views

variable {V W : Type} (f : V → W) (m : Pubkey → Option V) (k : Pubkey) (v : V)

/-- The view of a write. -/
theorem map_update : (fun k' => (Function.update m k (some v) k').map f) =
    Function.update (fun k' => (m k').map f) k (some (f v)) := by
  funext k'
  simp only [Function.update_apply, apply_ite (Option.map f), Option.map_some]

end Views

/-- **One step**: the log of a step takes the view of the state to the view of the next one. -/
theorem replica_step (ha : step rt s act = some s') : s.replica.replay (emitted rt s act) = s'.replica := by
  cases act with
  | transfer src dst n =>
    cases step_effect ha with
    | transfer _ _ => rfl
  | tick n =>
    cases step_effect ha with
    | tick _ => rfl
  | instruction i =>
    obtain ⟨evs, he⟩ := step_instruction.1 ha
    rw [emitted_of_ok he]
    cases i with
    | registerAgent ctx stake =>
      obtain ⟨-, rfl, rfl⟩ := registerAgent_eq_ok.1 he
      rfl
    | stake ctx amount =>
      obtain ⟨_, _, -, rfl, rfl⟩ := stake_eq_ok.1 he
      rfl
    | withdrawStake ctx amount =>
      obtain ⟨_, _, -, rfl, rfl⟩ := withdrawStake_eq_ok.1 he
      rfl
    | registerModel ctx modelId modelClass verifierPubkey teeRootCa =>
      obtain ⟨-, rfl, rfl⟩ := registerModel_eq_ok.1 he
      rfl
    | registerPolicy ctx args =>
      obtain ⟨-, rfl, rfl⟩ := registerPolicy_eq_ok.1 he
      rfl
    | requestVrf ctx nonceIdx seed =>
      obtain ⟨_, _, -, rfl, rfl⟩ := requestVrf_eq_ok.1 he
      rfl
    | submitThought ctx args traceUri =>
      obtain ⟨_, _, _, _, _, -, rfl, rfl⟩ := submitThought_eq_ok.1 he
      simp only [State.replica, SubmitThought.after, map_update]
      rfl
    | consumeThought ctx =>
      obtain ⟨t, _, _, h, rfl, rfl⟩ := consumeThought_eq_ok.1 he
      simp only [State.replica, ConsumeThought.after, map_update, Replica.replay, List.foldl_cons, List.foldl_nil,
        Replica.record, Replica.withThought, h.record, Option.map_some]
      rfl
    | challenge ctx claim bond evidenceUriHash =>
      obtain ⟨t, _, h, rfl, rfl⟩ := openChallenge_eq_ok.1 he
      simp only [State.replica, OpenChallenge.after, map_update, Replica.replay, List.foldl_cons, List.foldl_nil,
        Replica.record, Replica.withThought, h.record, Option.map_some]
      rfl
    | resolveUnchallenged ctx =>
      obtain ⟨t, _, h, rfl, rfl⟩ := resolveUnchallenged_eq_ok.1 he
      simp only [State.replica, ResolveUnchallenged.after, map_update, Replica.replay, List.foldl_cons,
        List.foldl_nil, Replica.record, Replica.withThought, h.record, Option.map_some]
      rfl
    | resolveChallenged ctx verdict =>
      cases verdict with
      | true =>
        obtain ⟨t, _, _, c, h, -, rfl, rfl⟩ := resolveChallenged_guilty_eq_ok.1 he
        simp only [State.replica, ResolveChallenged.afterGuilty, map_update, Replica.replay, List.foldl_cons,
          List.foldl_nil, Replica.record, Replica.withThought, Replica.withChallenge, h.record, h.dispute,
          Option.map_some]
        rfl
      | false =>
        obtain ⟨t, _, _, c, h, -, rfl, rfl⟩ := resolveChallenged_innocent_eq_ok.1 he
        simp only [State.replica, ResolveChallenged.afterInnocent, map_update, Replica.replay, List.foldl_cons,
          List.foldl_nil, Replica.record, Replica.withThought, Replica.withChallenge, h.record, h.dispute,
          Option.map_some]
        rfl

/-- **The event log.** Replaying the log of a run gives the views of the thoughts and of the challenges of its last
state. -/
theorem replay_log (hr : Reaches rt slot L h s) : Replica.empty.replay (eventLog rt h) = s.replica := by
  refine hr.inv (fun h s => Replica.empty.replay (eventLog rt h) = s.replica) rfl ?_
  intro h s a s' _ ih ha
  rw [eventLog_append, Replica.replay_append, ih, eventLog_singleton]
  exact replica_step ha

open Sample in
/-- The log of a thought that is convicted shows it slashed. -/
theorem replay_log_slashed :
    ∃ h s, Reaches chain 1000 funds h s ∧ Replica.empty.replay (eventLog chain h) = s.replica ∧
      (s.replica.thoughts (thought 0)).map (·.status) = some ThoughtStatus.slashed.toU8 := by
  obtain ⟨h, s, hr, -, hs⟩ := exists_run (setup ++ submit 0 ++ [dispute 0, resolve 0 true])
    (fun s => (s.replica.thoughts (thought 0)).map (·.status)) (some ThoughtStatus.slashed.toU8) (by decide +kernel)
  exact ⟨h, s, hr, replay_log hr, hs⟩

end ProofOfThought.Program
