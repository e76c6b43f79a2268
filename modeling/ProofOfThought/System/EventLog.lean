import ProofOfThought.Program.Dispatch
import ProofOfThought.Program.Replay
import ProofOfThought.Sdk.Handover

/-!
# Events as log lines

The lines that `emit!` logs, as the watcher's pump reads them: the line of a submission is decoded to that submission,
and the line of every other event is passed over (`lineEvent_event`). The submissions that a run emits tell its thoughts
(`Recorded`).
-/

namespace ProofOfThought.Program

open Base

/-! ## The lines -/

/-- The discriminator of an event. -/
def eventDiscriminator (name : String) : Bytes := (Watcher.anchorDiscriminator (utf8 ("event:" ++ name))).toList

section

variable (toBytes : Pubkey → Bytes32)

/-- What `emit!` logs: the discriminator, and the fields in the order of their declaration. -/
def Event.data : Event → Bytes
  | .thoughtSubmitted e => e.data toBytes
  | .thoughtFinalized thoughtPda agent status slot =>
    eventDiscriminator "ThoughtFinalized" ++
      ((toBytes thoughtPda).toList ++ ((toBytes agent).toList ++ (status :: borshU64 slot)))
  | .thoughtConsumed thoughtPda actionPda consumer consumedCount =>
    eventDiscriminator "ThoughtConsumed" ++ ((toBytes thoughtPda).toList ++ ((toBytes actionPda).toList ++
      ((toBytes consumer).toList ++ borshU32 consumedCount)))
  | .challengeOpened challenge thought challenger claim bond =>
    eventDiscriminator "ChallengeOpened" ++ ((toBytes challenge).toList ++ ((toBytes thought).toList ++
      ((toBytes challenger).toList ++ (claim :: borshU64 bond))))
  | .challengeResolved challenge thought verdict slashedAmount =>
    eventDiscriminator "ChallengeResolved" ++ ((toBytes challenge).toList ++ ((toBytes thought).toList ++
      (borshBool verdict ++ borshU64 slashedAmount)))

def Event.line (ev : Event) : String := Watcher.dataLine (ev.data toBytes)

end

/-- The submission that an event tells. -/
def Event.submission : Event → Option ThoughtSubmitted
  | .thoughtSubmitted e => some e
  | _ => none

/-- The URI is a value on the wire. -/
def Event.Written (ev : Event) : Prop := ∀ e, ev.submission = some e → (utf8 e.traceUri).length < 2 ^ 32

/-- The discriminators of the other events. -/
theorem eventDiscriminator_ne :
    ∀ name ∈ ["ThoughtFinalized", "ThoughtConsumed", "ChallengeOpened", "ChallengeResolved"],
      (eventDiscriminator name).length = 8 ∧ eventDiscriminator name ≠ ThoughtSubmitted.DISCRIMINATOR.toList := by
  decide +kernel

/-- A line with another discriminator is passed over. -/
theorem lineEvent_other {disc body : Bytes} (hlen : disc.length = 8)
    (hne : disc ≠ ThoughtSubmitted.DISCRIMINATOR.toList) :
    Watcher.lineEvent (Watcher.dataLine (disc ++ body)) = none := by
  rw [Option.eq_none_iff_forall_ne_some]
  intro ev h
  obtain ⟨-, b64, rest, hl, hd⟩ := Watcher.lineEvent_eq_some.1 h
  rw [Watcher.toList_dataLine] at hl
  obtain rfl := List.append_cancel_left hl
  rw [Watcher.trim_encode, Base64.decode_encode, Option.some.injEq, ← Sdk.discriminator_eq] at hd
  exact hne (List.append_inj_left hd (hlen.trans (List.Vector.toList_length _).symm))

/-- **The watcher on the line of an event**: it decodes the submissions, and nothing else. -/
theorem lineEvent_event {toBytes : Pubkey → Bytes32} {ev : Event} (h : ev.Written) :
    Watcher.lineEvent (ev.line toBytes) = ev.submission.map (Sdk.watched toBytes) := by
  have hother : ∀ name ∈ ["ThoughtFinalized", "ThoughtConsumed", "ChallengeOpened", "ChallengeResolved"],
      ∀ body, Watcher.lineEvent (Watcher.dataLine (eventDiscriminator name ++ body)) = none := fun name hm body =>
    lineEvent_other (eventDiscriminator_ne name hm).1 (eventDiscriminator_ne name hm).2
  cases ev with
  | thoughtSubmitted e => exact Sdk.lineEvent_data (h e rfl)
  | thoughtFinalized _ _ _ _ => exact hother "ThoughtFinalized" (by simp) _
  | thoughtConsumed _ _ _ _ => exact hother "ThoughtConsumed" (by simp) _
  | challengeOpened _ _ _ _ _ => exact hother "ChallengeOpened" (by simp) _
  | challengeResolved _ _ _ _ => exact hother "ChallengeResolved" (by simp) _

/-- The events of the lines of events. -/
theorem filterMap_line {toBytes : Pubkey → Bytes32} {evs : List Event} (h : ∀ ev ∈ evs, ev.Written) :
    (evs.map (Event.line toBytes)).filterMap Watcher.lineEvent =
      (evs.filterMap Event.submission).map (Sdk.watched toBytes) := by
  rw [List.filterMap_map, List.map_filterMap]
  exact List.filterMap_congr fun ev hm => lineEvent_event (h ev hm)

/-! ## The submissions of a run -/

variable {rt : Runtime} {s s' : State} {act : Action} {subs : List ThoughtSubmitted}

/-- The record holds what the event tells. -/
structure ThoughtSubmitted.Describes (e : ThoughtSubmitted) (t : ThoughtRecord) : Prop where
  agent : t.agent = e.agent
  modelId : t.modelId = e.modelId
  inputCommitment : t.inputCommitment = e.inputCommitment
  outputCommitment : t.outputCommitment = e.outputCommitment
  traceUriHash : t.traceUriHash = e.traceUriHash
  vrfSeed : t.vrfSeed = e.vrfSeed
  policyId : t.policyId = e.policyId
  slot : t.slot = e.slot

theorem ThoughtSubmitted.Describes.same {e : ThoughtSubmitted} {t t' : ThoughtRecord} (hsame : SameCommitment t t')
    (h : e.Describes t) : e.Describes t' where
  agent := hsame.field (·.agent) (fun _ => rfl) ▸ h.agent
  modelId := hsame.field (·.modelId) (fun _ => rfl) ▸ h.modelId
  inputCommitment := hsame.field (·.inputCommitment) (fun _ => rfl) ▸ h.inputCommitment
  outputCommitment := hsame.field (·.outputCommitment) (fun _ => rfl) ▸ h.outputCommitment
  traceUriHash := hsame.field (·.traceUriHash) (fun _ => rfl) ▸ h.traceUriHash
  vrfSeed := hsame.field (·.vrfSeed) (fun _ => rfl) ▸ h.vrfSeed
  policyId := hsame.field (·.policyId) (fun _ => rfl) ▸ h.policyId
  slot := hsame.field (·.slot) (fun _ => rfl) ▸ h.slot

/-- The submissions are those of the thoughts, one for each. -/
structure Recorded (subs : List ThoughtSubmitted) (s : State) : Prop where
  nodup : (subs.map (·.thoughtPda)).Nodup
  complete : AllOf s.thoughts fun k _ => k ∈ subs.map (·.thoughtPda)
  sound : ∀ e ∈ subs, ∃ t, s.thoughts e.thoughtPda = some t ∧ e.Describes t

/-- The submission that an action makes, when it is accepted. -/
def Action.submission (s : State) : Action → Option ThoughtSubmitted
  | .instruction (.submitThought ctx args traceUri) => some (ctx.event s args traceUri)
  | _ => none

/-- An accepted action emits its submission and no other. -/
theorem emitted_submission (ha : step rt s act = some s') :
    (emitted rt s act).filterMap Event.submission = (act.submission s).toList := by
  cases act with
  | transfer src dst n => rfl
  | tick n => rfl
  | instruction i =>
    obtain ⟨evs, he⟩ := step_instruction.1 ha
    rw [emitted_of_ok he]
    cases i with
    | registerAgent ctx stake =>
      obtain ⟨-, rfl, -⟩ := registerAgent_eq_ok.1 he
      rfl
    | stake ctx amount =>
      obtain ⟨_, _, -, rfl, -⟩ := stake_eq_ok.1 he
      rfl
    | withdrawStake ctx amount =>
      obtain ⟨_, _, -, rfl, -⟩ := withdrawStake_eq_ok.1 he
      rfl
    | registerModel ctx modelId modelClass verifierPubkey teeRootCa =>
      obtain ⟨-, rfl, -⟩ := registerModel_eq_ok.1 he
      rfl
    | registerPolicy ctx args =>
      obtain ⟨-, rfl, -⟩ := registerPolicy_eq_ok.1 he
      rfl
    | requestVrf ctx nonceIdx seed =>
      obtain ⟨_, _, -, rfl, -⟩ := requestVrf_eq_ok.1 he
      rfl
    | submitThought ctx args traceUri =>
      obtain ⟨_, _, _, _, _, -, rfl, -⟩ := submitThought_eq_ok.1 he
      rfl
    | consumeThought ctx =>
      obtain ⟨_, _, _, -, rfl, -⟩ := consumeThought_eq_ok.1 he
      rfl
    | challenge ctx claim bond evidenceUriHash =>
      obtain ⟨_, _, -, rfl, -⟩ := openChallenge_eq_ok.1 he
      rfl
    | resolveUnchallenged ctx =>
      obtain ⟨_, _, -, rfl, -⟩ := resolveUnchallenged_eq_ok.1 he
      rfl
    | resolveChallenged ctx verdict =>
      cases verdict with
      | true =>
        obtain ⟨_, _, _, _, -, -, rfl, -⟩ := resolveChallenged_guilty_eq_ok.1 he
        rfl
      | false =>
        obtain ⟨_, _, _, _, -, -, rfl, -⟩ := resolveChallenged_innocent_eq_ok.1 he
        rfl

/-- What an action emits can be written when its arguments can. -/
theorem emitted_written {address : Bytes32 → Pubkey} (henc : act.Encodable address) (ha : step rt s act = some s') :
    ∀ ev ∈ emitted rt s act, ev.Written := by
  intro ev hm e he
  have hmem : e ∈ (emitted rt s act).filterMap Event.submission := List.mem_filterMap.2 ⟨ev, hm, he⟩
  rw [emitted_submission ha, Option.mem_toList] at hmem
  unfold Action.submission at hmem
  split at hmem <;> cases hmem
  exact henc.2

theorem Recorded.genesis (slot : UInt64) (L : Ledger Pubkey) : Recorded [] (State.genesis slot L) :=
  ⟨.nil, .empty, nofun⟩

/-- A step that creates no thought. -/
theorem Recorded.other (hrec : Recorded subs s) (he : Effect rt s act s')
    (hc : AllOf s'.thoughts fun k _ => k ∈ subs.map (·.thoughtPda)) : Recorded (subs ++ []) s' := by
  rw [List.append_nil]
  refine ⟨hrec.nodup, hc, fun e hm => ?_⟩
  obtain ⟨t, ht, hd⟩ := hrec.sound e hm
  obtain ⟨t', ht', hsame⟩ := he.thoughts _ _ ht
  exact ⟨t', ht', hd.same hsame⟩

/-- **One step** records what it submits. -/
theorem Recorded.step (hrec : Recorded subs s) (ha : step rt s act = some s') :
    Recorded (subs ++ (emitted rt s act).filterMap Event.submission) s' := by
  rw [emitted_submission ha]
  have he := step_effect ha
  have hthoughts := he.thoughts
  cases he with
  | @submitThought ctx args traceUri a p v d n hacc =>
    have hnew : ctx.thought.key ∉ subs.map (·.thoughtPda) := by
      intro hm
      obtain ⟨e, he, hk⟩ := List.mem_map.1 hm
      obtain ⟨t, ht, -⟩ := hrec.sound e he
      rw [hk, hacc.fresh] at ht
      cases ht
    refine ⟨?_, ?_, ?_⟩
    · rw [List.map_append, List.nodup_append_comm]
      exact List.nodup_cons.2 ⟨hnew, hrec.nodup⟩
    · refine AllOf.write (hrec.complete.imp fun k _ hk => ?_) ?_
      · rw [List.map_append]
        exact List.mem_append_left _ hk
      · exact List.mem_map_of_mem (List.mem_append_right _ (List.mem_singleton_self _))
    · intro e hm
      rcases List.mem_append.1 hm with hm | hm
      · obtain ⟨t, ht, hd⟩ := hrec.sound e hm
        obtain ⟨t', ht', hsame⟩ := hthoughts _ _ ht
        exact ⟨t', ht', hd.same hsame⟩
      · obtain rfl := List.mem_singleton.1 hm
        exact ⟨_, write_eq_some.2 (.inl ⟨rfl, rfl⟩), ⟨rfl, rfl, rfl, rfl, rfl, rfl, rfl, rfl⟩⟩
  | consumeThought hacc => exact hrec.other (step_effect ha) (hrec.complete.rewrite hacc.record id)
  | challenge hacc => exact hrec.other (step_effect ha) (hrec.complete.rewrite hacc.record id)
  | resolveUnchallenged hacc => exact hrec.other (step_effect ha) (hrec.complete.rewrite hacc.record id)
  | guilty hacc _ => exact hrec.other (step_effect ha) (hrec.complete.rewrite hacc.record id)
  | innocent hacc _ => exact hrec.other (step_effect ha) (hrec.complete.rewrite hacc.record id)
  | _ => exact hrec.other (step_effect ha) hrec.complete

end ProofOfThought.Program
