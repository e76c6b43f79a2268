import ProofOfThought.Watcher.Subscribe

/-!
# Where an event comes from

The log of a transaction nests invocations: `Program <id> invoke [n]` opens one, `Program <id> success` and
`Program <id> failed: …` close it, and a line belongs to the innermost open one. The watcher forwards every line that
carries an event (`sent_decodings`): it reads neither the error of the transaction nor the nesting
(`forged_event_sent`).
-/

namespace ProofOfThought.Watcher

open Base

/-! ## The log format -/

/-- The stack of open invocations after a line. -/
def frame (stack : List String) (line : String) : List String :=
  match "Program ".toList.isPrefixOf? line.toList with
  | none => stack
  | some cs =>
    let id := cs.takeWhile (· ≠ ' ')
    let status := cs.dropWhile (· ≠ ' ')
    if " invoke [".toList <+: status then String.ofList id :: stack
    else if status = " success".toList ∨ " failed: ".toList <+: status then stack.tail
    else stack

/-- The lines of a log, each with the program whose invocation it belongs to. -/
def located : List String → List String → List (Option String × String)
  | _, [] => []
  | stack, line :: lines => (stack.head?, line) :: located (frame stack line) lines

/-- What a subscription to the mentions of `programId` delivers: a complete log that invokes it. -/
def Delivered (programId : String) (resp : LogsResponse) : Prop :=
  resp.logs.foldl frame [] = [] ∧ "Program " ++ programId ++ " invoke [1]" ∈ resp.logs

/-- The event comes from a transaction that succeeded and from a line of the program itself. -/
def Genuine (programId : String) (stream : List LogsResponse) (ev : ThoughtSubmittedEvent) : Prop :=
  ∃ resp ∈ stream, resp.err = none ∧ ∃ x ∈ located [] resp.logs, x.1 = some programId ∧ Carries x.2 ev

/-- A data line opens and closes nothing: base64 is none of the words that do. -/
theorem frame_dataLine (stack : List String) (bytes : Bytes) : frame stack (dataLine bytes) = stack := by
  have hp : "Program ".toList.isPrefixOf? (dataLine bytes).toList =
      some ("data:".toList ++ ' ' :: Base64.encode bytes) := by
    rw [isPrefixOf?_eq_some, toList_dataLine]
    simp
  have hspace : ' ' ∉ Base64.encode bytes := fun h => absurd (Base64.mem_encode h) (by decide +kernel)
  have hinvoke : ¬" invoke [".toList <+: ' ' :: Base64.encode bytes := by
    intro h
    simp at h
    exact hspace (h.subset (by simp))
  have hsuccess : ' ' :: Base64.encode bytes ≠ " success".toList := by
    -- seven characters are no base64
    intro h
    have hd := Base64.decode_encode bytes
    simp at h
    rw [h, show Base64.decode ['s', 'u', 'c', 'c', 'e', 's', 's'] = none by decide +kernel] at hd
    cases hd
  have hfailed : ¬" failed: ".toList <+: ' ' :: Base64.encode bytes := by
    intro h
    simp at h
    exact hspace (h.subset (by simp))
  have hdrop : ("data:".toList ++ ' ' :: Base64.encode bytes).dropWhile (· ≠ ' ') = ' ' :: Base64.encode bytes := by
    simp
  unfold frame
  simp only [hp, hdrop, if_neg hinvoke, if_neg (not_or.2 ⟨hsuccess, hfailed⟩)]

/-! ## What is sent -/

/-- The transactions a connection and a subscription deliver. -/
def delivered : Except String Unit → Except String (List LogsResponse) → List LogsResponse
  | .ok (), .ok stream => stream
  | _, _ => []

theorem sent_eq (connect : Except String Unit) (subscribe : Except String (List LogsResponse))
    (accepts : List ThoughtSubmittedEvent → Bool) :
    (connectAndPump connect subscribe accepts).1 = pump accepts (delivered connect subscribe) [] := by
  cases connect with
  | error e => rfl
  | ok u =>
    cases subscribe with
    | error e => rfl
    | ok stream => rfl

theorem mem_offered {stream : List LogsResponse} {ev : ThoughtSubmittedEvent} :
    ev ∈ offered stream ↔ ∃ resp ∈ stream, ∃ line ∈ resp.logs, Carries line ev := by
  simp only [offered, List.mem_flatMap, List.mem_filterMap, lineEvent_eq_some]

/-- A receiver that takes every event gets every event. -/
theorem sent_eq_offered (connect : Except String Unit) (subscribe : Except String (List LogsResponse))
    {accepts : List ThoughtSubmittedEvent → Bool} (ha : ∀ sent, accepts sent = true) :
    (connectAndPump connect subscribe accepts).1 = offered (delivered connect subscribe) := by
  obtain ⟨more, he, -, hall⟩ := pump_eq (delivered connect subscribe) []
  rw [sent_eq, he, hall ha, List.nil_append]

/-- **What is sent** are the events that delivered lines carry, in order, each for its line, until the receiver stops.
The error of a transaction and the nesting of its invocations do not matter. -/
theorem sent_decodings (connect : Except String Unit) (subscribe : Except String (List LogsResponse))
    (accepts : List ThoughtSubmittedEvent → Bool) :
    (∀ ev ∈ (connectAndPump connect subscribe accepts).1,
      ∃ resp ∈ delivered connect subscribe, ∃ line ∈ resp.logs, Carries line ev) ∧
    (connectAndPump connect subscribe accepts).1 <+: offered (delivered connect subscribe) ∧
    ((∀ sent, accepts sent = true) →
      (connectAndPump connect subscribe accepts).1 = offered (delivered connect subscribe)) := by
  obtain ⟨more, he, hp, -⟩ := pump_eq (delivered connect subscribe) []
  have hsent : (connectAndPump connect subscribe accepts).1 <+: offered (delivered connect subscribe) := by
    rw [sent_eq, he]
    exact hp
  exact ⟨fun ev hev => mem_offered.1 (hsent.subset hev), hsent, fun ha => sent_eq_offered _ _ ha⟩

open Sample in
/-- An event of a failed transaction is sent, and so is one that another program logs in a successful one. -/
theorem forged_event_sent : ∃ (failed foreign : List LogsResponse) (ev : ThoughtSubmittedEvent),
    (∀ resp ∈ failed, Delivered "Pot" resp) ∧ (∀ resp ∈ foreign, Delivered "Pot" resp ∧ resp.err = none) ∧
      ev ∈ (connectAndPump (.ok ()) (.ok failed) fun _ => true).1 ∧ ¬Genuine "Pot" failed ev ∧
      ev ∈ (connectAndPump (.ok ()) (.ok foreign) fun _ => true).1 ∧ ¬Genuine "Pot" foreign ev := by
  let ev := event (List.Vector.replicate 32 2) (List.Vector.replicate 32 3)
  let data := dataLine (THOUGHT_SUBMITTED_DISCRIMINATOR.toList ++ ev.borsh)
  let failed : LogsResponse :=
    ⟨some "InstructionError(0, Custom(1))",
      ["Program Pot invoke [1]", data, "Program Pot failed: custom program error: 0x1"]⟩
  let foreign : LogsResponse :=
    ⟨none, ["Program Pot invoke [1]", "Program Pot success", "Program Evil invoke [1]", data, "Program Evil success"]⟩
  have hcarries : Carries data ev := carries_dataLine (by decide +kernel)
  have hdata : ∀ stack, frame stack data = stack := fun stack => frame_dataLine stack _
  have h1 : frame [] "Program Pot invoke [1]" = ["Pot"] := by decide +kernel
  have h2 : frame ["Pot"] "Program Pot success" = [] := by decide +kernel
  have h3 : frame [] "Program Evil invoke [1]" = ["Evil"] := by decide +kernel
  have h4 : frame ["Evil"] "Program Evil success" = [] := by decide +kernel
  have h5 : frame ["Pot"] "Program Pot failed: custom program error: 0x1" = [] := by decide +kernel
  have hsend : ∀ resp : LogsResponse, data ∈ resp.logs →
      ev ∈ (connectAndPump (.ok ()) (.ok [resp]) fun _ => true).1 := by
    intro resp hd
    rw [sent_eq_offered _ _ fun _ => rfl]
    exact mem_offered.2 ⟨resp, List.mem_singleton_self _, data, hd, hcarries⟩
  refine ⟨[failed], [foreign], ev, ?_, ?_, hsend failed (by simp [failed]), ?_, hsend foreign (by simp [foreign]), ?_⟩
  · intro resp hr
    obtain rfl := List.mem_singleton.1 hr
    exact ⟨by simp only [failed, List.foldl_cons, List.foldl_nil, h1, hdata, h5], List.mem_cons_self⟩
  · intro resp hr
    obtain rfl := List.mem_singleton.1 hr
    refine ⟨⟨?_, List.mem_cons_self⟩, rfl⟩
    simp only [foreign, List.foldl_cons, List.foldl_nil, h1, h2, h3, hdata, h4]
  · intro h
    rcases h with ⟨resp, hr, herr, -⟩
    obtain rfl := List.mem_singleton.1 hr
    cases herr
  · intro he
    rcases he with ⟨resp, hr, -, x, hx, hpot, hc⟩
    obtain rfl := List.mem_singleton.1 hr
    simp only [foreign, located, h1, h2, h3, hdata, List.head?_nil, List.head?_cons, List.mem_cons, List.not_mem_nil,
      or_false] at hx
    -- the only line of the program itself is its `success`
    rcases hx with rfl | rfl | rfl | rfl | rfl
    · cases hpot
    · have hl := lineEvent_eq_some.2 hc
      rw [show lineEvent "Program Pot success" = none by decide +kernel] at hl
      cases hl
    · cases hpot
    · exact absurd hpot (by decide)
    · exact absurd hpot (by decide)

end ProofOfThought.Watcher
