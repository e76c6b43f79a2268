import ProofOfThought.Base.Pool
import ProofOfThought.Base.Run
import ProofOfThought.Watcher.Challenge

/-!
# The filing pipeline

`run_pipeline` spawns one `handle_event` task for each event, and all of them share one `ChallengeFiler`. A task
decides on the counter of bonds in flight, submits, and only after the submission returns adds its bond to the counter;
the tasks interleave at these steps, and with the resolution of disputes and the calls of `release_bond`.
-/

namespace ProofOfThought.Watcher

open Base
open Program (Bytes32)

/-! ## Tasks -/

def PLACEHOLDER_AGENT_STAKE_LAMPORTS : UInt64 := 100000000000

def PLACEHOLDER_BOND_MIN : UInt64 := 500000000

/-- `handle_event` up to its call of `decide_and_file`, given what the fetcher returned. -/
def handleEvent (blake3 : Bytes → Bytes32) (event : ThoughtSubmittedEvent) (fetched : Except FetchError TraceBundle) :
    Option Call :=
  match fetched with
  | .error _ => none
  | .ok bundle => some
    { outcome := ByteCompareVerifier.verify blake3 event bundle
      agentStakeLamports := PLACEHOLDER_AGENT_STAKE_LAMPORTS
      thoughtPda := event.thoughtPda
      policyBondMin := PLACEHOLDER_BOND_MIN }

/-- Where a task stands in `decide_and_file`. -/
inductive Task where
  | deciding (call : Call)
  /-- Awaiting `submit`. -/
  | submitting (args : ChallengeArgs)
  /-- Submitted; the counter is not yet raised. -/
  | reserving (bond : UInt64)
  | done

inductive Standing where
  | unresolved
  | resolved
  /-- Resolved, and its bond released. -/
  | released
  deriving DecidableEq

/-- A challenge that was submitted. -/
structure Filing where
  args : ChallengeArgs
  standing : Standing

/-- The counter, the tasks, and the challenges submitted. -/
structure FilerState where
  inFlightBond : UInt64
  tasks : List Task
  filings : List Filing

def FilerState.init : FilerState := ⟨0, [], []⟩

inductive FilerAction where
  | spawn (call : Call)
  | decide (i : Nat)
  /-- `submit` returns. -/
  | submit (i : Nat) (ok : Bool)
  | fetchAdd (i : Nat)
  /-- The dispute is resolved on chain. -/
  | resolve (j : Nat)
  /-- `release_bond`, for a dispute that was resolved. -/
  | release (j : Nat)

/-- One step of one task, or of the chain; the counter wraps. -/
def filerStep (f : ChallengeFiler) (blake3 : Bytes → Bytes32) (s : FilerState) : FilerAction → Option FilerState
  | .spawn call => some { s with tasks := s.tasks ++ [.deciding call] }
  | .decide i =>
    match s.tasks[i]? with
    | some (.deciding call) =>
      match f.decide blake3 s.inFlightBond call with
      | .file args => some { s with tasks := s.tasks.set i (.submitting args) }
      | _ => some { s with tasks := s.tasks.set i .done }
    | _ => none
  | .submit i ok =>
    match s.tasks[i]? with
    | some (.submitting args) =>
      if ok then
        some { s with tasks := s.tasks.set i (.reserving args.bond), filings := s.filings ++ [⟨args, .unresolved⟩] }
      else some { s with tasks := s.tasks.set i .done }
    | _ => none
  | .fetchAdd i =>
    match s.tasks[i]? with
    | some (.reserving bond) => some { s with inFlightBond := s.inFlightBond + bond, tasks := s.tasks.set i .done }
    | _ => none
  | .resolve j =>
    match s.filings[j]? with
    | some ⟨args, .unresolved⟩ => some { s with filings := s.filings.set j ⟨args, .resolved⟩ }
    | _ => none
  | .release j =>
    match s.filings[j]? with
    | some ⟨args, .resolved⟩ =>
      some { s with inFlightBond := s.inFlightBond - args.bond, filings := s.filings.set j ⟨args, .released⟩ }
    | _ => none

variable {f : ChallengeFiler} {blake3 : Bytes → Bytes32} {s s' : FilerState} {act : FilerAction}
  {h : List (FilerState × FilerAction)}

/-- What each step does. -/
inductive FilerEffect (f : ChallengeFiler) (blake3 : Bytes → Bytes32) (s : FilerState) :
    FilerAction → FilerState → Prop
  | spawn {call} : FilerEffect f blake3 s (.spawn call) { s with tasks := s.tasks ++ [.deciding call] }
  | file {i call args} : s.tasks[i]? = some (.deciding call) → f.decide blake3 s.inFlightBond call = .file args →
      FilerEffect f blake3 s (.decide i) { s with tasks := s.tasks.set i (.submitting args) }
  | skip {i call} : s.tasks[i]? = some (.deciding call) →
      FilerEffect f blake3 s (.decide i) { s with tasks := s.tasks.set i .done }
  | submitted {i args} : s.tasks[i]? = some (.submitting args) →
      FilerEffect f blake3 s (.submit i true)
        { s with tasks := s.tasks.set i (.reserving args.bond), filings := s.filings ++ [⟨args, .unresolved⟩] }
  | failed {i args} : s.tasks[i]? = some (.submitting args) →
      FilerEffect f blake3 s (.submit i false) { s with tasks := s.tasks.set i .done }
  | fetchAdd {i bond} : s.tasks[i]? = some (.reserving bond) →
      FilerEffect f blake3 s (.fetchAdd i)
        { s with inFlightBond := s.inFlightBond + bond, tasks := s.tasks.set i .done }
  | resolve {j args} : s.filings[j]? = some ⟨args, .unresolved⟩ →
      FilerEffect f blake3 s (.resolve j) { s with filings := s.filings.set j ⟨args, .resolved⟩ }
  | release {j args} : s.filings[j]? = some ⟨args, .resolved⟩ →
      FilerEffect f blake3 s (.release j)
        { s with inFlightBond := s.inFlightBond - args.bond, filings := s.filings.set j ⟨args, .released⟩ }

theorem filerStep_effect (h : filerStep f blake3 s act = some s') : FilerEffect f blake3 s act s' := by
  cases act with
  | spawn call => cases h; exact .spawn
  | decide i =>
    simp only [filerStep] at h
    split at h
    · rename_i call ht
      split at h <;> cases h
      · rename_i args hd
        exact .file ht hd
      · exact .skip ht
    · cases h
  | submit i ok =>
    simp only [filerStep] at h
    split at h
    · rename_i args ht
      cases ok <;> cases h
      · exact .failed ht
      · exact .submitted ht
    · cases h
  | fetchAdd i =>
    simp only [filerStep] at h
    split at h <;> cases h
    rename_i bond ht
    exact .fetchAdd ht
  | resolve j =>
    simp only [filerStep] at h
    split at h <;> cases h
    rename_i args hj
    exact .resolve hj
  | release j =>
    simp only [filerStep] at h
    split at h <;> cases h
    rename_i args hj
    exact .release hj

end ProofOfThought.Watcher
