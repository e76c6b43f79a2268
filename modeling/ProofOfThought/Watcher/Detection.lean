import ProofOfThought.Sdk.Handover
import ProofOfThought.Watcher.Fetch

/-!
# Swapped traces

A submission may log a URI that does not match the hash it commits to: the program does not compare them, and a watcher
that does drops the event. No daemon challenges such a thought, so the swap goes undetected exactly when the program's
other checks accept the submission (`swap_detected_iff`).
-/

namespace ProofOfThought.Watcher

open Base
open Program (Bytes32 Runtime State SubmitThought ThoughtRecordArgs submitThought submitThought_eq_ok)
open Sdk (watched)

variable {net : Net} {toBytes : Program.Pubkey → Bytes32} {rt : Runtime} {s : State} {ctx : SubmitThought}
  {args : ThoughtRecordArgs} {traceUri : String}

/-- The program rejects the submission, or every daemon that allows a filing challenges the thought it emits. -/
def Detected (net : Net) (toBytes : Program.Pubkey → Bytes32) (rt : Runtime) (s : State) (ctx : SubmitThought)
    (args : ThoughtRecordArgs) (traceUri : String) : Prop :=
  (∃ e, submitThought rt s ctx args traceUri = .error e) ∨
    ∃ s' ev, submitThought rt s ctx args traceUri = .ok (s', [.thoughtSubmitted ev]) ∧
      ∀ w : Daemon, w.Allows →
        ∃ filed, w.files net (watched toBytes ev) = some filed ∧ filed.thoughtPda = toBytes ev.thoughtPda

/-- The program rejects a submission exactly when one of its checks fails, and none of them reads the URI. -/
theorem rejected_iff : (∃ e, submitThought rt s ctx args traceUri = .error e) ↔
    ¬∃ a p v d n, ctx.Accepted rt s args a p v d n := by
  constructor
  · intro he hacc
    obtain ⟨e, he⟩ := he
    obtain ⟨a, p, v, d, n, hacc⟩ := hacc
    have hok := (@submitThought_eq_ok rt s _ _ ctx args traceUri).2 ⟨a, p, v, d, n, hacc, rfl, rfl⟩
    rw [he] at hok
    cases hok
  · intro hacc
    cases hr : submitThought rt s ctx args traceUri with
    | error e => exact ⟨e, rfl⟩
    | ok r =>
      obtain ⟨s', evs⟩ := r
      obtain ⟨a, p, v, d, n, h, -⟩ := submitThought_eq_ok.1 hr
      exact absurd ⟨a, p, v, d, n, h⟩ hacc

/-- No daemon challenges a thought with a swapped trace. -/
theorem swap_unfiled (hswap : net.blake3 (utf8 traceUri) ≠ args.traceUriHash) (w : Daemon) :
    w.files net (watched toBytes (ctx.event s args traceUri)) = none :=
  files_mismatch w hswap

/-- A swapped trace that the program accepts is not detected. -/
theorem accepted_undetected (hswap : net.blake3 (utf8 traceUri) ≠ args.traceUriHash)
    (hacc : ∃ a p v d n, ctx.Accepted rt s args a p v d n) : ¬Detected net toBytes rt s ctx args traceUri := by
  intro hd
  rcases hd with he | ⟨s', ev, hok, hfiled⟩
  · exact rejected_iff.1 he hacc
  · -- the default daemon allows a filing, and files nothing
    obtain ⟨_, _, _, _, _, -, hev, -⟩ := submitThought_eq_ok.1 hok
    obtain rfl : ev = ctx.event s args traceUri := by injection hev with hev; injection hev
    obtain ⟨filed, hf, -⟩ := hfiled _ (conservative_allows (.mock ⟨fun _ => none⟩))
    rw [swap_unfiled hswap] at hf
    cases hf

/-- **A swapped trace is detected exactly when the submission is rejected on other grounds.** -/
theorem swap_detected_iff (hswap : net.blake3 (utf8 traceUri) ≠ args.traceUriHash) :
    Detected net toBytes rt s ctx args traceUri ↔ ¬∃ a p v d n, ctx.Accepted rt s args a p v d n := by
  constructor
  · intro hd hacc
    exact accepted_undetected hswap hacc hd
  · intro hacc
    exact .inl (rejected_iff.2 hacc)

/-! ## A swapped trace on the sample chain -/

namespace Sample

open Program.Sample (chain funds setup signed unsigned operator agent modelId policy policyId commitment action thought
  system)

def swapCtx : SubmitThought :=
  ⟨signed operator, unsigned agent, unsigned (chain.pda (.model modelId)), unsigned policy,
    unsigned (chain.pda (.vrf agent 0)), unsigned (thought 0), system⟩

def swapArgs : ThoughtRecordArgs := ⟨modelId, commitment, commitment, commitment, commitment, policyId, action, 0⟩

/-- BLAKE3 on the URI of the swap, and gateways that answer nothing. -/
def offline : Net := ⟨Sdk.Sample.blake3, fun _ => none, fun _ => .error "offline"⟩

theorem swapped : offline.blake3 (utf8 "ar://abc") ≠ swapArgs.traceUriHash := by decide +kernel

/-- The submission is accepted after a request. -/
theorem swap_accepted : ∃ h s, Program.Reaches chain 1000 funds h s ∧
    ∃ a p v d n, swapCtx.Accepted chain s swapArgs a p v d n := by
  obtain ⟨h, s, hr, -, hs⟩ := Program.Sample.exists_run (setup ++ (Program.Sample.submit 0).take 1)
    (fun s => (submitThought chain s swapCtx swapArgs "ar://abc").toOption.isSome) true (by decide +kernel)
  refine ⟨h, s, hr, not_not.1 fun hacc => ?_⟩
  obtain ⟨e, he⟩ := rejected_iff.2 hacc
  rw [he] at hs
  cases hs

end Sample

open Program.Sample (chain funds) in
/-- The URI `ar://abc` is logged with a hash that is not its own. -/
theorem swap_escapes : ∃ h s, Program.Reaches chain 1000 funds h s ∧
    Sample.offline.blake3 (utf8 "ar://abc") ≠ Sample.swapArgs.traceUriHash ∧
      ¬Detected Sample.offline Sdk.Sample.bytesOf chain s Sample.swapCtx Sample.swapArgs "ar://abc" := by
  obtain ⟨h, s, hr, hacc⟩ := Sample.swap_accepted
  exact ⟨h, s, hr, Sample.swapped, accepted_undetected Sample.swapped hacc⟩

open Program.Sample (chain) in
theorem swap_detected_iff_abc : ∃ s, (∃ a p v d n, Sample.swapCtx.Accepted chain s Sample.swapArgs a p v d n) ∧
    ¬Detected Sample.offline Sdk.Sample.bytesOf chain s Sample.swapCtx Sample.swapArgs "ar://abc" := by
  obtain ⟨-, s, -, hacc⟩ := Sample.swap_accepted
  exact ⟨s, hacc, fun hd => (swap_detected_iff Sample.swapped).1 hd hacc⟩

end ProofOfThought.Watcher
