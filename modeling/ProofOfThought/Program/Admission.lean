import ProofOfThought.Program.Requests
import ProofOfThought.Program.Submission

/-!
# How a thought got in

Accounts come from instructions: each model, policy, agent and request of a reachable state was written by an accepted
instruction of the history, under the signature it asks for (`State.Founded`). So every thought has its whole admission
behind it, in order: its model was registered by governance, its policy with a list that admits the model, its agent by
the operator, its seed was requested by the same operator, and then the thought was submitted (`thought_admitted`).
-/

namespace ProofOfThought.Program

open Base

variable {rt : Runtime} {s s' : State} {act : Action} {k : Pubkey} {slot : UInt64} {L : Ledger Pubkey}
  {h h' : List (State × Action)} {t : ThoughtRecord}

/-! ## Where accounts come from -/

/-- Governance registered the model. -/
def Registered (h : List (State × Action)) (modelId : Bytes32) : Prop :=
  ∃ m ctx modelClass verifierPubkey teeRootCa,
    (m, .instruction (.registerModel ctx modelId modelClass verifierPubkey teeRootCa)) ∈ h ∧
      ctx.governance.key = governance ∧ ctx.governance.isSigner = true

/-- The policy was registered as it is, with a list of models that is not too long. -/
def Authored (rt : Runtime) (h : List (State × Action)) (p : Policy) : Prop :=
  ∃ m ctx args, (m, .instruction (.registerPolicy ctx args)) ∈ h ∧ p = args.toPolicy rt ∧
    ctx.author.isSigner = true ∧ args.allowedModels.length ≤ Policy.MAX_ALLOWED_MODELS

/-- The operator registered the agent at `k`. -/
def Enrolled (h : List (State × Action)) (k operator : Pubkey) : Prop :=
  ∃ m ctx stake, (m, .instruction (.registerAgent ctx stake)) ∈ h ∧ ctx.agent.key = k ∧
    ctx.operator.key = operator ∧ ctx.operator.isSigner = true

/-- The operator of the agent asked for the request, at its slot and with its seed. -/
def Requested (rt : Runtime) (h : List (State × Action)) (v : VrfRequest) : Prop :=
  ∃ m ctx, (m, .instruction (.requestVrf ctx v.nonceIdx v.seed)) ∈ h ∧ ctx.agent.key = v.agent ∧
    ctx.operator.isSigner = true ∧ v.agent = rt.pda (.agent ctx.operator.key) ∧ m.slot = v.requestSlot

/-- Every account comes from an instruction of the history. -/
structure State.Founded (rt : Runtime) (h : List (State × Action)) (s : State) : Prop where
  models : AllOf s.models fun _ m => Registered h m.modelId
  policies : AllOf s.policies fun _ p => Authored rt h p
  agents : AllOf s.agents fun k a => Enrolled h k a.operator
  requests : AllOf s.vrfRequests fun _ v => Requested rt h v

section Longer

variable (hh : h ⊆ h')

include hh

theorem Registered.mono {i : Bytes32} : Registered h i → Registered h' i := by
  rintro ⟨m, ctx, c, v, ca, hm, hg⟩
  exact ⟨m, ctx, c, v, ca, hh hm, hg⟩

theorem Authored.mono {p : Policy} : Authored rt h p → Authored rt h' p := by
  rintro ⟨m, ctx, args, hm, hp⟩
  exact ⟨m, ctx, args, hh hm, hp⟩

theorem Enrolled.mono {o : Pubkey} : Enrolled h k o → Enrolled h' k o := by
  rintro ⟨m, ctx, stake, hm, ho⟩
  exact ⟨m, ctx, stake, hh hm, ho⟩

theorem Requested.mono {v : VrfRequest} : Requested rt h v → Requested rt h' v := by
  rintro ⟨m, ctx, hm, hv⟩
  exact ⟨m, ctx, hh hm, hv⟩

/-- A longer history founds the same accounts. -/
theorem State.Founded.mono (hf : s.Founded rt h) : s.Founded rt h' where
  models := hf.models.imp fun _ _ => Registered.mono hh
  policies := hf.policies.imp fun _ _ => Authored.mono hh
  agents := hf.agents.imp fun _ _ => Enrolled.mono hh
  requests := hf.requests.imp fun _ _ => Requested.mono hh

end Longer

/-- **One step**: what it creates, it founds. -/
theorem State.Founded.step (hf : s.Founded rt h) (hwf : s.Wf rt) (hin : (s, act) ∈ h) (he : Effect rt s act s') :
    s'.Founded rt h := by
  cases he with
  | @registerAgent ctx stake hacc =>
    exact { hf with agents := hf.agents.write ⟨s, ctx, stake, hin, rfl, rfl, hacc.signed⟩ }
  | @registerModel ctx modelId c v ca hacc =>
    exact { hf with models := hf.models.write ⟨s, ctx, c, v, ca, hin, hacc.governance, hacc.signed⟩ }
  | @registerPolicy ctx args hacc =>
    exact { hf with policies := hf.policies.write ⟨s, ctx, args, hin, rfl, hacc.signed, hacc.models⟩ }
  | @requestVrf ctx nonceIdx seed a n hacc =>
    have hagent := (hwf.agents _ _ hacc.profile).1
    rw [hacc.operator] at hagent
    exact { hf with
      requests := hf.requests.write ⟨s, ctx, hin, rfl, hacc.signed, hagent, rfl⟩
      agents := hf.agents.rewrite hacc.profile id }
  | stake hacc => exact { hf with agents := hf.agents.rewrite hacc.profile id }
  | withdrawStake hacc => exact { hf with agents := hf.agents.rewrite hacc.profile id }
  | submitThought hacc =>
    exact { hf with
      agents := hf.agents.rewrite hacc.profile id
      requests := hf.requests.rewrite hacc.requestAccount id }
  | resolveUnchallenged hacc => exact { hf with agents := hf.agents.rewrite hacc.profile id }
  | guilty hacc _ => exact { hf with agents := hf.agents.rewrite hacc.profile id }
  | innocent hacc _ => exact { hf with agents := hf.agents.rewrite hacc.profile id }
  | _ => exact { hf with }

/-- **Every account of a reachable state comes from its history.** -/
theorem founded_of_reaches (hr : Reaches rt slot L h s) : s.Founded rt h := by
  refine hr.inv (fun h s => s.Founded rt h) ⟨.empty, .empty, .empty, .empty⟩ ?_
  intro h s a s' hr hf ha
  exact (hf.mono (List.subset_append_left h _)).step (wf_of_reaches hr) (by simp) (step_effect ha)

/-! ## The admission of a thought -/

/-- What stands in the history before the submission of a thought. -/
structure Admitted (sub : Submission rt slot L h s k t) : Prop where
  model : Registered sub.before t.modelId
  policy : ∃ m ctx args, (m, .instruction (.registerPolicy ctx args)) ∈ sub.before ∧ args.policyId = t.policyId ∧
    (args.allowedModels = [] ∨ t.modelId ∈ args.allowedModels) ∧
    args.allowedModels.length ≤ Policy.MAX_ALLOWED_MODELS ∧ args.bondMin ≤ sub.agent.stakeAmount ∧
    t.challengeDeadlineSlot.toNat = t.slot.toNat + args.challengeWindowSlots.toNat
  agent : Enrolled sub.before t.agent sub.ctx.operator.key
  request : ∃ m ctx, (m, .instruction (.requestVrf ctx t.vrfNonceIdx t.vrfSeed)) ∈ sub.before ∧
    ctx.agent.key = t.agent ∧ ctx.operator.key = sub.ctx.operator.key ∧ ctx.operator.isSigner = true ∧
    m.slot ≤ t.slot ∧ t.slot.toNat ≤ m.slot.toNat + sub.policy.maxInferenceSlots.toNat
  signed : sub.ctx.operator.isSigner = true

/-- **Admission.** Every thought of a reachable state was submitted, and everything its submission rests on was done
before, by those who may do it. -/
theorem thought_admitted (hr : Reaches rt slot L h s) (ht : s.thoughts k = some t) :
    ∃ sub : Submission rt slot L h s k t, Admitted sub := by
  obtain ⟨sub⟩ := exists_submission hr ht
  have hf := founded_of_reaches sub.reached
  have hpd := paired_of_reaches sub.reached
  have hacc := sub.accepted
  have hmodel : sub.args.modelId = t.modelId := sub.same.field (·.modelId) fun _ => rfl
  have hpolicy : sub.args.policyId = t.policyId := sub.same.field (·.policyId) fun _ => rfl
  have hnonce : sub.args.vrfNonceIdx = t.vrfNonceIdx := sub.same.field (·.vrfNonceIdx) fun _ => rfl
  have hseed : sub.args.vrfSeed = t.vrfSeed := sub.same.field (·.vrfSeed) fun _ => rfl
  have hslot : sub.state.slot = t.slot := sub.same.field (·.slot) fun _ => rfl
  have hdeadline : sub.deadline = t.challengeDeadlineSlot := sub.same.field (·.challengeDeadlineSlot) fun _ => rfl
  have hagent := sub.agent_eq
  refine ⟨sub, ⟨?_, ?_, ?_, ?_, hacc.signed⟩⟩
  · obtain ⟨m, hm, -, hid⟩ := hacc.model
    rw [← hmodel, ← hid]
    exact hf.models _ _ hm
  · obtain ⟨m, ctx, args, hmem, hp, -, hlen⟩ := hf.policies _ _ hacc.policyAccount
    have hid := hacc.policyId
    have hwl := hacc.whitelist
    have hst := hacc.stake
    have hdl := hacc.deadline
    rw [hp] at hid hwl hst hdl
    refine ⟨m, ctx, args, hmem, hid.trans hpolicy, ?_, hlen, hst, ?_⟩
    · rw [← hmodel]
      exact hwl.imp_left List.isEmpty_iff.1
    · rw [← hdeadline, ← hslot]
      exact hdl.symm
  · rw [hagent, ← hacc.operator]
    exact hf.agents _ _ hacc.profile
  · obtain ⟨-, hva, hvi⟩ := hpd.request_nonce hacc.requestAccount hacc.request
    obtain ⟨m, ctx, hmem, hctx, hsig, hop, hms⟩ := hf.requests _ _ hacc.requestAccount
    rw [hvi, hnonce, hacc.seed, hseed] at hmem
    refine ⟨m, ctx, hmem, by rw [hctx, hva, hagent], ?_, hsig, ?_, ?_⟩
    · -- the two operators have the same agent
      have hsub := ((wf_of_reaches sub.reached).agents _ _ hacc.profile).1
      rw [hacc.operator, ← hva, hop, Runtime.pda_inj, Seeds.agent.injEq] at hsub
      exact hsub
    · obtain ⟨age, hage, -⟩ := hacc.age
      rw [hms, ← hslot, UInt64.le_iff_toNat_le]
      omega
    · obtain ⟨age, hage, hle⟩ := hacc.age
      have hle' : age.toNat ≤ sub.policy.maxInferenceSlots.toNat := UInt64.le_iff_toNat_le.1 hle
      rw [hms, ← hslot]
      omega

open Sample in
theorem thought_admitted_second :
    ∃ h s t, ∃ sub : Submission chain 1000 funds h s (thought 1) t, Admitted sub := by
  obtain ⟨h, s, hr, -, hs⟩ := exists_run (setup ++ submit 0 ++ submit 1)
    (fun s => (s.thoughts (thought 1)).isSome) true (by decide +kernel)
  obtain ⟨t, ht⟩ := Option.isSome_iff_exists.1 hs
  exact ⟨h, s, t, thought_admitted hr ht⟩

end ProofOfThought.Program
