import ProofOfThought.Program.Accounts

/-!
# Where a thought comes from

The history of a state that has a thought holds the submission of that thought (`exists_submission`): its record is
still the one submitted, up to status and consumptions, and its policy account is still the one checked.
-/

namespace ProofOfThought.Program

open Base

variable {rt : Runtime} {s s' : State} {act : Action} {k : Pubkey} {slot : UInt64} {L : Ledger Pubkey}
  {h : List (State × Action)} {t : ThoughtRecord}

/-- The action submits the thought at `k`. -/
def Action.submits (k : Pubkey) (act : Action) : Prop :=
  ∃ ctx args uri, act = .instruction (.submitThought ctx args uri) ∧ ctx.thought.key = k

/-- A thought that is there after a step and was not before was submitted by it. -/
theorem submits_of_new (he : Effect rt s act s') (h0 : s.thoughts k = none) (ht : s'.thoughts k = some t) :
    act.submits k := by
  have hold : ∀ {k' : Pubkey} {t₀ t₁ : ThoughtRecord}, s.thoughts k' = some t₀ →
      Function.update s.thoughts k' (some t₁) k = some t → False := by
    intro k' t₀ t₁ hk' hw
    rcases write_eq_some.1 hw with ⟨rfl, -⟩ | ⟨-, hw⟩
    · rw [h0] at hk'; cases hk'
    · rw [h0] at hw; cases hw
  cases he with
  | @submitThought ctx args uri a p v d n h =>
    refine ⟨ctx, args, uri, rfl, ?_⟩
    rcases write_eq_some.1 ht with ⟨rfl, -⟩ | ⟨-, hw⟩
    · rfl
    · rw [h0] at hw; cases hw
  | consumeThought h => exact (hold h.record ht).elim
  | challenge h => exact (hold h.record ht).elim
  | resolveUnchallenged h => exact (hold h.record ht).elim
  | guilty h _ => exact (hold h.record ht).elim
  | innocent h _ => exact (hold h.record ht).elim
  | _ => exact absurd (h0.symm.trans ht) nofun

theorem exists_submits (hr : Reaches rt slot L h s) (ht : s.thoughts k = some t) : ∃ x ∈ h, x.2.submits k := by
  refine hr.inv (fun h s => ∀ t, s.thoughts k = some t → ∃ x ∈ h, x.2.submits k) nofun ?_ t ht
  intro h s a s' _ ih ha t ht
  cases h0 : s.thoughts k with
  | none => exact ⟨(s, a), by simp, submits_of_new (step_effect ha) h0 ht⟩
  | some t₀ =>
    obtain ⟨x, hx, hsub⟩ := ih t₀ h0
    exact ⟨x, by simp [hx], hsub⟩

/-- The submission of the record `t`, now at `k`, in the history `h` of the state `s`. -/
structure Submission (rt : Runtime) (slot : UInt64) (L : Ledger Pubkey) (h : List (State × Action)) (s : State)
    (k : Pubkey) (t : ThoughtRecord) where
  before : List (State × Action)
  state : State
  ctx : SubmitThought
  args : ThoughtRecordArgs
  traceUri : String
  rest : List (State × Action)
  agent : AgentProfile
  policy : Policy
  vrfRequest : VrfRequest
  deadline : UInt64
  count : UInt32
  split : h = before ++ (state, .instruction (.submitThought ctx args traceUri)) :: rest
  key : ctx.thought.key = k
  reached : Reaches rt slot L before state
  accepted : ctx.Accepted rt state args agent policy vrfRequest deadline count
  taken : step rt state (.instruction (.submitThought ctx args traceUri)) =
    some (ctx.after rt state args agent vrfRequest deadline count)
  run : Run (step rt) (ctx.after rt state args agent vrfRequest deadline count) rest s
  same : SameCommitment (ctx.record rt state args deadline) t
  policyNow : s.policies (rt.pda (.policy t.policyId)) = some policy

namespace Submission

variable (sub : Submission rt slot L h s k t)

/-- The state right after the submission. -/
def next : State := sub.ctx.after rt sub.state sub.args sub.agent sub.vrfRequest sub.deadline sub.count

theorem reached_next :
    Reaches rt slot L (sub.before ++ [(sub.state, .instruction (.submitThought sub.ctx sub.args sub.traceUri))])
      sub.next := sub.reached.snoc sub.taken

theorem thought_next : sub.next.thoughts k = some (sub.ctx.record rt sub.state sub.args sub.deadline) :=
  write_eq_some.2 (.inl ⟨sub.key.symm, rfl⟩)

theorem agent_eq : t.agent = sub.ctx.agent.key := (sub.same.field (·.agent) fun _ => rfl).symm

end Submission

/-- What a run keeps of the thoughts and the policies. -/
theorem Run.thoughts {h' : List (State × Action)} (hr : Run (step rt) s h' s') :
    Evolves SameCommitment s.thoughts s'.thoughts :=
  hr.evolves State.thoughts fun _ _ _ ha => (step_effect ha).thoughts

theorem Run.policies {h' : List (State × Action)} (hr : Run (step rt) s h' s') : Evolves Eq s.policies s'.policies :=
  hr.evolves State.policies fun _ _ _ ha => (step_effect ha).policies

/-- **Every thought was submitted.** -/
theorem exists_submission (hr : Reaches rt slot L h s) (ht : s.thoughts k = some t) :
    Nonempty (Submission rt slot L h s k t) := by
  obtain ⟨⟨m, act⟩, hmem, ctx, args, uri, rfl, rfl⟩ := exists_submits hr ht
  obtain ⟨h₁, h₂, m', rfl, hm, ha, hrest⟩ := hr.mem hmem
  cases step_effect ha with
  | @submitThought _ _ _ a p v d n hacc =>
    have hnew : (ctx.after rt m args a v d n).thoughts ctx.thought.key = some (ctx.record rt m args d) :=
      write_eq_some.2 (.inl ⟨rfl, rfl⟩)
    obtain ⟨t', ht', hsame⟩ := Run.thoughts hrest _ _ hnew
    obtain rfl : t' = t := Option.some.inj (ht'.symm.trans ht)
    have hpid : t'.policyId = args.policyId := (hsame.field (·.policyId) fun _ => rfl).symm
    obtain ⟨p', hp', rfl⟩ := Run.policies hrest _ _
      ((wf_of_reaches hm).policy_key hacc.policyAccount hacc.policy ▸ hacc.policyAccount)
    exact ⟨⟨h₁, m, ctx, args, uri, h₂, a, p, v, d, n, rfl, rfl, hm, hacc, ha, hrest, hsame, hpid ▸ hp'⟩⟩

end ProofOfThought.Program
