import ProofOfThought.Program.Bookkeeping
import ProofOfThought.Program.Lifecycle
import ProofOfThought.Program.Submission
import ProofOfThought.Program.Vault

/-!
# Collateral of open thoughts

One stake backs all the open thoughts of an agent. While one of them is open nothing is withdrawn, so the stake the
submission checked stays and only grows, until a guilty verdict on any of them takes all of it. From then on the open
thoughts are backed by what is staked afterwards, and by nothing else (`open_thought_collateral`).
-/

namespace ProofOfThought.Program

open Base

variable {rt : Runtime} {s s' : State} {act : Action} {k ak : Pubkey} {slot : UInt64} {L : Ledger Pubkey}
  {h : List (State × Action)}

/-! ## The stake while a thought is open -/

/-- What an action stakes for the agent at `ak`. -/
def topUp (ak : Pubkey) : Action → Nat
  | .instruction (.stake ctx amount) => if ctx.agent.key = ak then amount.toNat else 0
  | _ => 0

/-- The stake after a history without withdrawals: a guilty verdict takes it all, a top-up adds to it. -/
def collateral (ak : Pubkey) : Nat → List (State × Action) → Nat
  | n, [] => n
  | n, x :: h => collateral ak (if x.2.outcome ak = some .convict then 0 else n + topUp ak x.2) h

theorem collateral_append (ak : Pubkey) (n : Nat) (h₁ h₂ : List (State × Action)) :
    collateral ak n (h₁ ++ h₂) = collateral ak (collateral ak n h₁) h₂ := by
  induction h₁ generalizing n with
  | nil => rfl
  | cons x h₁ ih => exact ih _

/-- Without a guilty verdict the stake only grows. -/
theorem collateral_of_no_convict {n : Nat} (hn : ∀ x ∈ h, x.2.outcome ak ≠ some .convict) :
    collateral ak n h = n + tally (fun x => topUp ak x.2) h := by
  induction h generalizing n with
  | nil => rfl
  | cons x h ih =>
    obtain ⟨hx, hn⟩ := List.forall_mem_cons.1 hn
    rw [collateral, if_neg hx, ih hn, tally_cons, Nat.add_assoc]

/-- After the last guilty verdict only the top-ups since are left. -/
theorem collateral_of_convict {n : Nat} {h₁ h₂ : List (State × Action)} {x : State × Action}
    (hx : x.2.outcome ak = some .convict) (hn : ∀ x ∈ h₂, x.2.outcome ak ≠ some .convict) :
    collateral ak n (h₁ ++ x :: h₂) = tally (fun x => topUp ak x.2) h₂ := by
  rw [collateral_append, collateral, if_pos hx, collateral_of_no_convict hn, Nat.zero_add]

/-- **One step of the stake** of an agent that has thoughts counted as active. -/
theorem Effect.stake_step {a : AgentProfile} (he : Effect rt s act s') (ha : s.agents ak = some a)
    (hactive : a.activeThoughts ≠ 0) :
    stakeOf s'.agents ak = if act.outcome ak = some .convict then 0 else stakeOf s.agents ak + topUp ak act := by
  cases he with
  | @registerAgent ctx stake h =>
    have hne : ctx.agent.key ≠ ak := by
      rintro rfl
      rw [h.fresh] at ha
      cases ha
    simp only [RegisterAgent.after, stakeOf_write, if_neg hne, Action.outcome, topUp, reduceCtorEq, if_false, add_zero]
  | @stake ctx amount a n h =>
    simp only [Stake.after, stakeOf_write, Action.outcome, topUp, reduceCtorEq, if_false]
    by_cases hk : ctx.agent.key = ak
    · subst hk
      rw [if_pos rfl, if_pos rfl, stakeOf_of_some h.profile, h.sum]
    · rw [if_neg hk, if_neg hk, add_zero]
  | @withdrawStake ctx amount a' n h =>
    have hne : ctx.agent.key ≠ ak := by
      rintro rfl
      rw [h.profile, Option.some.injEq] at ha
      exact hactive (ha ▸ h.idle)
    simp only [WithdrawStake.after, stakeOf_write, if_neg hne, Action.outcome, topUp, reduceCtorEq, if_false, add_zero]
  | requestVrf h => exact stakeOf_rewrite h.profile rfl
  | submitThought h => exact stakeOf_rewrite h.profile rfl
  | resolveUnchallenged h =>
    rw [if_neg (by simp [Action.outcome])]
    exact stakeOf_rewrite h.profile rfl
  | @guilty ctx t a' p c h _ =>
    simp only [ResolveChallenged.afterGuilty, stakeOf_write, Action.outcome, topUp, if_true, add_zero]
    by_cases hk : ctx.agent.key = ak
    · simp only [hk, if_true, UInt64.toNat_zero]
    · simp only [hk, if_false, reduceCtorEq]
  | innocent h _ =>
    rw [if_neg (by simp [Action.outcome])]
    exact stakeOf_rewrite h.profile rfl
  | _ => rfl

/-- A thought that is open now was open at every step since it was there. -/
theorem open_before {t t' : ThoughtRecord} (hr : Reaches rt slot L h s) (ha : step rt s act = some s')
    (ht : s.thoughts k = some t) (ht' : s'.thoughts k = some t') (ho : t'.Open) : t.Open := by
  by_contra hno
  have hset : t.Settled := by
    obtain ⟨st, hst⟩ := ((wf_of_reaches hr).thoughts _ _ ht).status
    cases st
    · exact absurd (.inl hst) hno
    · exact absurd (.inr hst) hno
    · exact .inl hst
    · exact .inr hst
  obtain ⟨t₁, ht₁, hst⟩ := settled_forever hr ht hset (.single ha)
  rw [ht', Option.some.injEq] at ht₁
  subst ht₁
  exact (show t'.Settled by rwa [ThoughtRecord.Settled, hst]).not_open ho

/-- **The stake of the agent of an open thought** is the collateral of the history since any point at which the thought
was there. -/
theorem stake_eq_collateral {h' : List (State × Action)} {t t' : ThoughtRecord} (hr : Reaches rt slot L h s)
    (ht : s.thoughts k = some t) (hr' : Run (step rt) s h' s') (ht' : s'.thoughts k = some t') (ho : t'.Open) :
    t'.agent = t.agent ∧ stakeOf s'.agents t.agent = collateral t.agent (stakeOf s.agents t.agent) h' := by
  refine hr'.inv (fun h' s' => ∀ t', s'.thoughts k = some t' → t'.Open →
    t'.agent = t.agent ∧ stakeOf s'.agents t.agent = collateral t.agent (stakeOf s.agents t.agent) h') ?_ ?_ t' ht' ho
  · intro t' ht' _
    rw [ht, Option.some.injEq] at ht'
    exact ⟨ht' ▸ rfl, rfl⟩
  · intro h₁ m act m' hm ih ha t' ht' ho
    have hrm := hr.append hm
    obtain ⟨t₁, ht₁, -⟩ : ∃ t₁, m.thoughts k = some t₁ ∧ SameCommitment t t₁ :=
      Run.thoughts hm k t ht
    obtain ⟨t₂, ht₂, hsame⟩ := (step_effect ha).thoughts _ _ ht₁
    obtain rfl : t₂ = t' := Option.some.inj (ht₂.symm.trans ht')
    have ho₁ := open_before hrm ha ht₁ ht' ho
    obtain ⟨hag, hst⟩ := ih t₁ ht₁ ho₁
    obtain ⟨a, hagent⟩ := ((wf_of_reaches hrm).thoughts _ _ ht₁).agent
    have hactive : a.activeThoughts ≠ 0 := fun hi => no_open_of_idle hrm hagent hi ht₁ ho₁
    refine ⟨(hsame.field (·.agent) fun _ => rfl).symm.trans hag, ?_⟩
    rw [collateral_append, ← hst, ← hag, (step_effect ha).stake_step hagent hactive]
    rfl

/-! ## What backs an open thought -/

/-- The stake `n` of the agent of an open thought, against the history `h` since its submission, at which the stake was
`n₀` and the floor `floor`: whole while no verdict is guilty, and afterwards what was staked since the last one. -/
structure Backed (floor n₀ : Nat) (ak : Pubkey) (h : List (State × Action)) (n : Nat) : Prop where
  submitted : floor ≤ n₀
  whole : (∀ x ∈ h, x.2.outcome ak ≠ some .convict) → n = n₀ + tally (fun x => topUp ak x.2) h ∧ floor ≤ n
  slashed : ∀ h₁ x h₂, h = h₁ ++ x :: h₂ → x.2.outcome ak = some .convict →
    (∀ x ∈ h₂, x.2.outcome ak ≠ some .convict) → n = tally (fun x => topUp ak x.2) h₂

theorem backed_of_collateral {floor n₀ : Nat} (hf : floor ≤ n₀) : Backed floor n₀ ak h (collateral ak n₀ h) where
  submitted := hf
  whole hn := by
    rw [collateral_of_no_convict hn]
    exact ⟨rfl, hf.trans (Nat.le_add_right _ _)⟩
  slashed h₁ x h₂ hh hx hn := by
    subst hh
    exact collateral_of_convict hx hn

/-- **Collateral.** In every reachable state the stake of the agent of an open thought is at least the floor of its
policy as long as no verdict against the agent was guilty since the submission, and is what was staked since the last
such verdict otherwise; a guilty verdict on the thought slashes this stake. -/
theorem open_thought_collateral {t : ThoughtRecord} (hr : Reaches rt slot L h s) (ht : s.thoughts k = some t)
    (ho : t.Open) :
    ∃ p a, s.policies (rt.pda (.policy t.policyId)) = some p ∧ s.agents t.agent = some a ∧
      (∃ h₁ m act h₂, h = h₁ ++ (m, act) :: h₂ ∧ act.submits k ∧
        Backed p.bondMin.toNat (stakeOf m.agents t.agent) t.agent h₂ a.stakeAmount.toNat) ∧
      ∀ ctx s' evs, ctx.thought.key = k → resolveChallenged rt s ctx true = .ok (s', evs) →
        evs = [.challengeResolved ctx.challenge.key k true a.stakeAmount] := by
  obtain ⟨sub⟩ := exists_submission hr ht
  obtain ⟨a, hagent⟩ := ((wf_of_reaches hr).thoughts _ _ ht).agent
  have hkeep : stakeOf sub.next.agents sub.ctx.agent.key = stakeOf sub.state.agents sub.ctx.agent.key :=
    stakeOf_rewrite sub.accepted.profile rfl
  have hstake : stakeOf s.agents sub.ctx.agent.key =
      collateral sub.ctx.agent.key (stakeOf sub.next.agents sub.ctx.agent.key) sub.rest :=
    (stake_eq_collateral sub.reached_next sub.thought_next sub.run ht ho).2
  refine ⟨sub.policy, a, sub.policyNow, hagent, ⟨sub.before, sub.state, _, sub.rest, sub.split,
    ⟨sub.ctx, sub.args, sub.traceUri, rfl, sub.key⟩, ?_⟩, ?_⟩
  · rw [← stakeOf_of_some hagent, sub.agent_eq, hstake, hkeep]
    apply backed_of_collateral
    rw [stakeOf_of_some sub.accepted.profile]
    exact UInt64.le_iff_toNat_le.1 sub.accepted.stake
  · intro ctx' s' evs hk hok
    obtain ⟨t₁, a₁, p₁, c₁, hacc₁, -, rfl, -⟩ := resolveChallenged_guilty_eq_ok.1 hok
    have hrec := hacc₁.record
    rw [hk, ht, Option.some.injEq] at hrec
    have hprof := hacc₁.profile
    rw [hacc₁.agentOf, ← hrec, hagent, Option.some.injEq] at hprof
    rw [hk, hprof]

open Sample in
theorem open_thought_collateral_second :
    ∃ h s t, Reaches chain 1000 funds h s ∧ s.thoughts (thought 1) = some t ∧ t.Open ∧
      ∃ p a, s.policies (chain.pda (.policy t.policyId)) = some p ∧ s.agents t.agent = some a ∧
        ∃ h₁ m act h₂, h = h₁ ++ (m, act) :: h₂ ∧ act.submits (thought 1) ∧
          Backed p.bondMin.toNat (stakeOf m.agents t.agent) t.agent h₂ a.stakeAmount.toNat := by
  obtain ⟨h, s, hr, -, hs⟩ := exists_run (setup ++ submit 0 ++ submit 1 ++ [dispute 0, resolve 0 true])
    (fun s => (s.thoughts (thought 1)).map (·.status)) (some 0) (by decide +kernel)
  obtain ⟨t, ht, hst⟩ := Option.map_eq_some_iff.1 hs
  obtain ⟨p, a, hp, ha, hb, -⟩ := open_thought_collateral hr ht (.inl hst)
  exact ⟨h, s, t, hr, ht, .inl hst, p, a, hp, ha, hb⟩

open Sample in
/-- A guilty verdict on one thought leaves another, still open, without collateral. -/
theorem collateral_lost :
    ∃ h s t p a, Reaches chain 1000 funds h s ∧ s.thoughts (thought 1) = some t ∧ t.Open ∧
      s.policies (chain.pda (.policy t.policyId)) = some p ∧ s.agents t.agent = some a ∧
      ¬p.bondMin ≤ a.stakeAmount := by
  obtain ⟨h, s, hr, -, hs⟩ := exists_run (setup ++ submit 0 ++ submit 1 ++ [dispute 0, resolve 0 true])
    (fun s => ((s.thoughts (thought 1)).map (fun t => (t.status, t.agent, t.policyId)),
      (s.agents agent).map (·.stakeAmount), (s.policies policy).map (·.bondMin)))
    (some (0, agent, policyId), some 0, some 500000000) (by decide +kernel)
  simp only [Prod.mk.injEq, Option.map_eq_some_iff] at hs
  obtain ⟨⟨t, ht, hst, hag, hpi⟩, ⟨a, ha, hstake⟩, p, hp, hbond⟩ := hs
  refine ⟨h, s, t, p, a, hr, ht, .inl hst, hpi ▸ hp, hag ▸ ha, ?_⟩
  rw [hbond, hstake]
  decide

end ProofOfThought.Program
