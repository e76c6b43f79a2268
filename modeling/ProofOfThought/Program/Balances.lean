import ProofOfThought.Program.Rent

/-!
# Where the lamports are

Three balances that every run keeps: no lamport is made or lost, the burned shares included (`lamports_conserved`); an
agent's stake is what was deposited, less what was withdrawn and what was slashed (`stake_account`); and every account
of the program keeps the rent that its `init` made sure of, so that none is ever purged (`rent_paid`).
-/

namespace ProofOfThought.Program

open Base

variable {rt : Runtime} {s s' : State} {act : Action} {k ak : Pubkey} {slot : UInt64} {L : Ledger Pubkey}
  {h : List (State × Action)}

/-! ## Conservation -/

/-- An accepted action moves lamports among the accounts it names. -/
theorem Effect.sum_lamports {S : Finset Pubkey} (he : Effect rt s act s') (hS : ∀ k ∈ act.keys, k ∈ S) :
    ∑ k ∈ S, s'.lamports k = ∑ k ∈ S, s.lamports k := by
  cases he with
  | registerAgent h =>
    simp only [Action.keys, Instruction.accounts, List.map, List.forall_mem_cons] at hS
    obtain ⟨ho, ha, hv, -⟩ := hS
    exact (sum_move ho hv h.funds).trans (sum_move ho ha h.rent)
  | stake h =>
    simp only [Action.keys, Instruction.accounts, List.map, List.forall_mem_cons] at hS
    exact sum_move hS.1 hS.2.2.1 h.funds
  | withdrawStake h =>
    simp only [Action.keys, Instruction.accounts, List.map, List.forall_mem_cons] at hS
    exact sum_move hS.2.2.1 hS.1 h.funds
  | registerModel h =>
    simp only [Action.keys, Instruction.accounts, List.map, List.forall_mem_cons] at hS
    exact sum_move hS.1 hS.2.1 h.rent
  | registerPolicy h =>
    simp only [Action.keys, Instruction.accounts, List.map, List.forall_mem_cons] at hS
    exact sum_move hS.1 hS.2.1 h.rent
  | requestVrf h =>
    simp only [Action.keys, Instruction.accounts, List.map, List.forall_mem_cons] at hS
    exact sum_move hS.1 hS.2.2.1 h.rent
  | submitThought h =>
    simp only [Action.keys, Instruction.accounts, List.map, List.forall_mem_cons] at hS
    obtain ⟨ho, -, -, -, -, ht, -⟩ := hS
    exact sum_move ho ht h.rent
  | challenge h =>
    simp only [Action.keys, Instruction.accounts, List.map, List.forall_mem_cons] at hS
    obtain ⟨hc, -, -, hd, hb, -⟩ := hS
    exact (sum_move hc hb h.funds).trans (sum_move hc hd h.rent)
  | guilty h pays =>
    simp only [Action.keys, Instruction.accounts, List.map, List.forall_mem_cons] at hS
    obtain ⟨-, -, -, -, -, hs, hb, hc, ht, -⟩ := hS
    exact ((sum_move hb hc pays.2.2).trans (sum_move hs ht pays.2.1)).trans (sum_move hs hc pays.1)
  | innocent h pays =>
    simp only [Action.keys, Instruction.accounts, List.map, List.forall_mem_cons] at hS
    obtain ⟨-, -, -, -, -, -, hb, -, ht, ho, -⟩ := hS
    exact (sum_move hb ht pays.2).trans (sum_move hb ho pays.1)
  | transfer _ funds =>
    simp only [Action.keys, List.forall_mem_cons] at hS
    exact sum_move hS.1 hS.2.1 funds
  | _ => rfl

/-- **Conservation.** A run changes the balances of the accounts its actions name only, and keeps the total of any
finite set that holds them. -/
theorem lamports_conserved (hr : Reaches rt slot L h s) :
    (∀ k, (∀ x ∈ h, k ∉ x.2.keys) → s.lamports k = L k) ∧
      ∀ S : Finset Pubkey, (∀ x ∈ h, ∀ k ∈ x.2.keys, k ∈ S) → ∑ k ∈ S, s.lamports k = ∑ k ∈ S, L k := by
  constructor
  · intro k hk
    refine hr.inv (fun h s => (∀ x ∈ h, k ∉ x.2.keys) → s.lamports k = L k) (fun _ => rfl) ?_ hk
    intro h s a s' _ ih ha hk
    obtain ⟨hk, hka⟩ := List.forall_mem_append.1 hk
    exact ((step_effect ha).lamports_of_not_mem (hka (s, a) (List.mem_singleton_self _))).trans (ih hk)
  · intro S hS
    refine hr.inv (fun h s => (∀ x ∈ h, ∀ k ∈ x.2.keys, k ∈ S) → ∑ k ∈ S, s.lamports k = ∑ k ∈ S, L k)
      (fun _ => rfl) ?_ hS
    intro h s a s' _ ih ha hS
    obtain ⟨hS, hSa⟩ := List.forall_mem_append.1 hS
    exact ((step_effect ha).sum_lamports (hSa (s, a) (List.mem_singleton_self _))).trans (ih hS)

open Sample in
/-- A guilty verdict leaves the total of the accounts of its history. -/
theorem lamports_conserved_slashed :
    ∃ h s, Reaches chain 1000 funds h s ∧ ∀ S : Finset Pubkey, (∀ x ∈ h, ∀ k ∈ x.2.keys, k ∈ S) →
      ∑ k ∈ S, s.lamports k = ∑ k ∈ S, funds k := by
  obtain ⟨h, s, hr, -, -⟩ := exists_run (setup ++ submit 0 ++ [dispute 0, resolve 0 true])
    (fun s => (s.agents agent).isSome) true (by decide +kernel)
  exact ⟨h, s, hr, (lamports_conserved hr).2⟩

/-! ## The account of a stake -/

/-- What a step adds to the stake of the agent at `ak`. -/
def depositedBy (ak : Pubkey) : State × Action → Nat
  | (_, .instruction (.registerAgent ctx stake)) => if ctx.agent.key = ak then stake.toNat else 0
  | (_, .instruction (.stake ctx amount)) => if (StakeAccounts.agent ctx).key = ak then amount.toNat else 0
  | _ => 0

/-- What a step pays out of the stake to the operator. -/
def withdrawnBy (ak : Pubkey) : State × Action → Nat
  | (_, .instruction (.withdrawStake ctx amount)) => if (StakeAccounts.agent ctx).key = ak then amount.toNat else 0
  | _ => 0

/-- What a guilty verdict takes: the whole stake. -/
def slashedBy (ak : Pubkey) : State × Action → Nat
  | (s, .instruction (.resolveChallenged ctx true)) => if ctx.agent.key = ak then stakeOf s.agents ak else 0
  | _ => 0

/-- **One step of the account of a stake.** -/
theorem Effect.stake_entry (he : Effect rt s act s') (ak : Pubkey) :
    stakeOf s.agents ak + depositedBy ak (s, act) =
      stakeOf s'.agents ak + withdrawnBy ak (s, act) + slashedBy ak (s, act) := by
  cases he with
  | @registerAgent ctx stake h =>
    simp only [RegisterAgent.after, RegisterAgent.profile, stakeOf_write, depositedBy, withdrawnBy, slashedBy]
    by_cases hk : ctx.agent.key = ak
    · subst hk
      have h0 : stakeOf s.agents ctx.agent.key = 0 := readOr_of_none h.fresh
      simp [h0]
    · simp [hk]
  | @stake ctx amount a n h =>
    have hsum := h.sum
    simp only [Stake.after, stakeOf_write, depositedBy, withdrawnBy, slashedBy]
    by_cases hk : ctx.agent.key = ak
    · subst hk
      simp only [stakeOf_of_some h.profile, if_true]
      omega
    · simp [hk]
  | @withdrawStake ctx amount a n h =>
    have hdiff := h.difference
    simp only [WithdrawStake.after, stakeOf_write, depositedBy, withdrawnBy, slashedBy]
    by_cases hk : ctx.agent.key = ak
    · subst hk
      simp only [stakeOf_of_some h.profile, if_true]
      omega
    · simp [hk]
  | requestVrf h => simp only [RequestVrf.after, stakeOf_rewrite h.profile, depositedBy, withdrawnBy, slashedBy]
  | submitThought h => simp only [SubmitThought.after, stakeOf_rewrite h.profile, depositedBy, withdrawnBy, slashedBy]
  | resolveUnchallenged h =>
    simp only [ResolveUnchallenged.after, stakeOf_rewrite h.profile, depositedBy, withdrawnBy, slashedBy]
  | @guilty ctx t a p c h _ =>
    simp only [ResolveChallenged.afterGuilty, stakeOf_write, depositedBy, withdrawnBy, slashedBy]
    by_cases hk : ctx.agent.key = ak
    · subst hk
      simp
    · simp [hk]
  | innocent h _ =>
    simp only [ResolveChallenged.afterInnocent, stakeOf_rewrite h.profile, depositedBy, withdrawnBy, slashedBy]
  | _ => rfl

/-- **The account of a stake.** The stake of an agent is what was deposited, less what its operator withdrew and what
guilty verdicts slashed. -/
theorem stake_account (hr : Reaches rt slot L h s) (ak : Pubkey) :
    tally (depositedBy ak) h = stakeOf s.agents ak + tally (withdrawnBy ak) h + tally (slashedBy ak) h := by
  refine hr.inv (fun h s => tally (depositedBy ak) h =
    stakeOf s.agents ak + tally (withdrawnBy ak) h + tally (slashedBy ak) h) ?_ ?_
  · simp [State.genesis, stakeOf, readOr]
  · intro h s a s' _ ih ha
    have hstep := (step_effect ha).stake_entry ak
    simp only [tally_append, tally_singleton]
    omega

open Sample in
/-- The stake of the sample agent, with a deposit of 10 SOL that a verdict takes. -/
theorem stake_account_slashed :
    ∃ h s, Reaches chain 1000 funds h s ∧ stakeOf s.agents agent = 0 ∧
      tally (depositedBy agent) h =
        stakeOf s.agents agent + tally (withdrawnBy agent) h + tally (slashedBy agent) h := by
  obtain ⟨h, s, hr, -, hs⟩ := exists_run (setup ++ submit 0 ++ [dispute 0, resolve 0 true])
    (fun s => stakeOf s.agents agent) 0 (by decide +kernel)
  exact ⟨h, s, hr, hs, stake_account hr agent⟩

/-! ## Rent -/

/-- The seeds of the accounts that hold data. -/
def Seeds.holdsData : Seeds Pubkey → Bool
  | .vault _ => false
  | .bond _ => false
  | _ => true

/-- A new account holds its rent. -/
theorem rent_le_fund {payer target : Pubkey} {space : Nat} (hp : target ≠ payer) :
    rt.rent space ≤ rt.fund s.lamports payer target space target := by
  rw [Runtime.fund, move_gain hp, if_pos rfl, Runtime.rentDue]
  split <;> omega

/-- **One step**: nothing is taken from an account that holds data. -/
theorem Effect.data_lamports (he : Effect rt s act s') (hw : act.walletSigned) {x : Seeds Pubkey}
    (hx : x.holdsData = true) : s.lamports (rt.pda x) ≤ s'.lamports (rt.pda x) := by
  have hpayer : ∀ {i : Instruction}, act = .instruction i → rt.pda x ≠ i.authority.key := by
    rintro i rfl
    exact Ne.symm (rt.ne_pda hw _)
  have hvault : ∀ ak, rt.pda x ≠ rt.pda (.vault ak) := by
    rintro ak he
    rw [rt.pda_inj.1 he] at hx
    cases hx
  have hbond : ∀ ck, rt.pda x ≠ rt.pda (.bond ck) := by
    rintro ck he
    rw [rt.pda_inj.1 he] at hx
    cases hx
  cases he with
  | @registerAgent ctx stake h =>
    have hp : rt.pda x ≠ ctx.operator.key := hpayer rfl
    exact (le_move hp).trans (le_move hp)
  | @stake ctx amount a n h => exact le_move (hpayer rfl)
  | @withdrawStake ctx amount a n h => exact le_move (h.vault ▸ hvault _)
  | @registerModel ctx modelId c v ca h => exact le_move (hpayer rfl)
  | @registerPolicy ctx args h => exact le_move (hpayer rfl)
  | @requestVrf ctx nonceIdx seed a n h => exact le_move (hpayer rfl)
  | @submitThought ctx args traceUri a p v d n h => exact le_move (hpayer rfl)
  | @challenge ctx claim bond evidenceUriHash t p h =>
    have hp : rt.pda x ≠ ctx.challenger.key := hpayer rfl
    exact (le_move hp).trans (le_move hp)
  | @guilty ctx t a p c h _ =>
    have hs : rt.pda x ≠ ctx.stakeVault.key := h.stakeVault ▸ hvault _
    have hb : rt.pda x ≠ ctx.bondVault.key := h.bondVault ▸ hbond _
    exact ((le_move hs).trans (le_move hs)).trans (le_move hb)
  | @innocent ctx t a p c h _ =>
    have hb : rt.pda x ≠ ctx.bondVault.key := h.bondVault ▸ hbond _
    exact (le_move hb).trans (le_move hb)
  | @transfer src dst n wallet _ => exact le_move (Ne.symm (rt.ne_pda wallet _))
  | _ => exact Nat.le_refl _

/-- Every account of the program holds the rent of its size. -/
structure State.RentPaid (rt : Runtime) (s : State) : Prop where
  agents : AllOf s.agents fun k _ => rt.rent AgentProfile.LEN ≤ s.lamports k
  models : AllOf s.models fun k _ => rt.rent ModelRegistry.LEN ≤ s.lamports k
  policies : AllOf s.policies fun k _ => rt.rent Policy.LEN ≤ s.lamports k
  requests : AllOf s.vrfRequests fun k _ => rt.rent VrfRequest.LEN ≤ s.lamports k
  thoughts : AllOf s.thoughts fun k _ => rt.rent ThoughtRecord.LEN ≤ s.lamports k
  challenges : AllOf s.challenges fun k _ => rt.rent Challenge.LEN ≤ s.lamports k

/-- Accounts whose addresses hold data lose nothing by a step. -/
theorem rent_kept {V : Type} {m : Pubkey → Option V} {n : Nat} (he : Effect rt s act s') (hw : act.walletSigned)
    (hat : AllOf m fun k _ => ∃ x : Seeds Pubkey, k = rt.pda x ∧ x.holdsData = true)
    (hm : AllOf m fun k _ => n ≤ s.lamports k) : AllOf m fun k _ => n ≤ s'.lamports k := by
  intro k v hv
  obtain ⟨x, rfl, hx⟩ := hat k v hv
  exact (hm _ v hv).trans (he.data_lamports hw hx)

/-- **One step keeps the rent paid.** -/
theorem State.RentPaid.step (hrp : s.RentPaid rt) (hwf : s.Wf rt) (hpd : s.Paired rt) (he : Effect rt s act s')
    (hw : act.walletSigned) : s'.RentPaid rt := by
  have hagents := rent_kept he hw (hwf.agents.imp fun k a h => ⟨_, h.1, rfl⟩) hrp.agents
  have hmodels := rent_kept he hw (hpd.models.imp fun k a h => ⟨_, h.1, rfl⟩) hrp.models
  have hpolicies := rent_kept he hw (hwf.policies.imp fun k a h => ⟨_, h.1, rfl⟩) hrp.policies
  have hrequests := rent_kept he hw (hpd.requests.imp fun k a h => ⟨_, h.address, rfl⟩) hrp.requests
  have hthoughts := rent_kept he hw (hwf.thoughts.imp fun k a h => ⟨_, h.address, rfl⟩) hrp.thoughts
  have hchallenges := rent_kept he hw (hwf.challenges.imp fun k a h => ⟨_, h.1, rfl⟩) hrp.challenges
  have hpayer : ∀ {i : Instruction} {x : Seeds Pubkey} {k : Pubkey}, act = .instruction i → k = rt.pda x →
      k ≠ i.authority.key := by
    rintro i x _ rfl rfl
    exact Ne.symm (rt.ne_pda hw _)
  cases he with
  | @registerAgent ctx stake h =>
    have hp : ctx.agent.key ≠ ctx.operator.key := hpayer rfl h.agent
    exact ⟨hagents.write ((rent_le_fund hp).trans (le_move hp)), hmodels, hpolicies, hrequests, hthoughts, hchallenges⟩
  | @stake ctx amount a n h =>
    exact ⟨hagents.rewrite h.profile id, hmodels, hpolicies, hrequests, hthoughts, hchallenges⟩
  | @withdrawStake ctx amount a n h =>
    exact ⟨hagents.rewrite h.profile id, hmodels, hpolicies, hrequests, hthoughts, hchallenges⟩
  | @registerModel ctx modelId c v ca h =>
    have hp : ctx.model.key ≠ ctx.governance.key := hpayer rfl h.model
    exact ⟨hagents, hmodels.write (rent_le_fund hp), hpolicies, hrequests, hthoughts, hchallenges⟩
  | @registerPolicy ctx args h =>
    have hp : ctx.policy.key ≠ ctx.author.key := hpayer rfl h.policy
    exact ⟨hagents, hmodels, hpolicies.write (rent_le_fund hp), hrequests, hthoughts, hchallenges⟩
  | @requestVrf ctx nonceIdx seed a n h =>
    have hp : ctx.vrfRequest.key ≠ ctx.operator.key := hpayer rfl h.request
    exact ⟨hagents.rewrite h.profile id, hmodels, hpolicies, hrequests.write (rent_le_fund hp), hthoughts, hchallenges⟩
  | @submitThought ctx args traceUri a p v d n h =>
    have hp : ctx.thought.key ≠ ctx.operator.key := hpayer rfl h.thought
    exact ⟨hagents.rewrite h.profile id, hmodels, hpolicies, hrequests.rewrite h.requestAccount id,
      hthoughts.write (rent_le_fund hp), hchallenges⟩
  | @consumeThought ctx t p n h =>
    exact ⟨hagents, hmodels, hpolicies, hrequests, hthoughts.rewrite h.record id, hchallenges⟩
  | @challenge ctx claim bond evidenceUriHash t p h =>
    have hp : ctx.challenge.key ≠ ctx.challenger.key := hpayer rfl h.challenge
    exact ⟨hagents, hmodels, hpolicies, hrequests, hthoughts.rewrite h.record id,
      hchallenges.write ((rent_le_fund hp).trans (le_move hp))⟩
  | @resolveUnchallenged ctx t a h =>
    exact ⟨hagents.rewrite h.profile id, hmodels, hpolicies, hrequests, hthoughts.rewrite h.record id, hchallenges⟩
  | @guilty ctx t a p c h _ =>
    exact ⟨hagents.rewrite h.profile id, hmodels, hpolicies, hrequests, hthoughts.rewrite h.record id,
      hchallenges.rewrite h.dispute id⟩
  | @innocent ctx t a p c h _ =>
    exact ⟨hagents.rewrite h.profile id, hmodels, hpolicies, hrequests, hthoughts.rewrite h.record id,
      hchallenges.rewrite h.dispute id⟩
  | transfer _ _ => exact ⟨hagents, hmodels, hpolicies, hrequests, hthoughts, hchallenges⟩
  | tick _ => exact ⟨hagents, hmodels, hpolicies, hrequests, hthoughts, hchallenges⟩

/-- **Rent.** In every reachable state every account of the program holds the rent of its size, whatever instructions
and transfers came in between. -/
theorem rent_paid (hr : Reaches rt slot L h s) (hw : WalletSigned h) : s.RentPaid rt := by
  refine hr.inv (fun h s => WalletSigned h → s.RentPaid rt)
    (fun _ => ⟨.empty, .empty, .empty, .empty, .empty, .empty⟩) ?_ hw
  intro h s a s' hr ih ha hw
  obtain ⟨hw, hwa⟩ := WalletSigned.append.1 hw
  exact (ih hw).step (wf_of_reaches hr) (paired_of_reaches hr) (step_effect ha) (hwa (s, a) (List.mem_singleton_self _))

open Sample in
/-- The agent and the thought of a verdict keep their rent. -/
theorem rent_paid_slashed :
    ∃ h s a, Reaches chain 1000 funds h s ∧ s.agents agent = some a ∧ a.stakeAmount = 0 ∧
      chain.rent AgentProfile.LEN ≤ s.lamports agent := by
  obtain ⟨h, s, hr, hacts, hs⟩ := exists_run (setup ++ submit 0 ++ [dispute 0, resolve 0 true])
    (fun s => (s.agents agent).map (·.stakeAmount)) (some 0) (by decide +kernel)
  have hw : WalletSigned h := walletSigned_iff.2 (hacts ▸ by decide)
  obtain ⟨a, ha, hst⟩ := Option.map_eq_some_iff.1 hs
  exact ⟨h, s, a, hr, ha, hst, (rent_paid hr hw).agents agent a ha⟩

end ProofOfThought.Program
