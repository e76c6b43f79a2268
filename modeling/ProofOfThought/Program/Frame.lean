import ProofOfThought.Program.Vault

/-!
# Frame and authority

What an instruction may touch and who may lower a stake. Over runs the terms of every account are fixed at its creation
(`Kept`); an instruction that concerns one agent leaves the accounts of the others alone (`OthersKept`); and a stake
goes down by a withdrawal of its operator or a guilty verdict of a resolver only (`stake_decreased`).
-/

namespace ProofOfThought.Program

open Base

variable {rt : Runtime} {s s' : State} {act : Action} {ak ck : Pubkey}

/-! ## What a run keeps -/

/-- The accounts of `s` are still there in `s'`, with the same terms. -/
structure Kept (s s' : State) : Prop where
  policies : Evolves Eq s.policies s'.policies
  models : Evolves Eq s.models s'.models
  thoughts : Evolves SameCommitment s.thoughts s'.thoughts
  challenges : Evolves SameDispute s.challenges s'.challenges
  requests : Evolves SameRequest s.vrfRequests s'.vrfRequests
  agents : Evolves SameAgent s.agents s'.agents
  nonces : Evolves NonceLe s.agents s'.agents

/-- **Every run keeps the terms of every account.** -/
theorem Run.kept {h : List (State × Action)} (hr : Run (step rt) s h s') : Kept s s' where
  policies := hr.evolves State.policies fun _ _ _ ha => (step_effect ha).policies
  models := hr.evolves State.models fun _ _ _ ha => (step_effect ha).models
  thoughts := hr.evolves State.thoughts fun _ _ _ ha => (step_effect ha).thoughts
  challenges := hr.evolves State.challenges fun _ _ _ ha => (step_effect ha).challenges
  requests := hr.evolves State.vrfRequests fun _ _ _ ha => (step_effect ha).vrfRequests
  agents := hr.evolves State.agents fun _ _ _ ha => (step_effect ha).agents
  nonces := hr.evolves State.agents fun _ _ _ ha => (step_effect ha).nonces

/-! ## What an instruction leaves alone -/

/-- The agent an action concerns: the agent account it takes, or the agent of the thought it takes. -/
def Action.concerns (s : State) : Action → Option Pubkey
  | .instruction (.registerAgent ctx _) => some ctx.agent.key
  | .instruction (.stake ctx _) => some (StakeAccounts.agent ctx).key
  | .instruction (.withdrawStake ctx _) => some (StakeAccounts.agent ctx).key
  | .instruction (.requestVrf ctx _ _) => some ctx.agent.key
  | .instruction (.submitThought ctx _ _) => some ctx.agent.key
  | .instruction (.consumeThought ctx) => (s.thoughts ctx.thought.key).map (·.agent)
  | .instruction (.challenge ctx _ _ _) => (s.thoughts ctx.thought.key).map (·.agent)
  | .instruction (.resolveUnchallenged ctx) => some ctx.agent.key
  | .instruction (.resolveChallenged ctx _) => some ctx.agent.key
  | _ => none

/-- The challenge disputes a thought of the agent at `ak`. -/
def DisputeOf (s : State) (ak : Pubkey) (c : Challenge) : Prop := ∃ t, s.thoughts c.thought = some t ∧ t.agent = ak

/-- The accounts of the agent at `ak` are left alone, and its vault loses nothing. -/
structure OthersKept (rt : Runtime) (s s' : State) (ak : Pubkey) : Prop where
  profile : s'.agents ak = s.agents ak
  requests : Untouched (fun v => v.agent = ak) s.vrfRequests s'.vrfRequests
  thoughts : Untouched (fun t => t.agent = ak) s.thoughts s'.thoughts
  challenges : Untouched (DisputeOf s ak) s.challenges s'.challenges
  stakeVault : s.lamports (rt.pda (.vault ak)) ≤ s'.lamports (rt.pda (.vault ak))

theorem ne_of_concerns (hak : act.concerns s ≠ some ak) {k : Pubkey} (hk : act.concerns s = some k) : k ≠ ak :=
  fun he => hak (he ▸ hk)

namespace Effect

variable (he : Effect rt s act s') (hak : act.concerns s ≠ some ak)

include he hak

theorem agents_other : s'.agents ak = s.agents ak := by
  cases he with
  | registerAgent _ => exact Function.update_of_ne (ne_of_concerns hak rfl).symm _ _
  | stake _ => exact Function.update_of_ne (ne_of_concerns hak rfl).symm _ _
  | withdrawStake _ => exact Function.update_of_ne (ne_of_concerns hak rfl).symm _ _
  | requestVrf _ => exact Function.update_of_ne (ne_of_concerns hak rfl).symm _ _
  | submitThought _ => exact Function.update_of_ne (ne_of_concerns hak rfl).symm _ _
  | resolveUnchallenged _ => exact Function.update_of_ne (ne_of_concerns hak rfl).symm _ _
  | guilty _ _ => exact Function.update_of_ne (ne_of_concerns hak rfl).symm _ _
  | innocent _ _ => exact Function.update_of_ne (ne_of_concerns hak rfl).symm _ _
  | _ => rfl

theorem requests_other : Untouched (fun v => v.agent = ak) s.vrfRequests s'.vrfRequests := by
  cases he with
  | requestVrf h => exact .insert h.fresh (ne_of_concerns hak rfl)
  | submitThought h =>
    have hva := h.requestAgent ▸ ne_of_concerns hak rfl
    exact .rewrite h.requestAccount hva hva
  | _ => exact .refl _

/-- The record an instruction takes is one of the agent it concerns. -/
theorem thoughts_other : Untouched (fun t => t.agent = ak) s.thoughts s'.thoughts := by
  have hrec : ∀ {k : Pubkey} {t : ThoughtRecord}, s.thoughts k = some t →
      act.concerns s = (s.thoughts k).map (·.agent) → t.agent ≠ ak := by
    intro k t ht hc
    exact ne_of_concerns hak (hc.trans (congrArg _ ht))
  cases he with
  | submitThought h => exact .insert h.fresh (ne_of_concerns hak rfl)
  | consumeThought h =>
    have hta := hrec h.record rfl
    exact .rewrite h.record hta hta
  | challenge h =>
    have hta := hrec h.record rfl
    exact .rewrite h.record hta hta
  | resolveUnchallenged h =>
    have hta := h.agentOf ▸ ne_of_concerns hak rfl
    exact .rewrite h.record hta hta
  | guilty h _ =>
    have hta := h.agentOf ▸ ne_of_concerns hak rfl
    exact .rewrite h.record hta hta
  | innocent h _ =>
    have hta := h.agentOf ▸ ne_of_concerns hak rfl
    exact .rewrite h.record hta hta
  | _ => exact .refl _

/-- The dispute an instruction opens or decides is about a thought of the agent it concerns. -/
theorem challenges_other : Untouched (DisputeOf s ak) s.challenges s'.challenges := by
  -- no dispute of a thought of another agent is one of `ak`
  have hdis : ∀ {k : Pubkey} {t : ThoughtRecord} {c : Challenge}, s.thoughts k = some t → t.agent ≠ ak →
      c.thought = k → ¬DisputeOf s ak c := by
    intro k t c ht hta hc hd
    obtain ⟨t', ht', hta'⟩ := hd
    rw [hc, ht, Option.some.injEq] at ht'
    exact hta (ht' ▸ hta')
  cases he with
  | challenge h =>
    have hta := ne_of_concerns hak (congrArg (Option.map ThoughtRecord.agent) h.record)
    exact .insert h.fresh (hdis h.record hta rfl)
  | guilty h _ =>
    have hta := h.agentOf ▸ ne_of_concerns hak rfl
    exact .rewrite h.dispute (hdis h.record hta h.challengeOf) (hdis h.record hta h.challengeOf)
  | innocent h _ =>
    have hta := h.agentOf ▸ ne_of_concerns hak rfl
    exact .rewrite h.dispute (hdis h.record hta h.challengeOf) (hdis h.record hta h.challengeOf)
  | _ => exact .refl _

/-- **An action leaves alone the accounts of every agent it does not concern.** -/
theorem othersKept (hw : act.walletSigned) : OthersKept rt s s' ak where
  profile := he.agents_other hak
  requests := he.requests_other hak
  thoughts := he.thoughts_other hak
  challenges := he.challenges_other hak
  stakeVault := by
    have hvault := he.vault hw ak
    have hstake : stakeOf s'.agents ak = stakeOf s.agents ak := by
      rw [stakeOf, stakeOf, readOr, readOr, he.agents_other hak]
    omega

end Effect

/-! ## Who may lower a stake -/

/-- The operator of the agent `a` at `ak` withdraws. -/
def Withdraws (ak : Pubkey) (a : AgentProfile) (act : Action) : Prop :=
  ∃ ctx amount, act = .instruction (.withdrawStake ctx amount) ∧ ctx.agent.key = ak ∧ ctx.operator.key = a.operator ∧
    ctx.operator.isSigner = true

/-- The resolver of the policy of a challenged thought of the agent at `ak` finds it guilty. -/
def Convicts (rt : Runtime) (s : State) (ak : Pubkey) (act : Action) : Prop :=
  ∃ ctx t p, act = .instruction (.resolveChallenged ctx true) ∧ s.thoughts ctx.thought.key = some t ∧ t.agent = ak ∧
    t.status = ThoughtStatus.challenged.toU8 ∧ s.policies (rt.pda (.policy t.policyId)) = some p ∧
    ctx.resolver.key = p.resolver ∧ ctx.resolver.isSigner = true

/-- **A stake goes down by a withdrawal or a guilty verdict only.** -/
theorem stake_decreased (hwf : s.Wf rt) (he : Effect rt s act s') {a a' : AgentProfile} (ha : s.agents ak = some a)
    (ha' : s'.agents ak = some a') (hlt : a'.stakeAmount < a.stakeAmount) :
    Withdraws ak a act ∨ Convicts rt s ak act := by
  -- a profile written over the old one with no smaller stake
  have hno : ∀ {k : Pubkey} {b b' : AgentProfile}, s.agents k = some b →
      Function.update s.agents k (some b') ak = some a' → b.stakeAmount ≤ b'.stakeAmount → False := by
    intro k b b' hb hw hle
    rcases write_eq_some.1 hw with ⟨rfl, rfl⟩ | ⟨-, hw⟩
    · rw [hb, Option.some.injEq] at ha
      exact UInt64.not_lt.2 hle (ha ▸ hlt)
    · rw [ha, Option.some.injEq] at hw
      exact UInt64.lt_irrefl _ (hw ▸ hlt)
  have hsame : ∀ {k : Pubkey} {b' : AgentProfile}, k ≠ ak → Function.update s.agents k (some b') ak = some a' →
      False := by
    intro k b' hk hw
    rw [Function.update_of_ne hk.symm, ha, Option.some.injEq] at hw
    exact UInt64.lt_irrefl _ (hw ▸ hlt)
  cases he with
  | registerAgent h =>
    refine (hsame (fun hk => ?_) ha').elim
    rw [← hk, h.fresh] at ha
    cases ha
  | stake h => exact (hno h.profile ha' (UInt64.le_iff_toNat_le.2 (Nat.le.intro h.sum))).elim
  | @withdrawStake ctx amount b n h =>
    by_cases hk : ctx.agent.key = ak
    · subst hk
      obtain rfl : a = b := Option.some.inj (ha.symm.trans h.profile)
      exact .inl ⟨ctx, amount, rfl, rfl, h.operator.symm, h.signed⟩
    · exact (hsame hk ha').elim
  | requestVrf h => exact (hno h.profile ha' (UInt64.le_refl _)).elim
  | submitThought h => exact (hno h.profile ha' (UInt64.le_refl _)).elim
  | resolveUnchallenged h => exact (hno h.profile ha' (UInt64.le_refl _)).elim
  | @guilty ctx t b p c h _ =>
    by_cases hk : ctx.agent.key = ak
    · exact .inr ⟨ctx, t, p, rfl, h.record, h.agentOf.symm.trans hk, h.challenged,
        hwf.policy_key h.policyAccount h.policy ▸ h.policyAccount, h.resolver.symm, h.signed⟩
    · exact (hsame hk ha').elim
  | innocent h _ => exact (hno h.profile ha' (UInt64.le_refl _)).elim
  | _ =>
    have hw : s.agents ak = some a' := ha'
    rw [ha, Option.some.injEq] at hw
    exact absurd hlt (hw ▸ UInt64.lt_irrefl _)

/-! ## Frame and authority -/

variable {slot : UInt64} {L : Ledger Pubkey} {h : List (State × Action)}

/-- **Frame and authority.** From every reachable state, every run keeps the terms of the accounts; every step leaves
alone the agents it does not concern and the bond vaults of the challenges it does not resolve; and it lowers a stake
only with the signature of the operator or of the resolver. -/
theorem frame_and_authority (hr : Reaches rt slot L h s) :
    (∀ h' s', Run (step rt) s h' s' → Kept s s') ∧
      ∀ act s', step rt s act = some s' → act.walletSigned →
        (∀ ak, act.concerns s ≠ some ak → OthersKept rt s s' ak) ∧
        (∀ ck, act.resolves ck = false → s.lamports (rt.pda (.bond ck)) ≤ s'.lamports (rt.pda (.bond ck))) ∧
        ∀ ak a a', s.agents ak = some a → s'.agents ak = some a' → a'.stakeAmount < a.stakeAmount →
          Withdraws ak a act ∨ Convicts rt s ak act := by
  refine ⟨fun h' s' hr' => Run.kept hr', fun act s' ha hw => ?_⟩
  have he := step_effect ha
  exact ⟨fun ak hak => he.othersKept hak hw, fun ck hck => he.bondVault hw hck,
    fun ak a a' h1 h2 hlt => stake_decreased (wf_of_reaches hr) he h1 h2 hlt⟩

open Sample in
/-- A guilty verdict takes the stake of the sample agent, and nothing of another. -/
theorem frame_and_authority_guilty :
    ∃ h s s' a a', Reaches chain 1000 funds h s ∧ step chain s (resolve 0 true) = some s' ∧
      s.agents agent = some a ∧ s'.agents agent = some a' ∧ a'.stakeAmount < a.stakeAmount ∧
      (Withdraws agent a (resolve 0 true) ∨ Convicts chain s agent (resolve 0 true)) ∧
      OthersKept chain s s' (chain.pda (.agent challenger)) := by
  obtain ⟨h, s, hr, -, hs⟩ := exists_run (setup ++ submit 0 ++ [dispute 0])
    (fun s => ((s.agents agent).map (·.stakeAmount),
      (step chain s (resolve 0 true)).bind fun s' => (s'.agents agent).map (·.stakeAmount)))
    (some 10000000000, some 0) (by decide +kernel)
  obtain ⟨ha, hs'⟩ := Prod.mk.inj hs
  obtain ⟨a, ha, hn⟩ := Option.map_eq_some_iff.1 ha
  obtain ⟨s', hstep, ha'⟩ := Option.bind_eq_some_iff.1 hs'
  obtain ⟨a', ha', hn'⟩ := Option.map_eq_some_iff.1 ha'
  have hlt : a'.stakeAmount < a.stakeAmount := by
    rw [hn, hn']
    decide
  obtain ⟨hothers, -, hstake⟩ := (frame_and_authority hr).2 _ _ hstep (by decide)
  exact ⟨h, s, s', a, a', hr, hstep, ha, ha', hlt, hstake agent a a' ha ha' hlt,
    hothers _ (show some agent ≠ _ by decide)⟩

end ProofOfThought.Program
