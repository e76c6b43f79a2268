import ProofOfThought.Program.Anchor

/-!
# Disputes

`challenge` locks a bond against a pending thought, `resolve_unchallenged` finalizes one whose window passed without a
challenge, and `resolve_challenged` executes a verdict: the stake of a guilty agent is split 60/30/10 between the
challenger, the burn (which stays in the vault) and the treasury; the bond of a failed challenge is split 90/10 between
the agent's operator and the treasury.
-/

namespace ProofOfThought.Program

open Base

variable {rt : Runtime} {s s' : State} {evs : List Event}

/-! ## `challenge` -/

structure OpenChallenge where
  challenger : AccountInfo
  thought : AccountInfo
  policy : AccountInfo
  challenge : AccountInfo
  bondVault : AccountInfo
  systemProgram : AccountInfo

/-- The accounts `challenge` works on, with the state after `init`. -/
structure OpenChallenge.Loaded where
  state : State
  thought : ThoughtRecord
  policy : Policy

def OpenChallenge.tryAccounts (rt : Runtime) (s : State) (ctx : OpenChallenge) : Except Error OpenChallenge.Loaded := do
  signer ctx.challenger
  let thought ← account s.thoughts ctx.thought
  let policy ← account s.policies ctx.policy
  Program.systemProgram ctx.systemProgram
  let state ← init rt s ctx.challenger ctx.challenge (.challenge ctx.thought.key ctx.challenger.key)
    (s.challenges ctx.challenge.key).isSome Challenge.LEN
  mutable ctx.challenger
  mutable ctx.thought
  seeds (.thought thought.agent thought.vrfNonceIdx) thought.bump ctx.thought
  seeds (.policy thought.policyId) policy.bump ctx.policy
  require (policy.policyId = thought.policyId) (.pot .wrongPolicy)
  mutable ctx.bondVault
  canonicalSeeds rt (.bond ctx.challenge.key) ctx.bondVault
  return { state, thought, policy }

/-- The dispute `challenge` writes. -/
def OpenChallenge.dispute (rt : Runtime) (s : State) (ctx : OpenChallenge) (claim : ChallengeClaim) (bond : UInt64)
    (evidenceUriHash : Bytes32) : Challenge where
  thought := ctx.thought.key
  challenger := ctx.challenger.key
  bond := bond
  claim := claim.toU8
  evidenceUriHash := evidenceUriHash
  openedAtSlot := s.slot
  resolved := false
  verdict := false
  bump := rt.bump (.challenge ctx.thought.key ctx.challenger.key)

def openChallengeHandler (rt : Runtime) (acc : OpenChallenge.Loaded) (ctx : OpenChallenge) (claim : ChallengeClaim)
    (bond : UInt64) (evidenceUriHash : Bytes32) : Except Error (State × List Event) := do
  let s := acc.state
  let status ← okOr (ThoughtStatus.fromU8 acc.thought.status) (.pot .invalidStatus)
  require (status = .pending) (.pot .invalidStatus)
  require (s.slot < acc.thought.challengeDeadlineSlot) (.pot .challengeWindowClosed)
  require (acc.policy.bondMin ≤ bond) (.pot .bondTooLow)
  let s ← s.transfer ctx.challenger.key ctx.bondVault.key bond.toNat
  let s := s.setChallenge ctx.challenge.key (ctx.dispute rt s claim bond evidenceUriHash)
  let s := s.setThought ctx.thought.key { acc.thought with status := ThoughtStatus.challenged.toU8 }
  return (s, [.challengeOpened ctx.challenge.key ctx.thought.key ctx.challenger.key claim.toU8 bond])

def openChallenge (rt : Runtime) (s : State) (ctx : OpenChallenge) (claim : ChallengeClaim) (bond : UInt64)
    (evidenceUriHash : Bytes32) : Except Error (State × List Event) := do
  let acc ← ctx.tryAccounts rt s
  openChallengeHandler rt acc ctx claim bond evidenceUriHash

/-- The accounts and arguments of a successful `challenge` of the record `t` under the policy `p`. -/
structure OpenChallenge.Accepted (rt : Runtime) (s : State) (ctx : OpenChallenge) (bond : UInt64) (t : ThoughtRecord)
    (p : Policy) : Prop where
  signed : ctx.challenger.isSigner = true
  system : ctx.systemProgram.key = systemProgramId
  record : s.thoughts ctx.thought.key = some t
  policyAccount : s.policies ctx.policy.key = some p
  challenge : ctx.challenge.key = rt.pda (.challenge ctx.thought.key ctx.challenger.key)
  fresh : s.challenges ctx.challenge.key = none
  rent : rt.rentDue (s.lamports ctx.challenge.key) Challenge.LEN ≤ s.lamports ctx.challenger.key
  writable : ctx.challenge.isWritable = true ∧ ctx.challenger.isWritable = true ∧ ctx.thought.isWritable = true ∧
    ctx.bondVault.isWritable = true
  thought : ctx.thought.key = (Seeds.thought t.agent t.vrfNonceIdx).address t.bump
  policy : ctx.policy.key = (Seeds.policy t.policyId).address p.bump
  policyId : p.policyId = t.policyId
  vault : ctx.bondVault.key = rt.pda (.bond ctx.challenge.key)
  pending : t.status = ThoughtStatus.pending.toU8
  window : s.slot < t.challengeDeadlineSlot
  enough : p.bondMin ≤ bond
  funds : bond.toNat ≤ rt.fund s.lamports ctx.challenger.key ctx.challenge.key Challenge.LEN ctx.challenger.key

/-- The state after `challenge`. -/
def OpenChallenge.after (rt : Runtime) (s : State) (ctx : OpenChallenge) (claim : ChallengeClaim) (bond : UInt64)
    (evidenceUriHash : Bytes32) (t : ThoughtRecord) : State :=
  { s with
    challenges := Function.update s.challenges ctx.challenge.key
      (some (ctx.dispute rt s claim bond evidenceUriHash))
    thoughts := Function.update s.thoughts ctx.thought.key
      (some { t with status := ThoughtStatus.challenged.toU8 })
    lamports := (rt.fund s.lamports ctx.challenger.key ctx.challenge.key Challenge.LEN).move ctx.challenger.key
      ctx.bondVault.key bond.toNat }

theorem openChallenge_eq_ok {ctx : OpenChallenge} {claim : ChallengeClaim} {bond : UInt64}
    {evidenceUriHash : Bytes32} :
    openChallenge rt s ctx claim bond evidenceUriHash = .ok (s', evs) ↔ ∃ t p, ctx.Accepted rt s bond t p ∧
      evs = [.challengeOpened ctx.challenge.key ctx.thought.key ctx.challenger.key claim.toU8 bond] ∧
      s' = ctx.after rt s claim bond evidenceUriHash t := by
  simp only [openChallenge, OpenChallenge.tryAccounts, openChallengeHandler, seq_ok_iff, signer_eq_ok, account_eq_ok,
    systemProgram_eq_ok, init_eq_ok, mutable_eq_ok, seeds_eq_ok, canonicalSeeds_eq_ok, pure_ok_iff, require_eq_ok,
    okOr_eq_ok, fromU8_eq_some, transfer_eq_ok, exists_const, Option.isSome_eq_false_iff, Option.isNone_iff_eq_none,
    Prod.mk.injEq]
  constructor
  · rintro ⟨_, ⟨hs, t, ht, p, hp, hy, _, ⟨hk, hf, hr, hw, rfl⟩, hwc, hwt, hts, hps, hpi, hwb, hbv, rfl⟩, _, hst, rfl,
      hsl, hb, _, ⟨hm, rfl⟩, rfl, rfl⟩
    exact ⟨t, p, ⟨hs, hy, ht, hp, hk, hf, hr, ⟨hw, hwc, hwt, hwb⟩, hts, hps, hpi, hbv, hst, hsl, hb, hm⟩, rfl, rfl⟩
  · rintro ⟨t, p, ⟨hs, hy, ht, hp, hk, hf, hr, ⟨hw, hwc, hwt, hwb⟩, hts, hps, hpi, hbv, hst, hsl, hb, hm⟩, rfl, rfl⟩
    exact ⟨_, ⟨hs, t, ht, p, hp, hy, _, ⟨hk, hf, hr, hw, rfl⟩, hwc, hwt, hts, hps, hpi, hwb, hbv, rfl⟩, _, hst, rfl,
      hsl, hb, _, ⟨hm, rfl⟩, rfl, rfl⟩

/-! ## `resolve_unchallenged` -/

structure ResolveUnchallenged where
  cranker : AccountInfo
  thought : AccountInfo
  agent : AccountInfo

def ResolveUnchallenged.tryAccounts (s : State) (ctx : ResolveUnchallenged) :
    Except Error (ThoughtRecord × AgentProfile) := do
  signer ctx.cranker
  let thought ← account s.thoughts ctx.thought
  let agent ← account s.agents ctx.agent
  mutable ctx.cranker
  mutable ctx.thought
  seeds (.thought thought.agent thought.vrfNonceIdx) thought.bump ctx.thought
  mutable ctx.agent
  seeds (.agent agent.operator) agent.bump ctx.agent
  require (ctx.agent.key = thought.agent) (.pot .wrongAgent)
  return (thought, agent)

def resolveUnchallengedHandler (s : State) (thought : ThoughtRecord) (agent : AgentProfile)
    (ctx : ResolveUnchallenged) : Except Error (State × List Event) := do
  let status ← okOr (ThoughtStatus.fromU8 thought.status) (.pot .invalidStatus)
  require (status = .pending) (.pot .invalidStatus)
  require (thought.challengeDeadlineSlot ≤ s.slot) (.pot .challengeWindowOpen)
  let s := s.setThought ctx.thought.key { thought with status := ThoughtStatus.finalized.toU8 }
  let s := s.setAgent ctx.agent.key
    { agent with
      activeThoughts := saturatingSub32 agent.activeThoughts 1
      reputation := saturatingAddI64 agent.reputation 1 }
  return (s, [.thoughtFinalized ctx.thought.key ctx.agent.key ThoughtStatus.finalized.toU8 s.slot])

def resolveUnchallenged (s : State) (ctx : ResolveUnchallenged) : Except Error (State × List Event) := do
  let (thought, agent) ← ctx.tryAccounts s
  resolveUnchallengedHandler s thought agent ctx

/-- The accounts of a successful `resolve_unchallenged` of the record `t` of the agent `a`. -/
structure ResolveUnchallenged.Accepted (s : State) (ctx : ResolveUnchallenged) (t : ThoughtRecord)
    (a : AgentProfile) : Prop where
  signed : ctx.cranker.isSigner = true
  record : s.thoughts ctx.thought.key = some t
  profile : s.agents ctx.agent.key = some a
  writable : ctx.cranker.isWritable = true ∧ ctx.thought.isWritable = true ∧ ctx.agent.isWritable = true
  thought : ctx.thought.key = (Seeds.thought t.agent t.vrfNonceIdx).address t.bump
  agent : ctx.agent.key = (Seeds.agent a.operator).address a.bump
  agentOf : ctx.agent.key = t.agent
  pending : t.status = ThoughtStatus.pending.toU8
  deadline : t.challengeDeadlineSlot ≤ s.slot

/-- The state after `resolve_unchallenged`. -/
def ResolveUnchallenged.after (s : State) (ctx : ResolveUnchallenged) (t : ThoughtRecord) (a : AgentProfile) : State :=
  { s with
    thoughts := Function.update s.thoughts ctx.thought.key (some { t with status := ThoughtStatus.finalized.toU8 })
    agents := Function.update s.agents ctx.agent.key
      (some { a with
        activeThoughts := saturatingSub32 a.activeThoughts 1
        reputation := saturatingAddI64 a.reputation 1 }) }

theorem resolveUnchallenged_eq_ok {ctx : ResolveUnchallenged} :
    resolveUnchallenged s ctx = .ok (s', evs) ↔ ∃ t a, ctx.Accepted s t a ∧
      evs = [.thoughtFinalized ctx.thought.key ctx.agent.key ThoughtStatus.finalized.toU8 s.slot] ∧
      s' = ctx.after s t a := by
  simp only [resolveUnchallenged, ResolveUnchallenged.tryAccounts, resolveUnchallengedHandler, seq_ok_iff,
    signer_eq_ok, account_eq_ok, mutable_eq_ok, seeds_eq_ok, pure_ok_iff, require_eq_ok, okOr_eq_ok, fromU8_eq_some,
    exists_const, Prod.mk.injEq, Prod.exists]
  constructor
  · intro h
    rcases h with ⟨_, _, ⟨hs, t, ht, a, ha, hwc, hwt, hts, hwa, has, hao, rfl, rfl⟩, _, hst, rfl, hd, rfl, rfl⟩
    exact ⟨t, a, ⟨hs, ht, ha, ⟨hwc, hwt, hwa⟩, hts, has, hao, hst, hd⟩, rfl, rfl⟩
  · intro hx
    rcases hx with ⟨t, a, ⟨hs, ht, ha, ⟨hwc, hwt, hwa⟩, hts, has, hao, hst, hd⟩, rfl, rfl⟩
    exact ⟨_, _, ⟨hs, t, ht, a, ha, hwc, hwt, hts, hwa, has, hao, rfl, rfl⟩, _, hst, rfl, hd, rfl, rfl⟩

/-! ## `resolve_challenged` -/

structure ResolveChallenged where
  resolver : AccountInfo
  thought : AccountInfo
  agent : AccountInfo
  policy : AccountInfo
  challenge : AccountInfo
  stakeVault : AccountInfo
  bondVault : AccountInfo
  challenger : AccountInfo
  treasury : AccountInfo
  agentOperator : AccountInfo
  systemProgram : AccountInfo

/-- The accounts `resolve_challenged` works on. -/
structure ResolveChallenged.Loaded where
  thought : ThoughtRecord
  agent : AgentProfile
  policy : Policy
  challenge : Challenge

def ResolveChallenged.tryAccounts (rt : Runtime) (s : State) (ctx : ResolveChallenged) :
    Except Error ResolveChallenged.Loaded := do
  signer ctx.resolver
  let thought ← account s.thoughts ctx.thought
  let agent ← account s.agents ctx.agent
  let policy ← account s.policies ctx.policy
  let challenge ← account s.challenges ctx.challenge
  Program.systemProgram ctx.systemProgram
  mutable ctx.resolver
  mutable ctx.thought
  seeds (.thought thought.agent thought.vrfNonceIdx) thought.bump ctx.thought
  mutable ctx.agent
  seeds (.agent agent.operator) agent.bump ctx.agent
  require (ctx.agent.key = thought.agent) (.pot .wrongAgent)
  seeds (.policy thought.policyId) policy.bump ctx.policy
  require (policy.resolver = ctx.resolver.key) (.pot .unauthorized)
  mutable ctx.challenge
  seeds (.challenge ctx.thought.key challenge.challenger) challenge.bump ctx.challenge
  require (challenge.thought = ctx.thought.key) (.pot .invalidStatus)
  mutable ctx.stakeVault
  canonicalSeeds rt (.vault ctx.agent.key) ctx.stakeVault
  mutable ctx.bondVault
  canonicalSeeds rt (.bond ctx.challenge.key) ctx.bondVault
  mutable ctx.challenger
  mutable ctx.treasury
  require (ctx.treasury.key = policy.treasury) (.pot .unauthorized)
  mutable ctx.agentOperator
  require (ctx.agentOperator.key = agent.operator) (.pot .wrongAgent)
  return { thought, agent, policy, challenge }

/-- `transfer_signed`: a System transfer out of a vault, skipped for the amount zero. -/
def transferSigned (s : State) (src dst : Pubkey) (amount : UInt64) : Except Error State :=
  if amount = 0 then .ok s else s.transfer src dst amount.toNat

theorem transferSigned_eq_ok {src dst : Pubkey} {amount : UInt64} :
    transferSigned s src dst amount = .ok s' ↔
      amount.toNat ≤ s.lamports src ∧ s' = s.setLamports (s.lamports.move src dst amount.toNat) := by
  unfold transferSigned
  split
  · rename_i h
    subst h
    have hm : s.setLamports (s.lamports.move src dst (0 : UInt64).toNat) = s := by
      rw [UInt64.toNat_zero, move_zero]; rfl
    rw [hm]
    simp [eq_comm]
  · exact transfer_eq_ok

/-- What a branch of the verdict leaves: the state after the transfers, the agent, the status and the slashed
amount. -/
structure VerdictOutcome where
  state : State
  agent : AgentProfile
  status : ThoughtStatus
  slashedAmount : UInt64

/-- The guilty branch: 60% of the stake and the bond to the challenger, 10% to the treasury, 30% stays in the vault. -/
def resolveGuilty (s : State) (acc : ResolveChallenged.Loaded) (ctx : ResolveChallenged) :
    Except Error VerdictOutcome := do
  let stake := acc.agent.stakeAmount
  let toChallenger := mulDiv stake 60 100
  let toTreasuryA := mulDiv stake 10 100
  let rest ← okOr (checkedSub stake toChallenger) (.pot .overflow)
  let _toBurn ← okOr (checkedSub rest toTreasuryA) (.pot .overflow)
  let s ← transferSigned s ctx.stakeVault.key ctx.challenger.key toChallenger
  let s ← transferSigned s ctx.stakeVault.key ctx.treasury.key toTreasuryA
  let s ← transferSigned s ctx.bondVault.key ctx.challenger.key acc.challenge.bond
  return {
    state := s
    agent := { acc.agent with
      stakeAmount := 0
      reputation := saturatingAddI64 acc.agent.reputation (-10) }
    status := .slashed
    slashedAmount := stake }

/-- The innocent branch: 90% of the bond to the agent's operator, 10% to the treasury. -/
def resolveInnocent (s : State) (acc : ResolveChallenged.Loaded) (ctx : ResolveChallenged) :
    Except Error VerdictOutcome := do
  let bond := acc.challenge.bond
  let toAgent := mulDiv bond 90 100
  let toTreasuryB ← okOr (checkedSub bond toAgent) (.pot .overflow)
  let s ← transferSigned s ctx.bondVault.key ctx.agentOperator.key toAgent
  let s ← transferSigned s ctx.bondVault.key ctx.treasury.key toTreasuryB
  return {
    state := s
    agent := { acc.agent with reputation := saturatingAddI64 acc.agent.reputation 2 }
    status := .finalized
    slashedAmount := 0 }

/-- The branch the verdict selects. -/
def resolveVerdict (s : State) (acc : ResolveChallenged.Loaded) (ctx : ResolveChallenged) (verdict : Bool) :
    Except Error VerdictOutcome :=
  if verdict then resolveGuilty s acc ctx else resolveInnocent s acc ctx

def resolveChallengedHandler (s : State) (acc : ResolveChallenged.Loaded) (ctx : ResolveChallenged) (verdict : Bool) :
    Except Error (State × List Event) := do
  let status ← okOr (ThoughtStatus.fromU8 acc.thought.status) (.pot .invalidStatus)
  require (status = .challenged) (.pot .invalidStatus)
  require (acc.challenge.resolved = false) (.pot .invalidStatus)
  require (acc.challenge.challenger = ctx.challenger.key) (.pot .wrongAgent)
  -- the challenger must be neither vault
  require (ctx.challenger.key ≠ ctx.stakeVault.key ∧ ctx.challenger.key ≠ ctx.bondVault.key) (.pot .unauthorized)
  let o ← resolveVerdict s acc ctx verdict
  let s := o.state.setThought ctx.thought.key { acc.thought with status := o.status.toU8 }
  let s := s.setChallenge ctx.challenge.key { acc.challenge with resolved := true, verdict }
  let s := s.setAgent ctx.agent.key
    { o.agent with activeThoughts := saturatingSub32 o.agent.activeThoughts 1 }
  return (s, [.challengeResolved ctx.challenge.key ctx.thought.key verdict o.slashedAmount])

def resolveChallenged (rt : Runtime) (s : State) (ctx : ResolveChallenged) (verdict : Bool) :
    Except Error (State × List Event) := do
  let acc ← ctx.tryAccounts rt s
  resolveChallengedHandler s acc ctx verdict

/-! ### The split of a stake and of a bond -/

/-- The 60% of a slashed stake that the challenger receives. -/
def toChallenger (stake : Nat) : Nat := stake * 60 / 100

/-- The 10% of a slashed stake that the treasury receives. -/
def toTreasury (stake : Nat) : Nat := stake * 10 / 100

/-- The rest of a slashed stake, which stays in the vault. -/
def burn (stake : Nat) : Nat := stake - toChallenger stake - toTreasury stake

/-- The 90% of a forfeited bond that the operator receives; the treasury receives the rest. -/
def toOperator (bond : Nat) : Nat := bond * 90 / 100

theorem shares_le (stake : Nat) : toChallenger stake + toTreasury stake ≤ stake := by
  unfold toChallenger toTreasury; omega

theorem shares_add_burn (stake : Nat) : toChallenger stake + toTreasury stake + burn stake = stake := by
  have := shares_le stake
  unfold burn; omega

theorem toOperator_le (bond : Nat) : toOperator bond ≤ bond := by unfold toOperator; omega

@[simp] theorem toNat_challengerShare (stake : UInt64) : (mulDiv stake 60 100).toNat = toChallenger stake.toNat :=
  toNat_mulDiv stake (by decide)

@[simp] theorem toNat_treasuryShare (stake : UInt64) : (mulDiv stake 10 100).toNat = toTreasury stake.toNat :=
  toNat_mulDiv stake (by decide)

@[simp] theorem toNat_operatorShare (bond : UInt64) : (mulDiv bond 90 100).toNat = toOperator bond.toNat :=
  toNat_mulDiv bond (by decide)

/-! ### What a verdict pays -/

namespace ResolveChallenged

variable (ctx : ResolveChallenged) (L : Ledger Pubkey) (n b : Nat)

/-- The ledger after the two transfers out of the stake vault. -/
def slashed : Ledger Pubkey :=
  (L.move ctx.stakeVault.key ctx.challenger.key (toChallenger n)).move ctx.stakeVault.key ctx.treasury.key
    (toTreasury n)

/-- The ledger after a guilty verdict over the stake `n` and the bond `b`. -/
def paidGuilty : Ledger Pubkey := (ctx.slashed L n).move ctx.bondVault.key ctx.challenger.key b

/-- Each transfer of a guilty verdict finds its amount. -/
def CanPayGuilty : Prop :=
  toChallenger n ≤ L ctx.stakeVault.key ∧
    toTreasury n ≤ L.move ctx.stakeVault.key ctx.challenger.key (toChallenger n) ctx.stakeVault.key ∧
    b ≤ ctx.slashed L n ctx.bondVault.key

/-- The ledger after the operator has received its part of the bond `b`. -/
def compensated : Ledger Pubkey := L.move ctx.bondVault.key ctx.agentOperator.key (toOperator b)

/-- The ledger after an innocent verdict over the bond `b`. -/
def paidInnocent : Ledger Pubkey :=
  (ctx.compensated L b).move ctx.bondVault.key ctx.treasury.key (b - toOperator b)

/-- Each transfer of an innocent verdict finds its amount. -/
def CanPayInnocent : Prop :=
  toOperator b ≤ L ctx.bondVault.key ∧ b - toOperator b ≤ ctx.compensated L b ctx.bondVault.key

end ResolveChallenged

theorem resolveGuilty_eq_ok {acc : ResolveChallenged.Loaded} {ctx : ResolveChallenged} {o : VerdictOutcome} :
    resolveGuilty s acc ctx = .ok o ↔
      ctx.CanPayGuilty s.lamports acc.agent.stakeAmount.toNat acc.challenge.bond.toNat ∧
      o = { state := s.setLamports (ctx.paidGuilty s.lamports acc.agent.stakeAmount.toNat acc.challenge.bond.toNat)
            agent := { acc.agent with
              stakeAmount := 0
              reputation := saturatingAddI64 acc.agent.reputation (-10) }
            status := .slashed
            slashedAmount := acc.agent.stakeAmount } := by
  have hle := shares_le acc.agent.stakeAmount.toNat
  simp only [resolveGuilty, seq_ok_iff, okOr_eq_ok, checkedSub_eq_some, transferSigned_eq_ok, pure_ok_iff,
    toNat_challengerShare, toNat_treasuryShare, ResolveChallenged.CanPayGuilty, ResolveChallenged.paidGuilty,
    ResolveChallenged.slashed, eq_comm (a := o)]
  constructor
  · intro h
    rcases h with ⟨_, _, _, _, _, ⟨h1, rfl⟩, _, ⟨h2, rfl⟩, _, ⟨h3, rfl⟩, rfl⟩
    exact ⟨⟨h1, h2, h3⟩, rfl⟩
  · intro hx
    rcases hx with ⟨⟨h1, h2, h3⟩, rfl⟩
    obtain ⟨r, hr⟩ := exists_toNat_sub (a := acc.agent.stakeAmount) (n := toChallenger acc.agent.stakeAmount.toNat)
      (by omega)
    obtain ⟨r', hr'⟩ := exists_toNat_sub (a := r) (n := toTreasury acc.agent.stakeAmount.toNat) (by omega)
    exact ⟨r, hr, r', hr', _, ⟨h1, rfl⟩, _, ⟨h2, rfl⟩, _, ⟨h3, rfl⟩, rfl⟩

theorem resolveInnocent_eq_ok {acc : ResolveChallenged.Loaded} {ctx : ResolveChallenged} {o : VerdictOutcome} :
    resolveInnocent s acc ctx = .ok o ↔
      ctx.CanPayInnocent s.lamports acc.challenge.bond.toNat ∧
      o = { state := s.setLamports (ctx.paidInnocent s.lamports acc.challenge.bond.toNat)
            agent := { acc.agent with reputation := saturatingAddI64 acc.agent.reputation 2 }
            status := .finalized
            slashedAmount := 0 } := by
  have hle := toOperator_le acc.challenge.bond.toNat
  have hr : ∀ {r : UInt64}, acc.challenge.bond.toNat = r.toNat + toOperator acc.challenge.bond.toNat →
      r.toNat = acc.challenge.bond.toNat - toOperator acc.challenge.bond.toNat := by omega
  simp only [resolveInnocent, seq_ok_iff, okOr_eq_ok, checkedSub_eq_some, transferSigned_eq_ok, pure_ok_iff,
    toNat_operatorShare, ResolveChallenged.CanPayInnocent, ResolveChallenged.paidInnocent,
    ResolveChallenged.compensated, eq_comm (a := o)]
  constructor
  · intro hx
    rcases hx with ⟨r, h, _, ⟨h1, rfl⟩, _, ⟨h2, rfl⟩, rfl⟩
    rw [hr h] at h2 ⊢
    exact ⟨⟨h1, h2⟩, rfl⟩
  · intro he
    rcases he with ⟨⟨h1, h2⟩, rfl⟩
    obtain ⟨r, h⟩ := exists_toNat_sub hle
    rw [← hr h] at h2 ⊢
    exact ⟨r, h, _, ⟨h1, rfl⟩, _, ⟨h2, rfl⟩, rfl⟩

/-- Accounts that pass `try_accounts`: the record `t` of the agent `a` under the policy `p`, disputed by `c`. -/
structure ResolveChallenged.Valid (rt : Runtime) (s : State) (ctx : ResolveChallenged) (t : ThoughtRecord)
    (a : AgentProfile) (p : Policy) (c : Challenge) : Prop where
  signed : ctx.resolver.isSigner = true
  record : s.thoughts ctx.thought.key = some t
  profile : s.agents ctx.agent.key = some a
  policyAccount : s.policies ctx.policy.key = some p
  dispute : s.challenges ctx.challenge.key = some c
  system : ctx.systemProgram.key = systemProgramId
  writable : ctx.resolver.isWritable = true ∧ ctx.thought.isWritable = true ∧ ctx.agent.isWritable = true ∧
    ctx.challenge.isWritable = true ∧ ctx.stakeVault.isWritable = true ∧ ctx.bondVault.isWritable = true ∧
    ctx.challenger.isWritable = true ∧ ctx.treasury.isWritable = true ∧ ctx.agentOperator.isWritable = true
  thought : ctx.thought.key = (Seeds.thought t.agent t.vrfNonceIdx).address t.bump
  agent : ctx.agent.key = (Seeds.agent a.operator).address a.bump
  agentOf : ctx.agent.key = t.agent
  policy : ctx.policy.key = (Seeds.policy t.policyId).address p.bump
  resolver : p.resolver = ctx.resolver.key
  challenge : ctx.challenge.key = (Seeds.challenge ctx.thought.key c.challenger).address c.bump
  challengeOf : c.thought = ctx.thought.key
  stakeVault : ctx.stakeVault.key = rt.pda (.vault ctx.agent.key)
  bondVault : ctx.bondVault.key = rt.pda (.bond ctx.challenge.key)
  treasury : ctx.treasury.key = p.treasury
  operator : ctx.agentOperator.key = a.operator

/-- The accounts of a verdict that passes every check: what is left is to pay. -/
structure ResolveChallenged.Accepted (rt : Runtime) (s : State) (ctx : ResolveChallenged) (t : ThoughtRecord)
    (a : AgentProfile) (p : Policy) (c : Challenge) : Prop extends ctx.Valid rt s t a p c where
  challenged : t.status = ThoughtStatus.challenged.toU8
  unresolved : c.resolved = false
  challenger : c.challenger = ctx.challenger.key
  distinct : ctx.challenger.key ≠ ctx.stakeVault.key ∧ ctx.challenger.key ≠ ctx.bondVault.key

theorem resolveAccounts_eq_ok {ctx : ResolveChallenged} {acc : ResolveChallenged.Loaded} :
    ctx.tryAccounts rt s = .ok acc ↔ ctx.Valid rt s acc.thought acc.agent acc.policy acc.challenge := by
  obtain ⟨t, a, p, c⟩ := acc
  simp only [ResolveChallenged.tryAccounts, seq_ok_iff, signer_eq_ok, account_eq_ok, systemProgram_eq_ok,
    mutable_eq_ok, seeds_eq_ok, canonicalSeeds_eq_ok, pure_ok_iff, require_eq_ok, exists_const,
    ResolveChallenged.Loaded.mk.injEq]
  constructor
  · intro h
    rcases h with ⟨hs, _, ht, _, ha, _, hp, _, hc, hy, hwr, hwt, hts, hwa, has, hao, hps, hpr, hwc, hcs, hct, hwsv, hsv,
      hwbv, hbv, hwch, hwtr, htr, hwop, hop, rfl, rfl, rfl, rfl⟩
    exact ⟨hs, ht, ha, hp, hc, hy, ⟨hwr, hwt, hwa, hwc, hwsv, hwbv, hwch, hwtr, hwop⟩, hts, has, hao, hps, hpr, hcs,
      hct, hsv, hbv, htr, hop⟩
  · rintro ⟨hs, ht, ha, hp, hc, hy, ⟨hwr, hwt, hwa, hwc, hwsv, hwbv, hwch, hwtr, hwop⟩, hts, has, hao, hps, hpr, hcs,
      hct, hsv, hbv, htr, hop⟩
    exact ⟨hs, _, ht, _, ha, _, hp, _, hc, hy, hwr, hwt, hts, hwa, has, hao, hps, hpr, hwc, hcs, hct, hwsv, hsv,
      hwbv, hbv, hwch, hwtr, htr, hwop, hop, rfl, rfl, rfl, rfl⟩

/-- A verdict succeeds when its accounts are accepted and its branch does. -/
theorem resolveChallenged_eq_ok {ctx : ResolveChallenged} {verdict : Bool} :
    resolveChallenged rt s ctx verdict = .ok (s', evs) ↔ ∃ t a p c, ctx.Accepted rt s t a p c ∧
      ∃ o, resolveVerdict s ⟨t, a, p, c⟩ ctx verdict = .ok o ∧
        evs = [.challengeResolved ctx.challenge.key ctx.thought.key verdict o.slashedAmount] ∧
        s' = ((o.state.setThought ctx.thought.key { t with status := o.status.toU8 }).setChallenge
          ctx.challenge.key { c with resolved := true, verdict }).setAgent ctx.agent.key
            { o.agent with activeThoughts := saturatingSub32 o.agent.activeThoughts 1 } := by
  simp only [resolveChallenged, resolveChallengedHandler, seq_ok_iff, resolveAccounts_eq_ok, pure_ok_iff,
    require_eq_ok, okOr_eq_ok, fromU8_eq_some, exists_const, Prod.mk.injEq]
  constructor
  · intro h
    rcases h with ⟨⟨t, a, p, c⟩, hv, _, hst, rfl, hun, hch, hne, o, ho, rfl, rfl⟩
    exact ⟨t, a, p, c, ⟨hv, hst, hun, hch, hne⟩, o, ho, rfl, rfl⟩
  · intro hx
    rcases hx with ⟨t, a, p, c, ⟨hv, hst, hun, hch, hne⟩, o, ho, rfl, rfl⟩
    exact ⟨⟨t, a, p, c⟩, hv, _, hst, rfl, hun, hch, hne, o, ho, rfl, rfl⟩

/-- The state after a guilty verdict. -/
def ResolveChallenged.afterGuilty (s : State) (ctx : ResolveChallenged) (t : ThoughtRecord) (a : AgentProfile)
    (c : Challenge) : State :=
  { s with
    thoughts := Function.update s.thoughts ctx.thought.key (some { t with status := ThoughtStatus.slashed.toU8 })
    challenges := Function.update s.challenges ctx.challenge.key (some { c with resolved := true, verdict := true })
    agents := Function.update s.agents ctx.agent.key
      (some { a with
        stakeAmount := 0
        reputation := saturatingAddI64 a.reputation (-10)
        activeThoughts := saturatingSub32 a.activeThoughts 1 })
    lamports := ctx.paidGuilty s.lamports a.stakeAmount.toNat c.bond.toNat }

/-- The state after an innocent verdict. -/
def ResolveChallenged.afterInnocent (s : State) (ctx : ResolveChallenged) (t : ThoughtRecord) (a : AgentProfile)
    (c : Challenge) : State :=
  { s with
    thoughts := Function.update s.thoughts ctx.thought.key (some { t with status := ThoughtStatus.finalized.toU8 })
    challenges := Function.update s.challenges ctx.challenge.key (some { c with resolved := true, verdict := false })
    agents := Function.update s.agents ctx.agent.key
      (some { a with
        reputation := saturatingAddI64 a.reputation 2
        activeThoughts := saturatingSub32 a.activeThoughts 1 })
    lamports := ctx.paidInnocent s.lamports c.bond.toNat }

theorem resolveChallenged_guilty_eq_ok {ctx : ResolveChallenged} :
    resolveChallenged rt s ctx true = .ok (s', evs) ↔ ∃ t a p c, ctx.Accepted rt s t a p c ∧
      ctx.CanPayGuilty s.lamports a.stakeAmount.toNat c.bond.toNat ∧
      evs = [.challengeResolved ctx.challenge.key ctx.thought.key true a.stakeAmount] ∧
      s' = ctx.afterGuilty s t a c := by
  simp only [resolveChallenged_eq_ok, resolveVerdict, if_true, resolveGuilty_eq_ok]
  constructor
  · intro h
    rcases h with ⟨t, a, p, c, hacc, _, ⟨hpay, rfl⟩, rfl, rfl⟩
    exact ⟨t, a, p, c, hacc, hpay, rfl, rfl⟩
  · intro hx
    rcases hx with ⟨t, a, p, c, hacc, hpay, rfl, rfl⟩
    exact ⟨t, a, p, c, hacc, _, ⟨hpay, rfl⟩, rfl, rfl⟩

theorem resolveChallenged_innocent_eq_ok {ctx : ResolveChallenged} :
    resolveChallenged rt s ctx false = .ok (s', evs) ↔ ∃ t a p c, ctx.Accepted rt s t a p c ∧
      ctx.CanPayInnocent s.lamports c.bond.toNat ∧
      evs = [.challengeResolved ctx.challenge.key ctx.thought.key false 0] ∧
      s' = ctx.afterInnocent s t a c := by
  simp only [resolveChallenged_eq_ok, resolveVerdict, Bool.false_eq_true, if_false, resolveInnocent_eq_ok]
  constructor
  · intro h
    rcases h with ⟨t, a, p, c, hacc, _, ⟨hpay, rfl⟩, rfl, rfl⟩
    exact ⟨t, a, p, c, hacc, hpay, rfl, rfl⟩
  · intro hx
    rcases hx with ⟨t, a, p, c, hacc, hpay, rfl, rfl⟩
    exact ⟨t, a, p, c, hacc, _, ⟨hpay, rfl⟩, rfl, rfl⟩

/-! ### Where a verdict fails -/

/-- Account validation never fails inside the System Program. -/
theorem resolveAccounts_ne_system {ctx : ResolveChallenged} {e : SystemError} :
    ctx.tryAccounts rt s ≠ .error (.system e) := by
  simp only [ResolveChallenged.tryAccounts, signer, account, systemProgram, mutable, seeds, canonicalSeeds, ne_eq,
    seq_error_iff, require_eq_error, okOr_eq_error, pure_error_iff, reduceCtorEq, and_false, exists_false, or_self,
    not_false_eq_true]

/-- A verdict that fails inside the System Program had passed every check. -/
theorem accepted_of_system_error {ctx : ResolveChallenged} {verdict : Bool} {e : SystemError}
    (h : resolveChallenged rt s ctx verdict = .error (.system e)) : ∃ t a p c, ctx.Accepted rt s t a p c := by
  simp only [resolveChallenged, resolveChallengedHandler, seq_error_iff, resolveAccounts_ne_system,
    resolveAccounts_eq_ok, require_eq_ok, require_eq_error, okOr_eq_ok, okOr_eq_error, fromU8_eq_some, pure_error_iff,
    reduceCtorEq, and_false, exists_const, false_or] at h
  obtain ⟨⟨t, a, p, c⟩, hv, _, hst, rfl, hun, hch, hne, -⟩ := h
  exact ⟨t, a, p, c, hv, hst, hun, hch, hne⟩

end ProofOfThought.Program
