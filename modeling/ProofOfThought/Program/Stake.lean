import ProofOfThought.Program.Anchor

/-!
# Stake

`stake` adds lamports to an agent's vault; `withdraw_stake` takes them out again, signing for the vault, when no thought
of the agent is active and its cooldown has passed.
-/

namespace ProofOfThought.Program

open Base

variable {rt : Runtime} {s s' : State} {evs : List Event}

/-- The accounts of `stake` and of `withdraw_stake`, which are the same. -/
structure StakeAccounts where
  operator : AccountInfo
  agent : AccountInfo
  stakeVault : AccountInfo
  systemProgram : AccountInfo

def StakeAccounts.tryAccounts (rt : Runtime) (s : State) (ctx : StakeAccounts) : Except Error AgentProfile := do
  signer ctx.operator
  let agent ← account s.agents ctx.agent
  Program.systemProgram ctx.systemProgram
  mutable ctx.operator
  mutable ctx.agent
  seeds (.agent ctx.operator.key) agent.bump ctx.agent
  require (agent.operator = ctx.operator.key) (.pot .wrongAgent)
  mutable ctx.stakeVault
  canonicalSeeds rt (.vault ctx.agent.key) ctx.stakeVault
  return agent

/-- Accounts both instructions accept, for the agent `a`. -/
structure StakeAccounts.Valid (rt : Runtime) (s : State) (ctx : StakeAccounts) (a : AgentProfile) : Prop where
  signed : ctx.operator.isSigner = true
  profile : s.agents ctx.agent.key = some a
  system : ctx.systemProgram.key = systemProgramId
  writable : ctx.operator.isWritable = true ∧ ctx.agent.isWritable = true ∧ ctx.stakeVault.isWritable = true
  agent : ctx.agent.key = (Seeds.agent ctx.operator.key).address a.bump
  operator : a.operator = ctx.operator.key
  vault : ctx.stakeVault.key = rt.pda (.vault ctx.agent.key)

theorem stakeAccounts_eq_ok {ctx : StakeAccounts} {a : AgentProfile} :
    ctx.tryAccounts rt s = .ok a ↔ ctx.Valid rt s a := by
  simp only [StakeAccounts.tryAccounts, seq_ok_iff, signer_eq_ok, account_eq_ok, systemProgram_eq_ok, mutable_eq_ok,
    seeds_eq_ok, require_eq_ok, canonicalSeeds_eq_ok, pure_ok_iff, exists_const]
  constructor
  · intro h
    rcases h with ⟨hs, _, ha, hy, hwo, hwa, hk, ho, hwv, hv, rfl⟩
    exact ⟨hs, ha, hy, ⟨hwo, hwa, hwv⟩, hk, ho, hv⟩
  · intro hx
    rcases hx with ⟨hs, ha, hy, ⟨hwo, hwa, hwv⟩, hk, ho, hv⟩
    exact ⟨hs, _, ha, hy, hwo, hwa, hk, ho, hwv, hv, rfl⟩

/-! ## `stake` -/

abbrev Stake := StakeAccounts

def stakeHandler (s : State) (agent : AgentProfile) (ctx : Stake) (amount : UInt64) :
    Except Error (State × List Event) := do
  require (0 < amount) (.pot .insufficientStake)
  let s ← s.transfer ctx.operator.key ctx.stakeVault.key amount.toNat
  let stakeAmount ← okOr (checkedAdd agent.stakeAmount amount) (.pot .overflow)
  return (s.setAgent ctx.agent.key { agent with stakeAmount }, [])

def stake (rt : Runtime) (s : State) (ctx : Stake) (amount : UInt64) : Except Error (State × List Event) := do
  let agent ← ctx.tryAccounts rt s
  stakeHandler s agent ctx amount

/-- A successful `stake` of the agent `a`, whose new stake is `n`. -/
structure Stake.Accepted (rt : Runtime) (s : State) (ctx : Stake) (amount : UInt64) (a : AgentProfile)
    (n : UInt64) : Prop extends ctx.Valid rt s a where
  positive : 0 < amount
  funds : amount.toNat ≤ s.lamports ctx.operator.key
  sum : a.stakeAmount.toNat + amount.toNat = n.toNat

/-- The state after `stake`. -/
def Stake.after (s : State) (ctx : Stake) (amount : UInt64) (a : AgentProfile) (n : UInt64) : State :=
  { s with
    agents := Function.update s.agents ctx.agent.key (some { a with stakeAmount := n })
    lamports := s.lamports.move ctx.operator.key ctx.stakeVault.key amount.toNat }

theorem stake_eq_ok {ctx : Stake} {amount : UInt64} :
    stake rt s ctx amount = .ok (s', evs) ↔
      ∃ a n, Stake.Accepted rt s ctx amount a n ∧ evs = [] ∧ s' = Stake.after s ctx amount a n := by
  simp only [stake, stakeHandler, seq_ok_iff, stakeAccounts_eq_ok, require_eq_ok, transfer_eq_ok, okOr_eq_ok,
    checkedAdd_eq_some, pure_ok_iff, exists_const, Prod.mk.injEq]
  constructor
  · intro h
    rcases h with ⟨a, hv, hp, _, ⟨hf, rfl⟩, n, hn, rfl, rfl⟩
    exact ⟨a, n, ⟨hv, hp, hf, hn⟩, rfl, rfl⟩
  · intro hx
    rcases hx with ⟨a, n, ⟨hv, hp, hf, hn⟩, rfl, rfl⟩
    exact ⟨a, hv, hp, _, ⟨hf, rfl⟩, n, hn, rfl, rfl⟩

/-! ## `withdraw_stake` -/

abbrev WithdrawStake := StakeAccounts

def withdrawHandler (s : State) (agent : AgentProfile) (ctx : WithdrawStake) (amount : UInt64) :
    Except Error (State × List Event) := do
  require (agent.activeThoughts = 0) (.pot .activeThoughtsExist)
  require (agent.cooldownUntil ≤ s.slot) (.pot .cooldownActive)
  require (amount ≤ agent.stakeAmount) (.pot .insufficientStake)
  require (amount.toNat ≤ s.lamports ctx.stakeVault.key) (.pot .insufficientStake)
  let s ← s.transfer ctx.stakeVault.key ctx.operator.key amount.toNat
  let stakeAmount ← okOr (checkedSub agent.stakeAmount amount) (.pot .overflow)
  return (s.setAgent ctx.agent.key { agent with stakeAmount }, [])

def withdrawStake (rt : Runtime) (s : State) (ctx : WithdrawStake) (amount : UInt64) :
    Except Error (State × List Event) := do
  let agent ← ctx.tryAccounts rt s
  withdrawHandler s agent ctx amount

/-- A successful `withdraw_stake` of the agent `a`, whose new stake is `n`. -/
structure WithdrawStake.Accepted (rt : Runtime) (s : State) (ctx : WithdrawStake) (amount : UInt64) (a : AgentProfile)
    (n : UInt64) : Prop extends ctx.Valid rt s a where
  idle : a.activeThoughts = 0
  cooldown : a.cooldownUntil ≤ s.slot
  funds : amount.toNat ≤ s.lamports ctx.stakeVault.key
  difference : a.stakeAmount.toNat = n.toNat + amount.toNat

/-- The state after `withdraw_stake`. -/
def WithdrawStake.after (s : State) (ctx : WithdrawStake) (amount : UInt64) (a : AgentProfile) (n : UInt64) : State :=
  { s with
    agents := Function.update s.agents ctx.agent.key (some { a with stakeAmount := n })
    lamports := s.lamports.move ctx.stakeVault.key ctx.operator.key amount.toNat }

theorem withdrawStake_eq_ok {ctx : WithdrawStake} {amount : UInt64} :
    withdrawStake rt s ctx amount = .ok (s', evs) ↔ ∃ a n, WithdrawStake.Accepted rt s ctx amount a n ∧ evs = [] ∧
      s' = WithdrawStake.after s ctx amount a n := by
  simp only [withdrawStake, withdrawHandler, seq_ok_iff, stakeAccounts_eq_ok, require_eq_ok, transfer_eq_ok,
    okOr_eq_ok, checkedSub_eq_some, pure_ok_iff, exists_const, Prod.mk.injEq]
  constructor
  · intro h
    rcases h with ⟨a, hv, hi, hc, _, hf, _, ⟨_, rfl⟩, n, hn, rfl, rfl⟩
    exact ⟨a, n, ⟨hv, hi, hc, hf, hn⟩, rfl, rfl⟩
  · intro hx
    rcases hx with ⟨a, n, ⟨hv, hi, hc, hf, hn⟩, rfl, rfl⟩
    have hle : amount ≤ a.stakeAmount := by rw [UInt64.le_iff_toNat_le]; omega
    exact ⟨a, hv, hi, hc, hle, hf, _, ⟨hf, rfl⟩, n, hn, rfl, rfl⟩

end ProofOfThought.Program
