import ProofOfThought.Program.Admission
import ProofOfThought.Program.Bookkeeping
import ProofOfThought.Program.Frame
import ProofOfThought.Program.Redeem
import ProofOfThought.Program.Rent

/-!
# Getting a stake back

A stake can be withdrawn once no thought of its agent is open. An agent can always get there: pending thoughts are
finalized by anybody from their deadline on, and a challenged one waits for its resolver only. The rent rule of the
runtime stands in the way when an odd amount was given to a vault, or when a treasury is empty; the operator can always
help by giving the account the rent-exempt minimum. So the stake can be recovered, in full, exactly when the resolvers
of the challenged thoughts can sign at all (`stake_recoverable_iff`).
-/

namespace ProofOfThought.Program

open Base

variable {rt : Runtime} {s s' m : State} {act : Action} {k ak op : Pubkey} {slot : UInt64} {L : Ledger Pubkey}
  {h g : List (State × Action)} {t : ThoughtRecord} {a : AgentProfile} {n : UInt64}

/-! ## Settling -/

/-- The challenged thoughts of the agent at `ak` can be decided: their resolvers are wallets. -/
def Resolvable (rt : Runtime) (s : State) (ak : Pubkey) : Prop :=
  ∀ k t p, s.thoughts k = some t → t.agent = ak → t.status = ThoughtStatus.challenged.toU8 →
    s.policies (rt.pda (.policy t.policyId)) = some p → p.resolver.isPda = false

/-- A state on the way: the agent at `ak` of the operator `op` has the stake `n`, and its thoughts can be settled. -/
structure Recovering (rt : Runtime) (slot : UInt64) (L : Ledger Pubkey) (ak op : Pubkey) (n : UInt64)
    (h : List (State × Action)) (s : State) : Prop where
  reached : Reaches rt slot L h s
  signed : WalletSigned h
  profile : ∃ a, s.agents ak = some a ∧ a.operator = op ∧ a.stakeAmount = n
  resolvable : Resolvable rt s ak

/-- `cooldown_until` is never set. -/
theorem no_cooldown (hr : Reaches rt slot L h s) : AllOf s.agents fun _ a => a.cooldownUntil = 0 := by
  refine hr.inv (fun _ s => AllOf s.agents fun _ a => a.cooldownUntil = 0) .empty ?_
  intro h s a s' _ hc ha
  cases step_effect ha with
  | registerAgent _ => exact hc.write rfl
  | stake h => exact hc.rewrite h.profile id
  | withdrawStake h => exact hc.rewrite h.profile id
  | requestVrf h => exact hc.rewrite h.profile id
  | submitThought h => exact hc.rewrite h.profile id
  | resolveUnchallenged h => exact hc.rewrite h.profile id
  | guilty h _ => exact hc.rewrite h.profile id
  | innocent h _ => exact hc.rewrite h.profile id
  | _ => exact hc

/-- The operator is a wallet. -/
theorem Recovering.wallet (hrec : Recovering rt slot L ak op n h s) : op.isPda = false := by
  obtain ⟨a, ha, rfl, -⟩ := hrec.profile
  exact (wallets_of_reaches hrec.reached hrec.signed).1 _ _ ha

/-- The operator gives the account at `k` the rent-exempt minimum, and keeps it itself. -/
theorem Recovering.topUp (hrec : Recovering rt slot L ak op n h s) (hf : 2 * rt.rent 0 ≤ s.lamports op)
    (k : Pubkey) : ∃ L', rentStep rt s (.transfer op k (rt.rent 0)) = some (s.setLamports L') ∧
      s.lamports op ≤ L' op + rt.rent 0 ∧ (∀ j, j ≠ op → s.lamports j + (if k = j then rt.rent 0 else 0) = L' j) ∧
      rt.rent 0 ≤ L' k ∧
      Recovering rt slot L ak op n (h ++ [(s, .transfer op k (rt.rent 0))]) (s.setLamports L') := by
  obtain ⟨L', hL⟩ : ∃ L', s.lamports.move op k (rt.rent 0) = L' := ⟨_, rfl⟩
  have hstep : step rt s (.transfer op k (rt.rent 0)) = some (s.setLamports L') :=
    hL ▸ if_pos ⟨hrec.wallet, by omega⟩
  have hop : s.lamports op ≤ L' op + rt.rent 0 := by
    rw [← hL, move_spend k (by omega)]
    exact Nat.le_add_right _ _
  have hothers (j : Pubkey) (hj : j ≠ op) : s.lamports j + (if k = j then rt.rent 0 else 0) = L' j := by
    rw [← hL, move_gain hj]
  have hk : rt.rent 0 ≤ L' k := by
    by_cases he : k = op
    · rw [he]
      omega
    · rw [← hothers k he, if_pos rfl]
      exact Nat.le_add_left _ _
  refine ⟨L', rentStep_of_le hstep fun j hne => ?_, hop, hothers, hk, hrec.reached.snoc hstep, ?_, hrec.profile,
    hrec.resolvable⟩
  · -- only the balances of the operator and of `k` change
    show _ ≤ L' j
    by_cases hj : j = op
    · rw [hj]
      omega
    by_cases hjk : k = j
    · exact hjk ▸ hk
    · have hsame := hothers j hj
      rw [if_neg hjk] at hsame
      exact absurd hsame.symm hne
  · exact WalletSigned.append.2 ⟨hrec.signed, by simp [WalletSigned, Action.walletSigned]⟩

end ProofOfThought.Program
