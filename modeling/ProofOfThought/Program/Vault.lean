import ProofOfThought.Program.Accounts

/-!
# Vaults

`stakeAmount` is a cache of what the stake vault holds, and the two part at every slash. The missing term is the sum of
the burned shares: a vault holds the stake, the burned shares and what it was given besides, exactly
(`vault_account`). Solvency (`vault_solvency`) follows, and that no transfer out of a vault fails.
-/

namespace ProofOfThought.Program

open Base

variable {rt : Runtime} {s s' : State} {act : Action} {ak ck : Pubkey}

/-! ## Stakes, burned shares and gifts -/

/-- The stake of the agent at `ak`. -/
def stakeOf (agents : Pubkey → Option AgentProfile) (ak : Pubkey) : Nat := readOr (·.stakeAmount.toNat) agents ak

/-- The bond of the challenge at `ck`. -/
def bondOf (challenges : Pubkey → Option Challenge) (ck : Pubkey) : Nat := readOr (·.bond.toNat) challenges ck

/-- What a step burns of the stake of `ak`: by a guilty verdict, the part of the stake that nobody is paid. -/
def burnedBy (ak : Pubkey) : State × Action → Nat
  | (s, .instruction (.resolveChallenged ctx true)) => if ctx.agent.key = ak then burn (stakeOf s.agents ak) else 0
  | _ => 0

/-- All that was burned of the stakes of `ak`. -/
def burned (ak : Pubkey) (h : List (State × Action)) : Nat := tally (burnedBy ak) h

/-- What a step gives to the account `v` besides stakes. -/
def gift (v : Pubkey) : State × Action → Nat
  | (s, .instruction (.resolveChallenged ctx true)) =>
    let stake := stakeOf s.agents ctx.agent.key
    (if ctx.challenger.key = v then toChallenger stake else 0) + (if ctx.treasury.key = v then toTreasury stake else 0)
      + (if ctx.challenger.key = v then bondOf s.challenges ctx.challenge.key else 0)
  | (s, .instruction (.resolveChallenged ctx false)) =>
    let bond := bondOf s.challenges ctx.challenge.key
    (if ctx.agentOperator.key = v then toOperator bond else 0) +
      (if ctx.treasury.key = v then bond - toOperator bond else 0)
  | (_, .transfer _ dst n) => if dst = v then n else 0
  | _ => 0

section

variable {agents : Pubkey → Option AgentProfile} {k : Pubkey} {a a' : AgentProfile}

theorem stakeOf_of_some (h : agents ak = some a) : stakeOf agents ak = a.stakeAmount.toNat := readOr_of_some h

theorem stakeOf_write (agents : Pubkey → Option AgentProfile) (k : Pubkey) (a : AgentProfile) :
    stakeOf (Function.update agents k (some a)) ak = if k = ak then a.stakeAmount.toNat else stakeOf agents ak :=
  readOr_write agents k a ak

/-- A write that keeps the stake. -/
theorem stakeOf_rewrite (h : agents k = some a) (hs : a'.stakeAmount = a.stakeAmount) :
    stakeOf (Function.update agents k (some a')) ak = stakeOf agents ak :=
  readOr_rewrite h (congrArg UInt64.toNat hs)

theorem bondOf_of_some {challenges : Pubkey → Option Challenge} {c : Challenge} (h : challenges ck = some c) :
    bondOf challenges ck = c.bond.toNat := readOr_of_some h

end

/-! ## One step -/

/-- Two vaults are one only when their agents are. -/
theorem vault_inj {k : Pubkey} : rt.pda (.vault k) = rt.pda (.vault ak) ↔ k = ak := by
  rw [Runtime.pda_inj, Seeds.vault.injEq]

theorem vault_ne_bond : rt.pda (.vault ak) ≠ rt.pda (.bond ck) := by simp

/-- The rent of a new account of another kind does not touch a vault. -/
theorem fund_vault {payer target : Pubkey} {x : Seeds Pubkey} {space : Nat} (hp : rt.pda (.vault ak) ≠ payer)
    (ht : target = rt.pda x) (hx : x ≠ .vault ak) :
    rt.fund s.lamports payer target space (rt.pda (.vault ak)) = s.lamports (rt.pda (.vault ak)) := by
  have hne : target ≠ rt.pda (.vault ak) := by rw [ht, Ne, Runtime.pda_inj]; exact hx
  rw [Runtime.fund, move_gain hp, if_neg hne, Nat.add_zero]

section Verdict

variable {ctx : ResolveChallenged} {t : ThoughtRecord} {a : AgentProfile} {p : Policy} {c : Challenge}

/-- What a guilty verdict leaves in the vault of the agent it is against. -/
theorem paidGuilty_own (h : ctx.Accepted rt s t a p c)
    (pays : ctx.CanPayGuilty s.lamports a.stakeAmount.toNat c.bond.toNat) :
    ctx.paidGuilty s.lamports a.stakeAmount.toNat c.bond.toNat ctx.stakeVault.key + a.stakeAmount.toNat =
      s.lamports ctx.stakeVault.key + burn a.stakeAmount.toNat +
        if ctx.treasury.key = ctx.stakeVault.key then toTreasury a.stakeAmount.toNat else 0 := by
  have hbond : ctx.stakeVault.key ≠ ctx.bondVault.key := by rw [h.stakeVault, h.bondVault]; exact vault_ne_bond
  have h1 := move_spend ctx.challenger.key pays.1
  have h2 := move_spend ctx.treasury.key pays.2.1
  have hsum := shares_add_burn a.stakeAmount.toNat
  rw [if_neg h.distinct.1] at h1
  rw [ResolveChallenged.paidGuilty, move_gain hbond, if_neg h.distinct.1, ResolveChallenged.slashed]
  omega

/-- What a guilty verdict adds to any other vault. -/
theorem paidGuilty_other (h : ctx.Accepted rt s t a p c) (hk : ctx.agent.key ≠ ak) :
    ctx.paidGuilty s.lamports a.stakeAmount.toNat c.bond.toNat (rt.pda (.vault ak)) =
      s.lamports (rt.pda (.vault ak)) + gift (rt.pda (.vault ak)) (s, .instruction (.resolveChallenged ctx true)) := by
  have hv : rt.pda (.vault ak) ≠ ctx.stakeVault.key := by rw [h.stakeVault, Ne, vault_inj]; exact Ne.symm hk
  have hb : rt.pda (.vault ak) ≠ ctx.bondVault.key := by rw [h.bondVault]; exact vault_ne_bond
  rw [ResolveChallenged.paidGuilty, ResolveChallenged.slashed, move_gain hb, move_gain hv, move_gain hv]
  simp only [gift, stakeOf_of_some h.profile, bondOf_of_some h.dispute]
  omega

/-- What an innocent verdict adds to a vault. -/
theorem paidInnocent_vault (h : ctx.Accepted rt s t a p c) (ak : Pubkey) :
    ctx.paidInnocent s.lamports c.bond.toNat (rt.pda (.vault ak)) =
      s.lamports (rt.pda (.vault ak)) + gift (rt.pda (.vault ak)) (s, .instruction (.resolveChallenged ctx false)) := by
  have hb : rt.pda (.vault ak) ≠ ctx.bondVault.key := by rw [h.bondVault]; exact vault_ne_bond
  rw [ResolveChallenged.paidInnocent, ResolveChallenged.compensated, move_gain hb, move_gain hb]
  simp only [gift, bondOf_of_some h.dispute]
  omega

end Verdict

/-- **One step of the accounts of a vault.** The lamports of the vault of `ak` change by what the stake changes, what
is burned of it, and what is given. -/
theorem Effect.vault (he : Effect rt s act s') (hw : act.walletSigned) (ak : Pubkey) :
    s.lamports (rt.pda (.vault ak)) + stakeOf s'.agents ak + burnedBy ak (s, act) + gift (rt.pda (.vault ak)) (s, act) =
      s'.lamports (rt.pda (.vault ak)) + stakeOf s.agents ak := by
  have hpayer : ∀ {i : Instruction}, act = .instruction i → rt.pda (.vault ak) ≠ i.authority.key := by
    rintro i rfl
    exact Ne.symm (rt.ne_pda hw _)
  cases he with
  | @registerAgent ctx stake h =>
    have hp : rt.pda (.vault ak) ≠ ctx.operator.key := hpayer rfl
    simp only [RegisterAgent.after, RegisterAgent.profile, stakeOf_write, burnedBy, gift, move_gain hp, h.vault,
      vault_inj, fund_vault hp h.agent (by simp)]
    by_cases hk : ctx.agent.key = ak
    · subst hk
      have h0 : stakeOf s.agents ctx.agent.key = 0 := readOr_of_none h.fresh
      simp only [h0, if_true]
    · simp only [hk, if_false]
      omega
  | @stake ctx amount a n h =>
    have hp : rt.pda (.vault ak) ≠ ctx.operator.key := hpayer rfl
    have hsum := h.sum
    simp only [Stake.after, stakeOf_write, burnedBy, gift, move_gain hp, h.vault, vault_inj]
    by_cases hk : ctx.agent.key = ak
    · subst hk
      rw [stakeOf_of_some h.profile, if_pos rfl, if_pos rfl]
      omega
    · simp only [hk, if_false]
      omega
  | @withdrawStake ctx amount a n h =>
    have hp : ctx.operator.key ≠ rt.pda (.vault ak) := Ne.symm (hpayer rfl)
    have hdiff := h.difference
    have hfunds := h.funds
    simp only [WithdrawStake.after, stakeOf_write, burnedBy, gift, h.vault] at hfunds ⊢
    by_cases hk : ctx.agent.key = ak
    · subst hk
      have hspend := move_spend ctx.operator.key hfunds
      rw [if_neg hp] at hspend
      rw [stakeOf_of_some h.profile, if_pos rfl]
      omega
    · rw [move_gain (by rw [Ne, vault_inj]; exact Ne.symm hk), if_neg hp, if_neg hk]
      omega
  | @registerModel ctx modelId modelClass verifierPubkey teeRootCa h =>
    have hp : rt.pda (.vault ak) ≠ ctx.governance.key := hpayer rfl
    simp only [RegisterModel.after, burnedBy, gift, fund_vault hp h.model (by simp)]
    omega
  | @registerPolicy ctx args h =>
    have hp : rt.pda (.vault ak) ≠ ctx.author.key := hpayer rfl
    simp only [RegisterPolicy.after, burnedBy, gift, fund_vault hp h.policy (by simp)]
    omega
  | @requestVrf ctx nonceIdx seed a n h =>
    have hp : rt.pda (.vault ak) ≠ ctx.operator.key := hpayer rfl
    simp only [RequestVrf.after, burnedBy, gift, fund_vault hp h.request (by simp), stakeOf_rewrite h.profile]
    omega
  | @submitThought ctx args traceUri a p v d n h =>
    have hp : rt.pda (.vault ak) ≠ ctx.operator.key := hpayer rfl
    simp only [SubmitThought.after, burnedBy, gift, fund_vault hp h.thought (by simp), stakeOf_rewrite h.profile]
    omega
  | @consumeThought ctx t p n h => rfl
  | @challenge ctx claim bond evidenceUriHash t p h =>
    have hp : rt.pda (.vault ak) ≠ ctx.challenger.key := hpayer rfl
    have hb : ctx.bondVault.key ≠ rt.pda (.vault ak) := by rw [h.vault]; exact Ne.symm vault_ne_bond
    simp only [OpenChallenge.after, burnedBy, gift, move_gain hp, if_neg hb, fund_vault hp h.challenge (by simp)]
    omega
  | @resolveUnchallenged ctx t a h =>
    simp only [ResolveUnchallenged.after, burnedBy, gift, stakeOf_rewrite h.profile]
    omega
  | @guilty ctx t a p c h pays =>
    by_cases hk : ctx.agent.key = ak
    · subst hk
      have hch : ctx.challenger.key ≠ rt.pda (.vault ctx.agent.key) := h.stakeVault ▸ h.distinct.1
      have hown := paidGuilty_own h pays
      simp only [ResolveChallenged.afterGuilty, stakeOf_write, burnedBy, gift, stakeOf_of_some h.profile, if_neg hch,
        h.stakeVault, if_true, UInt64.toNat_zero] at hown ⊢
      omega
    · simp only [ResolveChallenged.afterGuilty, stakeOf_write, burnedBy, if_neg hk, paidGuilty_other h hk]
      omega
  | @innocent ctx t a p c h _ =>
    simp only [ResolveChallenged.afterInnocent, burnedBy, paidInnocent_vault h ak, stakeOf_rewrite h.profile]
    omega
  | @transfer src dst n wallet funds =>
    simp only [State.setLamports, burnedBy, gift, move_gain (Ne.symm (rt.ne_pda wallet _))]
    omega
  | tick h => rfl

variable {slot : UInt64} {L : Ledger Pubkey} {h h' : List (State × Action)}

/-! ## Runs -/

/-- **The accounts of a vault.** It holds the stake, all that was burned, and what it was given besides. -/
theorem vault_account (hr : Reaches rt slot L h s) (hw : WalletSigned h) (ak : Pubkey) :
    stakeOf s.agents ak + burned ak h + (L (rt.pda (.vault ak)) + tally (gift (rt.pda (.vault ak))) h) =
      s.lamports (rt.pda (.vault ak)) := by
  refine hr.inv (fun h s => WalletSigned h → stakeOf s.agents ak + burned ak h +
    (L (rt.pda (.vault ak)) + tally (gift (rt.pda (.vault ak))) h) = s.lamports (rt.pda (.vault ak))) ?_ ?_ hw
  · intro _
    simp [State.genesis, stakeOf, readOr, burned]
  · intro h s a s' _ ih ha hw
    obtain ⟨hw, hwa⟩ := WalletSigned.append.1 hw
    have hstep := (step_effect ha).vault (hwa (s, a) (List.mem_singleton_self _)) ak
    have := ih hw
    simp only [burned, tally_append, tally_singleton] at this ⊢
    omega

/-- The operators and the challengers are wallets. -/
def Wallets (s : State) : Prop :=
  AllOf s.agents (fun _ a => a.operator.isPda = false) ∧ AllOf s.challenges (fun _ c => c.challenger.isPda = false)

theorem Wallets.step (hs : Wallets s) (he : Effect rt s act s') (hw : act.walletSigned) : Wallets s' := by
  obtain ⟨ha, hc⟩ := hs
  cases he with
  | registerAgent h => exact ⟨ha.write hw, hc⟩
  | stake h => exact ⟨ha.rewrite h.profile id, hc⟩
  | withdrawStake h => exact ⟨ha.rewrite h.profile id, hc⟩
  | requestVrf h => exact ⟨ha.rewrite h.profile id, hc⟩
  | submitThought h => exact ⟨ha.rewrite h.profile id, hc⟩
  | challenge h => exact ⟨ha, hc.write hw⟩
  | resolveUnchallenged h => exact ⟨ha.rewrite h.profile id, hc⟩
  | guilty h _ => exact ⟨ha.rewrite h.profile id, hc.rewrite h.dispute id⟩
  | innocent h _ => exact ⟨ha.rewrite h.profile id, hc.rewrite h.dispute id⟩
  | _ => exact ⟨ha, hc⟩

theorem wallets_of_reaches (hr : Reaches rt slot L h s) (hw : WalletSigned h) : Wallets s := by
  refine hr.inv (fun h s => WalletSigned h → Wallets s) (fun _ => ⟨.empty, .empty⟩) ?_ hw
  intro h s a s' _ ih ha hw
  obtain ⟨hw, hwa⟩ := WalletSigned.append.1 hw
  exact (ih hw).step (step_effect ha) (hwa (s, a) (List.mem_singleton_self _))

/-- Nobody sent lamports to `v` outside the program, and no policy pays its treasury there. -/
structure Undisturbed (v : Pubkey) (h : List (State × Action)) (s : State) : Prop where
  transfers : ∀ x ∈ h, ∀ src n, x.2 ≠ .transfer src v n
  treasuries : AllOf s.policies fun _ p => p.treasury ≠ v

/-- A step gives nothing to a vault that is no treasury, unless it is a transfer to it. -/
theorem gift_eq_zero (hs : Wallets s) (he : Effect rt s act s')
    (ht : ∀ src n, act ≠ .transfer src (rt.pda (.vault ak)) n)
    (hp : AllOf s.policies fun _ p => p.treasury ≠ rt.pda (.vault ak)) : gift (rt.pda (.vault ak)) (s, act) = 0 := by
  cases he with
  | @guilty ctx t a p c h _ =>
    have hch : ctx.challenger.key ≠ rt.pda (.vault ak) := h.challenger ▸ rt.ne_pda (hs.2 _ _ h.dispute) _
    have htr : ctx.treasury.key ≠ rt.pda (.vault ak) := h.treasury ▸ hp _ _ h.policyAccount
    simp only [gift, if_neg hch, if_neg htr]
  | @innocent ctx t a p c h _ =>
    have hop : ctx.agentOperator.key ≠ rt.pda (.vault ak) := h.operator ▸ rt.ne_pda (hs.1 _ _ h.profile) _
    have htr : ctx.treasury.key ≠ rt.pda (.vault ak) := h.treasury ▸ hp _ _ h.policyAccount
    simp only [gift, if_neg hop, if_neg htr]
  | @transfer src dst n _ _ =>
    have hd : dst ≠ rt.pda (.vault ak) := by rintro rfl; exact ht src n rfl
    simp only [gift, if_neg hd]
  | _ => rfl

theorem gifts_eq_zero (hr : Reaches rt slot L h s) (hw : WalletSigned h) (hu : Undisturbed (rt.pda (.vault ak)) h s) :
    tally (gift (rt.pda (.vault ak))) h = 0 := by
  refine hr.inv (fun h s => WalletSigned h → Undisturbed (rt.pda (.vault ak)) h s →
    tally (gift (rt.pda (.vault ak))) h = 0) (fun _ _ => tally_nil _) ?_ hw hu
  intro h s a s' hr ih ha hw hu
  have he := step_effect ha
  have hp : AllOf s.policies fun _ p => p.treasury ≠ rt.pda (.vault ak) := by
    -- a policy of an earlier state is still there
    intro pk p hpk
    obtain ⟨p', hpk', rfl⟩ := he.policies _ _ hpk
    exact hu.treasuries _ _ hpk'
  obtain ⟨hw, -⟩ := WalletSigned.append.1 hw
  obtain ⟨ht, hta⟩ := List.forall_mem_append.1 hu.transfers
  rw [tally_append, tally_singleton, ih hw ⟨ht, hp⟩,
    gift_eq_zero (wallets_of_reaches hr hw) he (hta (s, a) (List.mem_singleton_self _)) hp]

/-! ## Bond vaults -/

/-- Only the verdict on a challenge takes lamports out of its bond vault. -/
theorem Effect.bondVault (he : Effect rt s act s') (hw : act.walletSigned) (hck : act.resolves ck = false) :
    s.lamports (rt.pda (.bond ck)) ≤ s'.lamports (rt.pda (.bond ck)) := by
  have hpayer : ∀ {i : Instruction}, act = .instruction i → rt.pda (.bond ck) ≠ i.authority.key := by
    rintro i rfl
    exact Ne.symm (rt.ne_pda hw _)
  have hvault : ∀ {k v : Pubkey}, v = rt.pda (.vault k) → rt.pda (.bond ck) ≠ v := by
    rintro k v rfl
    exact Ne.symm vault_ne_bond
  have hbond : ∀ {k v : Pubkey}, v = rt.pda (.bond k) → decide (k = ck) = false → rt.pda (.bond ck) ≠ v := by
    rintro k v rfl hk
    rw [Ne, Runtime.pda_inj, Seeds.bond.injEq]
    exact Ne.symm (of_decide_eq_false hk)
  cases he with
  | registerAgent h => exact (le_move (hpayer rfl)).trans (le_move (hpayer rfl))
  | stake h => exact le_move (hpayer rfl)
  | withdrawStake h => exact le_move (hvault h.vault)
  | registerModel h => exact le_move (hpayer rfl)
  | registerPolicy h => exact le_move (hpayer rfl)
  | requestVrf h => exact le_move (hpayer rfl)
  | submitThought h => exact le_move (hpayer rfl)
  | challenge h => exact (le_move (hpayer rfl)).trans (le_move (hpayer rfl))
  | guilty h _ =>
    exact ((le_move (hvault h.stakeVault)).trans (le_move (hvault h.stakeVault))).trans
      (le_move (hbond h.bondVault hck))
  | innocent h _ => exact (le_move (hbond h.bondVault hck)).trans (le_move (hbond h.bondVault hck))
  | transfer wallet _ => exact le_move (Ne.symm (rt.ne_pda wallet _))
  | _ => exact Nat.le_refl _

/-- The bond of every unresolved challenge is in its vault. -/
def BondsHeld (rt : Runtime) (s : State) : Prop :=
  AllOf s.challenges fun ck c => c.resolved = false → c.bond.toNat ≤ s.lamports (rt.pda (.bond ck))

theorem BondsHeld.step (hb : BondsHeld rt s) (he : Effect rt s act s') (hw : act.walletSigned) : BondsHeld rt s' := by
  have hkeep : ∀ ck c, act.resolves ck = false → s.challenges ck = some c → c.resolved = false →
      c.bond.toNat ≤ s'.lamports (rt.pda (.bond ck)) :=
    fun ck c hck hc hres => (hb ck c hc hres).trans (he.bondVault hw hck)
  cases he with
  | @challenge ctx claim bond evidenceUriHash t p h =>
    apply AllOf.write (fun ck c hc => hkeep ck c rfl hc)
    intro _
    have hne : ctx.bondVault.key ≠ ctx.challenger.key := by rw [h.vault]; exact Ne.symm (rt.ne_pda hw _)
    rw [← h.vault]
    simp only [OpenChallenge.after, OpenChallenge.dispute, move_gain hne, if_true]
    exact Nat.le_add_left _ _
  | @guilty ctx t a p c h _ =>
    exact .write_of_ne (fun ck c hne hc => hkeep ck c (decide_eq_false (Ne.symm hne)) hc) fun hres => by cases hres
  | @innocent ctx t a p c h _ =>
    exact .write_of_ne (fun ck c hne hc => hkeep ck c (decide_eq_false (Ne.symm hne)) hc) fun hres => by cases hres
  | _ => exact fun ck c hc => hkeep ck c rfl hc

theorem bondsHeld_of_reaches (hr : Reaches rt slot L h s) (hw : WalletSigned h) : BondsHeld rt s := by
  refine hr.inv (fun h s => WalletSigned h → BondsHeld rt s) ?_ ?_ hw
  · exact fun _ => AllOf.empty
  · intro h s a s' _ ih ha hw
    obtain ⟨hw, hwa⟩ := WalletSigned.append.1 hw
    exact (ih hw).step (step_effect ha) (hwa (s, a) (List.mem_singleton_self _))

/-! ## No transfer out of a vault fails -/

/-- The stake of every agent is in its vault. -/
theorem stake_le_vault (hr : Reaches rt slot L h s) (hw : WalletSigned h) (ak : Pubkey) :
    stakeOf s.agents ak + burned ak h ≤ s.lamports (rt.pda (.vault ak)) := by
  have := vault_account hr hw ak
  omega

/-- A withdrawal within the stake of an idle agent goes through. -/
theorem withdraw_succeeds (hr : Reaches rt slot L h s) (hw : WalletSigned h) {ctx : WithdrawStake} {a : AgentProfile}
    {amount : UInt64} (hv : ctx.Valid rt s a) (hi : a.activeThoughts = 0) (hc : a.cooldownUntil ≤ s.slot)
    (ha : amount ≤ a.stakeAmount) : ∃ r, withdrawStake rt s ctx amount = .ok r := by
  have hle := UInt64.le_iff_toNat_le.1 ha
  obtain ⟨n, hn⟩ := exists_toNat_sub hle
  have hstake := stake_le_vault hr hw ctx.agent.key
  rw [stakeOf_of_some hv.profile, ← hv.vault] at hstake
  exact ⟨_, withdrawStake_eq_ok.2 ⟨a, n, ⟨hv, hi, hc, by omega, hn⟩, rfl, rfl⟩⟩

/-- The transfer of `withdraw_stake` comes after the check that the vault holds the amount. -/
theorem withdraw_ne_insufficientFunds {ctx : WithdrawStake} {amount : UInt64} :
    withdrawStake rt s ctx amount ≠ .error (.system .insufficientFunds) := by
  simp only [withdrawStake, withdrawHandler, StakeAccounts.tryAccounts, signer, account, systemProgram, mutable, seeds,
    canonicalSeeds, ne_eq, seq_error_iff, require_eq_error, require_eq_ok, okOr_eq_error, pure_error_iff,
    transfer_eq_error, reduceCtorEq, and_false, and_true, exists_false, exists_const, or_self, or_false, false_or]
  intro h
  rcases h with ⟨a, -, -, -, -, hle, hlt⟩
  omega

/-- The accounts of an accepted verdict hold what either outcome pays. -/
theorem canPay (hr : Reaches rt slot L h s) (hw : WalletSigned h) {ctx : ResolveChallenged} {t : ThoughtRecord}
    {a : AgentProfile} {p : Policy} {c : Challenge} (hacc : ctx.Accepted rt s t a p c) :
    ctx.CanPayGuilty s.lamports a.stakeAmount.toNat c.bond.toNat ∧ ctx.CanPayInnocent s.lamports c.bond.toNat := by
  have hstake := stake_le_vault hr hw ctx.agent.key
  rw [stakeOf_of_some hacc.profile, ← hacc.stakeVault] at hstake
  have hbond := bondsHeld_of_reaches hr hw _ _ hacc.dispute hacc.unresolved
  rw [← hacc.bondVault] at hbond
  have hne : ctx.bondVault.key ≠ ctx.stakeVault.key := by
    rw [hacc.stakeVault, hacc.bondVault]
    exact Ne.symm vault_ne_bond
  have hshares := shares_le a.stakeAmount.toNat
  have hop := toOperator_le c.bond.toNat
  have h1 : toChallenger a.stakeAmount.toNat ≤ s.lamports ctx.stakeVault.key := by omega
  have h2 := move_spend ctx.challenger.key h1
  have h3 : toOperator c.bond.toNat ≤ s.lamports ctx.bondVault.key := by omega
  have h4 := move_spend ctx.agentOperator.key h3
  refine ⟨⟨h1, by omega, ?_⟩, h3, by rw [ResolveChallenged.compensated]; omega⟩
  exact hbond.trans ((le_move hne).trans (le_move hne))

theorem resolve_ne_insufficientFunds (hr : Reaches rt slot L h s) (hw : WalletSigned h) {ctx : ResolveChallenged}
    {verdict : Bool} : resolveChallenged rt s ctx verdict ≠ .error (.system .insufficientFunds) := by
  intro herr
  obtain ⟨t, a, p, c, hacc⟩ := accepted_of_system_error herr
  obtain ⟨hg, hi⟩ := canPay hr hw hacc
  cases verdict with
  | true =>
    have hok := resolveChallenged_guilty_eq_ok.2 ⟨t, a, p, c, hacc, hg, rfl, rfl⟩
    rw [herr] at hok
    cases hok
  | false =>
    have hok := resolveChallenged_innocent_eq_ok.2 ⟨t, a, p, c, hacc, hi, rfl, rfl⟩
    rw [herr] at hok
    cases hok

/-! ## Solvency -/

/-- **Solvency.** In every reachable state the stake vault of every agent holds its stake and every burned share, and
nothing else when nobody gave it more; the bond of every unresolved challenge is in its vault; no continuation takes a
burned share out; and no transfer of `withdraw_stake` or `resolve_challenged` fails for lack of funds. -/
theorem vault_solvency (hr : Reaches rt slot L h s) (hw : WalletSigned h) :
    (∀ ak a, s.agents ak = some a →
      a.stakeAmount.toNat + burned ak h ≤ s.lamports (rt.pda (.vault ak)) ∧
        (L (rt.pda (.vault ak)) = 0 → Undisturbed (rt.pda (.vault ak)) h s →
          s.lamports (rt.pda (.vault ak)) = a.stakeAmount.toNat + burned ak h)) ∧
      (∀ ck c, s.challenges ck = some c → c.resolved = false → c.bond.toNat ≤ s.lamports (rt.pda (.bond ck))) ∧
      (∀ ak h' s', Run (step rt) s h' s' → WalletSigned h' → burned ak h ≤ s'.lamports (rt.pda (.vault ak))) ∧
      (∀ ctx amount, withdrawStake rt s ctx amount ≠ .error (.system .insufficientFunds) ∧
        ∀ a, StakeAccounts.Valid rt s ctx a → a.activeThoughts = 0 → a.cooldownUntil ≤ s.slot →
          amount ≤ a.stakeAmount → ∃ r, withdrawStake rt s ctx amount = .ok r) ∧
      ∀ ctx verdict, resolveChallenged rt s ctx verdict ≠ .error (.system .insufficientFunds) := by
  refine ⟨?_, bondsHeld_of_reaches hr hw, ?_, ?_, fun _ _ => resolve_ne_insufficientFunds hr hw⟩
  · intro ak a ha
    rw [← stakeOf_of_some ha]
    refine ⟨stake_le_vault hr hw ak, fun h0 hu => ?_⟩
    have hacct := vault_account hr hw ak
    rw [h0, gifts_eq_zero hr hw hu] at hacct
    exact hacct.symm
  · intro ak h' s' hr' hw'
    have hle := stake_le_vault (hr.append hr') (WalletSigned.append.2 ⟨hw, hw'⟩) ak
    rw [burned, tally_append] at hle
    exact (Nat.le_add_right _ _).trans ((Nat.le_add_left _ _).trans hle)
  · exact fun ctx amount => ⟨withdraw_ne_insufficientFunds, fun a hv hi hc ha => withdraw_succeeds hr hw hv hi hc ha⟩

open Sample in
theorem vault_solvency_slashed :
    ∃ h s a, Reaches chain 1000 funds h s ∧ s.agents agent = some a ∧ a.stakeAmount = 0 ∧
      a.stakeAmount.toNat + burned agent h ≤ s.lamports vault ∧ s.lamports vault = 3000000000 := by
  obtain ⟨h, s, hr, hacts, hs⟩ := exists_run (setup ++ submit 0 ++ [dispute 0, resolve 0 true])
    (fun s => ((s.agents agent).map (·.stakeAmount), s.lamports vault)) (some 0, 3000000000) (by decide +kernel)
  have hw : WalletSigned h := walletSigned_iff.2 (hacts ▸ by decide)
  obtain ⟨ha, hl⟩ := Prod.mk.inj hs
  obtain ⟨a, ha, hst⟩ := Option.map_eq_some_iff.1 ha
  exact ⟨h, s, a, hr, ha, hst, ((vault_solvency hr hw).1 agent a ha).1, hl⟩

end ProofOfThought.Program
