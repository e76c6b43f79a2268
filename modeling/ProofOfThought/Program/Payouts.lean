import ProofOfThought.Program.Vault

/-!
# What a verdict pays

A verdict is a list of payments out of the two vaults, and the balance of every account after it follows whichever of
the accounts coincide (`verdict_balance`). The vaults pay what they should exactly when the policy's treasury is not one
of them (`payouts_exact_iff`): the handler forbids this of the challenger only.
-/

namespace ProofOfThought.Program

open Base

variable {rt : Runtime} {s s' : State} {evs : List Event}

/-! ## The arithmetic -/

/-- The split of the stake `n` and of the bond `b` as the handler computes it, in `u64` and with casts. -/
structure ExactSplit (n b : UInt64) : Prop where
  challenger : (mulDiv n 60 100).toNat = n.toNat * 60 / 100
  treasury : (mulDiv n 10 100).toNat = n.toNat * 10 / 100
  burn : ∃ rest toBurn, checkedSub n (mulDiv n 60 100) = some rest ∧ checkedSub rest (mulDiv n 10 100) = some toBurn ∧
    toBurn.toNat = n.toNat - n.toNat * 60 / 100 - n.toNat * 10 / 100 ∧ 30 * n.toNat ≤ 100 * toBurn.toNat
  operator : (mulDiv b 90 100).toNat = b.toNat * 90 / 100
  forfeit : ∃ toTreasuryB, checkedSub b (mulDiv b 90 100) = some toTreasuryB ∧
    toTreasuryB.toNat = b.toNat - b.toNat * 90 / 100

/-- No cast and no subtraction of the handler loses anything. -/
theorem exactSplit (n b : UInt64) : ExactSplit n b where
  challenger := toNat_mulDiv n (by decide)
  treasury := toNat_mulDiv n (by decide)
  burn := by
    obtain ⟨rest, hrest⟩ := exists_toNat_sub (a := n) (n := n.toNat * 60 / 100) (by omega)
    obtain ⟨toBurn, hburn⟩ := exists_toNat_sub (a := rest) (n := n.toNat * 10 / 100) (by omega)
    refine ⟨rest, toBurn, ?_, ?_, by omega, by omega⟩
    · rw [checkedSub_eq_some, toNat_mulDiv n (by decide)]
      exact hrest
    · rw [checkedSub_eq_some, toNat_mulDiv n (by decide)]
      exact hburn
  operator := toNat_mulDiv b (by decide)
  forfeit := by
    obtain ⟨r, hr⟩ := exists_toNat_sub (a := b) (n := b.toNat * 90 / 100) (by omega)
    refine ⟨r, ?_, by omega⟩
    rw [checkedSub_eq_some, toNat_mulDiv b (by decide)]
    exact hr

/-! ## The payments -/

namespace ResolveChallenged

variable (ctx : ResolveChallenged) (n b : Nat)

/-- The transfers of a verdict over the stake `n` and the bond `b`, in order. -/
def payments : Bool → List (Payment Pubkey)
  | true =>
    [⟨ctx.stakeVault.key, ctx.challenger.key, toChallenger n⟩, ⟨ctx.stakeVault.key, ctx.treasury.key, toTreasury n⟩,
      ⟨ctx.bondVault.key, ctx.challenger.key, b⟩]
  | false =>
    [⟨ctx.bondVault.key, ctx.agentOperator.key, toOperator b⟩, ⟨ctx.bondVault.key, ctx.treasury.key, b - toOperator b⟩]

/-- What a verdict takes out of an account. -/
def debit : Bool → Pubkey → Nat
  | true, k =>
    (if ctx.stakeVault.key = k then toChallenger n + toTreasury n else 0) + if ctx.bondVault.key = k then b else 0
  | false, k => if ctx.bondVault.key = k then b else 0

/-- What a verdict credits to an account, added up over its roles. -/
def credit : Bool → Pubkey → Nat
  | true, k =>
    (if ctx.challenger.key = k then toChallenger n + b else 0) + if ctx.treasury.key = k then toTreasury n else 0
  | false, k =>
    (if ctx.agentOperator.key = k then toOperator b else 0) + if ctx.treasury.key = k then b - toOperator b else 0

/-- The ledger after a verdict. -/
def paid (L : Ledger Pubkey) : Bool → Ledger Pubkey
  | true => ctx.paidGuilty L n b
  | false => ctx.paidInnocent L b

/-- Each transfer of a verdict finds its amount. -/
def CanPay (L : Ledger Pubkey) : Bool → Prop
  | true => ctx.CanPayGuilty L n b
  | false => ctx.CanPayInnocent L b

variable {ctx n b} {L : Ledger Pubkey} {verdict : Bool}

theorem paid_eq : ctx.paid n b L verdict = L.pay (ctx.payments n b verdict) := by cases verdict <;> rfl

theorem canPay_iff : ctx.CanPay n b L verdict ↔ L.Covers (ctx.payments n b verdict) := by
  cases verdict with
  | true =>
    show _ ↔ _ ∧ _ ∧ _ ∧ True
    rw [and_true]
    rfl
  | false =>
    show _ ↔ _ ∧ _ ∧ True
    rw [and_true]
    rfl

theorem paidBy_payments (k : Pubkey) : paidBy (ctx.payments n b verdict) k = ctx.debit n b verdict k := by
  have hop := toOperator_le b
  cases verdict with
  | true =>
    simp only [paidBy, payments, debit, List.map_cons, List.map_nil, List.sum_cons, List.sum_nil]
    split_ifs <;> omega
  | false =>
    simp only [paidBy, payments, debit, List.map_cons, List.map_nil, List.sum_cons, List.sum_nil]
    split_ifs <;> omega

theorem paidTo_payments (k : Pubkey) : paidTo (ctx.payments n b verdict) k = ctx.credit n b verdict k := by
  cases verdict with
  | true =>
    simp only [paidTo, payments, credit, List.map_cons, List.map_nil, List.sum_cons, List.sum_nil]
    split_ifs <;> omega
  | false =>
    simp only [paidTo, payments, credit, List.map_cons, List.map_nil, List.sum_cons, List.sum_nil]
    split_ifs <;> omega

/-- **The balance of every account after a verdict**: what it had, less what was taken and plus what was credited. -/
theorem verdict_balance (h : ctx.CanPay n b L verdict) (k : Pubkey) :
    ctx.paid n b L verdict k + ctx.debit n b verdict k = L k + ctx.credit n b verdict k := by
  rw [paid_eq, ← paidBy_payments, ← paidTo_payments]
  exact pay_balance (canPay_iff.1 h) k

end ResolveChallenged

section Accepted

variable {ctx : ResolveChallenged} {t : ThoughtRecord} {a : AgentProfile} {p : Policy} {c : Challenge}

/-- The ledger that a verdict leaves. -/
theorem resolve_lamports (h : ctx.Accepted rt s t a p c) (verdict : Bool)
    (pays : ctx.CanPay a.stakeAmount.toNat c.bond.toNat s.lamports verdict) :
    ∃ s' evs, resolveChallenged rt s ctx verdict = .ok (s', evs) ∧
      s'.lamports = ctx.paid a.stakeAmount.toNat c.bond.toNat s.lamports verdict := by
  cases verdict with
  | true => exact ⟨_, _, resolveChallenged_guilty_eq_ok.2 ⟨t, a, p, c, h, pays, rfl, rfl⟩, rfl⟩
  | false => exact ⟨_, _, resolveChallenged_innocent_eq_ok.2 ⟨t, a, p, c, h, pays, rfl, rfl⟩, rfl⟩

/-- The vaults differ. -/
theorem stakeVault_ne_bondVault (h : ctx.Valid rt s t a p c) : ctx.stakeVault.key ≠ ctx.bondVault.key := by
  rw [h.stakeVault, h.bondVault]
  exact vault_ne_bond

/-- The operator is no bond vault: the address of the vault is derived from the operator's. -/
theorem operator_ne_bondVault (h : ctx.Valid rt s t a p c) : ctx.agentOperator.key ≠ ctx.bondVault.key := by
  intro he
  rw [h.operator, h.bondVault, h.challenge, h.thought, ← h.agentOf, h.agent] at he
  have hsize := congrArg sizeOf he
  simp [Runtime.pda, Seeds.address] at hsize
  omega

end Accepted

/-! ## Exact payouts -/

namespace ResolveChallenged

variable (ctx : ResolveChallenged) (n b : Nat)

/-- A verdict from the ledger `L` to `L'` pays exactly: the vaults lose what they pay, every other account gains what it
is credited, and no payment is to its own source. -/
structure Exact (verdict : Bool) (L L' : Ledger Pubkey) : Prop where
  stakeVault : verdict = true → L' ctx.stakeVault.key + (toChallenger n + toTreasury n) = L ctx.stakeVault.key
  bondVault : L' ctx.bondVault.key + b = L ctx.bondVault.key
  others : ∀ k, (verdict = true → k ≠ ctx.stakeVault.key) → k ≠ ctx.bondVault.key →
    L' k = L k + ctx.credit n b verdict k
  noSelfTransfer : ∀ p ∈ ctx.payments n b verdict, p.amount ≠ 0 → p.src ≠ p.dst

/-- The treasury is no vault of the verdict, or there is nothing to pay it. -/
def Apart : Bool → Prop
  | true => toTreasury n = 0 ∨ ctx.treasury.key ≠ ctx.stakeVault.key ∧ ctx.treasury.key ≠ ctx.bondVault.key
  | false => b = 0 ∨ ctx.treasury.key ≠ ctx.bondVault.key

variable {ctx n b} {L : Ledger Pubkey} {t : ThoughtRecord} {a : AgentProfile} {p : Policy} {c : Challenge}

theorem exact_guilty_iff (h : ctx.Accepted rt s t a p c) (pays : ctx.CanPay n b L true) :
    ctx.Exact n b true L (ctx.paid n b L true) ↔ ctx.Apart n b true := by
  have hne := stakeVault_ne_bondVault h.toValid
  obtain ⟨hcs, hcb⟩ := h.distinct
  have hsv := verdict_balance pays ctx.stakeVault.key
  have hbv := verdict_balance pays ctx.bondVault.key
  simp only [debit, credit, if_neg hne, if_neg hne.symm, if_neg hcs, if_neg hcb, if_true] at hsv hbv
  constructor
  · intro hx
    have h1 := hx.stakeVault rfl
    have h2 := hx.bondVault
    by_cases h0 : toTreasury n = 0
    · exact .inl h0
    · refine .inr ⟨fun he => ?_, fun he => ?_⟩
      · rw [if_pos he] at hsv
        omega
      · rw [if_pos he] at hbv
        omega
  · intro hap
    have hts : (if ctx.treasury.key = ctx.stakeVault.key then toTreasury n else 0) = 0 := by
      rcases hap with h0 | ⟨h1, -⟩
      · rw [h0, ite_self]
      · exact if_neg h1
    have htb : (if ctx.treasury.key = ctx.bondVault.key then toTreasury n else 0) = 0 := by
      rcases hap with h0 | ⟨-, h2⟩
      · rw [h0, ite_self]
      · exact if_neg h2
    rw [hts] at hsv
    rw [htb] at hbv
    refine ⟨fun _ => by omega, by omega, fun k hs hb => ?_, ?_⟩
    · have hk := verdict_balance pays k
      simpa only [debit, if_neg (Ne.symm (hs rfl)), if_neg hb.symm, Nat.add_zero] using hk
    · intro q hq
      simp only [payments, List.mem_cons, List.not_mem_nil, or_false] at hq
      rcases hq with rfl | rfl | rfl
      · exact fun _ => hcs.symm
      · intro h0
        exact Ne.symm (hap.resolve_left h0).1
      · exact fun _ => hcb.symm

theorem exact_innocent_iff (h : ctx.Accepted rt s t a p c) (pays : ctx.CanPay n b L false) :
    ctx.Exact n b false L (ctx.paid n b L false) ↔ ctx.Apart n b false := by
  have hop := operator_ne_bondVault h.toValid
  have hbv := verdict_balance pays ctx.bondVault.key
  simp only [debit, credit, if_neg hop, if_true] at hbv
  -- the operator gets less than the whole bond
  have hrest : b - toOperator b = 0 → b = 0 := by unfold toOperator; omega
  constructor
  · intro hx
    have h2 := hx.bondVault
    by_cases h0 : b = 0
    · exact .inl h0
    · refine .inr fun he => ?_
      rw [if_pos he] at hbv
      exact h0 (hrest (by omega))
  · intro hap
    have htb : (if ctx.treasury.key = ctx.bondVault.key then b - toOperator b else 0) = 0 := by
      rcases hap with rfl | h2
      · simp
      · exact if_neg h2
    rw [htb] at hbv
    refine ⟨nofun, by omega, fun k _ hb => ?_, ?_⟩
    · have hk := verdict_balance pays k
      simpa only [debit, if_neg hb.symm, Nat.add_zero] using hk
    · intro q hq
      simp only [payments, List.mem_cons, List.not_mem_nil, or_false] at hq
      rcases hq with rfl | rfl
      · exact fun _ => hop.symm
      · intro h0
        refine Ne.symm (hap.resolve_left fun hz => h0 ?_)
        show b - toOperator b = 0
        omega

end ResolveChallenged

variable {slot : UInt64} {L : Ledger Pubkey} {h : List (State × Action)} {ctx : ResolveChallenged} {t : ThoughtRecord}
  {a : AgentProfile} {p : Policy} {c : Challenge}

/-- **Payouts.** In every reachable state, for all accounts a verdict accepts: the verdict goes through without losing a
lamport in its arithmetic, and it pays exactly just when the treasury is no vault of it or is paid nothing. -/
theorem payouts_exact_iff (hr : Reaches rt slot L h s) (hw : WalletSigned h) (hacc : ctx.Accepted rt s t a p c)
    (verdict : Bool) :
    (∀ n b, ExactSplit n b) ∧ ∃ s' evs, resolveChallenged rt s ctx verdict = .ok (s', evs) ∧
      (ctx.Exact a.stakeAmount.toNat c.bond.toNat verdict s.lamports s'.lamports ↔
        ctx.Apart a.stakeAmount.toNat c.bond.toNat verdict) := by
  refine ⟨exactSplit, ?_⟩
  obtain ⟨hguilty, hinnocent⟩ := canPay hr hw hacc
  cases verdict with
  | true =>
    obtain ⟨s', evs, hok, hL⟩ := resolve_lamports hacc true hguilty
    exact ⟨s', evs, hok, hL ▸ ResolveChallenged.exact_guilty_iff hacc hguilty⟩
  | false =>
    obtain ⟨s', evs, hok, hL⟩ := resolve_lamports hacc false hinnocent
    exact ⟨s', evs, hok, hL ▸ ResolveChallenged.exact_innocent_iff hacc hinnocent⟩

/-! ## A treasury that is the vault -/

namespace Sample

/-- The accounts of a verdict on the first thought, with the given treasury. -/
def verdictOn (treasury : Pubkey) : ResolveChallenged :=
  let challenge := chain.pda (.challenge (thought 0) challenger)
  ⟨signed resolver, unsigned (thought 0), unsigned agent, unsigned policy, unsigned challenge, unsigned vault,
    unsigned (chain.pda (.bond challenge)), unsigned challenger, unsigned treasury, unsigned operator, system⟩

/-- The setup with the policy that `args` describe. -/
def setupWith (args : RegisterPolicyArgs) : List Action :=
  setup.set 1 (.instruction (.registerPolicy ⟨signed resolver, unsigned policy, system⟩ args))

/-- The first thought disputed, under a policy whose treasury is the agent's vault. -/
def leaky : List Action := setupWith { policyArgs with treasury := vault } ++ submit 0 ++ [dispute 0]

end Sample

open Sample in
/-- A guilty verdict pays the treasury's share of the stake from the vault to the vault. -/
theorem treasury_share_kept : ∃ h s t a p c, Reaches chain 1000 funds h s ∧ WalletSigned h ∧
    (verdictOn vault).Accepted chain s t a p c ∧
    ∃ s' evs, resolveChallenged chain s (verdictOn vault) true = .ok (s', evs) ∧
      ¬(verdictOn vault).Exact a.stakeAmount.toNat c.bond.toNat true s.lamports s'.lamports := by
  obtain ⟨h, s, hr, hacts, hs⟩ := exists_run leaky
    (fun s => ((resolveChallenged chain s (verdictOn vault) true).toOption.map fun r =>
      (s.lamports vault, r.1.lamports vault), (s.agents agent).map (·.stakeAmount)))
    (some (10000000000, 4000000000), some 10000000000) (by decide +kernel)
  obtain ⟨hs, hstake⟩ := Prod.mk.inj hs
  have hw : WalletSigned h := walletSigned_iff.2 (hacts ▸ by decide)
  cases hres : resolveChallenged chain s (verdictOn vault) true with
  | error e =>
    rw [hres] at hs
    cases hs
  | ok r =>
    obtain ⟨s', evs⟩ := r
    rw [hres] at hs
    obtain ⟨hbefore, hafter⟩ := Prod.mk.inj (Option.some.inj hs)
    obtain ⟨t, a, p, c, hacc, -⟩ := resolveChallenged_guilty_eq_ok.1 hres
    refine ⟨h, s, t, a, p, c, hr, hw, hacc, s', evs, hres, fun hx => ?_⟩
    obtain ⟨a', ha', hn⟩ := Option.map_eq_some_iff.1 hstake
    obtain rfl : a = a' := Option.some.inj (hacc.profile.symm.trans ha')
    have hsv : s'.lamports vault + (toChallenger a.stakeAmount.toNat + toTreasury a.stakeAmount.toNat) =
        s.lamports vault := hx.stakeVault rfl
    rw [hn, show s.lamports vault = 10000000000 from hbefore, show s'.lamports vault = 4000000000 from hafter] at hsv
    exact absurd hsv (by decide)

open Sample in
theorem payouts_exact_iff_apart : ∃ h s t a p c, Reaches chain 1000 funds h s ∧
    (verdictOn treasury).Accepted chain s t a p c ∧ ∃ s' evs,
      resolveChallenged chain s (verdictOn treasury) true = .ok (s', evs) ∧
        (verdictOn treasury).Exact a.stakeAmount.toNat c.bond.toNat true s.lamports s'.lamports := by
  obtain ⟨h, s, hr, hacts, hs⟩ := exists_run (setup ++ submit 0 ++ [dispute 0])
    (fun s => (resolveChallenged chain s (verdictOn treasury) true).toOption.isSome) true (by decide +kernel)
  have hw : WalletSigned h := walletSigned_iff.2 (hacts ▸ by decide)
  cases hres : resolveChallenged chain s (verdictOn treasury) true with
  | error e =>
    rw [hres] at hs
    cases hs
  | ok r =>
    obtain ⟨s₁, evs₁⟩ := r
    obtain ⟨t, a, p, c, hacc, -⟩ := resolveChallenged_guilty_eq_ok.1 hres
    obtain ⟨-, s', evs, hok, hiff⟩ := payouts_exact_iff hr hw hacc true
    exact ⟨h, s, t, a, p, c, hr, hacc, s', evs, hok, hiff.2 (.inr ⟨by decide, by decide⟩)⟩

end ProofOfThought.Program
