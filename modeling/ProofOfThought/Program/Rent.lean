import ProofOfThought.Program.Lifecycle
import ProofOfThought.Program.Payouts
import ProofOfThought.Program.Requests

/-!
# Verdicts under the rent rule

The runtime rejects a transaction that leaves a data-less account with a balance between zero and the rent-exempt
minimum. A guilty verdict leaves the burned share in the stake vault, and any verdict leaves in the bond vault what was
given to it besides the bond: it can be executed exactly when neither remainder is too small (`verdict_executes_iff`).
-/

namespace ProofOfThought.Program

open Base

variable {rt : Runtime} {s s' : State} {act : Action} {k : Pubkey}

/-! ## The accounts of an action -/

/-- The account list of an instruction. -/
def Instruction.accounts : Instruction → List AccountInfo
  | .registerAgent ctx _ => [ctx.operator, ctx.agent, ctx.stakeVault, ctx.systemProgram]
  | .stake ctx _ => [ctx.operator, ctx.agent, ctx.stakeVault, ctx.systemProgram]
  | .withdrawStake ctx _ => [ctx.operator, ctx.agent, ctx.stakeVault, ctx.systemProgram]
  | .registerModel ctx _ _ _ _ => [ctx.governance, ctx.model, ctx.systemProgram]
  | .registerPolicy ctx _ => [ctx.author, ctx.policy, ctx.systemProgram]
  | .requestVrf ctx _ _ => [ctx.operator, ctx.agent, ctx.vrfRequest, ctx.systemProgram]
  | .submitThought ctx _ _ =>
    [ctx.operator, ctx.agent, ctx.model, ctx.policy, ctx.vrfRequest, ctx.thought, ctx.systemProgram]
  | .consumeThought ctx => [ctx.consumer, ctx.thought, ctx.policy, ctx.action]
  | .challenge ctx _ _ _ =>
    [ctx.challenger, ctx.thought, ctx.policy, ctx.challenge, ctx.bondVault, ctx.systemProgram]
  | .resolveUnchallenged ctx => [ctx.cranker, ctx.thought, ctx.agent]
  | .resolveChallenged ctx _ =>
    [ctx.resolver, ctx.thought, ctx.agent, ctx.policy, ctx.challenge, ctx.stakeVault, ctx.bondVault, ctx.challenger,
      ctx.treasury, ctx.agentOperator, ctx.systemProgram]

/-- The addresses an action names. -/
def Action.keys : Action → List Pubkey
  | .instruction i => i.accounts.map AccountInfo.key
  | .transfer src dst _ => [src, dst]
  | .tick _ => []

/-- An account that an action does not name keeps its balance. -/
theorem Effect.lamports_of_not_mem (he : Effect rt s act s') (hk : k ∉ act.keys) : s'.lamports k = s.lamports k := by
  cases he with
  | registerAgent h =>
    simp only [Action.keys, Instruction.accounts, List.map, List.mem_cons, not_or] at hk
    obtain ⟨ho, ha, hv, -⟩ := hk
    exact (move_of_ne ho hv).trans (move_of_ne ho ha)
  | stake h =>
    simp only [Action.keys, Instruction.accounts, List.map, List.mem_cons, not_or] at hk
    exact move_of_ne hk.1 hk.2.2.1
  | withdrawStake h =>
    simp only [Action.keys, Instruction.accounts, List.map, List.mem_cons, not_or] at hk
    exact move_of_ne hk.2.2.1 hk.1
  | registerModel h =>
    simp only [Action.keys, Instruction.accounts, List.map, List.mem_cons, not_or] at hk
    exact move_of_ne hk.1 hk.2.1
  | registerPolicy h =>
    simp only [Action.keys, Instruction.accounts, List.map, List.mem_cons, not_or] at hk
    exact move_of_ne hk.1 hk.2.1
  | requestVrf h =>
    simp only [Action.keys, Instruction.accounts, List.map, List.mem_cons, not_or] at hk
    exact move_of_ne hk.1 hk.2.2.1
  | submitThought h =>
    simp only [Action.keys, Instruction.accounts, List.map, List.mem_cons, not_or] at hk
    obtain ⟨ho, -, -, -, -, ht, -⟩ := hk
    exact move_of_ne ho ht
  | challenge h =>
    simp only [Action.keys, Instruction.accounts, List.map, List.mem_cons, not_or] at hk
    obtain ⟨hc, -, -, hd, hb, -⟩ := hk
    exact (move_of_ne hc hb).trans (move_of_ne hc hd)
  | guilty h _ =>
    simp only [Action.keys, Instruction.accounts, List.map, List.mem_cons, not_or] at hk
    obtain ⟨-, -, -, -, -, hs, hb, hc, ht, -⟩ := hk
    exact ((move_of_ne hb hc).trans (move_of_ne hs ht)).trans (move_of_ne hs hc)
  | innocent h _ =>
    simp only [Action.keys, Instruction.accounts, List.map, List.mem_cons, not_or] at hk
    obtain ⟨-, -, -, -, -, -, hb, -, ht, ho, -⟩ := hk
    exact (move_of_ne hb ht).trans (move_of_ne hb ho)
  | transfer _ _ =>
    simp only [Action.keys, List.mem_cons, not_or] at hk
    exact move_of_ne hk.1 hk.2.1
  | _ => rfl

/-! ## The rent rule -/

/-- No account of the program is at `k`. -/
def State.dataLess (s : State) (k : Pubkey) : Bool :=
  (s.agents k).isNone && (s.models k).isNone && (s.policies k).isNone && (s.vrfRequests k).isNone &&
    (s.thoughts k).isNone && (s.challenges k).isNone

/-- A balance that a data-less account may be left with. -/
def RentExempt (rt : Runtime) (n : Nat) : Prop := n = 0 ∨ rt.rent 0 ≤ n

instance (n : Nat) : Decidable (RentExempt rt n) := inferInstanceAs (Decidable (_ ∨ _))

/-- What the rule asks at `k` of a step from `s` to `s'`: a data-less account whose balance changed is rent exempt. -/
def RentSafe (rt : Runtime) (s s' : State) (k : Pubkey) : Prop :=
  s'.lamports k ≠ s.lamports k → s'.dataLess k = true → RentExempt rt (s'.lamports k)

instance (s s' : State) (k : Pubkey) : Decidable (RentSafe rt s s' k) := inferInstanceAs (Decidable (_ → _ → _))

/-- A step of a runtime that enforces the rent rule, on the accounts the action names. -/
def rentStep (rt : Runtime) (s : State) (a : Action) : Option State :=
  (step rt s a).filter fun s' => a.keys.all fun k => decide (RentSafe rt s s' k)

/-- **The rule** asks the same of every account, named or not. -/
theorem rentStep_eq_some : rentStep rt s act = some s' ↔ step rt s act = some s' ∧ ∀ k, RentSafe rt s s' k := by
  simp only [rentStep, Option.filter_eq_some_iff, List.all_eq_true, decide_eq_true_eq]
  constructor
  · intro h
    refine ⟨h.1, fun k => ?_⟩
    by_cases hk : k ∈ act.keys
    · exact h.2 k hk
    · exact fun hne => absurd ((step_effect h.1).lamports_of_not_mem hk) hne
  · intro h
    exact ⟨h.1, fun k _ => h.2 k⟩

variable {slot : UInt64} {L : Ledger Pubkey} {h : List (State × Action)}

/-- The runs under the rent rule. -/
abbrev RentReaches (rt : Runtime) (slot : UInt64) (L : Ledger Pubkey) (h : List (State × Action)) (s : State) : Prop :=
  Run (rentStep rt) (State.genesis slot L) h s

/-- They are runs of the program. -/
theorem run_of_rent {s₀ : State} (hr : Run (rentStep rt) s₀ h s) : Run (step rt) s₀ h s := by
  induction hr with
  | nil => exact .nil
  | snoc _ ha ih => exact ih.snoc (rentStep_eq_some.1 ha).1

theorem reaches_of_rent (hr : RentReaches rt slot L h s) : Reaches rt slot L h s := run_of_rent hr

/-- A step that leaves the rent-exempt minimum wherever it changes a balance keeps the rule. -/
theorem rentStep_of_le (ha : step rt s act = some s')
    (hl : ∀ k, s'.lamports k ≠ s.lamports k → rt.rent 0 ≤ s'.lamports k) : rentStep rt s act = some s' :=
  rentStep_eq_some.2 ⟨ha, fun k hne _ => .inr (hl k hne)⟩

/-- The seeds of a vault, which holds lamports only. -/
def Seeds.isVault {K : Type} : Seeds K → Bool
  | .vault _ => true
  | .bond _ => true
  | _ => false

/-- No account of the program is at the address of a vault. -/
theorem dataLess_of_seeds (hwf : s.Wf rt) (hpd : s.Paired rt) {x : Seeds Pubkey} (hx : x.isVault = true) :
    s.dataLess (rt.pda x) = true := by
  have hnone : ∀ {V : Type} {m : Pubkey → Option V}, (∀ v, m (rt.pda x) ≠ some v) → (m (rt.pda x)).isNone = true :=
    fun h => Option.isNone_iff_eq_none.2 (Option.eq_none_iff_forall_ne_some.2 h)
  have hne : ∀ {y : Seeds Pubkey}, y.isVault = false → rt.pda x ≠ rt.pda y := by
    intro y hy he
    rw [Runtime.pda_inj] at he
    rw [← he, hx] at hy
    cases hy
  simp only [State.dataLess, Bool.and_eq_true]
  refine ⟨⟨⟨⟨⟨hnone fun a ha => ?_, hnone fun m hm => ?_⟩, hnone fun p hp => ?_⟩, hnone fun v hv => ?_⟩,
    hnone fun t ht => ?_⟩, hnone fun c hc => ?_⟩
  · exact hne rfl (hwf.agents _ _ ha).1
  · exact hne rfl (hpd.models _ _ hm).1
  · exact hne rfl (hwf.policies _ _ hp).1
  · exact hne rfl (hpd.requests _ _ hv).address
  · exact hne rfl (hwf.thoughts _ _ ht).address
  · exact hne rfl (hwf.challenges _ _ hc).1

/-! ## Executing a verdict -/

/-- Whoever a verdict may pay already holds the rent-exempt minimum, and the treasury is no vault of it. -/
structure ResolveChallenged.Funded (rt : Runtime) (L : Ledger Pubkey) (ctx : ResolveChallenged) : Prop where
  challenger : rt.rent 0 ≤ L ctx.challenger.key
  treasury : rt.rent 0 ≤ L ctx.treasury.key
  operator : rt.rent 0 ≤ L ctx.agentOperator.key
  apart : ctx.treasury.key ≠ ctx.stakeVault.key ∧ ctx.treasury.key ≠ ctx.bondVault.key

instance (L : Ledger Pubkey) (ctx : ResolveChallenged) : Decidable (ctx.Funded rt L) :=
  decidable_of_iff (rt.rent 0 ≤ L ctx.challenger.key ∧ rt.rent 0 ≤ L ctx.treasury.key ∧
      rt.rent 0 ≤ L ctx.agentOperator.key ∧ ctx.treasury.key ≠ ctx.stakeVault.key ∧
        ctx.treasury.key ≠ ctx.bondVault.key)
    ⟨fun h => ⟨h.1, h.2.1, h.2.2.1, h.2.2.2⟩, fun h => ⟨h.1, h.2, h.3, h.4⟩⟩

/-- An account that holds `held` and spends `spent` is left rent exempt, if it spends anything. -/
def Spends (rt : Runtime) (held spent : Nat) : Prop := spent = 0 ∨ RentExempt rt (held - spent)

/-- What a verdict over the stake `n` and the bond `b` leaves in the vaults is rent exempt. -/
def ResolveChallenged.Executable (rt : Runtime) (L : Ledger Pubkey) (ctx : ResolveChallenged) (n b : Nat)
    (verdict : Bool) : Prop :=
  Spends rt (L ctx.bondVault.key) b ∧
    (verdict = true → Spends rt (L ctx.stakeVault.key) (toChallenger n + toTreasury n))

section Verdict

variable {ctx : ResolveChallenged} {t : ThoughtRecord} {a : AgentProfile} {p : Policy} {c : Challenge} {verdict : Bool}

theorem ResolveChallenged.Exact.of_apart {n b : Nat} (hacc : ctx.Accepted rt s t a p c)
    (pays : ctx.CanPay n b L verdict)
    (hap : ctx.treasury.key ≠ ctx.stakeVault.key ∧ ctx.treasury.key ≠ ctx.bondVault.key) :
    ctx.Exact n b verdict L (ctx.paid n b L verdict) := by
  cases verdict with
  | true => exact (ResolveChallenged.exact_guilty_iff hacc pays).2 (.inr hap)
  | false => exact (ResolveChallenged.exact_innocent_iff hacc pays).2 (.inr hap.2)

/-- An account that a verdict credits holds the rent-exempt minimum already. -/
theorem ResolveChallenged.Funded.le (hf : ctx.Funded rt L) {n b : Nat} (hc : ctx.credit n b verdict k ≠ 0) :
    rt.rent 0 ≤ L k := by
  by_cases h1 : ctx.challenger.key = k
  · exact h1 ▸ hf.challenger
  by_cases h2 : ctx.treasury.key = k
  · exact h2 ▸ hf.treasury
  by_cases h3 : ctx.agentOperator.key = k
  · exact h3 ▸ hf.operator
  · cases verdict <;> simp [ResolveChallenged.credit, h1, h2, h3] at hc

/-- The rule at an account that loses `spent` is that it may spend this. -/
theorem rentSafe_iff_spends {spent : Nat} (hd : s'.dataLess k = true) (hl : s'.lamports k + spent = s.lamports k) :
    RentSafe rt s s' k ↔ Spends rt (s.lamports k) spent := by
  have hleft : s'.lamports k = s.lamports k - spent := by omega
  unfold RentSafe Spends
  rw [hleft]
  constructor
  · intro hsafe
    by_cases h0 : spent = 0
    · exact .inl h0
    · exact .inr (hsafe (by omega) hd)
  · intro hsp hne _
    exact hsp.resolve_left fun h0 => hne (by omega)

/-- **When an accepted verdict executes.** -/
theorem rentStep_verdict_iff (hr : Reaches rt slot L h s) (hw : WalletSigned h) (hacc : ctx.Accepted rt s t a p c)
    (hf : ctx.Funded rt s.lamports) :
    (∃ s', rentStep rt s (.instruction (.resolveChallenged ctx verdict)) = some s') ↔
      ctx.Executable rt s.lamports a.stakeAmount.toNat c.bond.toNat verdict := by
  have pays : ctx.CanPay a.stakeAmount.toNat c.bond.toNat s.lamports verdict := by
    cases verdict
    · exact (canPay hr hw hacc).2
    · exact (canPay hr hw hacc).1
  obtain ⟨s', evs, hok, hL⟩ := resolve_lamports hacc verdict pays
  have hstep : step rt s (.instruction (.resolveChallenged ctx verdict)) = some s' :=
    step_instruction.2 ⟨evs, hok⟩
  have hx := ResolveChallenged.Exact.of_apart hacc pays hf.apart
  rw [← hL] at hx
  have hr' := hr.snoc hstep
  have hds : s'.dataLess ctx.stakeVault.key = true :=
    hacc.stakeVault ▸ dataLess_of_seeds (wf_of_reaches hr') (paired_of_reaches hr') rfl
  have hdb : s'.dataLess ctx.bondVault.key = true :=
    hacc.bondVault ▸ dataLess_of_seeds (wf_of_reaches hr') (paired_of_reaches hr') rfl
  simp only [rentStep_eq_some, hstep, Option.some.injEq, exists_eq_left']
  constructor
  · intro hsafe
    exact ⟨(rentSafe_iff_spends hdb hx.bondVault).1 (hsafe _),
      fun hv => (rentSafe_iff_spends hds (hx.stakeVault hv)).1 (hsafe _)⟩
  · intro hexec k
    by_cases hb : k = ctx.bondVault.key
    · exact hb ▸ (rentSafe_iff_spends hdb hx.bondVault).2 hexec.1
    by_cases hs : verdict = true ∧ k = ctx.stakeVault.key
    · exact hs.2 ▸ (rentSafe_iff_spends hds (hx.stakeVault hs.1)).2 (hexec.2 hs.1)
    · -- every other account only gains, and held enough before if it gains
      have hk := hx.others k (fun hv he => hs ⟨hv, he⟩) hb
      intro hne _
      have hcredit : ctx.credit a.stakeAmount.toNat c.bond.toNat verdict k ≠ 0 := by omega
      have hle := hf.le hcredit
      exact .inr (by omega)

end Verdict

/-- The accounts `resolve_challenged` prescribes for the thought `t` at `k` of the agent `a` under the policy `p`,
disputed by `c` at `ck`. -/
def ResolveChallenged.prescribed (rt : Runtime) (k ck : Pubkey) (t : ThoughtRecord) (a : AgentProfile) (p : Policy)
    (c : Challenge) : ResolveChallenged where
  resolver := ⟨p.resolver, true, true⟩
  thought := ⟨k, false, true⟩
  agent := ⟨t.agent, false, true⟩
  policy := ⟨rt.pda (.policy t.policyId), false, false⟩
  challenge := ⟨ck, false, true⟩
  stakeVault := ⟨rt.pda (.vault t.agent), false, true⟩
  bondVault := ⟨rt.pda (.bond ck), false, true⟩
  challenger := ⟨c.challenger, false, true⟩
  treasury := ⟨p.treasury, false, true⟩
  agentOperator := ⟨a.operator, false, true⟩
  systemProgram := ⟨systemProgramId, false, false⟩

/-- They are accepted. -/
theorem prescribed_accepted (hr : Reaches rt slot L h s) (hw : WalletSigned h) {t : ThoughtRecord} {a : AgentProfile}
    {p : Policy} {c : Challenge} {ck : Pubkey} (ht : s.thoughts k = some t)
    (hst : t.status = ThoughtStatus.challenged.toU8) (hd : s.Disputes k ck c) (hun : c.resolved = false)
    (ha : s.agents t.agent = some a) (hp : s.policies (rt.pda (.policy t.policyId)) = some p) :
    (ResolveChallenged.prescribed rt k ck t a p c).Accepted rt s t a p c := by
  have hwf := wf_of_reaches hr
  obtain ⟨hc, hck⟩ := hd
  have hat := hwf.thoughts _ _ ht
  obtain ⟨hagent, hagentb⟩ := hwf.agents _ _ ha
  obtain ⟨hpol, hpolb⟩ := hwf.policies _ _ hp
  obtain ⟨hch, hchb⟩ := hwf.challenges _ _ hc
  rw [Runtime.pda_inj, Seeds.policy.injEq] at hpol
  have hchallenger : c.challenger.isPda = false := (wallets_of_reaches hr hw).2 _ _ hc
  exact
    { signed := rfl
      record := ht
      profile := ha
      policyAccount := hp
      dispute := hc
      system := rfl
      writable := ⟨rfl, rfl, rfl, rfl, rfl, rfl, rfl, rfl, rfl⟩
      thought := hat.bump ▸ hat.address
      agent := hagentb ▸ hagent
      agentOf := rfl
      policy := by rw [hpolb, ← hpol]; rfl
      resolver := rfl
      challenge := hchb ▸ hck ▸ hch
      challengeOf := hck
      stakeVault := rfl
      bondVault := rfl
      treasury := rfl
      operator := rfl
      challenged := hst
      unresolved := hun
      challenger := rfl
      distinct := ⟨rt.ne_pda hchallenger (.vault t.agent), rt.ne_pda hchallenger (.bond ck)⟩ }

/-- **Verdicts execute when the vaults are left rent exempt.** In every reachable state with a challenged thought, a
verdict of the policy's resolver goes through under the rent rule exactly when what it leaves in the vaults is zero or
the rent-exempt minimum at least. -/
theorem verdict_executes_iff (hr : Reaches rt slot L h s) (hw : WalletSigned h) {t : ThoughtRecord}
    (ht : s.thoughts k = some t) (hst : t.status = ThoughtStatus.challenged.toU8) :
    ∃ ck c a p, s.Disputes k ck c ∧ c.resolved = false ∧ s.agents t.agent = some a ∧
      s.policies (rt.pda (.policy t.policyId)) = some p ∧
      ((ResolveChallenged.prescribed rt k ck t a p c).Funded rt s.lamports → ∀ verdict,
        ((∃ s', rentStep rt s (.instruction
            (.resolveChallenged (ResolveChallenged.prescribed rt k ck t a p c) verdict)) = some s') ↔
          (ResolveChallenged.prescribed rt k ck t a p c).Executable rt s.lamports a.stakeAmount.toNat c.bond.toNat
            verdict)) := by
  obtain ⟨ck, c, hd, hun⟩ := (ledgerAgrees_of_reaches hr ht).challenged.1 hst
  have hat := (wf_of_reaches hr).thoughts _ _ ht
  obtain ⟨a, ha⟩ := hat.agent
  obtain ⟨p, hp, -⟩ := hat.policy
  have hacc := prescribed_accepted hr hw ht hst hd hun ha hp
  exact ⟨ck, c, a, p, hd, hun, ha, hp, fun hf _ => rentStep_verdict_iff hr hw hacc hf⟩

/-! ## Verdicts that cannot be executed -/

namespace Sample

/-- A policy with a floor of 900000 lamports, and an agent with a stake of 1000000. -/
def thinSetup : List Action :=
  (setupWith { policyArgs with bondMin := 900000 }).set 2
    (.instruction (.registerAgent ⟨signed operator, unsigned agent, unsigned vault, system⟩ 1000000))

def bondVault : Pubkey := chain.pda (.bond (chain.pda (.challenge (thought 0) challenger)))

/-- The first thought disputed with the given bond. -/
def disputeWith (bond : UInt64) : Action :=
  .instruction (.challenge ⟨signed challenger, unsigned (thought 0), unsigned policy,
    unsigned (chain.pda (.challenge (thought 0) challenger)), unsigned bondVault, system⟩ .outputMismatch bond
    commitment)

/-- The agent is the one with the thin stake. -/
def thin : List Action := thinSetup ++ submit 0 ++ [disputeWith 900000]

/-- Somebody sends one lamport to the bond vault. -/
def donated : List Action := setup ++ submit 0 ++ [dispute 0, .transfer treasury bondVault 1]

def verdictAction (verdict : Bool) : Action := .instruction (.resolveChallenged (verdictOn treasury) verdict)

/-- A challenged thought, funded accounts, and a verdict that only the rent rule rejects. -/
def Blocked (s : State) (verdict : Bool) : Prop :=
  (s.thoughts (thought 0)).map (·.status) = some ThoughtStatus.challenged.toU8 ∧
    (verdictOn treasury).Funded chain s.lamports ∧ (step chain s (verdictAction verdict)).isSome = true ∧
      (rentStep chain s (verdictAction verdict)).isSome = false

instance (s : State) (verdict : Bool) : Decidable (Blocked s verdict) := inferInstanceAs (Decidable (_ ∧ _ ∧ _ ∧ _))

/-- A computed observation of the last state belongs to a run under the rent rule. -/
theorem exists_rentRun {β : Type} (actions : List Action) (f : State → β) (b : β)
    (hf : (perform (rentStep chain) (State.genesis 1000 funds) actions).map (fun r => f r.2) = some b) :
    ∃ h s, RentReaches chain 1000 funds h s ∧ h.map Prod.snd = actions ∧ f s = b := exists_run_of_perform f hf

end Sample

open Sample in
/-- The burned share of a thin stake blocks a guilty verdict, and one lamport given to the bond vault blocks both. -/
theorem verdicts_blocked :
    (∃ h s, RentReaches chain 1000 funds h s ∧ WalletSigned h ∧ Blocked s true) ∧
      ∃ h s, RentReaches chain 1000 funds h s ∧ WalletSigned h ∧ Blocked s true ∧ Blocked s false := by
  constructor
  · obtain ⟨h, s, hr, hacts, hs⟩ := exists_rentRun thin (fun s => decide (Blocked s true)) true (by decide +kernel)
    exact ⟨h, s, hr, walletSigned_iff.2 (hacts ▸ by decide), of_decide_eq_true hs⟩
  · obtain ⟨h, s, hr, hacts, hs⟩ := exists_rentRun donated (fun s => decide (Blocked s true ∧ Blocked s false)) true
      (by decide +kernel)
    exact ⟨h, s, hr, walletSigned_iff.2 (hacts ▸ by decide), of_decide_eq_true hs⟩

open Sample in
theorem verdict_executes_iff_disputed : ∃ h s t, RentReaches chain 1000 funds h s ∧ s.thoughts (thought 0) = some t ∧
    (verdictOn treasury).Funded chain s.lamports ∧ (rentStep chain s (verdictAction true)).isSome = true ∧
      ∃ ck c a p, s.Disputes (thought 0) ck c ∧
        ((ResolveChallenged.prescribed chain (thought 0) ck t a p c).Funded chain s.lamports → ∀ verdict,
          ((∃ s', rentStep chain s (.instruction
              (.resolveChallenged (ResolveChallenged.prescribed chain (thought 0) ck t a p c) verdict)) = some s') ↔
            (ResolveChallenged.prescribed chain (thought 0) ck t a p c).Executable chain s.lamports a.stakeAmount.toNat
              c.bond.toNat verdict)) := by
  obtain ⟨h, s, hr, hacts, hs⟩ := exists_rentRun (setup ++ submit 0 ++ [dispute 0])
    (fun s => ((s.thoughts (thought 0)).map (·.status), decide ((verdictOn treasury).Funded chain s.lamports),
      (rentStep chain s (verdictAction true)).isSome)) (some 1, true, true) (by decide +kernel)
  obtain ⟨hst, hs⟩ := Prod.mk.inj hs
  obtain ⟨hf, hexec⟩ := Prod.mk.inj hs
  obtain ⟨t, ht, hst⟩ := Option.map_eq_some_iff.1 hst
  obtain ⟨ck, c, a, p, hd, -, -, -, hiff⟩ :=
    verdict_executes_iff (reaches_of_rent hr) (walletSigned_iff.2 (hacts ▸ by decide)) ht hst
  exact ⟨h, s, t, hr, ht, of_decide_eq_true hf, hexec, ck, c, a, p, hd, hiff⟩

end ProofOfThought.Program
