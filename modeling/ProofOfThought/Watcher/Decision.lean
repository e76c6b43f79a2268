import ProofOfThought.Program.Payouts
import ProofOfThought.Watcher.Challenge

/-!
# The filing rule

The rule documented for the strategies, over natural numbers, against `decide`. The two agree except where `decide`
ignores what the conservative strategy is said to require, and where the cap is the largest there is and the sum under
it saturates (`decide_follows_iff`).
-/

namespace ProofOfThought.Watcher

open Base
open Program (Bytes32)

/-! ## The rule -/

namespace BondStrategy

/-- The bond of the strategy over the minimum of the policy. -/
def bond : BondStrategy → Nat → Nat
  | .aggressive, bondMin => 2 * bondMin
  | _, bondMin => bondMin

/-- What the strategy asks of the payout, as documented on it. -/
def Worth (payout bond fee : Nat) : BondStrategy → Prop
  | .conservative => 2 * bond + fee ≤ payout ∧ bond + fee < payout
  | .aggressive => bond + fee < payout
  | .disabled => False

theorem bondMin_le_bond (b : BondStrategy) (bondMin : Nat) : bondMin ≤ b.bond bondMin := by
  cases b <;> simp only [bond] <;> omega

end BondStrategy

namespace ChallengeFiler

variable (f : ChallengeFiler) (blake3 : Bytes → Bytes32) (inFlight : UInt64) (call : Call)

/-- The bond of a call. -/
def bondOf : Nat := f.bondStrategy.bond call.policyBondMin.toNat

/-- The rule: what is filed, and when. -/
structure Rule (args : ChallengeArgs) : Prop where
  enabled : f.bondStrategy ≠ .disabled
  fraud : ∃ claim evidenceUri, call.outcome = .mismatch claim evidenceUri ∧ args.claim = claim ∧
    args.evidenceUriHash = blake3 (utf8 evidenceUri)
  thought : args.thoughtPda = call.thoughtPda
  bond : args.bond.toNat = f.bondOf call
  cap : args.bond.toNat + inFlight.toNat ≤ f.maxStakeAtRiskLamports.toNat
  worth : f.bondStrategy.Worth (Program.toChallenger call.agentStakeLamports.toNat) args.bond.toNat
    f.txFeeLamports.toNat

/-- `decide` files by the rule. -/
def FollowsRule : Prop := ∀ args, f.decide blake3 inFlight call = .file args ↔ f.Rule blake3 inFlight call args

/-- The fraud pays for bond and fee. -/
def Pays : Prop :=
  f.bondOf call + f.txFeeLamports.toNat < Program.toChallenger call.agentStakeLamports.toNat

/-- Where `decide` follows the rule: of a fraud that pays, a cap that is the largest there is does not hide a sum
beyond it, and the conservative strategy finds what it asks for. -/
structure Undistorted : Prop where
  cap : f.maxStakeAtRiskLamports.toNat = 2 ^ 64 - 1 → f.bondOf call + inFlight.toNat < 2 ^ 64
  conservative : f.bondStrategy = .conservative →
    f.bondOf call + inFlight.toNat ≤ f.maxStakeAtRiskLamports.toNat →
    2 * f.bondOf call + f.txFeeLamports.toNat ≤ Program.toChallenger call.agentStakeLamports.toNat

/-! ## The numbers of `decide` -/

variable {f blake3 inFlight call}

theorem toNat_bondFor : (f.bondFor call.policyBondMin).toNat = min (f.bondOf call) (2 ^ 64 - 1) := by
  have hlt := call.policyBondMin.toNat_lt
  unfold bondFor bondOf
  cases f.bondStrategy with
  | conservative => simp only [BondStrategy.bond]; omega
  | disabled => simp only [BondStrategy.bond]; omega
  | aggressive => simp only [BondStrategy.bond, toNat_saturatingMul]; omega

/-- The watcher expects what the program pays. -/
theorem expectedPayout_eq (stake : UInt64) : (mulDiv stake 6 10).toNat = Program.toChallenger stake.toNat := by
  rw [toNat_mulDiv stake (by decide), Program.toChallenger]
  omega

theorem toChallenger_lt (stake : UInt64) : Program.toChallenger stake.toNat < 2 ^ 64 - 1 := by
  have := stake.toNat_lt
  unfold Program.toChallenger
  omega

/-- No saturation changes the comparison with the payout. -/
theorem worth_iff : saturatingAdd (f.bondFor call.policyBondMin) f.txFeeLamports < mulDiv call.agentStakeLamports 6 10 ↔
    f.Pays call := by
  have hlt := toChallenger_lt call.agentStakeLamports
  rw [UInt64.lt_iff_toNat_lt, toNat_saturatingAdd, toNat_bondFor, expectedPayout_eq, Pays]
  omega

theorem Pays.bond_lt (h : f.Pays call) : f.bondOf call < 2 ^ 64 - 1 := by
  have hlt := toChallenger_lt call.agentStakeLamports
  unfold Pays at h
  omega

/-- Of a bond that pays, the check of the cap goes wrong only where the sum saturates at the cap. -/
theorem cap_iff (h : f.Pays call) :
    saturatingAdd (f.bondFor call.policyBondMin) inFlight ≤ f.maxStakeAtRiskLamports ↔
      f.bondOf call + inFlight.toNat ≤ f.maxStakeAtRiskLamports.toNat ∨
        f.maxStakeAtRiskLamports.toNat = 2 ^ 64 - 1 ∧ 2 ^ 64 ≤ f.bondOf call + inFlight.toNat := by
  have hb := h.bond_lt
  have hcap := f.maxStakeAtRiskLamports.toNat_lt
  rw [UInt64.le_iff_toNat_le, toNat_saturatingAdd, toNat_bondFor]
  omega

/-- **When `decide` files.** -/
theorem files_iff : f.Files inFlight call ↔ f.bondStrategy ≠ .disabled ∧
    (∃ claim evidenceUri, call.outcome = .mismatch claim evidenceUri) ∧ f.Pays call ∧
      (f.bondOf call + inFlight.toNat ≤ f.maxStakeAtRiskLamports.toNat ∨
        f.maxStakeAtRiskLamports.toNat = 2 ^ 64 - 1 ∧ 2 ^ 64 ≤ f.bondOf call + inFlight.toNat) := by
  constructor
  · intro h
    have hp := worth_iff.1 h.worth
    exact ⟨h.enabled, h.fraud, hp, (cap_iff hp).1 h.cap⟩
  · intro h
    obtain ⟨he, hf, hp, hc⟩ := h
    exact ⟨he, hf, worth_iff.2 hp, (cap_iff hp).2 hc⟩

/-- When the rule files. -/
theorem exists_rule_iff : (∃ args, f.Rule blake3 inFlight call args) ↔ f.bondStrategy ≠ .disabled ∧
    (∃ claim evidenceUri, call.outcome = .mismatch claim evidenceUri) ∧ f.Pays call ∧
      f.bondOf call + inFlight.toNat ≤ f.maxStakeAtRiskLamports.toNat ∧ (f.bondStrategy = .conservative →
        2 * f.bondOf call + f.txFeeLamports.toNat ≤ Program.toChallenger call.agentStakeLamports.toNat) := by
  constructor
  · intro hx
    obtain ⟨args, h⟩ := hx
    obtain ⟨claim, evidenceUri, ho, -, -⟩ := h.fraud
    have hw := h.worth
    have hc := h.cap
    rw [h.bond] at hw hc
    refine ⟨h.enabled, ⟨claim, evidenceUri, ho⟩, ?_, hc, fun hs => ?_⟩
    · unfold Pays
      cases hs : f.bondStrategy with
      | conservative => rw [hs] at hw; exact hw.2
      | aggressive => rw [hs] at hw; exact hw
      | disabled => exact absurd hs h.enabled
    · rw [hs] at hw
      exact hw.1
  · intro h
    obtain ⟨he, ⟨claim, evidenceUri, ho⟩, hp, hc, hcons⟩ := h
    have hbond : (UInt64.ofNat (f.bondOf call)).toNat = f.bondOf call := by
      have := hp.bond_lt
      exact UInt64.toNat_ofNat_of_lt' (Nat.lt_of_lt_of_le this (by decide))
    refine ⟨⟨call.thoughtPda, claim, .ofNat (f.bondOf call), blake3 (utf8 evidenceUri)⟩, he,
      ⟨claim, evidenceUri, ho, rfl, rfl⟩, rfl, hbond, ?_, ?_⟩
    · rw [hbond]
      exact hc
    · rw [hbond]
      cases hs : f.bondStrategy with
      | conservative => exact ⟨hcons hs, hp⟩
      | aggressive => exact hp
      | disabled => exact absurd hs he

/-- The rule leaves no choice. -/
theorem Rule.unique {args args' : ChallengeArgs} (h : f.Rule blake3 inFlight call args)
    (h' : f.Rule blake3 inFlight call args') : args = args' := by
  obtain ⟨thoughtPda, claim, bond, hash⟩ := args
  obtain ⟨thoughtPda', claim', bond', hash'⟩ := args'
  obtain ⟨_, _, ho, rfl, rfl⟩ := h.fraud
  obtain ⟨_, _, ho', rfl, rfl⟩ := h'.fraud
  obtain ⟨rfl, rfl⟩ := VerifyOutcome.mismatch.inj (ho.symm.trans ho')
  obtain rfl : thoughtPda = thoughtPda' := h.thought.trans h'.thought.symm
  obtain rfl : bond = bond' := UInt64.toNat_inj.1 (h.bond.trans h'.bond.symm)
  rfl

/-- What the rule files is filed, where anything is. -/
theorem Rule.decide_eq {args : ChallengeArgs} (h : f.Rule blake3 inFlight call args) (hf : f.Files inFlight call) :
    f.decide blake3 inFlight call = .file args := by
  have hp := (exists_rule_iff.1 ⟨args, h⟩).2.2.1
  obtain ⟨thoughtPda, claim, bond, hash⟩ := args
  obtain ⟨claim, evidenceUri, ho, rfl, rfl⟩ := h.fraud
  obtain rfl : thoughtPda = call.thoughtPda := h.thought
  have hbond : bond = f.bondFor call.policyBondMin := by
    have hlt := hp.bond_lt
    apply UInt64.toNat_inj.1
    rw [toNat_bondFor, show bond.toNat = f.bondOf call from h.bond]
    omega
  exact decide_eq_file.2 ⟨hf, _, evidenceUri, ho, by rw [hbond]⟩

/-- To follow the rule is to file when the rule does. -/
theorem followsRule_iff : f.FollowsRule blake3 inFlight call ↔
    (f.Files inFlight call ↔ ∃ args, f.Rule blake3 inFlight call args) := by
  have hfile : f.Files inFlight call → ∃ args, f.decide blake3 inFlight call = .file args := by
    intro hf
    obtain ⟨claim, evidenceUri, ho⟩ := hf.fraud
    exact ⟨_, decide_eq_file.2 ⟨hf, claim, evidenceUri, ho, rfl⟩⟩
  constructor
  · intro h
    constructor
    · intro hf
      obtain ⟨args, hd⟩ := hfile hf
      exact ⟨args, (h args).1 hd⟩
    · intro hx
      obtain ⟨args, hr⟩ := hx
      exact (decide_file ((h args).2 hr)).1
  · intro h args
    constructor
    · intro hd
      have hf := (decide_file hd).1
      obtain ⟨args', hr⟩ := h.1 hf
      obtain rfl : args' = args := FileDecision.file.inj ((hr.decide_eq hf).symm.trans hd)
      exact hr
    · intro hr
      exact hr.decide_eq (h.2 ⟨args, hr⟩)

end ChallengeFiler

/-! ## The payout -/

/-- What a guilty verdict pays the challenger out of the stake is what the watcher expects, and nobody but the treasury
is paid out of the rest. -/
theorem pays_expected {rt : Program.Runtime} {s s' : Program.State} {ctx : Program.ResolveChallenged}
    {evs : List Program.Event} {a : Program.AgentProfile}
    (h : Program.resolveChallenged rt s ctx true = .ok (s', evs)) (ha : s.agents ctx.agent.key = some a) :
    ∃ rest, s'.lamports =
        s.lamports.pay (⟨ctx.stakeVault.key, ctx.challenger.key, (mulDiv a.stakeAmount 6 10).toNat⟩ :: rest) ∧
      ∀ p ∈ rest, p.src = ctx.stakeVault.key → p.dst = ctx.treasury.key := by
  obtain ⟨t, a', p, c, hacc, -, -, rfl⟩ := Program.resolveChallenged_guilty_eq_ok.1 h
  obtain rfl : a = a' := Option.some.inj (ha.symm.trans hacc.profile)
  refine ⟨[⟨ctx.stakeVault.key, ctx.treasury.key, Program.toTreasury a.stakeAmount.toNat⟩,
    ⟨ctx.bondVault.key, ctx.challenger.key, c.bond.toNat⟩], ?_, ?_⟩
  · rw [ChallengeFiler.expectedPayout_eq]
    rfl
  · intro q hq hsrc
    simp only [List.mem_cons, List.not_mem_nil, or_false] at hq
    rcases hq with rfl | rfl
    · rfl
    · exact absurd hsrc.symm (Program.stakeVault_ne_bondVault hacc.toValid)

/-! ## The decision -/

/-- **The filing decision.** `decide` follows the rule of its strategy exactly where a fraud that pays meets neither of
two distortions. The bond is at least the minimum, and the payout is 60% of the stake, which is what the program pays
out of it. -/
theorem decide_follows_iff (f : ChallengeFiler) (blake3 : Bytes → Bytes32) (inFlight : UInt64) (call : Call) :
    (f.FollowsRule blake3 inFlight call ↔
      (f.bondStrategy ≠ .disabled → (∃ claim evidenceUri, call.outcome = .mismatch claim evidenceUri) →
        f.Pays call → f.Undistorted inFlight call)) ∧
    call.policyBondMin.toNat ≤ f.bondOf call ∧
    Program.toChallenger call.agentStakeLamports.toNat = 60 * call.agentStakeLamports.toNat / 100 ∧
    ∀ (rt : Program.Runtime) (s s' : Program.State) (ctx : Program.ResolveChallenged) (evs : List Program.Event)
      (a : Program.AgentProfile), Program.resolveChallenged rt s ctx true = .ok (s', evs) →
      s.agents ctx.agent.key = some a → a.stakeAmount = call.agentStakeLamports →
      ∃ rest, s'.lamports = s.lamports.pay (⟨ctx.stakeVault.key, ctx.challenger.key,
          Program.toChallenger call.agentStakeLamports.toNat⟩ :: rest) ∧
        ∀ p ∈ rest, p.src = ctx.stakeVault.key → p.dst = ctx.treasury.key := by
  refine ⟨?_, f.bondStrategy.bondMin_le_bond _, ?_, ?_⟩
  · rw [ChallengeFiler.followsRule_iff, ChallengeFiler.files_iff, ChallengeFiler.exists_rule_iff]
    have hcap := f.maxStakeAtRiskLamports.toNat_lt
    constructor
    · intro h he hf hp
      constructor
      · intro hmax
        by_contra hlt
        have := (h.1 ⟨he, hf, hp, .inr ⟨hmax, by omega⟩⟩).2.2.2.1
        omega
      · intro hs hle
        exact (h.1 ⟨he, hf, hp, .inl hle⟩).2.2.2.2 hs
    · intro h
      constructor
      · intro hx
        obtain ⟨he, hf, hp, hc⟩ := hx
        have hu := h he hf hp
        have hle : f.bondOf call + inFlight.toNat ≤ f.maxStakeAtRiskLamports.toNat := by
          rcases hc with hc | ⟨hmax, hge⟩
          · exact hc
          · have := hu.cap hmax
            omega
        exact ⟨he, hf, hp, hle, fun hs => hu.conservative hs hle⟩
      · intro hx
        obtain ⟨he, hf, hp, hle, -⟩ := hx
        exact ⟨he, hf, hp, .inl hle⟩
  · rw [Program.toChallenger, Nat.mul_comm]
  · intro rt s s' ctx evs a hres ha hstake
    obtain ⟨rest, hL, hrest⟩ := pays_expected hres ha
    rw [ChallengeFiler.expectedPayout_eq, hstake] at hL
    exact ⟨rest, hL, hrest⟩

namespace Sample

/-- A fraud on a stake of one SOL, and the minimum bond of half a SOL. -/
def thinFraud : Call where
  outcome := .mismatch .inconsistentCommitments "ar://trace"
  agentStakeLamports := 1000000000
  thoughtPda := List.Vector.replicate 32 7
  policyBondMin := 500000000

/-- The conservative filer with a cap of ten SOL. -/
def cautious : ChallengeFiler := .new .conservative 10000000000

end Sample

open Sample in
/-- The payout of 0.6 SOL is less than twice the bond, and the conservative filer files. -/
theorem conservative_files_below : ¬∀ (f : ChallengeFiler) (blake3 : Bytes → Bytes32) (inFlight : UInt64) (call : Call),
    f.FollowsRule blake3 inFlight call := by
  intro h
  have hf := h cautious digest 0 thinFraud
  obtain ⟨args, hd⟩ : ∃ args, cautious.decide digest 0 thinFraud = .file args := ⟨_, rfl⟩
  have hw := ((hf args).1 hd).worth.1
  rw [((hf args).1 hd).bond] at hw
  exact absurd hw (by decide)

open Sample Program.Sample in
/-- The theorem at a call about the agent of a dispute that a guilty verdict resolves. -/
theorem decide_follows_iff_resolved : ∃ (s s' : Program.State) (evs : List Program.Event) (a : Program.AgentProfile),
    Program.resolveChallenged chain s (verdictOn treasury) true = .ok (s', evs) ∧
      ∃ rest, s'.lamports = s.lamports.pay (⟨(verdictOn treasury).stakeVault.key, (verdictOn treasury).challenger.key,
          Program.toChallenger a.stakeAmount.toNat⟩ :: rest) ∧
        ∀ p ∈ rest, p.src = (verdictOn treasury).stakeVault.key → p.dst = (verdictOn treasury).treasury.key := by
  obtain ⟨h, s, -, -, hs⟩ := exists_run (setup ++ submit 0 ++ [dispute 0])
    (fun s => (Program.resolveChallenged chain s (verdictOn treasury) true).toOption.isSome) true (by decide +kernel)
  obtain ⟨r, hres⟩ := exists_eq_ok hs
  obtain ⟨s', evs⟩ := r
  obtain ⟨t, a, p, c, hacc, -⟩ := Program.resolveChallenged_guilty_eq_ok.1 hres
  let call : Call := { thinFraud with agentStakeLamports := a.stakeAmount }
  obtain ⟨-, -, -, hpays⟩ := decide_follows_iff cautious digest 0 call
  exact ⟨s, s', evs, a, hres, hpays chain s s' _ evs a hres hacc.profile rfl⟩

end ProofOfThought.Watcher
