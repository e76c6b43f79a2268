import ProofOfThought.Program.Lifecycle
import ProofOfThought.Program.Submission

/-!
# The consumption gate

What a successful `consume_thought` says about the whole history: the action and the policy are the submitted ones, the
thought is fresh, it was finalized by its own path, and no verdict on it is ever guilty (`consumption_gate`).
-/

namespace ProofOfThought.Program

open Base

variable {rt : Runtime} {s m : State} {k : Pubkey} {slot : UInt64} {L : Ledger Pubkey}
  {h h₁ h₂ : List (State × Action)} {t : ThoughtRecord}

/-- The thought at `k` lapsed: it was finalized at or after the deadline, and no challenge was ever opened on it. -/
def Lapsed (k : Pubkey) (deadline : Nat) (before h : List (State × Action)) : Prop :=
  (∃ x ∈ before, ∃ ctx, x.2 = .instruction (.resolveUnchallenged ctx) ∧ ctx.thought.key = k ∧
    deadline ≤ x.1.slot.toNat) ∧
  ∀ x ∈ h, ∀ ctx claim bond evidenceUriHash, x.2 = .instruction (.challenge ctx claim bond evidenceUriHash) →
    ctx.thought.key ≠ k

/-- A challenge of the thought at `k` was dismissed, with the signature of the resolver. -/
def Dismissed (k resolver : Pubkey) (before : List (State × Action)) : Prop :=
  ∃ x ∈ before, ∃ ctx, x.2 = .instruction (.resolveChallenged ctx false) ∧ ctx.thought.key = k ∧
    ctx.resolver.isSigner = true ∧ ctx.resolver.key = resolver

/-- What a consumption in the state `m`, after `before` and within the history `h`, says. -/
structure Gate (h : List (State × Action)) (ctx : ConsumeThought) (sub : Submission rt slot L h₁ m ctx.thought.key t) :
    Prop where
  action : ctx.action.key = sub.args.actionPda
  policy : ctx.policy.key = sub.ctx.policy.key ∧ m.policies ctx.policy.key = some sub.policy
  age : sub.state.slot ≤ m.slot ∧ m.slot.toNat - sub.state.slot.toNat ≤ sub.policy.maxActionAgeSlots.toNat
  finalized : Lapsed ctx.thought.key (sub.state.slot.toNat + sub.policy.challengeWindowSlots.toNat) h₁ h ∨
    Dismissed ctx.thought.key sub.policy.resolver h₁
  innocent : ∀ x ∈ h, ∀ ctx', x.2 = .instruction (.resolveChallenged ctx' true) → ctx'.thought.key ≠ ctx.thought.key

/-- The rulings that a finalized thought has had, and ever has. -/
theorem finalized_rulings (hr : Reaches rt slot L h₁ m) (ht : m.thoughts k = some t)
    (hst : t.status = ThoughtStatus.finalized.toU8) (hr₂ : Run (step rt) m h₂ s) :
    countRulings k .convict (h₁ ++ h₂) = 0 ∧
      (0 < countRulings k .lapse h₁ ∧ countRulings k .dispute (h₁ ++ h₂) = 0 ∨ 0 < countRulings k .acquit h₁) := by
  obtain ⟨o, hA, hcount⟩ := exists_phase hr k
  obtain ⟨φ, rfl, hφ⟩ := hA.phase ht hst
  cases φ <;> simp only [phaseStatus, reduceCtorEq] at hφ
  rename_i c
  obtain ⟨o', hA', hcount'⟩ := exists_phase (hr.append hr₂) k
  obtain rfl := hA'.unique (agrees_settled hA rfl hr₂)
  rw [hcount, hcount, hcount', hcount']
  cases c <;> simp [Phase.count]

/-- A verdict or a lapse is about the record of the submission, under its policy. -/
theorem Submission.same_policy (sub : Submission rt slot L h s k t) {h₀ hrest : List (State × Action)} {m₀ : State}
    (hm₀ : Reaches rt slot L h₀ m₀) (hrest : Run (step rt) m₀ hrest s) {t₀ : ThoughtRecord}
    (ht₀ : m₀.thoughts k = some t₀) (ht : s.thoughts k = some t) :
    SameCommitment t₀ t ∧ m₀.policies (rt.pda (.policy t.policyId)) = some sub.policy ∧
      sub.state.slot.toNat + sub.policy.challengeWindowSlots.toNat = t₀.challengeDeadlineSlot.toNat := by
  obtain ⟨t', ht', hsame⟩ := Run.thoughts hrest _ _ ht₀
  obtain rfl : t' = t := Option.some.inj (ht'.symm.trans ht)
  have hpid : t₀.policyId = t'.policyId := hsame.field (·.policyId) fun _ => rfl
  obtain ⟨p₀, hp₀, -⟩ := ((wf_of_reaches hm₀).thoughts _ _ ht₀).policy
  rw [hpid] at hp₀
  obtain ⟨p', hp', rfl⟩ := Run.policies hrest _ _ hp₀
  obtain rfl : p₀ = sub.policy := Option.some.inj (hp'.symm.trans sub.policyNow)
  refine ⟨hsame, hp₀, ?_⟩
  have hdl : sub.deadline = t₀.challengeDeadlineSlot :=
    (sub.same.field (·.challengeDeadlineSlot) fun _ => rfl).trans
      (hsame.field (·.challengeDeadlineSlot) fun _ => rfl).symm
  rw [← hdl]
  exact sub.accepted.deadline

theorem lapsed_of_count (sub : Submission rt slot L h₁ m k t) (hm : Reaches rt slot L h₁ m)
    (ht : m.thoughts k = some t) (hlapse : 0 < countRulings k .lapse h₁) (hdispute : countRulings k .dispute h = 0) :
    Lapsed k (sub.state.slot.toNat + sub.policy.challengeWindowSlots.toNat) h₁ h := by
  constructor
  · obtain ⟨⟨m₀, a₀⟩, hx, r, hr, hk⟩ := countRulings_pos.1 hlapse
    obtain ⟨ctx, rfl, rfl⟩ := ruling_lapse hr hk
    obtain ⟨hb, hf, m₁, rfl, hm₀, ha₀, hrest⟩ := hm.mem hx
    refine ⟨_, hx, ctx, rfl, rfl, ?_⟩
    cases step_effect ha₀ with
    | @resolveUnchallenged _ t₀ a hacc =>
      obtain ⟨-, -, hd⟩ := sub.same_policy hm₀ ((Run.single ha₀).append hrest) hacc.record ht
      rw [hd]
      exact UInt64.le_iff_toNat_le.1 hacc.deadline
  · intro x hx ctx claim bond evidenceUriHash hact hk
    refine countRulings_eq_zero.1 hdispute x hx (.dispute ctx.challenge.key) ?_ rfl
    rw [hact]
    exact if_pos hk

theorem dismissed_of_count (sub : Submission rt slot L h₁ m k t) (hm : Reaches rt slot L h₁ m)
    (ht : m.thoughts k = some t) (hacquit : 0 < countRulings k .acquit h₁) : Dismissed k sub.policy.resolver h₁ := by
  obtain ⟨⟨m₀, a₀⟩, hx, r, hr, hk⟩ := countRulings_pos.1 hacquit
  obtain ⟨ctx, rfl, rfl⟩ := ruling_acquit hr hk
  obtain ⟨hb, hf, m₁, rfl, hm₀, ha₀, hrest⟩ := hm.mem hx
  refine ⟨_, hx, ctx, rfl, rfl, ?_⟩
  cases step_effect ha₀ with
  | @innocent _ t₀ a p₀ c hacc _ =>
    obtain ⟨hsame, hp₀, -⟩ := sub.same_policy hm₀ ((Run.single ha₀).append hrest) hacc.record ht
    have hpid : t₀.policyId = t.policyId := hsame.field (·.policyId) fun _ => rfl
    have hkey := (wf_of_reaches hm₀).policy_key hacc.policyAccount hacc.policy
    rw [hpid] at hkey
    obtain rfl : p₀ = sub.policy := Option.some.inj ((hkey ▸ hacc.policyAccount).symm.trans hp₀)
    exact ⟨hacc.signed, hacc.resolver.symm⟩

/-- A consumption finds a finalized record: no record is ever verified by attestation. -/
theorem finalized_of_consumed {ctx : ConsumeThought} {p : Policy} {n : UInt32} (hm : Reaches rt slot L h₁ m)
    (hacc : ctx.Accepted m t p n) : t.status = ThoughtStatus.finalized.toU8 := by
  obtain ⟨st, hst, rfl | hatt⟩ := hacc.ready
  · exact hst
  · rw [((wf_of_reaches hm).thoughts _ _ hacc.record).attestation] at hatt
    cases hatt

/-- **Consumption gate.** Every successful `consume_thought` of a run passes the gate of the thought's submission. -/
theorem consumption_gate {ctx : ConsumeThought}
    (hr : Reaches rt slot L (h₁ ++ (m, .instruction (.consumeThought ctx)) :: h₂) s) :
    ∃ t, ∃ sub : Submission rt slot L h₁ m ctx.thought.key t,
      Gate (h₁ ++ (m, .instruction (.consumeThought ctx)) :: h₂) ctx sub := by
  obtain ⟨m', hm, ha, hrest⟩ := hr.split_cons
  have htail : Run (step rt) m ((m, .instruction (.consumeThought ctx)) :: h₂) s := (Run.single ha).append hrest
  cases step_effect ha with
  | @consumeThought _ t p n hacc =>
    obtain ⟨sub⟩ := exists_submission hm hacc.record
    have hkey := (wf_of_reaches hm).policy_key hacc.policyAccount hacc.policy
    have hkey₀ := (wf_of_reaches sub.reached).policy_key sub.accepted.policyAccount sub.accepted.policy
    have hpid : sub.args.policyId = t.policyId := sub.same.field (·.policyId) fun _ => rfl
    have hslot : sub.state.slot = t.slot := sub.same.field (·.slot) fun _ => rfl
    have haction : sub.args.actionPda = t.actionPda := sub.same.field (·.actionPda) fun _ => rfl
    have hpol : m.policies ctx.policy.key = some sub.policy := hkey ▸ sub.policyNow
    obtain ⟨hconvict, hfin⟩ := finalized_rulings hm hacc.record (finalized_of_consumed hm hacc) htail
    refine ⟨t, sub, (haction.trans hacc.action).symm, ⟨by rw [hkey, hkey₀, hpid], hpol⟩, ?_, ?_, ?_⟩
    · obtain ⟨age, hage, hle⟩ := hacc.age
      obtain rfl : p = sub.policy := Option.some.inj (hacc.policyAccount.symm.trans hpol)
      have hle' := UInt64.le_iff_toNat_le.1 hle
      rw [UInt64.le_iff_toNat_le, hslot]
      omega
    · rcases hfin with ⟨hlapse, hdispute⟩ | hacquit
      · exact .inl (lapsed_of_count sub hm hacc.record hlapse hdispute)
      · exact .inr (dismissed_of_count sub hm hacc.record hacquit)
    · intro x hx ctx' hact hk
      refine countRulings_eq_zero.1 hconvict x hx .convict ?_ rfl
      rw [hact]
      exact if_pos hk

open Sample in
theorem consumption_gate_lapsed :
    ∃ h m s t, Reaches chain 1000 funds (h ++ [(m, .instruction (.consumeThought (consume 0)))]) s ∧
      ∃ sub : Submission chain 1000 funds h m (thought 0) t,
        Gate (h ++ [(m, .instruction (.consumeThought (consume 0)))]) (consume 0) sub := by
  obtain ⟨h, m, hm, -, hs⟩ := exists_run (setup ++ submit 0 ++ [.tick 150, lapse 0])
    (fun s => (step chain s (.instruction (.consumeThought (consume 0)))).isSome) true (by decide +kernel)
  obtain ⟨s, hs⟩ := Option.isSome_iff_exists.1 hs
  have hr := hm.snoc hs
  obtain ⟨t, sub, hgate⟩ := consumption_gate hr
  exact ⟨h, m, s, t, hr, sub, hgate⟩

end ProofOfThought.Program
