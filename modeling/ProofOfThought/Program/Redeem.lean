import ProofOfThought.Program.Consumption
import ProofOfThought.Program.SingleUse
import ProofOfThought.Program.Window

/-!
# From the deadline to the use of a thought

`resolve_unchallenged` waits until `challenge_deadline_slot`; `consume_thought` measures the age of a thought from its
submission. Between the two lies an interval of slots (`redeemableAt_iff`). `register_policy` looks at neither bound
(`RegisterPolicy.Accepted.any_window`), and the interval is empty for every thought of a policy whose window is longer
than its action age (`redeemable_iff`).
-/

namespace ProofOfThought.Program

open Base

variable {rt : Runtime} {s s' m : State} {k : Pubkey} {slot : UInt64} {L : Ledger Pubkey}
  {h h' : List (State × Action)} {t : ThoughtRecord} {p : Policy}

/-- Nobody challenged the thought at `k`. -/
def Unchallenged (k : Pubkey) (h : List (State × Action)) : Prop :=
  ∀ x ∈ h, ∀ ctx claim bond evidenceUriHash, x.2 = .instruction (.challenge ctx claim bond evidenceUriHash) →
    ctx.thought.key ≠ k

/-- When slot `σ` comes, `resolve_unchallenged` of the thought at `k` and then its `consume_thought` both succeed. -/
def RedeemableAt (rt : Runtime) (s : State) (k : Pubkey) (σ : UInt64) : Prop :=
  ∃ n crank ctx s₀ s₁ s₂, step rt s (.tick n) = some s₀ ∧ s₀.slot = σ ∧
    crank.thought.key = k ∧ step rt s₀ (.instruction (.resolveUnchallenged crank)) = some s₁ ∧
    ctx.thought.key = k ∧ step rt s₁ (.instruction (.consumeThought ctx)) = some s₂

/-! ## The policy -/

/-- `register_policy` compares the window and the action age with nothing. -/
theorem RegisterPolicy.Accepted.any_window {ctx : RegisterPolicy} {args : RegisterPolicyArgs}
    (hacc : ctx.Accepted rt s args) (window age : UInt64) :
    ctx.Accepted rt s { args with challengeWindowSlots := window, maxActionAgeSlots := age } :=
  { hacc with }

/-! ## Being prepared -/

/-- What a cranker brings to finalize the record `t` at `k`. -/
structure ResolveUnchallenged.Prepared (ctx : ResolveUnchallenged) (k : Pubkey) (t : ThoughtRecord) : Prop where
  signed : ctx.cranker.isSigner = true
  thought : ctx.thought.key = k
  agent : ctx.agent.key = t.agent
  writable : ctx.cranker.isWritable = true ∧ ctx.thought.isWritable = true ∧ ctx.agent.isWritable = true

/-- Whoever is prepared can finalize a pending record from its deadline on. -/
theorem resolvable_of_pending {ctx : ResolveUnchallenged} (hwf : s.Wf rt) (ht : s.thoughts k = some t)
    (hp : t.status = ThoughtStatus.pending.toU8) (hd : t.challengeDeadlineSlot ≤ s.slot)
    (hprep : ctx.Prepared k t) : ∃ a, ctx.Accepted s t a := by
  have hat := hwf.thoughts _ _ ht
  obtain ⟨a, ha⟩ := hat.agent
  obtain ⟨hkey, hbump⟩ := hwf.agents _ _ ha
  refine ⟨a, ?_⟩
  exact
    { signed := hprep.signed
      record := hprep.thought ▸ ht
      profile := hprep.agent ▸ ha
      writable := hprep.writable
      thought := by rw [hprep.thought, hat.bump]; exact hat.address
      agent := by rw [hprep.agent, hbump]; exact hkey
      agentOf := hprep.agent
      pending := hp
      deadline := hd }

theorem ResolveUnchallenged.Accepted.step_eq {ctx : ResolveUnchallenged} {a : AgentProfile}
    (hacc : ctx.Accepted s t a) :
    step rt s (.instruction (.resolveUnchallenged ctx)) = some (ctx.after s t a) :=
  step_instruction.2 ⟨_, resolveUnchallenged_eq_ok.2 ⟨t, a, hacc, rfl, rfl⟩⟩

/-! ## The interval -/

/-- A pending record was never consumed: a consumption finds it finalized, and it would have stayed so. -/
theorem unconsumed_of_pending (hr : Reaches rt slot L h s) (ht : s.thoughts k = some t)
    (hp : t.status = ThoughtStatus.pending.toU8) : t.consumedCount = 0 := by
  have hnone : consumptions k h = 0 := by
    apply List.countP_eq_zero.2
    intro x hx hc
    obtain ⟨m, act⟩ := x
    obtain ⟨h₁, h₂, m', -, hm, ha, hrest⟩ := hr.mem hx
    cases step_effect ha with
    | @consumeThought ctx t₀ p n hacc =>
      obtain rfl : ctx.thought.key = k := of_decide_eq_true hc
      have hfin := finalized_of_consumed hm hacc
      have hnew : (ctx.after m t₀ n).thoughts ctx.thought.key = some { t₀ with consumedCount := n } :=
        write_eq_some.2 (.inl ⟨rfl, rfl⟩)
      obtain ⟨t', ht', hst⟩ := settled_forever (hm.snoc ha) hnew (.inl hfin) hrest
      obtain rfl : t' = t := Option.some.inj (ht'.symm.trans ht)
      rw [hp] at hst
      exact absurd (toU8_inj.1 (hst.trans hfin)) nofun
    | _ => cases hc
  have hcount := count_eq hr k
  rw [hnone, countOf, readOr_of_some ht] at hcount
  exact UInt32.toNat_inj.1 hcount

/-- What a redemption finds: the slot is one still to come, past the deadline and within the action age. -/
theorem interval_of_redeemableAt {σ : UInt64} (hr : Reaches rt slot L h s) (ht : s.thoughts k = some t)
    (hpol : s.policies (rt.pda (.policy t.policyId)) = some p) (hred : RedeemableAt rt s k σ) :
    s.slot ≤ σ ∧ t.challengeDeadlineSlot ≤ σ ∧ σ.toNat ≤ t.slot.toNat + p.maxActionAgeSlots.toNat := by
  obtain ⟨n, crank, ctx, s₀, s₁, s₂, htick, hσ, rfl, hcrank, hkey, hcons⟩ := hred
  have hslot := (step_effect htick).slot_le
  rw [← hσ]
  cases step_effect htick with
  | tick hsum =>
    cases step_effect hcrank with
    | @resolveUnchallenged _ t₁ a hres =>
      obtain rfl : t₁ = t := Option.some.inj (hres.record.symm.trans ht)
      refine ⟨hslot, hres.deadline, ?_⟩
      cases step_effect hcons with
      | @consumeThought _ t₂ p₂ n₂ hacc =>
        have hrec : t₂ = { t₁ with status := ThoughtStatus.finalized.toU8 } :=
          Option.some.inj (hacc.record.symm.trans (write_eq_some.2 (.inl ⟨hkey, rfl⟩)))
        have hwf := wf_of_reaches ((hr.snoc htick).snoc hcrank)
        obtain rfl : p₂ = p := hacc.policy_eq hwf (by rw [hrec]; exact hpol)
        obtain ⟨age, hage, hle⟩ := hacc.age
        have hle' := UInt64.le_iff_toNat_le.1 hle
        have hslot₂ : t₂.slot = t₁.slot := by rw [hrec]
        rw [hslot₂] at hage
        exact hage.le.trans (by omega)

/-- At every such slot a pending record is redeemed by whoever is prepared. -/
theorem redeemableAt_of_interval {σ : UInt64} (hr : Reaches rt slot L h s) (ht : s.thoughts k = some t)
    (hp : t.status = ThoughtStatus.pending.toU8) (hpol : s.policies (rt.pda (.policy t.policyId)) = some p)
    (hs : s.slot ≤ σ) (hd : t.challengeDeadlineSlot ≤ σ)
    (hage : σ.toNat ≤ t.slot.toNat + p.maxActionAgeSlots.toNat) : RedeemableAt rt s k σ := by
  obtain ⟨n, hn⟩ := exists_toNat_sub (UInt64.le_iff_toNat_le.1 hs)
  have htick : step rt s (.tick n) = some { s with slot := σ } := by
    simp only [step, Option.map_eq_some_iff, checkedAdd_eq_some]
    exact ⟨σ, by omega, rfl⟩
  let someone : AccountInfo := ⟨systemProgramId, true, true⟩
  let crank : ResolveUnchallenged := ⟨someone, ⟨k, false, true⟩, ⟨t.agent, false, true⟩⟩
  let ctx : ConsumeThought :=
    ⟨someone, ⟨k, false, true⟩, ⟨rt.pda (.policy t.policyId), false, false⟩, ⟨t.actionPda, false, false⟩⟩
  obtain ⟨a, hres⟩ := @resolvable_of_pending rt { s with slot := σ } k t crank
    (wf_of_reaches (hr.snoc htick)) ht hp hd ⟨rfl, rfl, rfl, rfl, rfl, rfl⟩
  have hcrank : step rt _ _ = some _ := hres.step_eq
  have hzero := unconsumed_of_pending hr ht hp
  have hacc : ctx.Accepted (crank.after { s with slot := σ } t a)
      { t with status := ThoughtStatus.finalized.toU8 } p 1 :=
    consumable_of_finalized (wf_of_reaches ((hr.snoc htick).snoc hcrank)) (write_eq_some.2 (.inl ⟨rfl, rfl⟩)) rfl hpol
      hage (by rw [hzero]; rfl) ⟨rfl, rfl, rfl, rfl, rfl⟩
  exact ⟨n, crank, ctx, _, _, _, htick, rfl, rfl, hcrank, rfl, hacc.step_eq⟩

/-- **The interval.** A pending record can be finalized and consumed at the slots still to come from its deadline up to
its action age. -/
theorem redeemableAt_iff (hr : Reaches rt slot L h s) (ht : s.thoughts k = some t)
    (hp : t.status = ThoughtStatus.pending.toU8) (hpol : s.policies (rt.pda (.policy t.policyId)) = some p)
    (σ : UInt64) :
    RedeemableAt rt s k σ ↔
      s.slot ≤ σ ∧ t.challengeDeadlineSlot ≤ σ ∧ σ.toNat ≤ t.slot.toNat + p.maxActionAgeSlots.toNat := by
  constructor
  · intro hred
    exact interval_of_redeemableAt hr ht hpol hred
  · intro hσ
    rcases hσ with ⟨hs, hd, hage⟩
    exact redeemableAt_of_interval hr ht hp hpol hs hd hage

/-! ## Runs without a challenge -/

/-- A consumption that no challenge came before falls into the interval. -/
theorem interval_of_consumed {ctx : ConsumeThought} {n : UInt32} (hm : Reaches rt slot L h m)
    (hquiet : countRulings ctx.thought.key .dispute h = 0) (hacc : ctx.Accepted m t p n) :
    t.challengeDeadlineSlot ≤ m.slot ∧ m.slot.toNat ≤ t.slot.toNat + p.maxActionAgeSlots.toNat := by
  have hnone : countRulings ctx.thought.key .acquit h = 0 := by
    obtain ⟨o, -, hcount⟩ := exists_phase hm ctx.thought.key
    have hle := count_acquit_le_dispute o
    rw [← hcount, ← hcount, hquiet] at hle
    exact Nat.le_zero.1 hle
  have hdismissed : ∀ x ∈ h, DismissedInTime ctx.thought.key x := by
    intro x hx ctx' _ hact hk
    refine absurd rfl (countRulings_eq_zero.1 hnone x hx .acquit ?_)
    rw [hact]
    exact if_pos hk
  constructor
  · exact finalizedInTime_of_reaches hm hdismissed t hacc.record (finalized_of_consumed hm hacc)
  · obtain ⟨age, hage, hle⟩ := hacc.age
    have hle' := UInt64.le_iff_toNat_le.1 hle
    omega

theorem Unchallenged.dispute_eq_zero (hq : Unchallenged k h) : countRulings k .dispute h = 0 := by
  apply countRulings_eq_zero.2
  intro x hx r hr hκ
  obtain ⟨ctx, claim, bond, evidenceUriHash, hact, hk⟩ := ruling_dispute hr hκ
  exact hq x hx ctx claim bond evidenceUriHash hact hk

/-! ## What a submission promises -/

/-- The record of a submission under the policy `p`, in a state `s` at or after it. -/
structure Promised (rt : Runtime) (m s : State) (t : ThoughtRecord) (p : Policy) : Prop where
  slot : t.slot = m.slot
  deadline : m.slot.toNat + p.challengeWindowSlots.toNat = t.challengeDeadlineSlot.toNat
  policy : s.policies (rt.pda (.policy t.policyId)) = some p

theorem promised_of_submitted {ctx : SubmitThought} {args : ThoughtRecordArgs} {traceUri : String}
    (hm : Reaches rt slot L h m) (ha : step rt m (.instruction (.submitThought ctx args traceUri)) = some s)
    (hp : m.policies ctx.policy.key = some p) :
    m.thoughts ctx.thought.key = none ∧ s.slot = m.slot ∧
      ∃ t, s.thoughts ctx.thought.key = some t ∧ t.status = ThoughtStatus.pending.toU8 ∧ Promised rt m s t p := by
  cases step_effect ha with
  | @submitThought _ _ _ a p' v d n hacc =>
    obtain rfl : p' = p := Option.some.inj (hacc.policyAccount.symm.trans hp)
    have hkey := (wf_of_reaches hm).policy_key hacc.policyAccount hacc.policy
    exact ⟨hacc.fresh, rfl, _, write_eq_some.2 (.inl ⟨rfl, rfl⟩), rfl, rfl, hacc.deadline, hkey ▸ hp⟩

/-- The promise stays in every continuation. -/
theorem Promised.run {t' : ThoughtRecord} (hpr : Promised rt m s t p) (hr : Run (step rt) s h s')
    (ht : s.thoughts k = some t) (ht' : s'.thoughts k = some t') : Promised rt m s' t' p := by
  obtain ⟨t₁, ht₁, hsame⟩ := Run.thoughts hr _ _ ht
  obtain rfl : t₁ = t' := Option.some.inj (ht₁.symm.trans ht')
  obtain ⟨p', hp', rfl⟩ := Run.policies hr _ _ hpr.policy
  have hslot : t.slot = t₁.slot := hsame.field (·.slot) fun _ => rfl
  have hdl : t.challengeDeadlineSlot = t₁.challengeDeadlineSlot := hsame.field (·.challengeDeadlineSlot) fun _ => rfl
  have hpid : t.policyId = t₁.policyId := hsame.field (·.policyId) fun _ => rfl
  exact ⟨hslot ▸ hpr.slot, hdl ▸ hpr.deadline, hpid ▸ hp'⟩

/-- A thought is consumed, unchallenged, only under a policy whose window is within its action age. -/
theorem window_le_of_consumed {ctx : SubmitThought} {args : ThoughtRecordArgs} {traceUri : String}
    (hm : Reaches rt slot L h m) (ha : step rt m (.instruction (.submitThought ctx args traceUri)) = some s)
    (hp : m.policies ctx.policy.key = some p) (hr : Run (step rt) s h' s') (hq : Unchallenged ctx.thought.key h')
    (hc : 0 < consumptions ctx.thought.key h') : p.challengeWindowSlots ≤ p.maxActionAgeSlots := by
  obtain ⟨hfresh, -, t, ht, -, hpr⟩ := promised_of_submitted hm ha hp
  obtain ⟨⟨m', act⟩, hx, hact⟩ := List.countP_pos_iff.1 hc
  obtain ⟨h₁, h₂, m'', rfl, hr₁, ha', -⟩ := hr.mem hx
  cases step_effect ha' with
  | @consumeThought ctx' t' p' n hacc =>
    have hkey : ctx'.thought.key = ctx.thought.key := of_decide_eq_true hact
    have hm' := (hm.snoc ha).append hr₁
    have hquiet : countRulings ctx'.thought.key .dispute
        (h ++ [(m, .instruction (.submitThought ctx args traceUri))] ++ h₁) = 0 := by
      -- before the submission there was no record to challenge
      have hbefore : countRulings ctx.thought.key .dispute h = 0 := by
        obtain ⟨o, hA, hcount⟩ := exists_phase hm ctx.thought.key
        rw [hcount, hA.none_of_fresh hfresh]
        rfl
      have hafter : Unchallenged ctx.thought.key h₁ := fun x hx => hq x (List.mem_append_left _ hx)
      have hsubmit : countRulings ctx.thought.key .dispute
          [(m, .instruction (.submitThought ctx args traceUri))] = 0 := by
        simp [countRulings, rulings, Action.ruling, Ruling.kind]
      rw [hkey, countRulings_append, countRulings_append, hbefore, hafter.dispute_eq_zero, hsubmit]
    obtain ⟨hd, hage⟩ := interval_of_consumed hm' hquiet hacc
    have hpr' := hpr.run hr₁ ht (hkey ▸ hacc.record)
    obtain rfl : p' = p := hacc.policy_eq (wf_of_reaches hm') hpr'.policy
    have hsum := hpr'.deadline
    have hslot := hpr'.slot
    rw [UInt64.le_iff_toNat_le] at hd ⊢
    rw [hslot] at hage
    omega
  | _ => cases hact

/-- A redemption is a run in which nobody challenges and the thought is consumed. -/
theorem RedeemableAt.run {σ : UInt64} (hred : RedeemableAt rt s k σ) :
    ∃ h s', Run (step rt) s h s' ∧ Unchallenged k h ∧ 0 < consumptions k h := by
  obtain ⟨n, crank, ctx, s₀, s₁, s₂, htick, -, -, hcrank, hkey, hcons⟩ := hred
  refine ⟨_, s₂, ((Run.single htick).snoc hcrank).snoc hcons, ?_, ?_⟩
  · intro x hx ctx' claim bond evidenceUriHash hact
    simp only [List.cons_append, List.nil_append, List.mem_cons, List.not_mem_nil, or_false] at hx
    rcases hx with rfl | rfl | rfl <;> cases hact
  · simp [consumptions, Action.consumes, hkey]

/-- **Finalizable and consumable.** A thought that nobody challenges can be finalized and then consumed at some slot
exactly when the window of its policy is within its action age. The slots are those from the deadline to the action
age; of a thought still pending later, those that have not passed; and without such a slot no run ever consumes it. -/
theorem redeemable_iff {ctx : SubmitThought} {args : ThoughtRecordArgs} {traceUri : String}
    (hm : Reaches rt slot L h m) (ha : step rt m (.instruction (.submitThought ctx args traceUri)) = some s)
    (hp : m.policies ctx.policy.key = some p) :
    ((∃ σ, RedeemableAt rt s ctx.thought.key σ) ↔ p.challengeWindowSlots ≤ p.maxActionAgeSlots) ∧
      (∀ σ, RedeemableAt rt s ctx.thought.key σ ↔
        m.slot.toNat + p.challengeWindowSlots.toNat ≤ σ.toNat ∧
          σ.toNat ≤ m.slot.toNat + p.maxActionAgeSlots.toNat) ∧
      (∀ h' s' t, Run (step rt) s h' s' → s'.thoughts ctx.thought.key = some t →
        t.status = ThoughtStatus.pending.toU8 → ∀ σ, RedeemableAt rt s' ctx.thought.key σ ↔
          s'.slot ≤ σ ∧ m.slot.toNat + p.challengeWindowSlots.toNat ≤ σ.toNat ∧
            σ.toNat ≤ m.slot.toNat + p.maxActionAgeSlots.toNat) ∧
      ((∃ h' s', Run (step rt) s h' s' ∧ Unchallenged ctx.thought.key h' ∧ 0 < consumptions ctx.thought.key h') ↔
        p.challengeWindowSlots ≤ p.maxActionAgeSlots) := by
  obtain ⟨-, hslot, t, ht, hpend, hpr⟩ := promised_of_submitted hm ha hp
  have hlater : ∀ h' s' t, Run (step rt) s h' s' → s'.thoughts ctx.thought.key = some t →
      t.status = ThoughtStatus.pending.toU8 → ∀ σ, RedeemableAt rt s' ctx.thought.key σ ↔
        s'.slot ≤ σ ∧ m.slot.toNat + p.challengeWindowSlots.toNat ≤ σ.toNat ∧
          σ.toNat ≤ m.slot.toNat + p.maxActionAgeSlots.toNat := by
    intro h' s' t' hr' ht' hpend' σ
    have hpr' := hpr.run hr' ht ht'
    rw [redeemableAt_iff ((hm.snoc ha).append hr') ht' hpend' hpr'.policy, hpr'.deadline, hpr'.slot,
      UInt64.le_iff_toNat_le (a := t'.challengeDeadlineSlot)]
  have hnow : ∀ σ, RedeemableAt rt s ctx.thought.key σ ↔
      m.slot.toNat + p.challengeWindowSlots.toNat ≤ σ.toNat ∧ σ.toNat ≤ m.slot.toNat + p.maxActionAgeSlots.toNat := by
    intro σ
    rw [hlater [] s t .nil ht hpend, hslot, UInt64.le_iff_toNat_le]
    omega
  have hwindow : p.challengeWindowSlots ≤ p.maxActionAgeSlots → ∃ σ, RedeemableAt rt s ctx.thought.key σ := by
    intro hle
    refine ⟨t.challengeDeadlineSlot, (hnow _).2 ⟨hpr.deadline.le, ?_⟩⟩
    have hsum := hpr.deadline
    rw [UInt64.le_iff_toNat_le] at hle
    omega
  refine ⟨⟨?_, hwindow⟩, hnow, hlater, ?_, ?_⟩
  · intro hred
    obtain ⟨σ, hσ⟩ := hred
    obtain ⟨h', s', hr', hq, hc⟩ := hσ.run
    exact window_le_of_consumed hm ha hp hr' hq hc
  · intro hrun
    obtain ⟨h', s', hr', hq, hc⟩ := hrun
    exact window_le_of_consumed hm ha hp hr' hq hc
  · intro hle
    obtain ⟨σ, hσ⟩ := hwindow hle
    exact hσ.run

/-! ## A window within the action age, and one beyond it -/

namespace Sample

/-- The submission that ends a run, under a policy of the given window and action age. -/
theorem exists_submit {actions : List Action} {window age : UInt64}
    (hrun : (run (actions ++ submit 0)).map (fun r => (r.2.policies policy).map fun p =>
      (p.challengeWindowSlots, p.maxActionAgeSlots)) = some (some (window, age))) :
    ∃ h m s ctx args traceUri p, Reaches chain 1000 funds h m ∧
      step chain m (.instruction (.submitThought ctx args traceUri)) = some s ∧ m.policies ctx.policy.key = some p ∧
      p.challengeWindowSlots = window ∧ p.maxActionAgeSlots = age := by
  obtain ⟨a, ctx, args, traceUri, hsub, hpolicy⟩ : ∃ a ctx args traceUri,
      submit 0 = [a, .instruction (.submitThought ctx args traceUri)] ∧ ctx.policy.key = policy :=
    ⟨_, _, _, _, rfl, rfl⟩
  obtain ⟨h, s, hr, hacts, hs⟩ := exists_run (actions ++ submit 0) (fun s => (s.policies policy).map fun p =>
    (p.challengeWindowSlots, p.maxActionAgeSlots)) _ hrun
  rw [hsub, List.append_cons] at hacts
  obtain ⟨h₁, h₂, rfl, -, hlast⟩ := List.map_eq_append_iff.1 hacts
  obtain ⟨⟨m, act⟩, rfl, rfl⟩ := List.map_eq_singleton_iff.1 hlast
  obtain ⟨m', hm, ha, hend⟩ := hr.split_cons
  cases step_effect ha with
  | @submitThought _ _ _ a p v d n hacc =>
    obtain ⟨p', hp', rfl⟩ := Run.policies hend _ _ hacc.policyAccount
    rw [← hpolicy, hp'] at hs
    obtain ⟨hwindow, hage⟩ := Prod.mk.inj (Option.some.inj hs)
    exact ⟨h₁, m, _, ctx, args, traceUri, p, hm, ha, hacc.policyAccount, hwindow, hage⟩

/-- A policy like the first, with an action age below its window. -/
def hasty : List Action :=
  [.instruction (.registerModel ⟨signed governance, unsigned (chain.pda (.model modelId)), system⟩ modelId .openWeights
      operator operator),
    .instruction (.registerPolicy ⟨signed resolver, unsigned policy, system⟩
      { policyArgs with maxActionAgeSlots := 149 }),
    .instruction (.registerAgent ⟨signed operator, unsigned agent, unsigned vault, system⟩ 10000000000)]

end Sample

open Sample in
theorem redeemable_iff_setup :
    ∃ h m s ctx args traceUri, Reaches chain 1000 funds h m ∧
      step chain m (.instruction (.submitThought ctx args traceUri)) = some s ∧
      ∃ σ, RedeemableAt chain s ctx.thought.key σ := by
  obtain ⟨h, m, s, ctx, args, traceUri, p, hm, ha, hp, hwindow, hage⟩ := @exists_submit setup 150 1000
    (by decide +kernel)
  exact ⟨h, m, s, ctx, args, traceUri, hm, ha, (redeemable_iff hm ha hp).1.2 (by rw [hwindow, hage]; decide)⟩

open Sample in
/-- A registered policy strands a thought that nobody challenges: no slot finalizes and then consumes it. -/
theorem finalizable_not_redeemable :
    ∃ h m s ctx args traceUri p, Reaches chain 1000 funds h m ∧
      step chain m (.instruction (.submitThought ctx args traceUri)) = some s ∧
      m.policies ctx.policy.key = some p ∧ p.challengeWindowSlots = 150 ∧ p.maxActionAgeSlots = 149 ∧
      ¬∃ σ, RedeemableAt chain s ctx.thought.key σ := by
  obtain ⟨h, m, s, ctx, args, traceUri, p, hm, ha, hp, hwindow, hage⟩ := @exists_submit hasty 150 149
    (by decide +kernel)
  refine ⟨h, m, s, ctx, args, traceUri, p, hm, ha, hp, hwindow, hage, ?_⟩
  intro hred
  obtain ⟨σ, hσ⟩ := hred
  obtain ⟨h', s', hr', hq, hc⟩ := hσ.run
  have hle := window_le_of_consumed hm ha hp hr' hq hc
  rw [hwindow, hage] at hle
  exact absurd hle (by decide)

end ProofOfThought.Program
