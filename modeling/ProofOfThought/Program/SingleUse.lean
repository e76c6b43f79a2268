import ProofOfThought.Program.Submission

/-!
# Consuming a thought again

`consume_thought` counts the uses of a thought and does not look at the count. The count is exact (`count_eq`), and the
same consumption succeeds again right after it did (`consume_again`). So from a state on a thought is used at most once
exactly when it is never used again at all: a finalized one when it is stale (`single_use_iff`).
-/

namespace ProofOfThought.Program

open Base

variable {rt : Runtime} {s s' : State} {act : Action} {k : Pubkey} {slot : UInt64} {L : Ledger Pubkey}
  {h : List (State × Action)} {t : ThoughtRecord} {p : Policy}

/-! ## The count -/

/-- The action consumes the thought at `k`. -/
def Action.consumes (k : Pubkey) : Action → Bool
  | .instruction (.consumeThought ctx) => ctx.thought.key = k
  | _ => false

theorem consumes_eq_true : act.consumes k = true ↔
    ∃ ctx, act = .instruction (.consumeThought ctx) ∧ ctx.thought.key = k := by
  constructor
  · intro h
    unfold Action.consumes at h
    split at h
    · exact ⟨_, rfl, of_decide_eq_true h⟩
    · cases h
  · rintro ⟨ctx, rfl, hk⟩
    exact decide_eq_true hk

/-- How often the thought at `k` was consumed. -/
def consumptions (k : Pubkey) (h : List (State × Action)) : Nat := h.countP fun x => x.2.consumes k

/-- The count on the record at `k`. -/
def countOf (thoughts : Pubkey → Option ThoughtRecord) (k : Pubkey) : Nat := readOr (·.consumedCount.toNat) thoughts k

/-- **One step** counts one exactly when it consumes. -/
theorem Effect.count (he : Effect rt s act s') (k : Pubkey) :
    countOf s'.thoughts k = countOf s.thoughts k + if act.consumes k then 1 else 0 := by
  -- a record written back with its old count
  have hkeep : ∀ {k' : Pubkey} {t t' : ThoughtRecord}, s.thoughts k' = some t → t'.consumedCount = t.consumedCount →
      countOf (Function.update s.thoughts k' (some t')) k = countOf s.thoughts k :=
    fun ht hc => readOr_rewrite ht (congrArg UInt32.toNat hc)
  cases he with
  | @submitThought ctx args traceUri a p v d n h =>
    refine (readOr_write (f := fun t : ThoughtRecord => t.consumedCount.toNat) s.thoughts _ _ _).trans ?_
    by_cases hk : ctx.thought.key = k
    · subst hk
      have h0 : countOf s.thoughts ctx.thought.key = 0 := readOr_of_none h.fresh
      rw [if_pos rfl, h0]
      rfl
    · rw [if_neg hk]
      rfl
  | @consumeThought ctx t p n h =>
    refine (readOr_write (f := fun t : ThoughtRecord => t.consumedCount.toNat) s.thoughts _ _ _).trans ?_
    by_cases hk : ctx.thought.key = k
    · subst hk
      have ht : countOf s.thoughts ctx.thought.key = t.consumedCount.toNat := readOr_of_some h.record
      rw [if_pos rfl, ht]
      simpa [Action.consumes] using h.count.symm
    · rw [if_neg hk]
      simp [Action.consumes, hk, countOf]
  | challenge h => exact hkeep h.record rfl
  | resolveUnchallenged h => exact hkeep h.record rfl
  | guilty h _ => exact hkeep h.record rfl
  | innocent h _ => exact hkeep h.record rfl
  | _ => rfl

/-- The count on a record is the number of its consumptions. -/
theorem count_eq (hr : Reaches rt slot L h s) (k : Pubkey) : countOf s.thoughts k = consumptions k h := by
  refine hr.inv (fun h s => countOf s.thoughts k = consumptions k h) rfl ?_
  intro h s a s' _ ih ha
  rw [(step_effect ha).count k, ih, consumptions, consumptions, List.countP_append, List.countP_singleton]

/-- A consumption that succeeded succeeds again at once, unless the count is at its maximum. -/
theorem consume_again {ctx : ConsumeThought} (ha : step rt s (.instruction (.consumeThought ctx)) = some s')
    (hmax : countOf s'.thoughts ctx.thought.key + 1 < 2 ^ 32) :
    ∃ s'', step rt s' (.instruction (.consumeThought ctx)) = some s'' := by
  cases step_effect ha with
  | @consumeThought _ t p n h =>
    have hrec : (ctx.after s t n).thoughts ctx.thought.key = some { t with consumedCount := n } :=
      write_eq_some.2 (.inl ⟨rfl, rfl⟩)
    have hcount : countOf (ctx.after s t n).thoughts ctx.thought.key = n.toNat := readOr_of_some hrec
    rw [hcount] at hmax
    have hnext : n.toNat + 1 = (n + 1).toNat := by
      rw [UInt32.toNat_add]
      exact (Nat.mod_eq_of_lt hmax).symm
    have hacc : ctx.Accepted (ctx.after s t n) { t with consumedCount := n } p (n + 1) :=
      ⟨h.signed, hrec, h.policyAccount, h.writable, h.thought, h.policy, h.policyId, h.action, h.ready, h.age, hnext⟩
    exact ⟨_, step_instruction.2 ⟨_, consumeThought_eq_ok.2 ⟨_, _, _, hacc, rfl, rfl⟩⟩⟩

/-! ## Consuming a finalized thought -/

/-- What a consumer brings to consume the record `t` at `k`: among it, the committed action. -/
structure ConsumeThought.Prepared (rt : Runtime) (ctx : ConsumeThought) (k : Pubkey) (t : ThoughtRecord) : Prop where
  signed : ctx.consumer.isSigner = true
  thought : ctx.thought.key = k
  policy : ctx.policy.key = rt.pda (.policy t.policyId)
  action : ctx.action.key = t.actionPda
  writable : ctx.thought.isWritable = true

/-- Whoever is prepared can consume a finalized record that is fresh, while the count has room. -/
theorem consumable_of_finalized {ctx : ConsumeThought} {n : UInt32} (hwf : s.Wf rt) (ht : s.thoughts k = some t)
    (hfin : t.status = ThoughtStatus.finalized.toU8) (hp : s.policies (rt.pda (.policy t.policyId)) = some p)
    (hage : s.slot.toNat ≤ t.slot.toNat + p.maxActionAgeSlots.toNat) (hcount : t.consumedCount.toNat + 1 = n.toNat)
    (hprep : ctx.Prepared rt k t) : ctx.Accepted s t p n := by
  have hat := hwf.thoughts _ _ ht
  obtain ⟨hpa, hpb⟩ := hwf.policies _ _ hp
  rw [Runtime.pda_inj, Seeds.policy.injEq] at hpa
  obtain ⟨age, hsum⟩ := exists_toNat_sub (UInt64.le_iff_toNat_le.1 hat.slot)
  have hle : age ≤ p.maxActionAgeSlots := by
    rw [UInt64.le_iff_toNat_le]
    omega
  exact
    { signed := hprep.signed
      record := hprep.thought ▸ ht
      policyAccount := hprep.policy ▸ hp
      writable := hprep.writable
      thought := by rw [hprep.thought, hat.bump]; exact hat.address
      policy := by rw [hprep.policy, hpb, ← hpa]; rfl
      policyId := hpa.symm
      action := hprep.action.symm
      ready := ⟨.finalized, hfin, .inl rfl⟩
      age := ⟨age, hsum, hle⟩
      count := hcount }

theorem ConsumeThought.Accepted.step_eq {ctx : ConsumeThought} {n : UInt32} (hacc : ctx.Accepted s t p n) :
    step rt s (.instruction (.consumeThought ctx)) = some (ctx.after s t n) :=
  step_instruction.2 ⟨_, consumeThought_eq_ok.2 ⟨t, p, n, hacc, rfl, rfl⟩⟩

/-- A consumption goes by the policy of the record. -/
theorem ConsumeThought.Accepted.policy_eq {ctx : ConsumeThought} {p' : Policy} {n : UInt32}
    (hacc : ctx.Accepted s t p' n) (hwf : s.Wf rt) (hp : s.policies (rt.pda (.policy t.policyId)) = some p) :
    p' = p := by
  rw [← hwf.policy_key hacc.policyAccount hacc.policy, hacc.policyAccount] at hp
  exact Option.some.inj hp

/-! ## Single use -/

/-- The run goes on in no way in which the thought at `k` is used more than once, from its start. -/
def UsedOnce (rt : Runtime) (h : List (State × Action)) (s : State) (k : Pubkey) : Prop :=
  ∀ g s', Run (step rt) s g s' → consumptions k (h ++ g) ≤ 1

/-- No continuation uses the thought at `k`. -/
def Unusable (rt : Runtime) (s : State) (k : Pubkey) : Prop :=
  ∀ g s', Run (step rt) s g s' → consumptions k g = 0

theorem consumptions_append (g : List (State × Action)) :
    consumptions k (h ++ g) = consumptions k h + consumptions k g := List.countP_append

theorem consumptions_singleton (hact : act.consumes k = true) : consumptions k [(s, act)] = 1 := by
  rw [consumptions, List.countP_singleton, if_pos hact]

/-- **A use can be repeated**: a thought that is used once at most is not used again. -/
theorem UsedOnce.unusable (hr : Reaches rt slot L h s) (hone : UsedOnce rt h s k) : Unusable rt s k := by
  intro g s' hg
  by_contra hne
  obtain ⟨⟨m, act⟩, hx, hact⟩ := List.countP_pos_iff.1 (Nat.pos_of_ne_zero hne)
  obtain ⟨g₁, g₂, m', -, hm, ha, -⟩ := hg.mem hx
  have huse := consumptions_singleton (s := m) hact
  have hle := hone _ _ (hm.snoc ha)
  obtain ⟨ctx, rfl, rfl⟩ := consumes_eq_true.1 hact
  -- right after it the same consumption succeeds again
  obtain ⟨m'', hagain⟩ : ∃ m'', step rt m' (.instruction (.consumeThought ctx)) = some m'' := by
    refine consume_again ha ?_
    rw [count_eq (hr.append (hm.snoc ha))]
    omega
  have hle' := hone _ _ ((hm.snoc ha).snoc hagain)
  rw [consumptions_append, consumptions_append, consumptions_append, huse, consumptions_singleton hact] at hle'
  omega

/-- A finalized record is unusable just when it is stale. -/
theorem unusable_iff_stale (hr : Reaches rt slot L h s) (ht : s.thoughts k = some t)
    (hfin : t.status = ThoughtStatus.finalized.toU8) (hp : s.policies (rt.pda (.policy t.policyId)) = some p)
    (hone : consumptions k h ≤ 1) :
    Unusable rt s k ↔ t.slot.toNat + p.maxActionAgeSlots.toNat < s.slot.toNat := by
  constructor
  · intro hun
    by_contra hfresh
    have hcount := count_eq hr k
    rw [countOf, readOr_of_some ht] at hcount
    have hnext : t.consumedCount.toNat + 1 = (t.consumedCount + 1).toNat := by
      rw [UInt32.toNat_add]
      exact (Nat.mod_eq_of_lt (show t.consumedCount.toNat + 1 < 2 ^ 32 by omega)).symm
    -- anybody may be the consumer
    let ctx : ConsumeThought := ⟨⟨.key (List.Vector.replicate 32 1), true, false⟩, ⟨k, false, true⟩,
      ⟨rt.pda (.policy t.policyId), false, false⟩, ⟨t.actionPda, false, false⟩⟩
    have hprep : ctx.Prepared rt k t := ⟨rfl, rfl, rfl, rfl, rfl⟩
    have hacc : ctx.Accepted s t p _ :=
      consumable_of_finalized (wf_of_reaches hr) ht hfin hp (Nat.not_lt.1 hfresh) hnext hprep
    have hzero := hun _ _ (Run.single hacc.step_eq)
    rw [consumptions_singleton (consumes_eq_true.2 ⟨ctx, rfl, rfl⟩)] at hzero
    cases hzero
  · intro hstale g s' hg
    by_contra hne
    obtain ⟨⟨m, act⟩, hx, hact⟩ := List.countP_pos_iff.1 (Nat.pos_of_ne_zero hne)
    obtain ⟨g₁, g₂, m', -, hm, ha, -⟩ := hg.mem hx
    obtain ⟨ctx, rfl, rfl⟩ := consumes_eq_true.1 hact
    cases step_effect ha with
    | @consumeThought _ t' p' n hacc =>
      -- record and policy are the old ones, and the slot is no earlier
      obtain ⟨t₁, ht₁, hsame⟩ := Run.thoughts hm _ _ ht
      obtain rfl : t₁ = t' := Option.some.inj (ht₁.symm.trans hacc.record)
      obtain ⟨_, hp₁, rfl⟩ := Run.policies hm _ _ hp
      have hpid : t.policyId = t₁.policyId := hsame.field (·.policyId) fun _ => rfl
      have hslot : t.slot = t₁.slot := hsame.field (·.slot) fun _ => rfl
      rw [hpid] at hp₁
      obtain rfl := hacc.policy_eq (wf_of_reaches (hr.append hm)) hp₁
      have hle : s.slot ≤ m.slot := hm.stable (fun m => s.slot ≤ m.slot)
        (fun _ _ _ hle ha => UInt64.le_trans hle (step_effect ha).slot_le) (UInt64.le_refl _)
      obtain ⟨age, hage, hlim⟩ := hacc.age
      rw [UInt64.le_iff_toNat_le] at hle hlim
      rw [hslot] at hstale
      omega

/-- **Single use.** From a reachable state on, the thought at `k` is used at most once in all exactly when it has been
so far and no continuation uses it at all: for a finalized thought, when it is stale. -/
theorem single_use_iff (hr : Reaches rt slot L h s) (k : Pubkey) :
    (UsedOnce rt h s k ↔ consumptions k h ≤ 1 ∧ Unusable rt s k) ∧
      ∀ t p, s.thoughts k = some t → t.status = ThoughtStatus.finalized.toU8 →
        s.policies (rt.pda (.policy t.policyId)) = some p →
          (UsedOnce rt h s k ↔
            consumptions k h ≤ 1 ∧ t.slot.toNat + p.maxActionAgeSlots.toNat < s.slot.toNat) := by
  have hiff : UsedOnce rt h s k ↔ consumptions k h ≤ 1 ∧ Unusable rt s k := by
    constructor
    · intro hone
      refine ⟨?_, hone.unusable hr⟩
      have hnow := hone [] s .nil
      rwa [List.append_nil] at hnow
    · intro hx g s' hg
      obtain ⟨hone, hun⟩ := hx
      rw [consumptions_append, hun g s' hg]
      exact hone
  refine ⟨hiff, fun t p ht hfin hp => hiff.trans ?_⟩
  exact and_congr_right fun hone => unusable_iff_stale hr ht hfin hp hone

namespace Sample

/-- The first thought finalized. -/
def finalized : List Action := setup ++ submit 0 ++ [.tick 150, lapse 0]

/-- Status, policy and slot of the first thought, the action age of the policy, and the slot. -/
def observed (s : State) : Option (UInt8 × Bytes32 × Nat) × Option Nat × Nat :=
  ((s.thoughts (thought 0)).map fun t => (t.status, t.policyId, t.slot.toNat),
    (s.policies policy).map (·.maxActionAgeSlots.toNat), s.slot.toNat)

end Sample

open Sample in
/-- The theorem at a fresh thought that was not used, and at one that was used and is stale. -/
theorem single_use_iff_finalized :
    (∃ h s, Reaches chain 1000 funds h s ∧ consumptions (thought 0) h = 0 ∧ ¬UsedOnce chain h s (thought 0)) ∧
      ∃ h s, Reaches chain 1000 funds h s ∧ consumptions (thought 0) h = 1 ∧ UsedOnce chain h s (thought 0) := by
  have hiff : ∀ {h s n}, Reaches chain 1000 funds h s →
      observed s = (some (ThoughtStatus.finalized.toU8, policyId, 1000), some 1000, n) →
        (UsedOnce chain h s (thought 0) ↔ consumptions (thought 0) h ≤ 1 ∧ 1000 + 1000 < n) := by
    intro h s n hr hs
    simp only [observed, Prod.mk.injEq, Option.map_eq_some_iff] at hs
    obtain ⟨⟨t, ht, hst, hpid, hslot⟩, ⟨p, hp, hage⟩, rfl⟩ := hs
    have hx := (single_use_iff hr (thought 0)).2 t p ht hst (by rw [hpid]; exact hp)
    rwa [hslot, hage] at hx
  constructor
  · obtain ⟨h, s, hr, hacts, hs⟩ := exists_run finalized observed _ rfl
    have hnone : consumptions (thought 0) h = 0 := by
      rw [consumptions, countP_snd, hacts]
      decide
    refine ⟨h, s, hr, hnone, fun hone => ?_⟩
    have hstale := ((hiff hr hs).1 hone).2
    exact absurd hstale (by decide)
  · obtain ⟨h, s, hr, hacts, hs⟩ := exists_run
      (finalized ++ [.instruction (.consumeThought (consume 0)), .tick 1000]) observed _ rfl
    have hone : consumptions (thought 0) h = 1 := by
      rw [consumptions, countP_snd, hacts]
      decide
    exact ⟨h, s, hr, hone, (hiff hr hs).2 ⟨hone.le, by decide⟩⟩

open Sample in
/-- A finalized thought authorises its action twice. -/
theorem consumed_twice :
    ∃ h s, Reaches chain 1000 funds h s ∧ consumptions (thought 0) h = 2 ∧ ¬consumptions (thought 0) h ≤ 1 := by
  obtain ⟨h, s, hr, hacts, -⟩ := exists_run
    (finalized ++ [.instruction (.consumeThought (consume 0)), .instruction (.consumeThought (consume 0))])
    (fun _ => ()) () (by decide +kernel)
  have htwo : consumptions (thought 0) h = 2 := by
    rw [consumptions, countP_snd, hacts]
    decide
  exact ⟨h, s, hr, htwo, by omega⟩

end ProofOfThought.Program
