import ProofOfThought.Program.Lifecycle

/-!
# The challenge window

Two paths lead into `Finalized`. `resolve_unchallenged` waits for the deadline; the dismissal of a challenge by
`resolve_challenged` does not look at the slot. The window is kept along a run exactly when every dismissal comes at or
after the deadline (`window_kept_iff`).
-/

namespace ProofOfThought.Program

open Base

variable {rt : Runtime} {s s' : State} {act : Action} {k : Pubkey} {slot : UInt64} {L : Ledger Pubkey}
  {h : List (State × Action)} {t : ThoughtRecord}

/-! ## What the window promises -/

/-- What a challenger brings to dispute the record `t` at `k`: the accounts of the right addresses, and the funds. -/
structure OpenChallenge.Prepared (rt : Runtime) (s : State) (ctx : OpenChallenge) (bond : UInt64) (k : Pubkey)
    (t : ThoughtRecord) : Prop where
  signed : ctx.challenger.isSigner = true
  system : ctx.systemProgram.key = systemProgramId
  thought : ctx.thought.key = k
  policy : ctx.policy.key = rt.pda (.policy t.policyId)
  challenge : ctx.challenge.key = rt.pda (.challenge k ctx.challenger.key)
  vault : ctx.bondVault.key = rt.pda (.bond ctx.challenge.key)
  writable : ctx.challenge.isWritable = true ∧ ctx.challenger.isWritable = true ∧ ctx.thought.isWritable = true ∧
    ctx.bondVault.isWritable = true
  rent : rt.rentDue (s.lamports ctx.challenge.key) Challenge.LEN ≤ s.lamports ctx.challenger.key
  funds : bond.toNat ≤ rt.fund s.lamports ctx.challenger.key ctx.challenge.key Challenge.LEN ctx.challenger.key

/-- Whoever is prepared, with a bond the policy admits, can challenge the record. -/
def OpenToChallenge (rt : Runtime) (s : State) (k : Pubkey) (t : ThoughtRecord) : Prop :=
  ∀ ctx claim bond evidenceUriHash p, s.policies (rt.pda (.policy t.policyId)) = some p → p.bondMin ≤ bond →
    OpenChallenge.Prepared rt s ctx bond k t → ∃ r, openChallenge rt s ctx claim bond evidenceUriHash = .ok r

/-- Before the deadline the record is not finalized: it is slashed, open to a challenge, or under an undecided one. -/
def WindowKept (rt : Runtime) (s : State) (k : Pubkey) (t : ThoughtRecord) : Prop :=
  s.slot < t.challengeDeadlineSlot → t.status ≠ ThoughtStatus.finalized.toU8 ∧
    (t.status = ThoughtStatus.slashed.toU8 ∨
      t.status = ThoughtStatus.pending.toU8 ∧ OpenToChallenge rt s k t ∨
      t.status = ThoughtStatus.challenged.toU8 ∧ ∃ ck c, s.Disputes k ck c ∧ c.resolved = false)

/-- A pending record before its deadline is open to a challenge. -/
theorem openToChallenge_of_pending (hr : Reaches rt slot L h s) (ht : s.thoughts k = some t)
    (hp : t.status = ThoughtStatus.pending.toU8) (hd : s.slot < t.challengeDeadlineSlot) :
    OpenToChallenge rt s k t := by
  intro ctx claim bond evidenceUriHash p hpol hbond hprep
  have hwf := wf_of_reaches hr
  have hat := hwf.thoughts _ _ ht
  obtain ⟨hpa, hpb⟩ := hwf.policies _ _ hpol
  rw [Runtime.pda_inj, Seeds.policy.injEq] at hpa
  have hfresh : s.challenges ctx.challenge.key = none := by
    -- a challenge at that address would dispute this thought, and a pending one has none
    cases hc : s.challenges ctx.challenge.key with
    | none => rfl
    | some c =>
      have hck := (hwf.challenges _ _ hc).1
      rw [hprep.challenge, Runtime.pda_inj, Seeds.challenge.injEq] at hck
      exact absurd ⟨hc, hck.1.symm⟩ ((ledgerAgrees_of_reaches hr ht).pending hp _ _)
  have hacc : ctx.Accepted rt s bond t p :=
    { signed := hprep.signed
      system := hprep.system
      record := hprep.thought ▸ ht
      policyAccount := hprep.policy ▸ hpol
      challenge := hprep.thought ▸ hprep.challenge
      fresh := hfresh
      rent := hprep.rent
      writable := hprep.writable
      thought := by rw [hprep.thought, hat.bump]; exact hat.address
      policy := by rw [hprep.policy, hpb, ← hpa]; rfl
      policyId := hpa.symm
      vault := hprep.vault
      pending := hp
      window := hd
      enough := hbond
      funds := hprep.funds }
  exact ⟨_, openChallenge_eq_ok.2 ⟨t, p, hacc, rfl, rfl⟩⟩

/-- The window is kept as soon as the record is not finalized early. -/
theorem windowKept_of_not_finalized (hr : Reaches rt slot L h s) (ht : s.thoughts k = some t)
    (hnf : s.slot < t.challengeDeadlineSlot → t.status ≠ ThoughtStatus.finalized.toU8) : WindowKept rt s k t := by
  intro hd
  refine ⟨hnf hd, ?_⟩
  obtain ⟨st, hst⟩ := ((wf_of_reaches hr).thoughts _ _ ht).status
  cases st with
  | pending => exact .inr (.inl ⟨hst, openToChallenge_of_pending hr ht hst hd⟩)
  | challenged => exact .inr (.inr ⟨hst, (ledgerAgrees_of_reaches hr ht).challenged.1 hst⟩)
  | finalized => exact absurd hst (hnf hd)
  | slashed => exact .inl hst

/-! ## Dismissals -/

/-- A dismissal of a challenge of the thought at `k` does not come before the deadline of the thought. -/
def DismissedInTime (k : Pubkey) (x : State × Action) : Prop :=
  ∀ ctx t, x.2 = .instruction (.resolveChallenged ctx false) → ctx.thought.key = k → x.1.thoughts k = some t →
    t.challengeDeadlineSlot ≤ x.1.slot

/-- A finalized record is past its deadline. -/
def FinalizedInTime (s : State) (k : Pubkey) : Prop :=
  ∀ t, s.thoughts k = some t → t.status = ThoughtStatus.finalized.toU8 → t.challengeDeadlineSlot ≤ s.slot

/-- **One step**: only a dismissal could finalize early. -/
theorem FinalizedInTime.step (hf : FinalizedInTime s k) (he : Effect rt s act s') (hd : DismissedInTime k (s, act)) :
    FinalizedInTime s' k := by
  intro t' ht' hst
  have hslot := he.slot_le
  -- a write at `k` that finalizes in time, or leaves another status
  have hwrite : ∀ {k' : Pubkey} {t : ThoughtRecord}, s'.thoughts = Function.update s.thoughts k' (some t) →
      s'.slot = s.slot → (∃ st, t.status = ThoughtStatus.toU8 st ∧
        (k' = k → st = .finalized → t.challengeDeadlineSlot ≤ s.slot)) → t'.challengeDeadlineSlot ≤ s'.slot := by
    intro k' t hth hsl hx
    rcases hx with ⟨st, hst', hk⟩
    rw [hth] at ht'
    rw [hsl]
    rcases write_eq_some.1 ht' with ⟨rfl, rfl⟩ | ⟨-, hold⟩
    · exact hk rfl (toU8_inj.1 (hst'.symm.trans hst))
    · exact hf t' hold hst
  cases he with
  | submitThought h => exact hwrite rfl rfl ⟨.pending, rfl, fun _ => nofun⟩
  | @consumeThought ctx t p n h =>
    obtain ⟨st, hst', -⟩ := h.ready
    exact hwrite rfl rfl ⟨st, hst', fun hk hfin => hf t (hk ▸ h.record) (hfin ▸ hst')⟩
  | challenge h => exact hwrite rfl rfl ⟨.challenged, rfl, fun _ => nofun⟩
  | resolveUnchallenged h => exact hwrite rfl rfl ⟨.finalized, rfl, fun _ _ => h.deadline⟩
  | guilty h _ => exact hwrite rfl rfl ⟨.slashed, rfl, fun _ => nofun⟩
  | @innocent ctx t a p c h _ =>
    exact hwrite rfl rfl ⟨.finalized, rfl, fun hk _ => hd ctx t rfl hk (hk ▸ h.record)⟩
  | tick _ => exact UInt64.le_trans (hf t' ht' hst) hslot
  | _ => exact hf t' ht' hst

/-- Dismissals in time keep every finalization in time. -/
theorem finalizedInTime_of_reaches (hr : Reaches rt slot L h s) (hd : ∀ x ∈ h, DismissedInTime k x) :
    FinalizedInTime s k := by
  refine hr.inv (fun h s => (∀ x ∈ h, DismissedInTime k x) → FinalizedInTime s k) ?_ ?_ hd
  · exact fun _ _ => nofun
  · intro h m act m' _ ih ha hd
    refine (ih fun x hx => hd x (List.mem_append_left _ hx)).step (step_effect ha) (hd _ ?_)
    simp

/-- **The window.** Along a run, the window of the thought at `k` is kept in every state exactly when no challenge of it
is dismissed before its deadline. -/
theorem window_kept_iff (hr : Reaches rt slot L h s) (k : Pubkey) :
    (∀ h₁ s₁ t, h₁ <+: h → Reaches rt slot L h₁ s₁ → s₁.thoughts k = some t → WindowKept rt s₁ k t) ↔
      ∀ x ∈ h, DismissedInTime k x := by
  constructor
  · intro hkept x hx ctx t hact hk ht
    obtain ⟨m, act⟩ := x
    subst hact
    obtain ⟨h₁, h₂, m', rfl, hm, ha, -⟩ := hr.mem hx
    by_contra hlate
    cases step_effect ha with
    | @innocent _ t₀ a p c hacc _ =>
      subst hk
      have hnew : (ctx.afterInnocent m t₀ a c).thoughts ctx.thought.key =
          some { t₀ with status := ThoughtStatus.finalized.toU8 } := write_eq_some.2 (.inl ⟨rfl, rfl⟩)
      obtain rfl : t₀ = t := Option.some.inj (hacc.record.symm.trans ht)
      refine (hkept (h₁ ++ [_]) _ _ ?_ (hm.snoc ha) hnew ?_).1 rfl
      · exact ⟨h₂, by simp⟩
      · exact UInt64.not_le.1 hlate
  · intro hd h₁ s₁ t hp hr₁ ht
    apply windowKept_of_not_finalized hr₁ ht
    intro hlt hst
    have hin := finalizedInTime_of_reaches hr₁ fun x hx => hd x (hp.subset hx)
    exact absurd hlt (UInt64.not_lt.2 (hin t ht hst))

open Sample in
theorem window_kept_undecided :
    ∃ h s, Reaches chain 1000 funds h s ∧ s.slot < 1150 ∧
      ∀ t, s.thoughts (thought 0) = some t → WindowKept chain s (thought 0) t := by
  obtain ⟨h, s, hr, hacts, hs⟩ := exists_run (setup ++ submit 0 ++ [dispute 0]) State.slot 1000 (by decide +kernel)
  refine ⟨h, s, hr, by rw [hs]; decide, fun t ht => ?_⟩
  refine (window_kept_iff hr (thought 0)).2 ?_ h s t (List.prefix_refl h) hr ht
  -- none of the actions is a dismissal
  intro x hx ctx _ hact
  have hmem : x.2 ∈ setup ++ submit 0 ++ [dispute 0] := hacts ▸ List.mem_map_of_mem hx
  rw [hact] at hmem
  simp [setup, submit, dispute] at hmem

open Sample in
/-- A challenge dismissed at once finalizes the thought at the slot it was submitted in. -/
theorem window_cut_short :
    ∃ h s t, Reaches chain 1000 funds h s ∧ s.thoughts (thought 0) = some t ∧ s.slot < t.challengeDeadlineSlot ∧
      t.status = ThoughtStatus.finalized.toU8 ∧ ¬WindowKept chain s (thought 0) t := by
  obtain ⟨h, s, hr, -, hs⟩ := exists_run (setup ++ submit 0 ++ [dispute 0, resolve 0 false])
    (fun s => ((s.thoughts (thought 0)).map (fun t => (t.status, t.challengeDeadlineSlot)), s.slot))
    (some (2, 1150), 1000) (by decide +kernel)
  simp only [Prod.mk.injEq, Option.map_eq_some_iff] at hs
  obtain ⟨⟨t, ht, hst, hd⟩, hslot⟩ := hs
  have hlt : s.slot < t.challengeDeadlineSlot := by rw [hslot, hd]; decide
  exact ⟨h, s, t, hr, ht, hlt, hst, fun hkept => (hkept hlt).1 hst⟩

end ProofOfThought.Program
