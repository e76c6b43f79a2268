import ProofOfThought.Base.Docket
import ProofOfThought.Program.Accounts

/-!
# The agent's books

`activeThoughts` counts a set scattered over the thought records, `reputation` sums the outcomes of a whole run. Both
are exact (`bookkeeping`): a submission adds one open thought, an outcome closes one, and nothing else opens or closes.
-/

namespace ProofOfThought.Program

open Base

variable {rt : Runtime} {s s' : State} {act : Action} {k ak : Pubkey}

/-! ## Open thoughts -/

/-- The open thoughts of the agent at `ak`. -/
def openThoughts (thoughts : Pubkey → Option ThoughtRecord) (ak : Pubkey) : Set Pubkey :=
  census thoughts fun t => t.agent = ak ∧ t.Open

section

variable {thoughts : Pubkey → Option ThoughtRecord} {t t' : ThoughtRecord}

/-- A fresh open record adds one to its agent. -/
theorem openThoughts_opened (hk : thoughts k = none) (ho : t.Open) :
    (openThoughts (Function.update thoughts k (some t)) t.agent).encard =
      (openThoughts thoughts t.agent).encard + 1 := by
  have h := encard_census_write thoughts (fun u => u.agent = t.agent ∧ u.Open) k (some t)
  rwa [hk, weight_none, add_zero, weight_of_pos ⟨rfl, ho⟩] at h

/-- Records of other agents are not counted. -/
theorem openThoughts_other (ht : ∀ u, thoughts k = some u → u.agent ≠ ak) (ht' : t'.agent ≠ ak) :
    openThoughts (Function.update thoughts k (some t')) ak = openThoughts thoughts ak := by
  refine census_write_congr ⟨?_, ?_⟩
  · intro h
    rcases h with ⟨_, ⟨⟩, ha, -⟩
    exact absurd ha ht'
  · intro hx
    rcases hx with ⟨u, hu, ha, -⟩
    exact absurd ha (ht u hu)

/-- A record that is rewritten as open as it was changes nothing. -/
theorem openThoughts_kept (hk : thoughts k = some t) (ha : t'.agent = t.agent) (ho : t'.Open ↔ t.Open) (ak : Pubkey) :
    openThoughts (Function.update thoughts k (some t')) ak = openThoughts thoughts ak :=
  census_write_congr (by simp [hk, ha, ho])

/-- A closed record takes one from its agent. -/
theorem openThoughts_closed (hk : thoughts k = some t) (ho : t.Open) (ho' : ¬t'.Open) :
    (openThoughts (Function.update thoughts k (some t')) t.agent).encard + 1 =
      (openThoughts thoughts t.agent).encard := by
  have h := encard_census_write thoughts (fun u => u.agent = t.agent ∧ u.Open) k (some t')
  rwa [hk, weight_of_pos ⟨rfl, ho⟩, weight_of_neg fun hu => ho' hu.2, add_zero] at h

end

/-- One less than an exact count is exact, and the count was not zero. -/
theorem count_pred {x : ℕ∞} {n : UInt32} (h : x + 1 = n.toNat) :
    x = (saturatingSub32 n 1).toNat ∧ (saturatingSub32 n 1).toNat + 1 = n.toNat := by
  rw [toNat_saturatingSub32]
  induction x using ENat.recTopCoe with
  | top => simp at h
  | coe m =>
    have hm : m + 1 = n.toNat := by exact_mod_cast h
    have h1 : (1 : UInt32).toNat = 1 := rfl
    rw [h1]
    exact ⟨by rw [← hm]; rfl, by omega⟩

/-! ## The active count -/

/-- Every agent counts its open thoughts. -/
def CountsExact (thoughts : Pubkey → Option ThoughtRecord) (agents : Pubkey → Option AgentProfile) : Prop :=
  AllOf agents fun ak a => (openThoughts thoughts ak).encard = a.activeThoughts.toNat

section

variable {thoughts : Pubkey → Option ThoughtRecord} {agents : Pubkey → Option AgentProfile} {t t' : ThoughtRecord}
  {a a' : AgentProfile}

/-- A record that stays open, or stays closed. -/
theorem CountsExact.rewrite (hc : CountsExact thoughts agents) (hk : thoughts k = some t) (hag : t'.agent = t.agent)
    (ho : t'.Open ↔ t.Open) : CountsExact (Function.update thoughts k (some t')) agents := by
  intro ak a ha
  rw [openThoughts_kept hk hag ho]
  exact hc ak a ha

/-- An outcome: the record is closed, its agent counts one less. -/
theorem CountsExact.close (hc : CountsExact thoughts agents) (hk : thoughts k = some t) (ha : agents ak = some a)
    (hak : ak = t.agent) (ho : t.Open) (hs : t'.Settled) (hag : t'.agent = t.agent)
    (hn : a'.activeThoughts = saturatingSub32 a.activeThoughts 1) :
    CountsExact (Function.update thoughts k (some t')) (Function.update agents ak (some a')) := by
  subst hak
  refine .write_of_ne (fun ak' b hne hb => ?_) ?_
  · have hother : ∀ u, thoughts k = some u → u.agent ≠ ak' := by
      intro u hu
      rw [hk] at hu
      exact Option.some.inj hu ▸ Ne.symm hne
    rw [openThoughts_other hother (hag ▸ Ne.symm hne)]
    exact hc ak' b hb
  · rw [hn]
    exact (count_pred ((openThoughts_closed hk ho hs.not_open).trans (hc _ _ ha))).1

/-- The agent of an open record counts at least one. -/
theorem CountsExact.pos (hc : CountsExact thoughts agents) (hk : thoughts k = some t) (ha : agents t.agent = some a)
    (ho : t.Open) : (saturatingSub32 a.activeThoughts 1).toNat + 1 = a.activeThoughts.toNat := by
  have hmem : k ∈ openThoughts thoughts t.agent := ⟨t, hk, rfl, ho⟩
  have hpred := Set.encard_sdiff_singleton_add_one hmem
  exact (count_pred (hpred.trans (hc _ _ ha))).2

end

/-- **Every step keeps the counts exact.** -/
theorem CountsExact.step (hc : CountsExact s.thoughts s.agents) (hwf : s.Wf rt) (he : Effect rt s act s') :
    CountsExact s'.thoughts s'.agents := by
  cases he with
  | @registerAgent ctx stake h =>
    apply AllOf.write hc
    have hnone : openThoughts s.thoughts ctx.agent.key = ∅ := by
      -- a thought of the new agent would already have found an agent there
      rw [Set.eq_empty_iff_forall_notMem]
      intro k hx
      rcases hx with ⟨t, ht, ha, -⟩
      obtain ⟨a, ha'⟩ := (hwf.thoughts _ _ ht).agent
      rw [ha, h.fresh] at ha'
      cases ha'
    apply (congrArg Set.encard hnone).trans
    rw [Set.encard_empty]
    rfl
  | stake h => exact AllOf.rewrite hc h.profile id
  | withdrawStake h => exact AllOf.rewrite hc h.profile id
  | requestVrf h => exact AllOf.rewrite hc h.profile id
  | @submitThought ctx args traceUri a p v d n h =>
    refine AllOf.write_of_ne (fun ak a' hne ha' => ?_) ?_
    · have hnone : ∀ u, s.thoughts ctx.thought.key = some u → u.agent ≠ ak := by simp [h.fresh]
      exact (congrArg Set.encard (openThoughts_other hnone (Ne.symm hne))).trans (hc ak a' ha')
    · apply (openThoughts_opened h.fresh (.inl rfl)).trans
      rw [← h.count]
      exact congrArg (· + 1) (hc _ _ h.profile)
  | consumeThought h => exact hc.rewrite h.record rfl Iff.rfl
  | challenge h => exact hc.rewrite h.record rfl (iff_of_true (.inr rfl) (.inl h.pending))
  | resolveUnchallenged h =>
    exact hc.close h.record h.profile h.agentOf (.inl h.pending) (.inl rfl) rfl rfl
  | guilty h _ =>
    exact hc.close h.record h.profile h.agentOf (.inr h.challenged) (.inr rfl) rfl rfl
  | innocent h _ =>
    exact hc.close h.record h.profile h.agentOf (.inr h.challenged) (.inl rfl) rfl rfl
  | _ => exact hc

variable {slot : UInt64} {L : Ledger Pubkey} {h : List (State × Action)}

theorem countsExact_of_reaches (hr : Reaches rt slot L h s) : CountsExact s.thoughts s.agents := by
  refine hr.inv (fun _ s => CountsExact s.thoughts s.agents) ?_ ?_
  · exact AllOf.empty
  · exact fun _ _ _ _ hr hc ha => hc.step (wf_of_reaches hr) (step_effect ha)

/-! ## Reputation -/

/-- The outcome an action brings about for a thought of the agent at `ak`. -/
def Action.outcome (ak : Pubkey) : Action → Option Kind
  | .instruction (.resolveUnchallenged ctx) => if ctx.agent.key = ak then some .lapse else none
  | .instruction (.resolveChallenged ctx verdict) =>
    if ctx.agent.key = ak then some (if verdict then .convict else .acquit) else none
  | _ => none

/-- How many outcomes of a kind the thoughts of the agent had. -/
def countOutcomes (ak : Pubkey) (κ : Kind) (h : List (State × Action)) : Nat :=
  h.countP fun x => x.2.outcome ak = some κ

/-- One for a thought that lapses, two for a challenge dismissed, minus ten for a guilty verdict. -/
def score (ak : Pubkey) (h : List (State × Action)) : Int :=
  countOutcomes ak .lapse h + 2 * countOutcomes ak .acquit h - 10 * countOutcomes ak .convict h

/-- What an outcome scores. -/
def points : Option Kind → Int
  | some .lapse => 1
  | some .acquit => 2
  | some .convict => -10
  | _ => 0

theorem score_snoc (ak : Pubkey) (h : List (State × Action)) (x : State × Action) :
    score ak (h ++ [x]) = score ak h + points (x.2.outcome ak) := by
  simp only [score, countOutcomes, List.countP_append, List.countP_singleton]
  rcases x.2.outcome ak with _ | κ
  · simp [points]
  · cases κ <;> simp [points] <;> omega

/-- The reputation of the agent at `ak`. -/
def reputationOf (agents : Pubkey → Option AgentProfile) (ak : Pubkey) : Int := readOr (·.reputation.toInt) agents ak

theorem reputationOf_of_some {agents : Pubkey → Option AgentProfile} {a : AgentProfile} (h : agents ak = some a) :
    reputationOf agents ak = a.reputation.toInt := readOr_of_some h

theorem reputationOf_write (agents : Pubkey → Option AgentProfile) (k : Pubkey) (a : AgentProfile) :
    reputationOf (Function.update agents k (some a)) ak =
      if k = ak then a.reputation.toInt else reputationOf agents ak :=
  readOr_write agents k a ak

/-- A write that keeps the reputation scores nothing. -/
theorem reputationOf_rewrite {agents : Pubkey → Option AgentProfile} {a a' : AgentProfile} (h : agents k = some a)
    (hr : a'.reputation = a.reputation) :
    reputationOf (Function.update agents k (some a')) ak = reputationOf agents ak + 0 :=
  (readOr_rewrite h (congrArg Int64.toInt hr)).trans (add_zero _).symm

/-- A write that adds to the reputation, within the range. -/
theorem reputationOf_add {agents : Pubkey → Option AgentProfile} {a a' : AgentProfile} {n : Int} (h : agents k = some a)
    (hr : a'.reputation = saturatingAddI64 a.reputation n)
    (hin : InI64 (reputationOf agents ak + if k = ak then n else 0)) :
    reputationOf (Function.update agents k (some a')) ak = reputationOf agents ak + if k = ak then n else 0 := by
  rw [reputationOf_write, hr]
  by_cases hk : k = ak
  · subst hk
    rw [reputationOf_of_some h, if_pos rfl] at hin
    rw [if_pos rfl, if_pos rfl, reputationOf_of_some h, toInt_saturatingAddI64 hin]
  · rw [if_neg hk, if_neg hk, add_zero]

/-- **One step of the reputation**, within the range. -/
theorem Effect.reputation (he : Effect rt s act s')
    (hin : InI64 (reputationOf s.agents ak + points (act.outcome ak))) :
    reputationOf s'.agents ak = reputationOf s.agents ak + points (act.outcome ak) := by
  cases he with
  | @registerAgent ctx stake h =>
    simp only [RegisterAgent.after, reputationOf_write, Action.outcome, points, add_zero]
    by_cases hk : ctx.agent.key = ak
    · subst hk
      rw [if_pos rfl]
      exact (readOr_of_none h.fresh).symm
    · rw [if_neg hk]
  | stake h => exact reputationOf_rewrite h.profile rfl
  | withdrawStake h => exact reputationOf_rewrite h.profile rfl
  | requestVrf h => exact reputationOf_rewrite h.profile rfl
  | submitThought h => exact reputationOf_rewrite h.profile rfl
  | resolveUnchallenged h =>
    rw [Action.outcome, apply_ite points] at hin ⊢
    exact reputationOf_add h.profile rfl hin
  | guilty h _ =>
    rw [Action.outcome, apply_ite points] at hin ⊢
    exact reputationOf_add h.profile rfl hin
  | innocent h _ =>
    rw [Action.outcome, apply_ite points] at hin ⊢
    exact reputationOf_add h.profile rfl hin
  | _ => exact (add_zero _).symm

/-- While the running score stays an `i64`, it is the reputation. -/
theorem reputation_eq_score (hr : Reaches rt slot L h s) (hin : ∀ h₁, h₁ <+: h → InI64 (score ak h₁)) :
    reputationOf s.agents ak = score ak h := by
  refine hr.inv (fun h s => (∀ h₁, h₁ <+: h → InI64 (score ak h₁)) → reputationOf s.agents ak = score ak h)
    (fun _ => rfl) ?_ hin
  intro h s a s' _ ih ha hin
  have hs := ih fun h₁ hp => hin h₁ (hp.trans (List.prefix_append _ _))
  have hlast := hin _ (List.prefix_refl _)
  rw [score_snoc, ← hs] at hlast ⊢
  exact (step_effect ha).reputation hlast

/-! ## The books -/

/-- An outcome takes exactly one from the agent's count. -/
theorem outcome_count (hr : Reaches rt slot L h s) (ha : step rt s act = some s') {κ : Kind}
    (ho : act.outcome ak = some κ) :
    ∃ a a', s.agents ak = some a ∧ s'.agents ak = some a' ∧ a'.activeThoughts.toNat + 1 = a.activeThoughts.toNat := by
  have hc := countsExact_of_reaches hr
  cases step_effect ha with
  | @resolveUnchallenged ctx t a h =>
    obtain rfl : ctx.agent.key = ak := by by_contra hne; simp [Action.outcome, hne] at ho
    exact ⟨a, _, h.profile, write_eq_some.2 (.inl ⟨rfl, rfl⟩),
      hc.pos h.record (h.agentOf ▸ h.profile) (.inl h.pending)⟩
  | @guilty ctx t a p c h _ =>
    obtain rfl : ctx.agent.key = ak := by by_contra hne; simp [Action.outcome, hne] at ho
    exact ⟨a, _, h.profile, write_eq_some.2 (.inl ⟨rfl, rfl⟩),
      hc.pos h.record (h.agentOf ▸ h.profile) (.inr h.challenged)⟩
  | @innocent ctx t a p c h _ =>
    obtain rfl : ctx.agent.key = ak := by by_contra hne; simp [Action.outcome, hne] at ho
    exact ⟨a, _, h.profile, write_eq_some.2 (.inl ⟨rfl, rfl⟩),
      hc.pos h.record (h.agentOf ▸ h.profile) (.inr h.challenged)⟩
  | _ => cases ho

/-- An agent that counts no thought has no open one. -/
theorem no_open_of_idle (hr : Reaches rt slot L h s) {a : AgentProfile} {t : ThoughtRecord}
    (ha : s.agents t.agent = some a) (hi : a.activeThoughts = 0) (ht : s.thoughts k = some t) : ¬t.Open := by
  intro ho
  have hpos := (countsExact_of_reaches hr).pos ht ha ho
  rw [hi] at hpos
  exact absurd hpos (by simp)

/-- **Exact books.** In every reachable state an agent's active count is the number of its open thoughts, and its
reputation the score of the run while that stays an `i64`; no outcome meets a count of zero; and stake is withdrawn only
when no thought of the agent is open. -/
theorem bookkeeping (hr : Reaches rt slot L h s) :
    (∀ ak a, s.agents ak = some a →
      (openThoughts s.thoughts ak).encard = a.activeThoughts.toNat ∧
        ((∀ h₁, h₁ <+: h → InI64 (score ak h₁)) → a.reputation.toInt = score ak h)) ∧
      (∀ ak act κ s', step rt s act = some s' → act.outcome ak = some κ → ∃ a a', s.agents ak = some a ∧
        s'.agents ak = some a' ∧ a'.activeThoughts.toNat + 1 = a.activeThoughts.toNat) ∧
      ∀ (ctx : WithdrawStake) amount s', step rt s (.instruction (.withdrawStake ctx amount)) = some s' →
        ∀ k t, s.thoughts k = some t → t.agent = ctx.agent.key → ¬t.Open := by
  refine ⟨fun ak a ha => ⟨countsExact_of_reaches hr ak a ha, fun hin => ?_⟩,
    fun ak act κ s' ha ho => outcome_count hr ha ho, ?_⟩
  · rw [← reputationOf_of_some ha]
    exact reputation_eq_score hr hin
  · intro ctx amount s' ha k t ht hag
    cases step_effect ha with
    | withdrawStake h => exact no_open_of_idle hr (hag ▸ h.profile) h.idle ht

open Sample in
theorem bookkeeping_slashed :
    ∃ h s a, Reaches chain 1000 funds h s ∧ s.agents agent = some a ∧ a.activeThoughts = 1 ∧
      (openThoughts s.thoughts agent).encard = a.activeThoughts.toNat := by
  obtain ⟨h, s, hr, -, hs⟩ := exists_run (setup ++ submit 0 ++ submit 1 ++ [dispute 0, resolve 0 true])
    (fun s => (s.agents agent).map (·.activeThoughts)) (some 1) (by decide +kernel)
  obtain ⟨a, ha, hn⟩ := Option.map_eq_some_iff.1 hs
  exact ⟨h, s, a, hr, ha, hn, ((bookkeeping hr).1 agent a ha).1⟩

end ProofOfThought.Program
