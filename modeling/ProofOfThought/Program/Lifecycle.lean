import ProofOfThought.Base.Docket
import ProofOfThought.Program.Accounts

/-!
# The life of a thought

The status byte of a thought and the `Challenge` accounts that name it are written by different handlers. `Agrees` ties
both to one phase of the abstract dispute automaton, and every run of the program is, for every thought, a run of that
automaton (`run_docket`). The dispute ledger (`dispute_ledger`) is read off the phase.
-/

namespace ProofOfThought.Program

open Base

variable {rt : Runtime} {s s' : State} {a : Action} {k : Pubkey} {o : Option (Phase Pubkey)} {φ : Phase Pubkey}

/-! ## Rulings -/

/-- What an action rules on the thought at `k`. -/
def Action.ruling (k : Pubkey) : Action → Option (Ruling Pubkey)
  | .instruction (.submitThought ctx _ _) => if ctx.thought.key = k then some .submit else none
  | .instruction (.challenge ctx _ _ _) => if ctx.thought.key = k then some (.dispute ctx.challenge.key) else none
  | .instruction (.resolveUnchallenged ctx) => if ctx.thought.key = k then some .lapse else none
  | .instruction (.resolveChallenged ctx verdict) =>
    if ctx.thought.key = k then some (if verdict then .convict else .acquit) else none
  | _ => none

/-- The rulings on the thought at `k` in a history, in order. -/
def rulings (k : Pubkey) (h : List (State × Action)) : List (Ruling Pubkey) := h.filterMap fun x => x.2.ruling k

/-- How many rulings of a kind a history holds. -/
def countRulings (k : Pubkey) (κ : Kind) (h : List (State × Action)) : Nat := ((rulings k h).map Ruling.kind).count κ

theorem countRulings_eq_zero {κ : Kind} {h : List (State × Action)} :
    countRulings k κ h = 0 ↔ ∀ x ∈ h, ∀ r, x.2.ruling k = some r → r.kind ≠ κ := by
  simp only [countRulings, rulings, List.count_eq_zero, List.mem_map, List.mem_filterMap, not_exists, not_and]
  exact ⟨fun h x hx r hr => h r ⟨x, hx, hr⟩, fun h r ⟨x, hx, hr⟩ => h x hx r hr⟩

theorem countRulings_pos {κ : Kind} {h : List (State × Action)} :
    0 < countRulings k κ h ↔ ∃ x ∈ h, ∃ r, x.2.ruling k = some r ∧ r.kind = κ := by
  simp only [Nat.pos_iff_ne_zero, ne_eq, countRulings_eq_zero, not_forall, not_not, exists_prop]

theorem countRulings_append {κ : Kind} (h₁ h₂ : List (State × Action)) :
    countRulings k κ (h₁ ++ h₂) = countRulings k κ h₁ + countRulings k κ h₂ := by
  simp [countRulings, rulings]

/-- The rulings of a kind come from the instruction of the kind. -/
theorem ruling_lapse {r : Ruling Pubkey} (h : a.ruling k = some r) (hk : r.kind = .lapse) :
    ∃ ctx, a = .instruction (.resolveUnchallenged ctx) ∧ ctx.thought.key = k := by
  unfold Action.ruling at h
  split at h <;> simp only [Option.ite_none_right_eq_some, Option.some.injEq, reduceCtorEq] at h
  · obtain ⟨-, rfl⟩ := h; cases hk
  · obtain ⟨-, rfl⟩ := h; cases hk
  · exact ⟨_, rfl, h.1⟩
  · obtain ⟨-, rfl⟩ := h; split at hk <;> cases hk

theorem ruling_submit {r : Ruling Pubkey} (h : a.ruling k = some r) (hk : r.kind = .submit) :
    ∃ ctx args traceUri, a = .instruction (.submitThought ctx args traceUri) ∧ ctx.thought.key = k := by
  unfold Action.ruling at h
  split at h <;> simp only [Option.ite_none_right_eq_some, Option.some.injEq, reduceCtorEq] at h
  · exact ⟨_, _, _, rfl, h.1⟩
  · obtain ⟨-, rfl⟩ := h; cases hk
  · obtain ⟨-, rfl⟩ := h; cases hk
  · obtain ⟨-, rfl⟩ := h; split at hk <;> cases hk

theorem ruling_dispute {r : Ruling Pubkey} (h : a.ruling k = some r) (hk : r.kind = .dispute) :
    ∃ ctx claim bond evidenceUriHash, a = .instruction (.challenge ctx claim bond evidenceUriHash) ∧
      ctx.thought.key = k := by
  unfold Action.ruling at h
  split at h <;> simp only [Option.ite_none_right_eq_some, Option.some.injEq, reduceCtorEq] at h
  · obtain ⟨-, rfl⟩ := h; cases hk
  · exact ⟨_, _, _, _, rfl, h.1⟩
  · obtain ⟨-, rfl⟩ := h; cases hk
  · obtain ⟨-, rfl⟩ := h; split at hk <;> cases hk

theorem ruling_convict {r : Ruling Pubkey} (h : a.ruling k = some r) (hk : r.kind = .convict) :
    ∃ ctx, a = .instruction (.resolveChallenged ctx true) ∧ ctx.thought.key = k := by
  unfold Action.ruling at h
  split at h <;> simp only [Option.ite_none_right_eq_some, Option.some.injEq, reduceCtorEq] at h
  · obtain ⟨-, rfl⟩ := h; cases hk
  · obtain ⟨-, rfl⟩ := h; cases hk
  · obtain ⟨-, rfl⟩ := h; cases hk
  · obtain ⟨hkey, rfl⟩ := h
    rename_i verdict
    cases verdict
    · cases hk
    · exact ⟨_, rfl, hkey⟩

theorem ruling_acquit {r : Ruling Pubkey} (h : a.ruling k = some r) (hk : r.kind = .acquit) :
    ∃ ctx, a = .instruction (.resolveChallenged ctx false) ∧ ctx.thought.key = k := by
  unfold Action.ruling at h
  split at h <;> simp only [Option.ite_none_right_eq_some, Option.some.injEq, reduceCtorEq] at h
  · obtain ⟨-, rfl⟩ := h; cases hk
  · obtain ⟨-, rfl⟩ := h; cases hk
  · obtain ⟨-, rfl⟩ := h; cases hk
  · obtain ⟨hkey, rfl⟩ := h
    rename_i verdict
    cases verdict
    · exact ⟨_, rfl, hkey⟩
    · cases hk

/-! ## The phase of a thought -/

def phaseStatus : Phase Pubkey → ThoughtStatus
  | .pending => .pending
  | .challenged _ => .challenged
  | .finalized _ => .finalized
  | .slashed _ => .slashed

/-- The verdict of the dispute of an item. -/
def phaseVerdict : Phase Pubkey → Bool
  | .slashed _ => true
  | _ => false

/-- The thoughts and the challenges of a state, seen at `k`, are in the phase `o`. -/
structure Agrees (thoughts : Pubkey → Option ThoughtRecord) (challenges : Pubkey → Option Challenge) (k : Pubkey)
    (o : Option (Phase Pubkey)) : Prop where
  status : (thoughts k).map ThoughtRecord.status = o.map fun φ => (phaseStatus φ).toU8
  sound : ∀ ck c, challenges ck = some c → c.thought = k →
    ∃ φ, o = some φ ∧ φ.dispute? = some ck ∧ c.resolved = !φ.isOpen ∧ c.verdict = phaseVerdict φ
  complete : ∀ φ ck, o = some φ → φ.dispute? = some ck → ∃ c, challenges ck = some c ∧ c.thought = k

section Agrees

variable {thoughts : Pubkey → Option ThoughtRecord} {challenges : Pubkey → Option Challenge}

theorem Agrees.none_of_fresh (h : Agrees thoughts challenges k o) (hk : thoughts k = none) : o = none := by
  have := h.status
  rw [hk] at this
  simpa using this

theorem Agrees.phase {t : ThoughtRecord} {st : ThoughtStatus} (h : Agrees thoughts challenges k o)
    (ht : thoughts k = some t) (hst : t.status = st.toU8) : ∃ φ, o = some φ ∧ phaseStatus φ = st := by
  have hs := h.status
  rw [ht, Option.map_some, hst] at hs
  cases o with
  | none => simp at hs
  | some φ => exact ⟨φ, rfl, (toU8_inj.1 (Option.some.inj hs)).symm⟩

/-- The state shows one phase only. -/
theorem Agrees.unique {o' : Option (Phase Pubkey)} (h : Agrees thoughts challenges k o)
    (h' : Agrees thoughts challenges k o') : o = o' := by
  have hst := h.status.symm.trans h'.status
  have hd : ∀ ck, (∃ φ, o = some φ ∧ φ.dispute? = some ck) ↔ ∃ φ, o' = some φ ∧ φ.dispute? = some ck := by
    intro ck
    constructor
    · intro hx
      rcases hx with ⟨φ, hφ, hck⟩
      obtain ⟨c, hc, hk⟩ := h.complete φ ck hφ hck
      obtain ⟨ψ, hψ, hd, -⟩ := h'.sound ck c hc hk
      exact ⟨ψ, hψ, hd⟩
    · intro he
      rcases he with ⟨φ, hφ, hck⟩
      obtain ⟨c, hc, hk⟩ := h'.complete φ ck hφ hck
      obtain ⟨ψ, hψ, hd, -⟩ := h.sound ck c hc hk
      exact ⟨ψ, hψ, hd⟩
  rcases o with _ | φ <;> rcases o' with _ | ψ <;> simp only [Option.map_none, Option.map_some, reduceCtorEq,
    Option.some.injEq, toU8_inj] at hst
  · rfl
  · have hd' : φ.dispute? = ψ.dispute? := Option.ext fun ck => by simpa using hd ck
    cases φ <;> cases ψ <;> simp_all [phaseStatus, Phase.dispute?]

/-- Writing another thought is not seen. -/
theorem Agrees.other_thought {k' : Pubkey} {t : ThoughtRecord} (hne : k' ≠ k) (h : Agrees thoughts challenges k o) :
    Agrees (Function.update thoughts k' (some t)) challenges k o :=
  ⟨by rw [Function.update_of_ne (Ne.symm hne)]; exact h.status, h.sound, h.complete⟩

/-- A write that keeps the status is not seen. -/
theorem Agrees.same_status {t t' : ThoughtRecord} (h : Agrees thoughts challenges k o) (ht : thoughts k = some t)
    (hs : t'.status = t.status) : Agrees (Function.update thoughts k (some t')) challenges k o :=
  ⟨by rw [Function.update_self, ← h.status, ht, Option.map_some, Option.map_some, hs], h.sound, h.complete⟩

/-- Writing a challenge of another thought, over nothing or over a challenge of another thought, is not seen. -/
theorem Agrees.other_challenge {ck : Pubkey} {c : Challenge} (hc : c.thought ≠ k)
    (hold : ∀ c₀, challenges ck = some c₀ → c₀.thought ≠ k) (h : Agrees thoughts challenges k o) :
    Agrees thoughts (Function.update challenges ck (some c)) k o where
  status := h.status
  sound ck' c' hc' hk := by
    rcases write_eq_some.1 hc' with ⟨-, rfl⟩ | ⟨-, hc'⟩
    · exact absurd hk hc
    · exact h.sound ck' c' hc' hk
  complete φ ck' hφ hd := by
    obtain ⟨c', hc', hk⟩ := h.complete φ ck' hφ hd
    have hne : ck' ≠ ck := by rintro rfl; exact hold c' hc' hk
    exact ⟨c', write_eq_some.2 (.inr ⟨hne, hc'⟩), hk⟩

/-- A ruling on the thought itself that leaves the challenges alone. -/
theorem Agrees.rule {t : ThoughtRecord} (h : Agrees thoughts challenges k o) (hst : t.status = (phaseStatus φ).toU8)
    (hd : φ.dispute? = none) (ho : ∀ ψ, o = some ψ → ψ.dispute? = none) :
    Agrees (Function.update thoughts k (some t)) challenges k (some φ) where
  status := by rw [Function.update_self, Option.map_some, hst, Option.map_some]
  sound ck c hc hk := by
    obtain ⟨ψ, hψ, hd', -⟩ := h.sound ck c hc hk
    rw [ho ψ hψ] at hd'
    exact absurd hd' (by simp)
  complete ψ ck hψ hd' := by
    cases hψ
    rw [hd] at hd'
    exact absurd hd' (by simp)

/-- A ruling that also writes the dispute of the thought: its first one, or the one it has. -/
theorem Agrees.rule_dispute {t : ThoughtRecord} {ck : Pubkey} {c : Challenge} (h : Agrees thoughts challenges k o)
    (hst : t.status = (phaseStatus φ).toU8) (hd : φ.dispute? = some ck) (hc : c.thought = k)
    (hr : c.resolved = !φ.isOpen) (hv : c.verdict = phaseVerdict φ)
    (ho : ∀ ψ ck', o = some ψ → ψ.dispute? = some ck' → ck' = ck) :
    Agrees (Function.update thoughts k (some t)) (Function.update challenges ck (some c)) k (some φ) where
  status := by rw [Function.update_self, Option.map_some, hst, Option.map_some]
  sound ck' c' hc' hk := by
    rcases write_eq_some.1 hc' with ⟨rfl, rfl⟩ | ⟨hne, hc'⟩
    · exact ⟨φ, rfl, hd, hr, hv⟩
    · obtain ⟨ψ, hψ, hd', -⟩ := h.sound ck' c' hc' hk
      exact absurd (ho ψ ck' hψ hd') hne
  complete ψ ck' hψ hd' := by
    cases hψ
    rw [hd] at hd'
    cases hd'
    exact ⟨c, write_eq_some.2 (.inl ⟨rfl, rfl⟩), hc⟩

end Agrees

section Verdict

variable {ctx : ResolveChallenged} {t : ThoughtRecord} {p : Policy} {c : Challenge} {ag : AgentProfile}

/-- The thought a verdict is accepted for is disputed, by the challenge passed. -/
theorem Agrees.disputed (hA : Agrees s.thoughts s.challenges ctx.thought.key o) (h : ctx.Accepted rt s t ag p c) :
    o = some (.challenged ctx.challenge.key) := by
  obtain ⟨φ, rfl, hd, -⟩ := hA.sound _ _ h.dispute h.challengeOf
  obtain ⟨φ', hφ', hst⟩ := hA.phase h.record h.challenged
  obtain rfl := Option.some.inj hφ'
  cases φ <;> simp only [phaseStatus, reduceCtorEq] at hst
  obtain rfl := Option.some.inj hd
  rfl

/-- The challenge a verdict is accepted for is of no other thought. -/
theorem ResolveChallenged.Accepted.other (h : ctx.Accepted rt s t ag p c) (hk : ctx.thought.key ≠ k) (c₀ : Challenge)
    (hc₀ : s.challenges ctx.challenge.key = some c₀) : c₀.thought ≠ k := by
  rw [h.dispute] at hc₀
  exact Option.some.inj hc₀ ▸ h.challengeOf ▸ hk

end Verdict

/-! ## The program refines the automaton -/

theorem agrees_genesis (slot : UInt64) (L : Ledger Pubkey) :
    Agrees (State.genesis slot L).thoughts (State.genesis slot L).challenges k none :=
  ⟨rfl, nofun, nofun⟩

/-- **One step.** On the thought at `k` a step is invisible, or it is the step of the automaton that it rules. -/
theorem agrees_step (hA : Agrees s.thoughts s.challenges k o) (he : Effect rt s a s') :
    (a.ruling k = none ∧ Agrees s'.thoughts s'.challenges k o) ∨
      ∃ r o', a.ruling k = some r ∧ advance o r = some o' ∧ Agrees s'.thoughts s'.challenges k o' := by
  cases he with
  | @submitThought ctx args traceUri a p v d n h =>
    by_cases hk : ctx.thought.key = k
    · subst hk
      obtain rfl := hA.none_of_fresh h.fresh
      exact .inr ⟨.submit, some .pending, if_pos rfl, rfl, hA.rule rfl rfl nofun⟩
    · exact .inl ⟨if_neg hk, hA.other_thought hk⟩
  | @consumeThought ctx t p n h =>
    refine .inl ⟨rfl, ?_⟩
    by_cases hk : ctx.thought.key = k
    · subst hk
      exact hA.same_status h.record rfl
    · exact hA.other_thought hk
  | @challenge ctx claim bond evidenceUriHash t p h =>
    by_cases hk : ctx.thought.key = k
    · subst hk
      obtain ⟨φ, rfl, hφ⟩ := hA.phase h.record h.pending
      cases φ <;> simp only [phaseStatus, reduceCtorEq] at hφ
      refine .inr ⟨.dispute ctx.challenge.key, some (.challenged ctx.challenge.key), if_pos rfl, rfl, ?_⟩
      exact hA.rule_dispute rfl rfl rfl rfl rfl (by rintro _ _ ⟨⟩ ⟨⟩)
    · refine .inl ⟨if_neg hk, (hA.other_thought hk).other_challenge hk ?_⟩
      intro c₀ hc₀
      rw [h.fresh] at hc₀
      cases hc₀
  | @resolveUnchallenged ctx t a h =>
    by_cases hk : ctx.thought.key = k
    · subst hk
      obtain ⟨φ, rfl, hφ⟩ := hA.phase h.record h.pending
      cases φ <;> simp only [phaseStatus, reduceCtorEq] at hφ
      refine .inr ⟨.lapse, some (.finalized none), if_pos rfl, rfl, hA.rule rfl rfl ?_⟩
      rintro _ ⟨⟩
      rfl
    · exact .inl ⟨if_neg hk, hA.other_thought hk⟩
  | @guilty ctx t a p c h _ =>
    by_cases hk : ctx.thought.key = k
    · subst hk
      obtain rfl := hA.disputed h
      refine .inr ⟨.convict, some (.slashed ctx.challenge.key), if_pos rfl, rfl, ?_⟩
      exact hA.rule_dispute rfl rfl h.challengeOf rfl rfl (by rintro _ _ ⟨⟩ ⟨⟩; rfl)
    · exact .inl ⟨if_neg hk, (hA.other_thought hk).other_challenge (h.challengeOf ▸ hk) (h.other hk)⟩
  | @innocent ctx t a p c h _ =>
    by_cases hk : ctx.thought.key = k
    · subst hk
      obtain rfl := hA.disputed h
      refine .inr ⟨.acquit, some (.finalized (some ctx.challenge.key)), if_pos rfl, rfl, ?_⟩
      exact hA.rule_dispute rfl rfl h.challengeOf rfl rfl (by rintro _ _ ⟨⟩ ⟨⟩; rfl)
    · exact .inl ⟨if_neg hk, (hA.other_thought hk).other_challenge (h.challengeOf ▸ hk) (h.other hk)⟩
  | _ => exact .inl ⟨rfl, hA⟩

variable {slot : UInt64} {L : Ledger Pubkey} {h : List (State × Action)}

/-- **Refinement.** The rulings of a run on one thought are a run of the automaton, whose phase the state shows. -/
theorem run_docket (hr : Reaches rt slot L h s) (k : Pubkey) :
    ∃ g o, Run advance none g o ∧ g.map Prod.snd = rulings k h ∧ Agrees s.thoughts s.challenges k o :=
  hr.project (fun x => x.2.ruling k) (fun s o => Agrees s.thoughts s.challenges k o) (agrees_genesis slot L)
    fun _ _ _ _ hA ha => agrees_step hA (step_effect ha)

/-- The phase of a thought in a reachable state, and that it counts the rulings. -/
theorem exists_phase (hr : Reaches rt slot L h s) (k : Pubkey) :
    ∃ o, Agrees s.thoughts s.challenges k o ∧ ∀ κ, countRulings k κ h = Phase.count o κ := by
  obtain ⟨g, o, hg, he, hA⟩ := run_docket hr k
  refine ⟨o, hA, fun κ => ?_⟩
  rw [countRulings, ← he, List.map_map, ← run_count hg κ]
  rfl

/-! ## The dispute ledger -/

/-- The challenge at `ck` disputes the thought at `k`. -/
def State.Disputes (s : State) (k ck : Pubkey) (c : Challenge) : Prop := s.challenges ck = some c ∧ c.thought = k

/-- The status of the record `t` at `k` agrees with the challenges that name it. -/
structure LedgerAgrees (s : State) (k : Pubkey) (t : ThoughtRecord) : Prop where
  decodes : ∃ st, t.status = ThoughtStatus.toU8 st
  unique : ∀ ck c ck' c', s.Disputes k ck c → s.Disputes k ck' c' → ck = ck'
  pending : t.status = ThoughtStatus.pending.toU8 → ∀ ck c, ¬s.Disputes k ck c
  challenged : t.status = ThoughtStatus.challenged.toU8 ↔ ∃ ck c, s.Disputes k ck c ∧ c.resolved = false
  slashed : t.status = ThoughtStatus.slashed.toU8 ↔
    ∃ ck c, s.Disputes k ck c ∧ c.resolved = true ∧ c.verdict = true
  finalized : t.status = ThoughtStatus.finalized.toU8 → ∀ ck c, s.Disputes k ck c →
    c.resolved = true ∧ c.verdict = false

theorem ledgerAgrees_of_agrees {t : ThoughtRecord} (hA : Agrees s.thoughts s.challenges k o)
    (ht : s.thoughts k = some t) : LedgerAgrees s k t := by
  obtain ⟨φ, rfl⟩ : ∃ φ, o = some φ := by
    have hs := hA.status
    rw [ht] at hs
    cases o with
    | none => simp at hs
    | some φ => exact ⟨φ, rfl⟩
  have hst : t.status = (phaseStatus φ).toU8 := by simpa [ht] using hA.status
  have hsound : ∀ ck c, s.Disputes k ck c →
      φ.dispute? = some ck ∧ c.resolved = !φ.isOpen ∧ c.verdict = phaseVerdict φ := by
    intro ck c hx
    rcases hx with ⟨hc, hk⟩
    obtain ⟨ψ, hψ, hd⟩ := hA.sound ck c hc hk
    exact Option.some.inj hψ ▸ hd
  have hcomplete : ∀ ck, φ.dispute? = some ck → ∃ c, s.Disputes k ck c := fun ck hd => hA.complete φ ck rfl hd
  refine ⟨⟨_, hst⟩, ?_, ?_, ?_, ?_, ?_⟩
  · intro ck c ck' c' h1 h2
    exact Option.some.inj ((hsound _ _ h1).1.symm.trans (hsound _ _ h2).1)
  · intro hp ck c hd
    rw [hst, toU8_inj] at hp
    obtain ⟨h1, -⟩ := hsound _ _ hd
    cases φ <;> simp_all [phaseStatus, Phase.dispute?]
  · rw [hst, toU8_inj]
    constructor
    · intro hc
      cases φ <;> simp only [phaseStatus, reduceCtorEq] at hc
      obtain ⟨c, hd⟩ := hcomplete _ rfl
      exact ⟨_, c, hd, (hsound _ _ hd).2.1⟩
    · intro he
      rcases he with ⟨ck, c, hd, hr⟩
      obtain ⟨h1, h2, -⟩ := hsound _ _ hd
      cases φ <;> simp_all [phaseStatus, Phase.dispute?, Phase.isOpen]
  · rw [hst, toU8_inj]
    constructor
    · intro hc
      cases φ <;> simp only [phaseStatus, reduceCtorEq] at hc
      obtain ⟨c, hd⟩ := hcomplete _ rfl
      exact ⟨_, c, hd, (hsound _ _ hd).2⟩
    · intro hy
      rcases hy with ⟨ck, c, hd, hr, hv⟩
      obtain ⟨-, -, h3⟩ := hsound _ _ hd
      cases φ <;> simp_all [phaseStatus, phaseVerdict]
  · intro hf ck c hd
    rw [hst, toU8_inj] at hf
    cases φ <;> simp only [phaseStatus, reduceCtorEq] at hf
    exact (hsound _ _ hd).2

/-- A settled thought keeps its phase in every continuation. -/
theorem agrees_settled (hA : Agrees s.thoughts s.challenges k (some φ)) (hφ : φ.isOpen = false)
    {h' : List (State × Action)} (hr : Run (step rt) s h' s') : Agrees s'.thoughts s'.challenges k (some φ) := by
  refine hr.stable (fun s => Agrees s.thoughts s.challenges k (some φ)) (fun _ _ _ hA ha => ?_) hA
  rcases agrees_step hA (step_effect ha) with ⟨-, hA'⟩ | ⟨r, o', -, hadv, -⟩
  · exact hA'
  · rw [advance_settled hφ] at hadv
    cases hadv

theorem settled_forever (hr : Reaches rt slot L h s) {t : ThoughtRecord} (ht : s.thoughts k = some t)
    (hs : t.Settled) {h' : List (State × Action)} (hr' : Run (step rt) s h' s') :
    ∃ t', s'.thoughts k = some t' ∧ t'.status = t.status := by
  obtain ⟨o, hA, -⟩ := exists_phase hr k
  obtain ⟨φ, rfl, hφ, hst⟩ : ∃ φ, o = some φ ∧ φ.isOpen = false ∧ t.status = (phaseStatus φ).toU8 := by
    rcases hs with hs | hs <;> obtain ⟨φ, rfl, hφ⟩ := hA.phase ht hs <;>
      cases φ <;> simp_all [phaseStatus, Phase.isOpen]
  have hs' := (agrees_settled hA hφ hr').status
  obtain ⟨t', ht', he⟩ := Option.map_eq_some_iff.1 hs'
  exact ⟨t', ht', he.trans hst.symm⟩

theorem resolves_once {h' : List (State × Action)} (hr : Run (step rt) s h' s') (ck : Pubkey) :
    h'.countP (fun x => x.2.resolves ck) ≤ 1 := by
  refine (hr.countP_le_one (fun x => x.2.resolves ck) (fun s => ∃ c, s.challenges ck = some c ∧ c.resolved = true)
    ?_ ?_).1
  · rintro s a s' ⟨c, hc, hres⟩ ha
    obtain ⟨c', hc', hsame⟩ := (step_effect ha).challenges _ _ hc
    exact ⟨c', hc', hsame.final hres ▸ hres⟩
  · intro s a s' ha hres
    cases step_effect ha with
    | @guilty ctx t ag p c h _ =>
      obtain rfl := of_decide_eq_true hres
      exact ⟨by simp [h.dispute, h.unresolved], _, write_eq_some.2 (.inl ⟨rfl, rfl⟩), rfl⟩
    | @innocent ctx t ag p c h _ =>
      obtain rfl := of_decide_eq_true hres
      exact ⟨by simp [h.dispute, h.unresolved], _, write_eq_some.2 (.inl ⟨rfl, rfl⟩), rfl⟩
    | _ => cases hres

theorem ledgerAgrees_of_reaches (hr : Reaches rt slot L h s) {t : ThoughtRecord} (ht : s.thoughts k = some t) :
    LedgerAgrees s k t := by
  obtain ⟨o, hA, -⟩ := exists_phase hr k
  exact ledgerAgrees_of_agrees hA ht

/-- **Dispute ledger.** In every reachable state, for every thought: the status and the challenges agree; there was at
most one dispute and at most one outcome; no challenge is resolved twice; the outcome stays. -/
theorem dispute_ledger (hr : Reaches rt slot L h s) (k : Pubkey) :
    (∀ t, s.thoughts k = some t → LedgerAgrees s k t) ∧
      countRulings k .dispute h ≤ 1 ∧
      countRulings k .lapse h + countRulings k .acquit h + countRulings k .convict h ≤ 1 ∧
      (∀ ck, h.countP (fun x => x.2.resolves ck) ≤ 1) ∧
      ∀ t h' s', s.thoughts k = some t → t.Settled → Run (step rt) s h' s' →
        ∃ t', s'.thoughts k = some t' ∧ t'.status = t.status := by
  obtain ⟨o, -, hcount⟩ := exists_phase hr k
  refine ⟨fun t ht => ledgerAgrees_of_reaches hr ht, ?_, ?_, resolves_once hr, ?_⟩
  · exact hcount .dispute ▸ count_dispute_le_one o
  · rw [hcount, hcount, hcount]
    exact count_outcome_le_one o
  · exact fun t h' s' ht hs hr' => settled_forever hr ht hs hr'

open Sample in
theorem dispute_ledger_slashed :
    ∃ h s t, Reaches chain 1000 funds h s ∧ s.thoughts (thought 0) = some t ∧
      t.status = ThoughtStatus.slashed.toU8 ∧ LedgerAgrees s (thought 0) t ∧
      countRulings (thought 0) .convict h ≤ 1 := by
  obtain ⟨h, s, hr, -, hs⟩ := exists_run (setup ++ submit 0 ++ [dispute 0, resolve 0 true])
    (fun s => (s.thoughts (thought 0)).map (·.status)) (some 3) (by decide +kernel)
  obtain ⟨t, ht, hst⟩ := Option.map_eq_some_iff.1 hs
  obtain ⟨hl, -, hc, -⟩ := dispute_ledger hr (thought 0)
  exact ⟨h, s, t, hr, ht, hst, hl t ht, by omega⟩

end ProofOfThought.Program
