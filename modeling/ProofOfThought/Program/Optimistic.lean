import ProofOfThought.Program.Consumption
import ProofOfThought.Program.Frame
import ProofOfThought.Program.Window

/-!
# Optimistic acceptance

What the dispute game is for. Let `F` be the thoughts that should not be accepted. Anybody may attempt anything, in any
order, and rejected attempts do nothing. If the resolvers convict exactly the thoughts in `F`, the policies of these
have a window, and somebody properly attempts to challenge each of them before the clock reaches its deadline
(`Policed`), then no thought in `F` is ever accepted or consumed, and no other thought is ever rejected
(`optimistic_safety`). An attempt is enough: it is refused only when another challenge was first.
-/

namespace ProofOfThought.Program

open Base

variable {rt : Runtime} {s s' m : State} {act : Action} {k : Pubkey} {slot : UInt64} {L : Ledger Pubkey}
  {h h₁ h₂ : List (State × Action)} {t : ThoughtRecord} {F : Pubkey → Prop} {o : Option (Phase Pubkey)}

/-- The schedules of the program: actions attempted in order. -/
abbrev Attempts (rt : Runtime) (slot : UInt64) (L : Ledger Pubkey) (h : List (State × Action)) (s : State) : Prop :=
  Run (attempt (step rt)) (State.genesis slot L) h s

theorem Attempts.reaches (hr : Attempts rt slot L h s) : ∃ g, Reaches rt slot L g s := by
  obtain ⟨g, hg, -⟩ := hr.accepted
  exact ⟨g, hg⟩

/-! ## The assumptions -/

/-- A challenge of the thought at `k`, with the right accounts, the funds, and a bond that the policy admits. It is
proper for the program: the rent rule of the runtime asks besides that what it leaves in the bond vault and with the
challenger is rent exempt, so a bond below the minimum of an empty vault is no proper challenge there. -/
def ProperChallenge (rt : Runtime) (s : State) (k : Pubkey) (a : Action) : Prop :=
  ∃ ctx claim bond evidenceUriHash t p, a = .instruction (.challenge ctx claim bond evidenceUriHash) ∧
    s.thoughts k = some t ∧ s.policies (rt.pda (.policy t.policyId)) = some p ∧ p.bondMin ≤ bond ∧
    OpenChallenge.Prepared rt s ctx bond k t

/-- What is asked of those who judge and of those who watch. -/
structure Policed (rt : Runtime) (F : Pubkey → Prop) (h : List (State × Action)) : Prop where
  /-- The verdicts that are executed convict the thoughts in `F`, and no others. -/
  verdicts : ∀ m ctx verdict, (m, .instruction (.resolveChallenged ctx verdict)) ∈ h →
    (step rt m (.instruction (.resolveChallenged ctx verdict))).isSome = true →
    (verdict = true ↔ F ctx.thought.key)
  /-- A thought in `F` is submitted under a policy that has a window. -/
  windows : ∀ m ctx args traceUri p, (m, .instruction (.submitThought ctx args traceUri)) ∈ h → F ctx.thought.key →
    m.policies ctx.policy.key = some p → 0 < p.challengeWindowSlots
  /-- Before the clock reaches the deadline of a thought in `F`, somebody has attempted to challenge it. -/
  watched : ∀ h₁ h₂ m m' n k t, h = h₁ ++ (m, .tick n) :: h₂ → F k → m.thoughts k = some t →
    m.slot < t.challengeDeadlineSlot → step rt m (.tick n) = some m' → t.challengeDeadlineSlot ≤ m'.slot →
    ∃ x ∈ h₁, ProperChallenge rt x.1 k x.2

theorem Policed.of_append_left (hp : Policed rt F (h₁ ++ h₂)) : Policed rt F h₁ where
  verdicts m ctx verdict hm := hp.verdicts m ctx verdict (List.mem_append_left _ hm)
  windows m ctx args traceUri p hm := hp.windows m ctx args traceUri p (List.mem_append_left _ hm)
  watched g₁ g₂ m m' n k t he := hp.watched g₁ (g₂ ++ h₂) m m' n k t (by rw [he]; simp)

/-! ## The invariant of a thought in `F` -/

/-- The thought at `k` is not accepted; and while nobody has challenged it, nobody has attempted to, and there is
time. -/
structure Guarded (rt : Runtime) (k : Pubkey) (h : List (State × Action)) (s : State) (o : Option (Phase Pubkey)) :
    Prop where
  agrees : Agrees s.thoughts s.challenges k o
  refused : ∀ c, o ≠ some (.finalized c)
  untried : o = none ∨ o = some .pending → ∀ x ∈ h, ¬ProperChallenge rt x.1 k x.2
  time : o = some .pending → ∀ t, s.thoughts k = some t → s.slot < t.challengeDeadlineSlot

/-- A proper attempt on a thought that is still pending is accepted. -/
theorem ruling_of_proper (hr : Reaches rt slot L h s) (hg : Guarded rt k h₁ s o) (ha : ProperChallenge rt s k act) :
    o ≠ none ∧ (o = some .pending → ∃ s', step rt s act = some s' ∧ act.ruling k ≠ none) := by
  obtain ⟨ctx, claim, bond, evidenceUriHash, t, p, rfl, ht, hpol, hbond, hprep⟩ := ha
  constructor
  · rintro rfl
    have hst := hg.agrees.status
    rw [ht] at hst
    cases hst
  · rintro rfl
    have hst : t.status = ThoughtStatus.pending.toU8 := by
      have hst := hg.agrees.status
      rw [ht] at hst
      exact Option.some.inj hst
    have hopen := openToChallenge_of_pending hr ht hst (hg.time rfl t ht)
    obtain ⟨r, hr'⟩ := hopen ctx claim bond evidenceUriHash p hpol hbond hprep
    refine ⟨r.1, step_instruction.2 ⟨r.2, hr'⟩, ?_⟩
    rw [Action.ruling, if_pos hprep.thought]
    nofun

/-- Only a tick moves the clock. -/
theorem Effect.slot_eq (he : Effect rt s act s') (ht : ∀ n, act ≠ .tick n) : s'.slot = s.slot := by
  cases he with
  | tick _ => exact absurd rfl (ht _)
  | _ => rfl

theorem Guarded.tried (hg : Guarded rt k h s o) (hnew : o = none ∨ o = some .pending → ¬ProperChallenge rt s k act) :
    o = none ∨ o = some .pending → ∀ x ∈ h ++ [(s, act)], ¬ProperChallenge rt x.1 k x.2 := by
  intro ho x hx
  rcases List.mem_append.1 hx with hx | hx
  · exact hg.untried ho x hx
  · rw [List.mem_singleton.1 hx]
    exact hnew ho

/-- While the thought waits, an accepted step that does not rule on it leaves it time. -/
theorem Guarded.time_step (hg : Guarded rt k h s o) (hF : F k) (hp : Policed rt F (h ++ [(s, act)]))
    (ha : step rt s act = some s') (ho : o = some .pending) (ht : s'.thoughts k = some t) :
    s'.slot < t.challengeDeadlineSlot := by
  have he := step_effect ha
  obtain ⟨t₀, ht₀⟩ : ∃ t₀, s.thoughts k = some t₀ := by
    have hst := hg.agrees.status
    rw [ho] at hst
    obtain ⟨t₀, ht₀, -⟩ := Option.map_eq_some_iff.1 hst
    exact ⟨t₀, ht₀⟩
  have hdl : t.challengeDeadlineSlot = t₀.challengeDeadlineSlot := by
    obtain ⟨t', ht', hsame⟩ := he.thoughts _ _ ht₀
    obtain rfl := Option.some.inj (ht'.symm.trans ht)
    exact (hsame.field (·.challengeDeadlineSlot) fun _ => rfl).symm
  have hlt := hg.time ho t₀ ht₀
  rw [hdl]
  by_cases htick : ∃ n, act = .tick n
  · obtain ⟨n, rfl⟩ := htick
    -- the clock reaches the deadline only after an attempt, and there was none
    by_contra hge
    obtain ⟨x, hx, hproper⟩ := hp.watched h [] s s' n k t₀ rfl hF ht₀ hlt ha (UInt64.not_lt.1 hge)
    exact hg.untried (.inr ho) x hx hproper
  · rw [he.slot_eq fun n hn => htick ⟨n, hn⟩]
    exact hlt

/-- **One attempt** keeps a thought in `F` guarded. -/
theorem Guarded.step {g : List (State × Action)} (hr : Reaches rt slot L g s) (hg : Guarded rt k h s o) (hF : F k)
    (hp : Policed rt F (h ++ [(s, act)])) (ha : attempt (step rt) s act = some s') :
    ∃ o', Guarded rt k (h ++ [(s, act)]) s' o' := by
  have hmem : (s, act) ∈ h ++ [(s, act)] := by simp
  rcases attempt_cases ha with ha | ⟨hn, rfl⟩
  · have he := step_effect ha
    rcases agrees_step hg.agrees he with ⟨hnone, hA⟩ | ⟨r, o', hrul, hadv, hA⟩
    · refine ⟨o, hA, hg.refused, hg.tried fun ho hproper => ?_, fun ho t ht => hg.time_step hF hp ha ho ht⟩
      obtain ⟨hsome, hpending⟩ := ruling_of_proper hr hg hproper
      obtain ⟨_, -, hne⟩ := hpending (ho.resolve_left hsome)
      exact hne hnone
    · rcases advance_eq_some.1 hadv with ⟨rfl, rfl, rfl⟩ | ⟨c, rfl, rfl, rfl⟩ | ⟨rfl, rfl, rfl⟩ | ⟨c, rfl, rfl, rfl⟩ |
        ⟨c, rfl, rfl, rfl⟩
      · -- submitted: nobody could have tried before, and the window is not empty
        have hnew : ¬ProperChallenge rt s k act := fun hproper => (ruling_of_proper hr hg hproper).1 rfl
        refine ⟨_, hA, by simp, fun _ x hx => hg.tried (fun _ => hnew) (.inl rfl) x hx, fun _ t ht => ?_⟩
        obtain ⟨ctx, args, traceUri, rfl, rfl⟩ := ruling_submit hrul rfl
        cases he with
        | submitThought hacc =>
          have hw := UInt64.lt_iff_toNat_lt.1 (hp.windows s ctx args traceUri _ hmem hF hacc.policyAccount)
          obtain rfl := Option.some.inj ((write_eq_some.2 (.inl ⟨rfl, rfl⟩)).symm.trans ht)
          have hd := hacc.deadline
          rw [UInt64.lt_iff_toNat_lt]
          simp only [SubmitThought.after, SubmitThought.record, UInt64.toNat_zero] at hw ⊢
          omega
      · exact ⟨_, hA, by simp, by simp, by simp⟩
      · -- a lapse waits for the deadline
        obtain ⟨ctx, rfl, rfl⟩ := ruling_lapse hrul rfl
        cases he with
        | resolveUnchallenged hacc => exact absurd (hg.time rfl _ hacc.record) (UInt64.not_lt.2 hacc.deadline)
      · exact ⟨_, hA, by simp, by simp, by simp⟩
      · obtain ⟨ctx, rfl, rfl⟩ := ruling_acquit hrul rfl
        have hv := hp.verdicts s ctx false hmem (by rw [ha]; rfl)
        exact absurd (hv.2 hF) Bool.false_ne_true
  · refine ⟨o, hg.agrees, hg.refused, hg.tried fun ho hproper => ?_, hg.time⟩
    obtain ⟨hsome, hpending⟩ := ruling_of_proper hr hg hproper
    obtain ⟨_, hacc, -⟩ := hpending (ho.resolve_left hsome)
    rw [hn] at hacc
    cases hacc

/-- **Every schedule** keeps the thoughts in `F` guarded. -/
theorem guarded_of_attempts (hr : Attempts rt slot L h s) (hp : Policed rt F h) (hF : F k) :
    ∃ o, Guarded rt k h s o := by
  refine hr.inv (fun h s => Policed rt F h → ∃ o, Guarded rt k h s o) ?_ ?_ hp
  · exact fun _ => ⟨none, agrees_genesis slot L, by simp, by simp, by simp⟩
  · intro h s a s' hr ih ha hp
    obtain ⟨o, hg⟩ := ih hp.of_append_left
    obtain ⟨g, hreach⟩ := Attempts.reaches hr
    exact hg.step hreach hF hp ha

/-! ## The other thoughts -/

/-- **Every schedule** leaves the thoughts outside `F` unslashed. -/
theorem spared_of_attempts (hr : Attempts rt slot L h s) (hp : Policed rt F h) (hF : ¬F k) :
    ∃ o, Agrees s.thoughts s.challenges k o ∧ ∀ c, o ≠ some (.slashed c) := by
  refine hr.inv (fun h s => Policed rt F h → ∃ o, Agrees s.thoughts s.challenges k o ∧ ∀ c, o ≠ some (.slashed c))
    ?_ ?_ hp
  · exact fun _ => ⟨none, agrees_genesis slot L, by simp⟩
  · intro h s a s' _ ih ha hp
    obtain ⟨o, hA, hns⟩ := ih hp.of_append_left
    rcases attempt_cases ha with ha | ⟨-, rfl⟩
    · rcases agrees_step hA (step_effect ha) with ⟨-, hA'⟩ | ⟨r, o', hrul, hadv, hA'⟩
      · exact ⟨o, hA', hns⟩
      · refine ⟨o', hA', ?_⟩
        rintro c rfl
        -- only a conviction slashes, and the verdicts convict the thoughts in `F`
        rcases advance_eq_some.1 hadv with ⟨-, -, he⟩ | ⟨_, -, -, he⟩ | ⟨-, -, he⟩ | ⟨_, rfl, -, -⟩ | ⟨_, -, -, he⟩
        · cases he
        · cases he
        · cases he
        · obtain ⟨ctx, rfl, rfl⟩ := ruling_convict hrul rfl
          exact hF ((hp.verdicts s ctx true (by simp) (by rw [ha]; rfl)).1 rfl)
        · cases he
    · exact ⟨o, hA, hns⟩

/-! ## Safety -/

/-- What the game promises of the thought at `k`. -/
def Judged (F : Pubkey → Prop) (s : State) (k : Pubkey) (t : ThoughtRecord) : Prop :=
  (F k → t.status ≠ ThoughtStatus.finalized.toU8 ∧
    (t.challengeDeadlineSlot ≤ s.slot → t.status ≠ ThoughtStatus.pending.toU8)) ∧
  (¬F k → t.status ≠ ThoughtStatus.slashed.toU8)

theorem judged_of_attempts (hr : Attempts rt slot L h s) (hp : Policed rt F h) (ht : s.thoughts k = some t) :
    Judged F s k t := by
  constructor
  · intro hF
    obtain ⟨o, hg⟩ := guarded_of_attempts hr hp hF
    constructor
    · intro hst
      obtain ⟨φ, rfl, hφ⟩ := hg.agrees.phase ht hst
      cases φ <;> simp only [phaseStatus, reduceCtorEq] at hφ
      exact hg.refused _ rfl
    · intro hd hst
      obtain ⟨φ, rfl, hφ⟩ := hg.agrees.phase ht hst
      cases φ <;> simp only [phaseStatus, reduceCtorEq] at hφ
      exact absurd (hg.time rfl t ht) (UInt64.not_lt.2 hd)
  · intro hF hst
    obtain ⟨o, hA, hns⟩ := spared_of_attempts hr hp hF
    obtain ⟨φ, rfl, hφ⟩ := hA.phase ht hst
    cases φ <;> simp only [phaseStatus, reduceCtorEq] at hφ
    exact hns _ rfl

/-- **Optimistic safety.** Whatever is attempted besides, in a policed schedule no thought in `F` is accepted, or still
pending at its deadline, and none is consumed; no other thought is slashed, and an agent without thoughts in `F` loses
stake by its own withdrawals only. -/
theorem optimistic_safety (hr : Attempts rt slot L h s) (hp : Policed rt F h) :
    (∀ k t, s.thoughts k = some t → Judged F s k t) ∧
      (∀ m ctx, (m, .instruction (.consumeThought ctx)) ∈ h →
        (step rt m (.instruction (.consumeThought ctx))).isSome = true → ¬F ctx.thought.key) ∧
      ∀ m act m' ak a a', (m, act) ∈ h → step rt m act = some m' → m.agents ak = some a → m'.agents ak = some a' →
        (∀ k t, m.thoughts k = some t → t.agent = ak → ¬F k) → a'.stakeAmount < a.stakeAmount →
        Withdraws ak a act := by
  refine ⟨fun k t ht => judged_of_attempts hr hp ht, ?_, ?_⟩
  · intro m ctx hx hacc hF
    obtain ⟨m', ha⟩ := Option.isSome_iff_exists.1 hacc
    obtain ⟨h₁, h₂, -, rfl, hm, -, -⟩ := hr.mem hx
    obtain ⟨g, hreach⟩ := Attempts.reaches hm
    cases step_effect ha with
    | consumeThought hc =>
      exact ((judged_of_attempts hm hp.of_append_left hc.record).1 hF).1 (finalized_of_consumed hreach hc)
  · intro m act m' ak a a' hx ha hak hak' hsafe hlt
    obtain ⟨h₁, h₂, -, rfl, hm, -, -⟩ := hr.mem hx
    obtain ⟨g, hreach⟩ := Attempts.reaches hm
    refine (stake_decreased (wf_of_reaches hreach) (step_effect ha) hak hak' hlt).resolve_right ?_
    rintro ⟨ctx, t, p, rfl, ht, hagent, -⟩
    exact hsafe _ t ht hagent ((hp.verdicts m ctx true hx (by rw [ha]; rfl)).1 rfl)

/-! ## A policed schedule -/

/-- A challenge that is accepted was a proper one. -/
theorem proper_of_accepted {g : List (State × Action)} (hr : Reaches rt slot L g s) {ctx : OpenChallenge}
    {claim : ChallengeClaim} {bond : UInt64} {evidenceUriHash : Bytes32}
    (ha : step rt s (.instruction (.challenge ctx claim bond evidenceUriHash)) = some s') :
    ProperChallenge rt s ctx.thought.key (.instruction (.challenge ctx claim bond evidenceUriHash)) := by
  cases step_effect ha with
  | @challenge _ _ _ _ t p hacc =>
    have hkey := (wf_of_reaches hr).policy_key hacc.policyAccount hacc.policy
    exact ⟨ctx, claim, bond, evidenceUriHash, t, p, rfl, hacc.record, hkey ▸ hacc.policyAccount, hacc.enough,
      { signed := hacc.signed
        system := hacc.system
        thought := rfl
        policy := hkey
        challenge := hacc.challenge
        vault := hacc.vault
        writable := hacc.writable
        rent := hacc.rent
        funds := hacc.funds }⟩

/-- The actions before a tick, when the first ones are no ticks. -/
theorem subset_of_tick {A B : List Action} (hA : ∀ n, .tick n ∉ A) {n : UInt64}
    (he : h₁.map Prod.snd ++ .tick n :: h₂.map Prod.snd = A ++ B) : A ⊆ h₁.map Prod.snd := by
  rcases List.append_eq_append_iff.1 he with ⟨as, rfl, h⟩ | ⟨bs, hb, -⟩
  · cases as with
    | nil => simp
    | cons a as =>
      obtain ⟨rfl, -⟩ := List.cons.inj h
      exact absurd (by simp) (hA n)
  · rw [hb]
    exact List.subset_append_left _ _

open Sample in
/-- The thought is challenged, its deadline passes, and it is convicted. -/
theorem optimistic_safety_convicted :
    ∃ h s t, Attempts chain 1000 funds h s ∧ Policed chain (· = thought 0) h ∧ s.thoughts (thought 0) = some t ∧
      t.challengeDeadlineSlot ≤ s.slot ∧ Judged (· = thought 0) s (thought 0) t := by
  obtain ⟨h, s, hr, hacts, hs⟩ := exists_run (setup ++ submit 0 ++ [dispute 0] ++ [.tick 200, resolve 0 true])
    (fun s => ((s.thoughts (thought 0)).map (·.challengeDeadlineSlot), s.slot,
      (s.policies policy).map (·.challengeWindowSlots))) (some 1150, 1200, some 150) (by decide +kernel)
  obtain ⟨hs, hslot, hpol⟩ := by simpa only [Prod.mk.injEq] using hs
  obtain ⟨t, ht, hd⟩ := Option.map_eq_some_iff.1 hs
  have hp : Policed chain (· = thought 0) h := by
    refine ⟨?_, ?_, ?_⟩
    · intro m ctx verdict hm _
      have hmem := hacts ▸ List.mem_map_of_mem (f := Prod.snd) hm
      simp only [setup, submit, dispute, resolve, List.cons_append, List.nil_append, List.mem_cons, reduceCtorEq,
        Action.instruction.injEq, Instruction.resolveChallenged.injEq, List.not_mem_nil, false_or, or_false] at hmem
      obtain ⟨rfl, rfl⟩ := hmem
      simp [unsigned]
    · intro m ctx args traceUri p hm _ hpm
      have hmem := hacts ▸ List.mem_map_of_mem (f := Prod.snd) hm
      simp only [setup, submit, dispute, resolve, List.cons_append, List.nil_append, List.mem_cons, reduceCtorEq,
        Action.instruction.injEq, Instruction.submitThought.injEq, List.not_mem_nil, false_or, or_false] at hmem
      obtain ⟨rfl, -⟩ := hmem
      -- the policy is the one of the last state
      obtain ⟨_, _, _, -, -, ha, hrest⟩ := hr.mem hm
      obtain ⟨_, hps, rfl⟩ := (Run.kept ((Run.single ha).append hrest)).policies _ _ hpm
      rw [show s.policies policy = some p from hps, Option.map_some, Option.some.injEq] at hpol
      rw [hpol]
      decide
    · rintro h₁ h₂ m m' n k t rfl rfl - - - -
      rw [List.map_append, List.map_cons, List.append_assoc _ [_]] at hacts
      have hsub := subset_of_tick (by simp [setup, submit, dispute]) ((List.append_assoc _ _ _).symm ▸ hacts)
      obtain ⟨x, hx, hact⟩ := List.mem_map.1 (hsub (List.mem_append_right _ List.mem_cons_self))
      obtain ⟨_, _, _, -, hm, ha, -⟩ := hr.mem (List.mem_append_left _ hx)
      refine ⟨x, hx, ?_⟩
      rw [hact] at ha ⊢
      exact proper_of_accepted hm ha
  exact ⟨h, s, t, hr.attempts, hp, ht, by rw [hd, hslot]; decide, (optimistic_safety hr.attempts hp).1 _ _ ht⟩

end ProofOfThought.Program
