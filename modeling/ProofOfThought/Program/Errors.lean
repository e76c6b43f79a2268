import ProofOfThought.Program.Recovery

/-!
# The errors that occur

Of the eighteen errors of the program, three are never returned in a reachable state: `EvidenceMismatch` is checked
nowhere, `CooldownActive` guards a cooldown that is never set, and `WrongPolicy` compares an id that the address of the
policy has already fixed. Each of the others is returned by some instruction in some reachable state
(`error_occurs_iff`).
-/

namespace ProofOfThought.Program

open Base

variable {rt : Runtime} {s : State} {i : Instruction} {slot : UInt64} {L : Ledger Pubkey} {h : List (State × Action)}
  {e : PotError}

/-! ## The errors of each instruction -/

/-- The errors an instruction checks for. -/
def Instruction.potErrors : Instruction → List PotError
  | .registerAgent _ _ => [.insufficientStake]
  | .stake _ _ => [.wrongAgent, .insufficientStake, .overflow]
  | .withdrawStake _ _ => [.wrongAgent, .activeThoughtsExist, .cooldownActive, .insufficientStake, .overflow]
  | .registerModel _ _ _ _ _ => [.unauthorized]
  | .registerPolicy _ _ => [.overflow]
  | .requestVrf _ _ _ => [.wrongAgent, .vrfAlreadyConsumed, .overflow]
  | .submitThought _ _ _ =>
    [.wrongAgent, .modelNotRegistered, .wrongPolicy, .insufficientStake, .vrfAlreadyConsumed, .vrfTooStale, .overflow]
  | .consumeThought _ => [.wrongPolicy, .wrongAction, .invalidStatus, .thoughtNotReady, .thoughtStale, .overflow]
  | .challenge _ _ _ _ => [.wrongPolicy, .invalidStatus, .challengeWindowClosed, .bondTooLow]
  | .resolveUnchallenged _ => [.wrongAgent, .invalidStatus, .challengeWindowOpen]
  | .resolveChallenged _ _ => [.wrongAgent, .unauthorized, .invalidStatus]

theorem init_ne_pot {payer target : AccountInfo} {x : Seeds Pubkey} {inUse : Bool} {space : Nat} :
    init rt s payer target x inUse space ≠ .error (.pot e) := by
  simp only [init, canonicalSeeds, mutable, transfer_eq_error, ne_eq, seq_error_iff, require_eq_error, pure_error_iff,
    reduceCtorEq, and_false, exists_false, or_self, not_false_eq_true]

theorem transferSigned_ne_pot {src dst : Pubkey} {amount : UInt64} :
    transferSigned s src dst amount ≠ .error (.pot e) := by
  unfold transferSigned
  split
  · nofun
  · simp [transfer_eq_error]

/-- The shares of a stake and of a bond never overflow. -/
theorem resolveVerdict_ne_pot {acc : ResolveChallenged.Loaded} {ctx : ResolveChallenged} {verdict : Bool} :
    resolveVerdict s acc ctx verdict ≠ .error (.pot e) := by
  have hle := shares_le acc.agent.stakeAmount.toNat
  have hop := toOperator_le acc.challenge.bond.toNat
  cases verdict with
  | true =>
    obtain ⟨r, hr⟩ := exists_toNat_sub (a := acc.agent.stakeAmount)
      (n := toChallenger acc.agent.stakeAmount.toNat) (by omega)
    obtain ⟨r', hr'⟩ := exists_toNat_sub (a := r) (n := toTreasury acc.agent.stakeAmount.toNat) (by omega)
    have h1 : checkedSub acc.agent.stakeAmount (mulDiv acc.agent.stakeAmount 60 100) = some r :=
      checkedSub_eq_some.2 (by rw [toNat_challengerShare]; exact hr)
    have h2 : checkedSub r (mulDiv acc.agent.stakeAmount 10 100) = some r' :=
      checkedSub_eq_some.2 (by rw [toNat_treasuryShare]; exact hr')
    simp only [resolveVerdict, if_true, resolveGuilty, h1, h2, okOr_eq_ok, okOr_eq_error, seq_error_iff, pure_error_iff,
      transferSigned_ne_pot, ne_eq, Option.some.injEq, exists_eq_left', reduceCtorEq, and_false, exists_false, or_self,
      false_and, not_false_eq_true]
  | false =>
    obtain ⟨r, hr⟩ := exists_toNat_sub hop
    have h1 : checkedSub acc.challenge.bond (mulDiv acc.challenge.bond 90 100) = some r :=
      checkedSub_eq_some.2 (by rw [toNat_operatorShare]; exact hr)
    simp only [resolveVerdict, Bool.false_eq_true, if_false, resolveInnocent, h1, okOr_eq_ok, okOr_eq_error,
      seq_error_iff, pure_error_iff, transferSigned_ne_pot, ne_eq, Option.some.injEq, reduceCtorEq, and_false,
      exists_false, or_self, false_and, not_false_eq_true]

/-- The errors of the program that a computation returns are among the given ones. -/
def Reports (es : List PotError) {α : Type} (x : Except Error α) : Prop := ∀ e, x = .error (.pot e) → e ∈ es

namespace Reports

variable {es : List PotError} {α β : Type}

theorem seq {x : Except Error α} {f : α → Except Error β} (hx : Reports es x) (hf : ∀ a, Reports es (f a)) :
    Reports es (x >>= f) := by
  intro e he
  rcases seq_error_iff.1 he with he | ⟨a, -, he⟩
  · exact hx e he
  · exact hf a e he

theorem done (a : α) : Reports es (pure a) := fun _ he => (pure_error_iff.1 he).elim

/-- A computation that fails with errors of the runtime only. -/
theorem silent {x : Except Error α} (h : ∀ e, x ≠ .error (.pot e)) : Reports es x := fun e he => (h e he).elim

/-- A check of the program. -/
theorem check {c : Prop} [Decidable c] (he : e ∈ es) : Reports es (require c (.pot e)) := by
  intro e' h
  obtain ⟨-, ⟨⟩⟩ := require_eq_error.1 h
  exact he

/-- A value the program needs. -/
theorem value {o : Option α} (he : e ∈ es) : Reports es (okOr o (.pot e)) := by
  intro e' h
  obtain ⟨-, ⟨⟩⟩ := okOr_eq_error.1 h
  exact he

/-- A constraint of `#[derive(Accounts)]` without an error of its own. -/
theorem constraint {c : Prop} [Decidable c] {e : AnchorError} : Reports es (require c (.anchor e)) :=
  silent fun _ h => nomatch (require_eq_error.1 h).2

theorem account {m : Pubkey → Option α} {i : AccountInfo} : Reports es (account m i) :=
  silent fun _ h => nomatch (okOr_eq_error.1 h).2

theorem init {payer target : AccountInfo} {x : Seeds Pubkey} {inUse : Bool} {space : Nat} :
    Reports es (init rt s payer target x inUse space) :=
  silent fun _ => init_ne_pot

theorem transfer {src dst : Pubkey} {n : Nat} : Reports es (s.transfer src dst n) :=
  silent fun _ h => nomatch (transfer_eq_error.1 h).2

end Reports

theorem registerAgent_reports {ctx : RegisterAgent} {stake : UInt64} :
    Reports [.insufficientStake] (registerAgent rt s ctx stake) := by
  refine .seq ?_ fun s => ?_
  · refine .seq .constraint fun _ => .seq .constraint fun _ => .seq .init fun _ => ?_
    exact .seq .constraint fun _ => .seq .constraint fun _ => .seq .constraint fun _ => .done _
  · exact .seq (.check (by decide)) fun _ => .seq .transfer fun _ => .done _

/-- The accounts of `stake` and `withdraw_stake`. -/
theorem stakeAccounts_reports {es : List PotError} {ctx : StakeAccounts} (he : .wrongAgent ∈ es) :
    Reports es (ctx.tryAccounts rt s) := by
  refine .seq .constraint fun _ => .seq .account fun _ => .seq .constraint fun _ => .seq .constraint fun _ => ?_
  refine .seq .constraint fun _ => .seq .constraint fun _ => .seq (.check he) fun _ => ?_
  exact .seq .constraint fun _ => .seq .constraint fun _ => .done _

theorem stake_reports {ctx : Stake} {amount : UInt64} :
    Reports [.wrongAgent, .insufficientStake, .overflow] (stake rt s ctx amount) := by
  refine .seq (stakeAccounts_reports (by decide)) fun a => ?_
  exact .seq (.check (by decide)) fun _ => .seq .transfer fun _ => .seq (.value (by decide)) fun _ => .done _

theorem withdrawStake_reports {ctx : WithdrawStake} {amount : UInt64} :
    Reports [.wrongAgent, .activeThoughtsExist, .cooldownActive, .insufficientStake, .overflow]
      (withdrawStake rt s ctx amount) := by
  refine .seq (stakeAccounts_reports (by decide)) fun a => ?_
  refine .seq (.check (by decide)) fun _ => .seq (.check (by decide)) fun _ => .seq (.check (by decide)) fun _ => ?_
  exact .seq (.check (by decide)) fun _ => .seq .transfer fun _ => .seq (.value (by decide)) fun _ => .done _

theorem registerModel_reports {ctx : RegisterModel} {modelId : Bytes32} {modelClass : ModelClass}
    {verifierPubkey teeRootCa : Pubkey} :
    Reports [.unauthorized] (registerModel rt s ctx modelId modelClass verifierPubkey teeRootCa) := by
  refine .seq ?_ fun _ => .done _
  refine .seq .constraint fun _ => .seq .constraint fun _ => .seq .init fun _ => .seq .constraint fun _ => ?_
  exact .seq (.check (by decide)) fun _ => .done _

theorem registerPolicy_reports {ctx : RegisterPolicy} {args : RegisterPolicyArgs} :
    Reports [.overflow] (registerPolicy rt s ctx args) := by
  refine .seq ?_ fun s => ?_
  · exact .seq .constraint fun _ => .seq .constraint fun _ => .seq .init fun _ => .seq .constraint fun _ => .done _
  · exact .seq (.check (by decide)) fun _ => .done _

theorem requestVrf_reports {ctx : RequestVrf} {nonceIdx : UInt64} {seed : Bytes32} :
    Reports [.wrongAgent, .vrfAlreadyConsumed, .overflow] (requestVrf rt s ctx nonceIdx seed) := by
  refine .seq ?_ fun ⟨s, a⟩ => ?_
  · refine .seq .constraint fun _ => .seq .account fun _ => .seq .constraint fun _ => .seq .init fun _ => ?_
    refine .seq .constraint fun _ => .seq .constraint fun _ => .seq .constraint fun _ => ?_
    exact .seq (.check (by decide)) fun _ => .done _
  · exact .seq (.check (by decide)) fun _ => .seq (.value (by decide)) fun _ => .done _

theorem submitThought_reports {ctx : SubmitThought} {args : ThoughtRecordArgs} {traceUri : String} :
    Reports [.wrongAgent, .modelNotRegistered, .wrongPolicy, .insufficientStake, .vrfAlreadyConsumed, .vrfTooStale,
      .overflow] (submitThought rt s ctx args traceUri) := by
  refine .seq ?_ fun acc => ?_
  · refine .seq .constraint fun _ => .seq .account fun _ => .seq .account fun _ => .seq .account fun _ => ?_
    refine .seq .account fun _ => .seq .constraint fun _ => .seq .init fun _ => .seq .constraint fun _ => ?_
    refine .seq .constraint fun _ => .seq .constraint fun _ => .seq (.check (by decide)) fun _ => ?_
    refine .seq .constraint fun _ => .seq (.check (by decide)) fun _ => ?_
    refine .seq .constraint fun _ => .seq (.check (by decide)) fun _ => ?_
    exact .seq .constraint fun _ => .seq .constraint fun _ => .seq (.check (by decide)) fun _ => .done _
  · refine .seq (.check (by decide)) fun _ => .seq (.check (by decide)) fun _ => .seq (.check (by decide)) fun _ => ?_
    refine .seq (.value (by decide)) fun _ => .seq (.check (by decide)) fun _ => .seq (.check (by decide)) fun _ => ?_
    exact .seq (.value (by decide)) fun _ => .seq (.value (by decide)) fun _ => .done _

theorem consumeThought_reports {ctx : ConsumeThought} :
    Reports [.wrongPolicy, .wrongAction, .invalidStatus, .thoughtNotReady, .thoughtStale, .overflow]
      (consumeThought s ctx) := by
  refine .seq ?_ fun ⟨t, p⟩ => ?_
  · refine .seq .constraint fun _ => .seq .account fun _ => .seq .account fun _ => .seq .constraint fun _ => ?_
    exact .seq .constraint fun _ => .seq .constraint fun _ => .seq (.check (by decide)) fun _ => .done _
  · refine .seq (.check (by decide)) fun _ => .seq (.value (by decide)) fun _ => .seq (.check (by decide)) fun _ => ?_
    refine .seq (.value (by decide)) fun _ => .seq (.check (by decide)) fun _ => ?_
    exact .seq (.value (by decide)) fun _ => .done _

theorem openChallenge_reports {ctx : OpenChallenge} {claim : ChallengeClaim} {bond : UInt64}
    {evidenceUriHash : Bytes32} :
    Reports [.wrongPolicy, .invalidStatus, .challengeWindowClosed, .bondTooLow]
      (openChallenge rt s ctx claim bond evidenceUriHash) := by
  refine .seq ?_ fun acc => ?_
  · refine .seq .constraint fun _ => .seq .account fun _ => .seq .account fun _ => .seq .constraint fun _ => ?_
    refine .seq .init fun _ => .seq .constraint fun _ => .seq .constraint fun _ => .seq .constraint fun _ => ?_
    refine .seq .constraint fun _ => .seq (.check (by decide)) fun _ => ?_
    exact .seq .constraint fun _ => .seq .constraint fun _ => .done _
  · refine .seq (.value (by decide)) fun _ => .seq (.check (by decide)) fun _ => .seq (.check (by decide)) fun _ => ?_
    exact .seq (.check (by decide)) fun _ => .seq .transfer fun _ => .done _

theorem resolveUnchallenged_reports {ctx : ResolveUnchallenged} :
    Reports [.wrongAgent, .invalidStatus, .challengeWindowOpen] (resolveUnchallenged s ctx) := by
  refine .seq ?_ fun ⟨t, a⟩ => ?_
  · refine .seq .constraint fun _ => .seq .account fun _ => .seq .account fun _ => .seq .constraint fun _ => ?_
    refine .seq .constraint fun _ => .seq .constraint fun _ => .seq .constraint fun _ => ?_
    exact .seq .constraint fun _ => .seq (.check (by decide)) fun _ => .done _
  · refine .seq (.value (by decide)) fun _ => .seq (.check (by decide)) fun _ => ?_
    exact .seq (.check (by decide)) fun _ => .done _

theorem resolveChallenged_reports {ctx : ResolveChallenged} {verdict : Bool} :
    Reports [.wrongAgent, .unauthorized, .invalidStatus] (resolveChallenged rt s ctx verdict) := by
  refine .seq ?_ fun acc => ?_
  · refine .seq .constraint fun _ => .seq .account fun _ => .seq .account fun _ => .seq .account fun _ => ?_
    refine .seq .account fun _ => .seq .constraint fun _ => .seq .constraint fun _ => .seq .constraint fun _ => ?_
    refine .seq .constraint fun _ => .seq .constraint fun _ => .seq .constraint fun _ => ?_
    refine .seq (.check (by decide)) fun _ => .seq .constraint fun _ => .seq (.check (by decide)) fun _ => ?_
    refine .seq .constraint fun _ => .seq .constraint fun _ => .seq (.check (by decide)) fun _ => ?_
    refine .seq .constraint fun _ => .seq .constraint fun _ => .seq .constraint fun _ => .seq .constraint fun _ => ?_
    refine .seq .constraint fun _ => .seq .constraint fun _ => .seq (.check (by decide)) fun _ => ?_
    exact .seq .constraint fun _ => .seq (.check (by decide)) fun _ => .done _
  · refine .seq (.value (by decide)) fun _ => .seq (.check (by decide)) fun _ => .seq (.check (by decide)) fun _ => ?_
    refine .seq (.check (by decide)) fun _ => .seq (.check (by decide)) fun _ => ?_
    exact .seq (.silent fun _ => resolveVerdict_ne_pot) fun _ => .done _

/-- **An instruction returns the errors it checks for.** -/
theorem mem_potErrors (he : exec rt s i = .error (.pot e)) : e ∈ i.potErrors := by
  cases i with
  | registerAgent ctx stake => exact registerAgent_reports e he
  | stake ctx amount => exact stake_reports e he
  | withdrawStake ctx amount => exact withdrawStake_reports e he
  | registerModel ctx modelId modelClass verifierPubkey teeRootCa => exact registerModel_reports e he
  | registerPolicy ctx args => exact registerPolicy_reports e he
  | requestVrf ctx nonceIdx seed => exact requestVrf_reports e he
  | submitThought ctx args traceUri => exact submitThought_reports e he
  | consumeThought ctx => exact consumeThought_reports e he
  | challenge ctx claim bond evidenceUriHash => exact openChallenge_reports e he
  | resolveUnchallenged ctx => exact resolveUnchallenged_reports e he
  | resolveChallenged ctx verdict => exact resolveChallenged_reports e he

/-! ## Errors that do not occur -/

/-- The cooldown is always over. -/
theorem ne_cooldownActive (hr : Reaches rt slot L h s) : exec rt s i ≠ .error (.pot .cooldownActive) := by
  intro he
  have hm := mem_potErrors he
  cases i with
  | withdrawStake ctx amount =>
    rcases seq_error_iff.1 he with he | ⟨a, ha, he⟩
    · cases List.mem_singleton.1 (stakeAccounts_reports (List.mem_singleton_self _) _ he)
    · have hcool : a.cooldownUntil ≤ s.slot := by
        rw [no_cooldown hr _ _ (stakeAccounts_eq_ok.1 ha).profile, UInt64.le_iff_toNat_le]
        exact Nat.zero_le _
      simp only [withdrawHandler, hcool, transfer_eq_error, seq_error_iff, require_eq_error, okOr_eq_error,
        pure_error_iff, not_true_eq_false, reduceCtorEq, Error.pot.injEq, and_false, false_and, exists_false,
        or_self] at he
  | _ => simp [Instruction.potErrors] at hm

/-- The address of a policy fixes its id. -/
theorem policyId_of_address (hr : Reaches rt slot L h s) {k : Pubkey} {p : Policy} {id : Bytes32}
    (hp : s.policies k = some p) (hk : k = (Seeds.policy id).address p.bump) : p.policyId = id := by
  have hwf := wf_of_reaches hr
  have hkey := (hwf.policies _ _ hp).1
  rw [hwf.policy_key hp hk, Runtime.pda_inj, Seeds.policy.injEq] at hkey
  exact hkey.symm

theorem ne_wrongPolicy (hr : Reaches rt slot L h s) : exec rt s i ≠ .error (.pot .wrongPolicy) := by
  intro he
  have hm := mem_potErrors he
  cases i with
  | submitThought ctx args traceUri =>
    simp only [exec, submitThought, SubmitThought.tryAccounts, submitThoughtHandler, signer, account, systemProgram,
      mutable, seeds, seq_error_iff, init_ne_pot, require_eq_error, okOr_eq_error, okOr_eq_ok, require_eq_ok,
      pure_error_iff, reduceCtorEq, Error.pot.injEq, and_false, exists_false, false_or, or_false, exists_const,
      and_true] at he
    obtain ⟨-, a, -, m, -, p, hp, v, -, -, _, -, -, -, -, -, -, -, hk, hne⟩ := he
    exact hne (policyId_of_address hr hp hk)
  | consumeThought ctx =>
    simp only [exec, consumeThought, ConsumeThought.tryAccounts, consumeThoughtHandler, signer, account, mutable, seeds,
      seq_error_iff, require_eq_error, okOr_eq_error, okOr_eq_ok, require_eq_ok, pure_error_iff, reduceCtorEq,
      Error.pot.injEq, and_false, exists_false, false_or, or_false, exists_const, and_true] at he
    obtain ⟨-, t, -, p, hp, -, -, hk, hne⟩ := he
    exact hne (policyId_of_address hr hp hk)
  | challenge ctx claim bond evidenceUriHash =>
    simp only [exec, openChallenge, OpenChallenge.tryAccounts, openChallengeHandler, signer, account, systemProgram,
      mutable, seeds, canonicalSeeds, seq_error_iff, init_ne_pot, require_eq_error, okOr_eq_error, okOr_eq_ok,
      require_eq_ok, transfer_eq_error, pure_error_iff, reduceCtorEq, Error.pot.injEq, and_false, exists_false,
      false_or, or_false, exists_const, and_true] at he
    obtain ⟨-, t, -, p, hp, -, _, -, -, -, -, hk, hne⟩ := he
    exact hne (policyId_of_address hr hp hk)
  | _ => simp [Instruction.potErrors] at hm

/-! ## Errors that occur -/

namespace Sample

/-- The error of an action after the given ones. -/
def refusal (actions : List Action) (act : Action) : Option Error :=
  (run actions).bind fun r =>
    match act with
    | .instruction i =>
      match exec chain r.2 i with
      | .ok _ => none
      | .error e => some e
    | _ => none

theorem occurs_of_refusal {actions : List Action} {act : Action} {e : PotError}
    (hf : refusal actions act = some (.pot e)) :
    ∃ rt slot L h s i, Reaches rt slot L h s ∧ exec rt s i = .error (.pot e) := by
  obtain ⟨⟨h, s⟩, hrun, he⟩ := Option.bind_eq_some_iff.1 hf
  cases act with
  | instruction i =>
    refine ⟨chain, 1000, funds, h, s, i, (run_of_perform hrun).1, ?_⟩
    cases hx : exec chain s i with
    | ok r => simp [hx] at he
    | error e' =>
      simp only [hx, Option.some.injEq] at he
      rw [he]
  | transfer src dst n => cases he
  | tick n => cases he

/-- For each error that occurs, what leads to it and the instruction that returns it. -/
def scenario : PotError → List Action × Action
  | .insufficientStake =>
    ([], .instruction (.registerAgent ⟨signed operator, unsigned agent, unsigned vault, system⟩ 0))
  | .modelNotRegistered =>
    -- a registered model that the policy does not list
    (setup ++ (submit 0).take 1 ++
      [.instruction (.registerModel ⟨signed governance, unsigned (chain.pda (.model commitment)), system⟩ commitment
        .hosted operator operator)],
      .instruction (.submitThought ⟨signed operator, unsigned agent, unsigned (chain.pda (.model commitment)),
        unsigned policy, unsigned (chain.pda (.vrf agent 0)), unsigned (thought 0), system⟩
        ⟨commitment, commitment, commitment, commitment, commitment, policyId, action, 0⟩ "ar://trace"))
  | .wrongAction =>
    (setup ++ submit 0, .instruction (.consumeThought { consume 0 with action := unsigned operator }))
  | .thoughtNotReady => (setup ++ submit 0, .instruction (.consumeThought (consume 0)))
  | .thoughtStale => (setup ++ submit 0 ++ [.tick 150, lapse 0, .tick 2000], .instruction (.consumeThought (consume 0)))
  | .vrfTooStale => (setup ++ (submit 0).take 1 ++ [.tick 101], (submit 0).getLastD (.tick 0))
  | .vrfAlreadyConsumed => (setup, (submit 1).headD (.tick 0))
  | .challengeWindowClosed => (setup ++ submit 0 ++ [.tick 150], dispute 0)
  | .challengeWindowOpen => (setup ++ submit 0, lapse 0)
  | .bondTooLow =>
    let challenge := chain.pda (.challenge (thought 0) challenger)
    (setup ++ submit 0, .instruction (.challenge ⟨signed challenger, unsigned (thought 0), unsigned policy,
      unsigned challenge, unsigned (chain.pda (.bond challenge)), system⟩ .outputMismatch 499999999 commitment))
  | .wrongAgent =>
    -- the agent of another operator
    let other := chain.pda (.agent challenger)
    (setup ++ submit 0 ++ [.instruction (.registerAgent ⟨signed challenger, unsigned other,
      unsigned (chain.pda (.vault other)), system⟩ 1), .tick 150],
      .instruction (.resolveUnchallenged ⟨signed challenger, unsigned (thought 0), unsigned other⟩))
  | .invalidStatus => (setup ++ submit 0 ++ [.tick 150, lapse 0], lapse 0)
  | .activeThoughtsExist =>
    (setup ++ submit 0, .instruction (.withdrawStake ⟨signed operator, unsigned agent, unsigned vault, system⟩ 1))
  | .overflow =>
    ([], .instruction (.registerPolicy ⟨signed resolver, unsigned policy, system⟩
      { policyArgs with allowedModels := List.replicate 17 modelId }))
  | .unauthorized =>
    ([], .instruction (.registerModel ⟨signed operator, unsigned (chain.pda (.model modelId)), system⟩ modelId
      .openWeights operator operator))
  | .wrongPolicy | .cooldownActive | .evidenceMismatch => ([], .tick 0)

end Sample

open Sample in
/-- **The errors that occur** are all but `WrongPolicy`, `CooldownActive` and `EvidenceMismatch`. -/
theorem error_occurs_iff (e : PotError) :
    (∃ rt slot L h s i, Reaches rt slot L h s ∧ exec rt s i = .error (.pot e)) ↔
      e ≠ .wrongPolicy ∧ e ≠ .cooldownActive ∧ e ≠ .evidenceMismatch := by
  constructor
  · rintro ⟨rt, slot, L, h, s, i, hr, he⟩
    refine ⟨?_, ?_, ?_⟩
    · rintro rfl
      exact ne_wrongPolicy hr he
    · rintro rfl
      exact ne_cooldownActive hr he
    · rintro rfl
      have hm := mem_potErrors he
      cases i <;> simp [Instruction.potErrors] at hm
  · rintro ⟨h1, h2, h3⟩
    refine occurs_of_refusal (show refusal (scenario e).1 (scenario e).2 = _ from ?_)
    cases e <;> first | exact absurd rfl h1 | exact absurd rfl h2 | exact absurd rfl h3 | decide +kernel

end ProofOfThought.Program
