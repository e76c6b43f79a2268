import ProofOfThought.Base.Run
import ProofOfThought.Program.Dispute
import ProofOfThought.Program.Register
import ProofOfThought.Program.Stake
import ProofOfThought.Program.Thought

/-!
# The program as a transition system

The eleven instructions of `lib.rs`, together with what happens on the chain besides them: transfers by outsiders and
the passing of slots. A failed instruction is a rejected step and changes nothing.

`step_effect` inverts a step: what was accepted, and the state it leaves. Everything said about runs is derived from it.
-/

namespace ProofOfThought.Program

open Base

/-! ## Instructions and actions -/

inductive Instruction where
  | registerAgent (ctx : RegisterAgent) (stake : UInt64)
  | stake (ctx : Stake) (amount : UInt64)
  | withdrawStake (ctx : WithdrawStake) (amount : UInt64)
  | registerModel (ctx : RegisterModel) (modelId : Bytes32) (modelClass : ModelClass)
      (verifierPubkey teeRootCa : Pubkey)
  | registerPolicy (ctx : RegisterPolicy) (args : RegisterPolicyArgs)
  | requestVrf (ctx : RequestVrf) (nonceIdx : UInt64) (seed : Bytes32)
  | submitThought (ctx : SubmitThought) (args : ThoughtRecordArgs) (traceUri : String)
  | consumeThought (ctx : ConsumeThought)
  | challenge (ctx : OpenChallenge) (claim : ChallengeClaim) (bond : UInt64) (evidenceUriHash : Bytes32)
  | resolveUnchallenged (ctx : ResolveUnchallenged)
  | resolveChallenged (ctx : ResolveChallenged) (verdict : Bool)

/-- The `Signer` of the instruction. -/
def Instruction.authority : Instruction → AccountInfo
  | .registerAgent ctx _ => ctx.operator
  | .stake ctx _ => StakeAccounts.operator ctx
  | .withdrawStake ctx _ => StakeAccounts.operator ctx
  | .registerModel ctx _ _ _ _ => ctx.governance
  | .registerPolicy ctx _ => ctx.author
  | .requestVrf ctx _ _ => ctx.operator
  | .submitThought ctx _ _ => ctx.operator
  | .consumeThought ctx => ctx.consumer
  | .challenge ctx _ _ _ => ctx.challenger
  | .resolveUnchallenged ctx => ctx.cranker
  | .resolveChallenged ctx _ => ctx.resolver

/-- The dispatch of `lib.rs`. -/
def exec (rt : Runtime) (s : State) : Instruction → Except Error (State × List Event)
  | .registerAgent ctx stake => registerAgent rt s ctx stake
  | .stake ctx amount => stake rt s ctx amount
  | .withdrawStake ctx amount => withdrawStake rt s ctx amount
  | .registerModel ctx modelId modelClass verifierPubkey teeRootCa =>
    registerModel rt s ctx modelId modelClass verifierPubkey teeRootCa
  | .registerPolicy ctx args => registerPolicy rt s ctx args
  | .requestVrf ctx nonceIdx seed => requestVrf rt s ctx nonceIdx seed
  | .submitThought ctx args traceUri => submitThought rt s ctx args traceUri
  | .consumeThought ctx => consumeThought s ctx
  | .challenge ctx claim bond evidenceUriHash => openChallenge rt s ctx claim bond evidenceUriHash
  | .resolveUnchallenged ctx => resolveUnchallenged s ctx
  | .resolveChallenged ctx verdict => resolveChallenged rt s ctx verdict

inductive Action where
  | instruction (i : Instruction)
  /-- A System transfer outside the program, from an account the program does not sign for. -/
  | transfer (src dst : Pubkey) (n : Nat)
  /-- `n` slots pass. -/
  | tick (n : UInt64)

/-- One step of the chain; `none` when the action is rejected. -/
def step (rt : Runtime) (s : State) : Action → Option State
  | .instruction i => (exec rt s i).toOption.map Prod.fst
  | .transfer src dst n =>
    if src.isPda = false ∧ n ≤ s.lamports src then some (s.setLamports (s.lamports.move src dst n)) else none
  | .tick n => (checkedAdd s.slot n).map fun slot => { s with slot }

/-- The instruction resolves the challenge at `ck`. -/
def Action.resolves (ck : Pubkey) : Action → Bool
  | .instruction (.resolveChallenged ctx _) => ctx.challenge.key = ck
  | _ => false

/-- No PDA of the program signs: only the program could, and it never invokes itself. -/
def Action.walletSigned : Action → Prop
  | .instruction i => i.authority.key.isPda = false
  | _ => True

instance : DecidablePred Action.walletSigned
  | .instruction i => inferInstanceAs (Decidable (i.authority.key.isPda = false))
  | .transfer .. => isTrue trivial
  | .tick _ => isTrue trivial

/-- No step of the history was signed by a PDA of the program. -/
def WalletSigned (h : List (State × Action)) : Prop := ∀ x ∈ h, x.2.walletSigned

theorem walletSigned_iff {h : List (State × Action)} :
    WalletSigned h ↔ ∀ a ∈ h.map Prod.snd, a.walletSigned := List.forall_mem_map.symm

theorem WalletSigned.append {h₁ h₂ : List (State × Action)} :
    WalletSigned (h₁ ++ h₂) ↔ WalletSigned h₁ ∧ WalletSigned h₂ := List.forall_mem_append

/-! ## What a step does -/

/-- What an accepted action did: one constructor for each action, two for the verdicts. -/
inductive Effect (rt : Runtime) (s : State) : Action → State → Prop
  | registerAgent {ctx stake} (h : ctx.Accepted rt s stake) :
    Effect rt s (.instruction (.registerAgent ctx stake)) (ctx.after rt s stake)
  | stake {ctx amount a n} (h : Stake.Accepted rt s ctx amount a n) :
    Effect rt s (.instruction (.stake ctx amount)) (Stake.after s ctx amount a n)
  | withdrawStake {ctx amount a n} (h : WithdrawStake.Accepted rt s ctx amount a n) :
    Effect rt s (.instruction (.withdrawStake ctx amount)) (WithdrawStake.after s ctx amount a n)
  | registerModel {ctx modelId modelClass verifierPubkey teeRootCa} (h : ctx.Accepted rt s modelId) :
    Effect rt s (.instruction (.registerModel ctx modelId modelClass verifierPubkey teeRootCa))
      (ctx.after rt s modelId modelClass verifierPubkey teeRootCa)
  | registerPolicy {ctx args} (h : ctx.Accepted rt s args) :
    Effect rt s (.instruction (.registerPolicy ctx args)) (ctx.after rt s args)
  | requestVrf {ctx nonceIdx seed a n} (h : ctx.Accepted rt s nonceIdx a n) :
    Effect rt s (.instruction (.requestVrf ctx nonceIdx seed)) (ctx.after rt s nonceIdx seed a n)
  | submitThought {ctx args traceUri a p v d n} (h : ctx.Accepted rt s args a p v d n) :
    Effect rt s (.instruction (.submitThought ctx args traceUri)) (ctx.after rt s args a v d n)
  | consumeThought {ctx t p n} (h : ctx.Accepted s t p n) :
    Effect rt s (.instruction (.consumeThought ctx)) (ctx.after s t n)
  | challenge {ctx claim bond evidenceUriHash t p} (h : ctx.Accepted rt s bond t p) :
    Effect rt s (.instruction (.challenge ctx claim bond evidenceUriHash))
      (ctx.after rt s claim bond evidenceUriHash t)
  | resolveUnchallenged {ctx t a} (h : ctx.Accepted s t a) :
    Effect rt s (.instruction (.resolveUnchallenged ctx)) (ctx.after s t a)
  | guilty {ctx t a p c} (h : ctx.Accepted rt s t a p c)
      (pays : ctx.CanPayGuilty s.lamports a.stakeAmount.toNat c.bond.toNat) :
    Effect rt s (.instruction (.resolveChallenged ctx true)) (ctx.afterGuilty s t a c)
  | innocent {ctx t a p c} (h : ctx.Accepted rt s t a p c) (pays : ctx.CanPayInnocent s.lamports c.bond.toNat) :
    Effect rt s (.instruction (.resolveChallenged ctx false)) (ctx.afterInnocent s t a c)
  | transfer {src dst n} (wallet : src.isPda = false) (funds : n ≤ s.lamports src) :
    Effect rt s (.transfer src dst n) (s.setLamports (s.lamports.move src dst n))
  | tick {n slot} (sum : s.slot.toNat + n.toNat = slot.toNat) : Effect rt s (.tick n) { s with slot }

variable {rt : Runtime} {s s' : State}

theorem step_instruction {i : Instruction} :
    step rt s (.instruction i) = some s' ↔ ∃ evs, exec rt s i = .ok (s', evs) := by
  simp only [step, Option.map_eq_some_iff, toOption_eq_some, Prod.exists, exists_and_right, exists_eq_right]

/-- **Inversion of a step.** -/
theorem step_effect {a : Action} (h : step rt s a = some s') : Effect rt s a s' := by
  cases a with
  | instruction i =>
    obtain ⟨evs, he⟩ := step_instruction.1 h
    cases i with
    | registerAgent ctx stake =>
      obtain ⟨ha, -, rfl⟩ := registerAgent_eq_ok.1 he
      exact .registerAgent ha
    | stake ctx amount =>
      obtain ⟨a, n, ha, -, rfl⟩ := stake_eq_ok.1 he
      exact .stake ha
    | withdrawStake ctx amount =>
      obtain ⟨a, n, ha, -, rfl⟩ := withdrawStake_eq_ok.1 he
      exact .withdrawStake ha
    | registerModel ctx modelId modelClass verifierPubkey teeRootCa =>
      obtain ⟨ha, -, rfl⟩ := registerModel_eq_ok.1 he
      exact .registerModel ha
    | registerPolicy ctx args =>
      obtain ⟨ha, -, rfl⟩ := registerPolicy_eq_ok.1 he
      exact .registerPolicy ha
    | requestVrf ctx nonceIdx seed =>
      obtain ⟨a, n, ha, -, rfl⟩ := requestVrf_eq_ok.1 he
      exact .requestVrf ha
    | submitThought ctx args traceUri =>
      obtain ⟨a, p, v, d, n, ha, -, rfl⟩ := submitThought_eq_ok.1 he
      exact .submitThought ha
    | consumeThought ctx =>
      obtain ⟨t, p, n, ha, -, rfl⟩ := consumeThought_eq_ok.1 he
      exact .consumeThought ha
    | challenge ctx claim bond evidenceUriHash =>
      obtain ⟨t, p, ha, -, rfl⟩ := openChallenge_eq_ok.1 he
      exact .challenge ha
    | resolveUnchallenged ctx =>
      obtain ⟨t, a, ha, -, rfl⟩ := resolveUnchallenged_eq_ok.1 he
      exact .resolveUnchallenged ha
    | resolveChallenged ctx verdict =>
      cases verdict with
      | true =>
        obtain ⟨t, a, p, c, ha, hp, -, rfl⟩ := resolveChallenged_guilty_eq_ok.1 he
        exact .guilty ha hp
      | false =>
        obtain ⟨t, a, p, c, ha, hp, -, rfl⟩ := resolveChallenged_innocent_eq_ok.1 he
        exact .innocent ha hp
  | transfer src dst n =>
    simp only [step, Option.ite_none_right_eq_some, Option.some.injEq] at h
    obtain ⟨⟨hw, hf⟩, rfl⟩ := h
    exact .transfer hw hf
  | tick n =>
    simp only [step, Option.map_eq_some_iff, checkedAdd_eq_some] at h
    obtain ⟨slot, hs, rfl⟩ := h
    exact .tick hs

/-- The runs of the program, from any slot and balances and no accounts. -/
abbrev Reaches (rt : Runtime) (slot : UInt64) (L : Ledger Pubkey) (h : List (State × Action)) (s : State) : Prop :=
  Run (step rt) (State.genesis slot L) h s

/-! ## A small chain to run the program on -/

namespace Sample

/-- Rent of 6960 lamports per byte, and 255 as every canonical bump. -/
def chain : Runtime := ⟨fun space => (128 + space) * 6960, fun _ => 255⟩

def wallet (n : UInt8) : Pubkey := .key (List.Vector.replicate 32 n)

/-- Every wallet holds 1000 SOL, the program's addresses nothing. -/
def funds : Ledger Pubkey := fun k => if k.isPda then 0 else 1000000000000

def signed (k : Pubkey) : AccountInfo := ⟨k, true, true⟩

def unsigned (k : Pubkey) : AccountInfo := ⟨k, false, true⟩

def operator : Pubkey := wallet 7

def resolver : Pubkey := wallet 2

def treasury : Pubkey := wallet 3

def challenger : Pubkey := wallet 4

def action : Pubkey := wallet 5

def modelId : Bytes32 := List.Vector.replicate 32 6

def policyId : Bytes32 := List.Vector.replicate 32 7

def commitment : Bytes32 := List.Vector.replicate 32 8

def agent : Pubkey := chain.pda (.agent operator)

def vault : Pubkey := chain.pda (.vault agent)

def policy : Pubkey := chain.pda (.policy policyId)

def thought (nonceIdx : UInt64) : Pubkey := chain.pda (.thought agent nonceIdx)

def system : AccountInfo := ⟨systemProgramId, false, false⟩

/-- A policy with a window of 150 slots and a floor of half a SOL. -/
def policyArgs : RegisterPolicyArgs where
  policyId := policyId
  schemaUriHash := commitment
  equivClass := .strict
  maxInferenceSlots := 100
  maxActionAgeSlots := 1000
  challengeWindowSlots := 150
  bondMin := 500000000
  resolver := resolver
  treasury := treasury
  allowedModels := [modelId]

/-- A model, a policy and an agent with a stake of 10 SOL. -/
def setup : List Action :=
  [.instruction (.registerModel ⟨signed governance, unsigned (chain.pda (.model modelId)), system⟩ modelId .openWeights
      operator operator),
    .instruction (.registerPolicy ⟨signed resolver, unsigned policy, system⟩ policyArgs),
    .instruction (.registerAgent ⟨signed operator, unsigned agent, unsigned vault, system⟩ 10000000000)]

def submit (nonceIdx : UInt64) : List Action :=
  let vrf := unsigned (chain.pda (.vrf agent nonceIdx))
  [.instruction (.requestVrf ⟨signed operator, unsigned agent, vrf, system⟩ nonceIdx commitment),
    .instruction (.submitThought ⟨signed operator, unsigned agent, unsigned (chain.pda (.model modelId)),
        unsigned policy, vrf, unsigned (thought nonceIdx), system⟩
      ⟨modelId, commitment, commitment, commitment, commitment, policyId, action, nonceIdx⟩ "ar://trace")]

def dispute (nonceIdx : UInt64) : Action :=
  let challenge := chain.pda (.challenge (thought nonceIdx) challenger)
  .instruction (.challenge ⟨signed challenger, unsigned (thought nonceIdx), unsigned policy, unsigned challenge,
    unsigned (chain.pda (.bond challenge)), system⟩ .outputMismatch 500000000 commitment)

def resolve (nonceIdx : UInt64) (verdict : Bool) : Action :=
  let challenge := chain.pda (.challenge (thought nonceIdx) challenger)
  .instruction (.resolveChallenged ⟨signed resolver, unsigned (thought nonceIdx), unsigned agent, unsigned policy,
    unsigned challenge, unsigned vault, unsigned (chain.pda (.bond challenge)), unsigned challenger, unsigned treasury,
    unsigned operator, system⟩ verdict)

def lapse (nonceIdx : UInt64) : Action :=
  .instruction (.resolveUnchallenged ⟨signed challenger, unsigned (thought nonceIdx), unsigned agent⟩)

def consume (nonceIdx : UInt64) : ConsumeThought :=
  ⟨signed challenger, unsigned (thought nonceIdx), unsigned policy, unsigned action⟩

/-- The history and the state after the actions. -/
def run (actions : List Action) : Option (List (State × Action) × State) :=
  perform (step chain) (State.genesis 1000 funds) actions

/-- A computed observation of the last state belongs to a run. -/
theorem exists_run {β : Type} (actions : List Action) (f : State → β) (b : β)
    (hf : (run actions).map (fun r => f r.2) = some b) :
    ∃ h s, Reaches chain 1000 funds h s ∧ h.map Prod.snd = actions ∧ f s = b := exists_run_of_perform f hf

end Sample

end ProofOfThought.Program
