import ProofOfThought.Base.Alike
import ProofOfThought.Base.Footprint
import ProofOfThought.Program.Rent

/-!
# The footprint of an instruction

An instruction reads the accounts of its list and the slot, and changes no account that the list does not mark writable:
`footprint` makes the instructions, failed ones included, actions with a footprint. So instructions that share no
account one of them may write can be executed in any order, and in parallel (`Footprint.sweep_rearranged`).

The comparison of two executions (`exec_alike`) goes through each instruction once, on two states that agree at the
listed accounts.
-/

namespace ProofOfThought.Program

open Base

variable {rt : Runtime} {s t : State} {l : List Pubkey} {k src dst : Pubkey} {n : Nat}

/-! ## What is at an address -/

/-- The clock, and what the chain has at one address. -/
structure Cell where
  slot : UInt64
  lamports : Nat
  agent : Option AgentProfile
  model : Option ModelRegistry
  policy : Option Policy
  vrfRequest : Option VrfRequest
  thought : Option ThoughtRecord
  challenge : Option Challenge

def State.cell (s : State) (k : Pubkey) : Cell :=
  ⟨s.slot, s.lamports k, s.agents k, s.models k, s.policies k, s.vrfRequests k, s.thoughts k, s.challenges k⟩

/-- The cells determine the state. -/
theorem State.ext_cell (h : ∀ k, s.cell k = t.cell k) : s = t := by
  have hslot := congrArg Cell.slot (h systemProgramId)
  obtain ⟨_, _, _, _, _, _, _, _⟩ := s
  obtain ⟨_, _, _, _, _, _, _, _⟩ := t
  simp only [State.cell, Cell.mk.injEq] at h hslot
  simp only [State.mk.injEq]
  exact ⟨hslot, funext fun k => (h k).2.1, funext fun k => (h k).2.2.1, funext fun k => (h k).2.2.2.1,
    funext fun k => (h k).2.2.2.2.1, funext fun k => (h k).2.2.2.2.2.1, funext fun k => (h k).2.2.2.2.2.2.1,
    funext fun k => (h k).2.2.2.2.2.2.2⟩

/-! ## States that agree at some addresses -/

/-- The same slot, and the same at every address of `l`. -/
structure Agree (l : List Pubkey) (s t : State) : Prop where
  slot : s.slot = t.slot
  lamports : ∀ k ∈ l, s.lamports k = t.lamports k
  agents : ∀ k ∈ l, s.agents k = t.agents k
  models : ∀ k ∈ l, s.models k = t.models k
  policies : ∀ k ∈ l, s.policies k = t.policies k
  vrfRequests : ∀ k ∈ l, s.vrfRequests k = t.vrfRequests k
  thoughts : ∀ k ∈ l, s.thoughts k = t.thoughts k
  challenges : ∀ k ∈ l, s.challenges k = t.challenges k

theorem agree_of_cells (hl : k ∈ l) (h : ∀ k ∈ l, s.cell k = t.cell k) : Agree l s t := by
  simp only [State.cell, Cell.mk.injEq] at h
  exact ⟨(h k hl).1, fun k hk => (h k hk).2.1, fun k hk => (h k hk).2.2.1, fun k hk => (h k hk).2.2.2.1,
    fun k hk => (h k hk).2.2.2.2.1, fun k hk => (h k hk).2.2.2.2.2.1, fun k hk => (h k hk).2.2.2.2.2.2.1,
    fun k hk => (h k hk).2.2.2.2.2.2.2⟩

section Slot

theorem slot_setAgent (a : AgentProfile) : (s.setAgent k a).slot = s.slot := rfl

theorem slot_setVrfRequest (v : VrfRequest) : (s.setVrfRequest k v).slot = s.slot := rfl

theorem slot_setThought (r : ThoughtRecord) : (s.setThought k r).slot = s.slot := rfl

end Slot

theorem update_agree {V : Type} {m m' : Pubkey → V} (h : ∀ k ∈ l, m k = m' k) (k : Pubkey) (v : V) :
    ∀ k' ∈ l, Function.update m k v k' = Function.update m' k v k' := by
  intro k' hk'
  simp only [Function.update_apply, h k' hk']

namespace Agree

variable (h : Agree l s t)

include h

theorem cell (hk : k ∈ l) : s.cell k = t.cell k := by
  simp only [State.cell, h.slot, h.lamports k hk, h.agents k hk, h.models k hk, h.policies k hk, h.vrfRequests k hk,
    h.thoughts k hk, h.challenges k hk]

/-! Writes of the same value. -/

theorem setAgent (k : Pubkey) (a : AgentProfile) : Agree l (s.setAgent k a) (t.setAgent k a) :=
  { h with agents := update_agree h.agents k _ }

theorem setModel (k : Pubkey) (m : ModelRegistry) : Agree l (s.setModel k m) (t.setModel k m) :=
  { h with models := update_agree h.models k _ }

theorem setPolicy (k : Pubkey) (p : Policy) : Agree l (s.setPolicy k p) (t.setPolicy k p) :=
  { h with policies := update_agree h.policies k _ }

theorem setVrfRequest (k : Pubkey) (v : VrfRequest) : Agree l (s.setVrfRequest k v) (t.setVrfRequest k v) :=
  { h with vrfRequests := update_agree h.vrfRequests k _ }

theorem setThought (k : Pubkey) (r : ThoughtRecord) : Agree l (s.setThought k r) (t.setThought k r) :=
  { h with thoughts := update_agree h.thoughts k _ }

theorem setChallenge (k : Pubkey) (c : Challenge) : Agree l (s.setChallenge k c) (t.setChallenge k c) :=
  { h with challenges := update_agree h.challenges k _ }

/-! The parts of an instruction. -/

theorem transfer (hs : src ∈ l) (hd : dst ∈ l) : Alike (Agree l) (s.transfer src dst n) (t.transfer src dst n) := by
  simp only [State.transfer, h.lamports src hs]
  refine .seq _ fun _ => .ok { h with lamports := ?_ }
  intro k hk
  simp only [State.setLamports, move_apply, h.lamports k hk, h.lamports src hs, h.lamports dst hd]

theorem transferSigned {amount : UInt64} (hs : src ∈ l) (hd : dst ∈ l) :
    Alike (Agree l) (transferSigned s src dst amount) (Program.transferSigned t src dst amount) := by
  unfold Program.transferSigned
  split
  · exact .ok h
  · exact h.transfer hs hd

theorem init {payer target : AccountInfo} {x : Seeds Pubkey} {inUse inUse' : Bool} {space : Nat}
    (hp : payer.key ∈ l) (ht : target.key ∈ l) (hu : inUse = inUse') :
    Alike (Agree l) (init rt s payer target x inUse space) (Program.init rt t payer target x inUse' space) := by
  simp only [Program.init, hu, h.lamports target.key ht]
  exact .seq _ fun _ => .seq _ fun _ => (h.transfer hp ht).bind fun _ _ h' => .seq _ fun _ => .ok h'

end Agree

/-! ## Two executions of one instruction -/

/-- Agreeing states and the same events. -/
def SameResult (l : List Pubkey) (r r' : State × List Event) : Prop := Agree l r.1 r'.1 ∧ r.2 = r'.2

section Instructions

variable (h : Agree l s t)

include h

theorem registerAgent_alike {ctx : RegisterAgent} {stake : UInt64}
    (hl : ∀ i ∈ (Instruction.registerAgent ctx stake).accounts, i.key ∈ l) :
    Alike (SameResult l) (registerAgent rt s ctx stake) (registerAgent rt t ctx stake) := by
  simp only [Instruction.accounts, List.forall_mem_cons] at hl
  obtain ⟨ho, ha, hv, -⟩ := hl
  have hacc : Alike (Agree l) (ctx.tryAccounts rt s) (ctx.tryAccounts rt t) :=
    .seq _ fun _ => .seq _ fun _ => (h.init ho ha (by rw [h.agents _ ha])).bind fun _ _ h =>
      .seq _ fun _ => .seq _ fun _ => .seq _ fun _ => .ok h
  refine hacc.bind fun _ _ h => .seq _ fun _ => ?_
  exact ((h.setAgent _ _).transfer ho hv).bind fun _ _ h => .ok ⟨h, rfl⟩

theorem stakeAccounts_congr {ctx : StakeAccounts} (ha : ctx.agent.key ∈ l) :
    ctx.tryAccounts rt s = ctx.tryAccounts rt t := by
  simp only [StakeAccounts.tryAccounts, account, h.agents _ ha]

theorem stake_alike {ctx : Stake} {amount : UInt64}
    (hl : ∀ i ∈ (Instruction.stake ctx amount).accounts, i.key ∈ l) :
    Alike (SameResult l) (stake rt s ctx amount) (stake rt t ctx amount) := by
  simp only [Instruction.accounts, List.forall_mem_cons] at hl
  obtain ⟨ho, ha, hv, -⟩ := hl
  simp only [stake, stakeAccounts_congr h ha]
  refine .seq _ fun _ => .seq _ fun _ => (h.transfer ho hv).bind fun _ _ h => .seq _ fun _ => ?_
  exact .ok ⟨h.setAgent _ _, rfl⟩

theorem withdrawStake_alike {ctx : WithdrawStake} {amount : UInt64}
    (hl : ∀ i ∈ (Instruction.withdrawStake ctx amount).accounts, i.key ∈ l) :
    Alike (SameResult l) (withdrawStake rt s ctx amount) (withdrawStake rt t ctx amount) := by
  simp only [Instruction.accounts, List.forall_mem_cons] at hl
  obtain ⟨ho, ha, hv, -⟩ := hl
  simp only [withdrawStake, withdrawHandler, stakeAccounts_congr h ha, h.slot, h.lamports _ hv]
  refine .seq _ fun _ => .seq _ fun _ => .seq _ fun _ => .seq _ fun _ => .seq _ fun _ => ?_
  refine (h.transfer hv ho).bind fun _ _ h => .seq _ fun _ => ?_
  exact .ok ⟨h.setAgent _ _, rfl⟩

theorem registerModel_alike {ctx : RegisterModel} {modelId : Bytes32} {modelClass : ModelClass}
    {verifierPubkey teeRootCa : Pubkey}
    (hl : ∀ i ∈ (Instruction.registerModel ctx modelId modelClass verifierPubkey teeRootCa).accounts, i.key ∈ l) :
    Alike (SameResult l) (registerModel rt s ctx modelId modelClass verifierPubkey teeRootCa)
      (registerModel rt t ctx modelId modelClass verifierPubkey teeRootCa) := by
  simp only [Instruction.accounts, List.forall_mem_cons] at hl
  obtain ⟨hg, hm, -⟩ := hl
  have hacc : Alike (Agree l) (ctx.tryAccounts rt s modelId) (ctx.tryAccounts rt t modelId) :=
    .seq _ fun _ => .seq _ fun _ => (h.init hg hm (by rw [h.models _ hm])).bind fun _ _ h =>
      .seq _ fun _ => .seq _ fun _ => .ok h
  exact hacc.bind fun _ _ h => .ok ⟨h.setModel _ _, rfl⟩

theorem registerPolicy_alike {ctx : RegisterPolicy} {args : RegisterPolicyArgs}
    (hl : ∀ i ∈ (Instruction.registerPolicy ctx args).accounts, i.key ∈ l) :
    Alike (SameResult l) (registerPolicy rt s ctx args) (registerPolicy rt t ctx args) := by
  simp only [Instruction.accounts, List.forall_mem_cons] at hl
  obtain ⟨ha, hp, -⟩ := hl
  have hacc : Alike (Agree l) (ctx.tryAccounts rt s args) (ctx.tryAccounts rt t args) :=
    .seq _ fun _ => .seq _ fun _ => (h.init ha hp (by rw [h.policies _ hp])).bind fun _ _ h => .seq _ fun _ => .ok h
  exact hacc.bind fun _ _ h => .seq _ fun _ => .ok ⟨h.setPolicy _ _, rfl⟩

theorem requestVrf_alike {ctx : RequestVrf} {nonceIdx : UInt64} {seed : Bytes32}
    (hl : ∀ i ∈ (Instruction.requestVrf ctx nonceIdx seed).accounts, i.key ∈ l) :
    Alike (SameResult l) (requestVrf rt s ctx nonceIdx seed) (requestVrf rt t ctx nonceIdx seed) := by
  simp only [Instruction.accounts, List.forall_mem_cons] at hl
  obtain ⟨ho, ha, hv, -⟩ := hl
  have hacc : Alike (fun x y => Agree l x.1 y.1 ∧ x.2 = y.2) (ctx.tryAccounts rt s nonceIdx)
      (ctx.tryAccounts rt t nonceIdx) := by
    simp only [RequestVrf.tryAccounts, account, h.agents _ ha]
    refine .seq _ fun _ => .seq _ fun _ => .seq _ fun _ => ?_
    refine (h.init ho hv (by rw [h.vrfRequests _ hv])).bind fun _ _ h => ?_
    exact .seq _ fun _ => .seq _ fun _ => .seq _ fun _ => .seq _ fun _ => .ok ⟨h, rfl⟩
  refine hacc.bind ?_
  rintro ⟨s, a⟩ ⟨t, _⟩ ⟨h, rfl⟩
  refine .seq _ fun _ => .seq _ fun _ => .ok ⟨?_, rfl⟩
  simp only [RequestVrf.request, show s.slot = t.slot from h.slot]
  exact (h.setVrfRequest _ _).setAgent _ _

theorem submitThought_alike {ctx : SubmitThought} {args : ThoughtRecordArgs} {traceUri : String}
    (hl : ∀ i ∈ (Instruction.submitThought ctx args traceUri).accounts, i.key ∈ l) :
    Alike (SameResult l) (submitThought rt s ctx args traceUri) (submitThought rt t ctx args traceUri) := by
  simp only [Instruction.accounts, List.forall_mem_cons] at hl
  obtain ⟨ho, ha, hm, hp, hv, ht, -⟩ := hl
  have hacc : Alike (fun x y => Agree l x.state y.state ∧ y = { x with state := y.state })
      (ctx.tryAccounts rt s args) (ctx.tryAccounts rt t args) := by
    simp only [SubmitThought.tryAccounts, account, h.agents _ ha, h.models _ hm, h.policies _ hp, h.vrfRequests _ hv]
    refine .seq _ fun _ => .seq _ fun _ => .seq _ fun _ => .seq _ fun _ => .seq _ fun _ => .seq _ fun _ => ?_
    refine (h.init ho ht (by rw [h.thoughts _ ht])).bind fun _ _ h => ?_
    refine .seq _ fun _ => .seq _ fun _ => .seq _ fun _ => .seq _ fun _ => .seq _ fun _ => .seq _ fun _ => ?_
    exact .seq _ fun _ => .seq _ fun _ => .seq _ fun _ => .seq _ fun _ => .seq _ fun _ => .ok ⟨h, rfl⟩
  refine hacc.bind ?_
  rintro ⟨s, a, p, v⟩ ⟨t, _⟩ ⟨h, ⟨⟩⟩
  have hslot : s.slot = t.slot := h.slot
  simp only [submitThoughtHandler, SubmitThought.record, SubmitThought.event, slot_setAgent, slot_setThought,
    slot_setVrfRequest, hslot]
  refine .seq _ fun _ => .seq _ fun _ => .seq _ fun _ => .seq _ fun _ => .seq _ fun _ => .seq _ fun _ => ?_
  refine .seq _ fun _ => .seq _ fun _ => .ok ⟨?_, rfl⟩
  exact ((h.setVrfRequest _ _).setThought _ _).setAgent _ _

theorem consumeThought_alike {ctx : ConsumeThought}
    (hl : ∀ i ∈ (Instruction.consumeThought ctx).accounts, i.key ∈ l) :
    Alike (SameResult l) (consumeThought s ctx) (consumeThought t ctx) := by
  simp only [Instruction.accounts, List.forall_mem_cons] at hl
  obtain ⟨-, ht, hp, -⟩ := hl
  simp only [consumeThought, ConsumeThought.tryAccounts, account, h.thoughts _ ht, h.policies _ hp]
  refine .seq _ fun _ => ?_
  simp only [consumeThoughtHandler, h.slot]
  refine .seq _ fun _ => .seq _ fun _ => .seq _ fun _ => .seq _ fun _ => .seq _ fun _ => .seq _ fun _ => ?_
  exact .ok ⟨h.setThought _ _, rfl⟩

theorem openChallenge_alike {ctx : OpenChallenge} {claim : ChallengeClaim} {bond : UInt64} {evidenceUriHash : Bytes32}
    (hl : ∀ i ∈ (Instruction.challenge ctx claim bond evidenceUriHash).accounts, i.key ∈ l) :
    Alike (SameResult l) (openChallenge rt s ctx claim bond evidenceUriHash)
      (openChallenge rt t ctx claim bond evidenceUriHash) := by
  simp only [Instruction.accounts, List.forall_mem_cons] at hl
  obtain ⟨hc, ht, hp, hd, hb, -⟩ := hl
  have hacc : Alike (fun x y => Agree l x.state y.state ∧ y = { x with state := y.state })
      (ctx.tryAccounts rt s) (ctx.tryAccounts rt t) := by
    simp only [OpenChallenge.tryAccounts, account, h.thoughts _ ht, h.policies _ hp]
    refine .seq _ fun _ => .seq _ fun _ => .seq _ fun _ => .seq _ fun _ => ?_
    refine (h.init hc hd (by rw [h.challenges _ hd])).bind fun _ _ h => ?_
    refine .seq _ fun _ => .seq _ fun _ => .seq _ fun _ => .seq _ fun _ => .seq _ fun _ => .seq _ fun _ => ?_
    exact .seq _ fun _ => .ok ⟨h, rfl⟩
  refine hacc.bind ?_
  rintro ⟨s, r, p⟩ ⟨t, _⟩ ⟨h, ⟨⟩⟩
  simp only [openChallengeHandler, OpenChallenge.dispute, show s.slot = t.slot from h.slot]
  refine .seq _ fun _ => .seq _ fun _ => .seq _ fun _ => .seq _ fun _ => ?_
  refine (h.transfer hc hb).bind fun s t h => .ok ⟨?_, rfl⟩
  have hslot : s.slot = t.slot := h.slot
  rw [hslot]
  exact (h.setChallenge _ _).setThought _ _

theorem resolveUnchallenged_alike {ctx : ResolveUnchallenged}
    (hl : ∀ i ∈ (Instruction.resolveUnchallenged ctx).accounts, i.key ∈ l) :
    Alike (SameResult l) (resolveUnchallenged s ctx) (resolveUnchallenged t ctx) := by
  simp only [Instruction.accounts, List.forall_mem_cons] at hl
  obtain ⟨-, ht, ha, -⟩ := hl
  simp only [resolveUnchallenged, ResolveUnchallenged.tryAccounts, account, h.thoughts _ ht, h.agents _ ha]
  refine .seq _ fun _ => ?_
  simp only [resolveUnchallengedHandler, slot_setThought, slot_setAgent, h.slot]
  exact .seq _ fun _ => .seq _ fun _ => .seq _ fun _ => .ok ⟨(h.setThought _ _).setAgent _ _, rfl⟩

/-- The branches of a verdict. -/
theorem resolveVerdict_alike {acc : ResolveChallenged.Loaded} {ctx : ResolveChallenged} {verdict : Bool}
    (hl : ∀ i ∈ (Instruction.resolveChallenged ctx verdict).accounts, i.key ∈ l) :
    Alike (fun x y => Agree l x.state y.state ∧ y = { x with state := y.state }) (resolveVerdict s acc ctx verdict)
      (resolveVerdict t acc ctx verdict) := by
  simp only [Instruction.accounts, List.forall_mem_cons] at hl
  obtain ⟨-, -, -, -, -, hs, hb, hc, ht, ho, -⟩ := hl
  cases verdict with
  | true =>
    refine .seq _ fun _ => .seq _ fun _ => (h.transferSigned hs hc).bind fun _ _ h => ?_
    refine (h.transferSigned hs ht).bind fun _ _ h => (h.transferSigned hb hc).bind fun _ _ h => ?_
    exact .ok ⟨h, rfl⟩
  | false =>
    refine .seq _ fun _ => (h.transferSigned hb ho).bind fun _ _ h => ?_
    exact (h.transferSigned hb ht).bind fun _ _ h => .ok ⟨h, rfl⟩

theorem resolveChallenged_alike {ctx : ResolveChallenged} {verdict : Bool}
    (hl : ∀ i ∈ (Instruction.resolveChallenged ctx verdict).accounts, i.key ∈ l) :
    Alike (SameResult l) (resolveChallenged rt s ctx verdict) (resolveChallenged rt t ctx verdict) := by
  have hv := fun acc => @resolveVerdict_alike s t l h acc ctx verdict hl
  simp only [Instruction.accounts, List.forall_mem_cons] at hl
  obtain ⟨-, ht, ha, hp, hc, -⟩ := hl
  have hacc : ctx.tryAccounts rt s = ctx.tryAccounts rt t := by
    simp only [ResolveChallenged.tryAccounts, account, h.thoughts _ ht, h.agents _ ha, h.policies _ hp,
      h.challenges _ hc]
  simp only [resolveChallenged, hacc]
  refine .seq _ fun acc => .seq _ fun _ => .seq _ fun _ => .seq _ fun _ => .seq _ fun _ => .seq _ fun _ => ?_
  refine (hv acc).bind ?_
  rintro ⟨s, a, st, n⟩ ⟨t, _⟩ ⟨h, ⟨⟩⟩
  exact .ok ⟨((h.setThought _ _).setChallenge _ _).setAgent _ _, rfl⟩

/-- **Two executions of an instruction**, on states that agree at its accounts: the same error, or the same events and
states that agree there. -/
theorem exec_alike {i : Instruction} (hl : ∀ x ∈ i.accounts, x.key ∈ l) :
    Alike (SameResult l) (exec rt s i) (exec rt t i) := by
  cases i with
  | registerAgent ctx stake => exact registerAgent_alike h hl
  | stake ctx amount => exact stake_alike h hl
  | withdrawStake ctx amount => exact withdrawStake_alike h hl
  | registerModel ctx modelId modelClass verifierPubkey teeRootCa => exact registerModel_alike h hl
  | registerPolicy ctx args => exact registerPolicy_alike h hl
  | requestVrf ctx nonceIdx seed => exact requestVrf_alike h hl
  | submitThought ctx args traceUri => exact submitThought_alike h hl
  | consumeThought ctx => exact consumeThought_alike h hl
  | challenge ctx claim bond evidenceUriHash => exact openChallenge_alike h hl
  | resolveUnchallenged ctx => exact resolveUnchallenged_alike h hl
  | resolveChallenged ctx verdict => exact resolveChallenged_alike h hl

end Instructions

/-! ## Instructions as actions with a footprint -/

/-- Execute an instruction: a failed one leaves the state, with its error. -/
def apply (rt : Runtime) (s : State) (i : Instruction) : State × Except Error (List Event) :=
  match exec rt s i with
  | .ok (s', evs) => (s', .ok evs)
  | .error e => (s, .error e)

/-- The accounts of the list. -/
def Instruction.uses (i : Instruction) : List Pubkey := i.accounts.map AccountInfo.key

/-- The accounts the list marks writable. -/
def Instruction.writes (i : Instruction) : List Pubkey := (i.accounts.filter AccountInfo.isWritable).map AccountInfo.key

theorem authority_mem (i : Instruction) : i.authority.key ∈ i.uses := by
  cases i <;> exact List.mem_cons_self

/-- A writable account of the list. -/
theorem ne_key {i : Instruction} (hk : k ∉ i.writes) {x : AccountInfo} (hw : x.isWritable = true)
    (hx : x ∈ i.accounts) : k ≠ x.key := by
  rintro rfl
  exact hk (List.mem_map_of_mem (List.mem_filter.2 ⟨hx, hw⟩))

/-- **An accepted instruction changes no account that its list does not mark writable.** -/
theorem Effect.cell_of_not_writable {i : Instruction} {s' : State} (he : Effect rt s (.instruction i) s')
    (hk : k ∉ i.writes) : s'.cell k = s.cell k := by
  cases he with
  | registerAgent h =>
    obtain ⟨ha, ho, hv⟩ := h.writable
    have ha := ne_key hk ha (by simp [Instruction.accounts])
    have ho := ne_key hk ho (by simp [Instruction.accounts])
    have hv := ne_key hk hv (by simp [Instruction.accounts])
    simp only [State.cell, RegisterAgent.after, Runtime.fund, Function.update_of_ne ha, move_of_ne ho hv,
      move_of_ne ho ha]
  | stake h =>
    obtain ⟨ho, ha, hv⟩ := h.writable
    have ho := ne_key hk ho (by simp [Instruction.accounts])
    have ha := ne_key hk ha (by simp [Instruction.accounts])
    have hv := ne_key hk hv (by simp [Instruction.accounts])
    simp only [State.cell, Stake.after, Function.update_of_ne ha, move_of_ne ho hv]
  | withdrawStake h =>
    obtain ⟨ho, ha, hv⟩ := h.writable
    have ho := ne_key hk ho (by simp [Instruction.accounts])
    have ha := ne_key hk ha (by simp [Instruction.accounts])
    have hv := ne_key hk hv (by simp [Instruction.accounts])
    simp only [State.cell, WithdrawStake.after, Function.update_of_ne ha, move_of_ne hv ho]
  | registerModel h =>
    obtain ⟨hm, hg⟩ := h.writable
    have hm := ne_key hk hm (by simp [Instruction.accounts])
    have hg := ne_key hk hg (by simp [Instruction.accounts])
    simp only [State.cell, RegisterModel.after, Runtime.fund, Function.update_of_ne hm, move_of_ne hg hm]
  | registerPolicy h =>
    obtain ⟨hp, ha⟩ := h.writable
    have hp := ne_key hk hp (by simp [Instruction.accounts])
    have ha := ne_key hk ha (by simp [Instruction.accounts])
    simp only [State.cell, RegisterPolicy.after, Runtime.fund, Function.update_of_ne hp, move_of_ne ha hp]
  | requestVrf h =>
    obtain ⟨hv, ho, ha⟩ := h.writable
    have hv := ne_key hk hv (by simp [Instruction.accounts])
    have ho := ne_key hk ho (by simp [Instruction.accounts])
    have ha := ne_key hk ha (by simp [Instruction.accounts])
    simp only [State.cell, RequestVrf.after, Runtime.fund, Function.update_of_ne hv, Function.update_of_ne ha,
      move_of_ne ho hv]
  | submitThought h =>
    obtain ⟨ht, ho, ha, hv⟩ := h.writable
    have ht := ne_key hk ht (by simp [Instruction.accounts])
    have ho := ne_key hk ho (by simp [Instruction.accounts])
    have ha := ne_key hk ha (by simp [Instruction.accounts])
    have hv := ne_key hk hv (by simp [Instruction.accounts])
    simp only [State.cell, SubmitThought.after, Runtime.fund, Function.update_of_ne hv, Function.update_of_ne ht,
      Function.update_of_ne ha, move_of_ne ho ht]
  | consumeThought h =>
    have ht := h.writable
    have ht := ne_key hk ht (by simp [Instruction.accounts])
    simp only [State.cell, ConsumeThought.after, Function.update_of_ne ht]
  | challenge h =>
    obtain ⟨hd, hc, ht, hb⟩ := h.writable
    have hd := ne_key hk hd (by simp [Instruction.accounts])
    have hc := ne_key hk hc (by simp [Instruction.accounts])
    have ht := ne_key hk ht (by simp [Instruction.accounts])
    have hb := ne_key hk hb (by simp [Instruction.accounts])
    simp only [State.cell, OpenChallenge.after, Runtime.fund, Function.update_of_ne hd, Function.update_of_ne ht,
      move_of_ne hc hb, move_of_ne hc hd]
  | resolveUnchallenged h =>
    obtain ⟨-, ht, ha⟩ := h.writable
    have ht := ne_key hk ht (by simp [Instruction.accounts])
    have ha := ne_key hk ha (by simp [Instruction.accounts])
    simp only [State.cell, ResolveUnchallenged.after, Function.update_of_ne ht, Function.update_of_ne ha]
  | guilty h _ =>
    obtain ⟨-, ht, ha, hd, hs, hb, hc, hy, -⟩ := h.writable
    have ht := ne_key hk ht (by simp [Instruction.accounts])
    have ha := ne_key hk ha (by simp [Instruction.accounts])
    have hd := ne_key hk hd (by simp [Instruction.accounts])
    have hs := ne_key hk hs (by simp [Instruction.accounts])
    have hb := ne_key hk hb (by simp [Instruction.accounts])
    have hc := ne_key hk hc (by simp [Instruction.accounts])
    have hy := ne_key hk hy (by simp [Instruction.accounts])
    simp only [State.cell, ResolveChallenged.afterGuilty, ResolveChallenged.paidGuilty, ResolveChallenged.slashed,
      Function.update_of_ne ht, Function.update_of_ne hd, Function.update_of_ne ha, move_of_ne hb hc, move_of_ne hs hy,
      move_of_ne hs hc]
  | innocent h _ =>
    obtain ⟨-, ht, ha, hd, -, hb, -, hy, ho⟩ := h.writable
    have ht := ne_key hk ht (by simp [Instruction.accounts])
    have ha := ne_key hk ha (by simp [Instruction.accounts])
    have hd := ne_key hk hd (by simp [Instruction.accounts])
    have hb := ne_key hk hb (by simp [Instruction.accounts])
    have hy := ne_key hk hy (by simp [Instruction.accounts])
    have ho := ne_key hk ho (by simp [Instruction.accounts])
    simp only [State.cell, ResolveChallenged.afterInnocent, ResolveChallenged.paidInnocent,
      ResolveChallenged.compensated, Function.update_of_ne ht, Function.update_of_ne hd, Function.update_of_ne ha,
      move_of_ne hb hy, move_of_ne hb ho]

/-- The instructions read and write the accounts of their lists. -/
theorem footprint (rt : Runtime) : Footprint (apply rt) State.cell Instruction.uses Instruction.writes where
  ext := State.ext_cell
  writes_uses := by
    intro i k hk
    obtain ⟨x, hx, rfl⟩ := List.mem_map.1 hk
    exact List.mem_map_of_mem (List.mem_of_mem_filter hx)
  frame := by
    intro s i k hk
    unfold apply
    cases h : exec rt s i with
    | ok r => exact (step_effect (step_instruction.2 ⟨r.2, h⟩)).cell_of_not_writable hk
    | error e => rfl
  reads := by
    intro s t i h
    have hagree := agree_of_cells (authority_mem i) h
    have halike : Alike (SameResult _) (exec rt s i) (exec rt t i) :=
      exec_alike hagree fun x hx => List.mem_map_of_mem hx
    unfold apply
    cases hs : exec rt s i with
    | ok r =>
      rw [hs] at halike
      obtain ⟨r', hr', hl, he⟩ := halike.ok_left
      rw [hr']
      exact ⟨congrArg Except.ok he, fun k hk => hl.cell hk⟩
    | error e =>
      rw [hs] at halike
      rw [halike.error_left]
      exact ⟨rfl, h⟩

/-- **Locality.** What an instruction does at an address it does not mark writable is nothing; what it returns, and what
it leaves at the accounts it lists, is determined by the slot and these accounts. -/
theorem instruction_local (rt : Runtime) (s t : State) (i : Instruction)
    (h : ∀ k ∈ i.uses, s.cell k = t.cell k) :
    (apply rt s i).2 = (apply rt t i).2 ∧ (∀ k ∈ i.uses, (apply rt s i).1.cell k = (apply rt t i).1.cell k) ∧
      ∀ k, k ∉ i.writes → (apply rt s i).1.cell k = s.cell k :=
  ⟨((footprint rt).reads h).1, ((footprint rt).reads h).2, fun _ hk => (footprint rt).frame hk⟩

/-- **Order of execution.** Instructions, failing ones included, that share no account one of them may write can be
exchanged anywhere in a sequence: the final state is the same, and every instruction has the same outcome. -/
theorem execution_order (rt : Runtime) (s : State) {l₁ l₂ : List Instruction}
    (h : Rearranged (Apart Instruction.uses Instruction.writes) l₁ l₂) :
    (sweep (apply rt) s l₁).1 = (sweep (apply rt) s l₂).1 ∧
      (sweep (apply rt) s l₁).2.Perm (sweep (apply rt) s l₂).2 := (footprint rt).sweep_rearranged h s

namespace Sample

def readonly (k : Pubkey) : AccountInfo := ⟨k, false, false⟩

/-- The submission of `operator` on its first nonce. -/
def submission (operator : Pubkey) : Instruction :=
  let agent := chain.pda (.agent operator)
  .submitThought ⟨signed operator, unsigned agent, readonly (chain.pda (.model modelId)), readonly policy,
    unsigned (chain.pda (.vrf agent 0)), unsigned (chain.pda (.thought agent 0)), system⟩
    ⟨modelId, commitment, commitment, commitment, commitment, policyId, action, 0⟩ "ar://trace"

/-- An accepted submission is accepted with the same events, and leaves the same thought, when the funds of a wallet it
does not list are gone. -/
theorem submission_elsewhere : ∃ s s' evs, s'.lamports (wallet 9) ≠ s.lamports (wallet 9) ∧
    (apply chain s (submission operator)).2 = .ok evs ∧ (apply chain s' (submission operator)).2 = .ok evs ∧
      (apply chain s' (submission operator)).1.cell (thought 0) =
        (apply chain s (submission operator)).1.cell (thought 0) := by
  obtain ⟨-, s, -, -, hs⟩ := exists_run (setup ++ (submit 0).take 1)
    (fun s => ((exec chain s (submission operator)).toOption.isSome, s.lamports (wallet 9))) (true, 1000000000000)
    (by decide +kernel)
  obtain ⟨hok, hfunds⟩ := Prod.mk.inj hs
  obtain ⟨⟨s₁, evs⟩, he⟩ := Option.isSome_iff_exists.1 hok
  let s' := s.setLamports (Function.update s.lamports (wallet 9) 0)
  have hagree : ∀ k ∈ (submission operator).uses, s.cell k = s'.cell k := by
    intro k hk
    have hne : k ≠ wallet 9 := by
      rintro rfl
      revert hk
      decide
    simp only [s', State.cell, State.setLamports, Function.update_of_ne hne]
  obtain ⟨houtcome, hcells, -⟩ := instruction_local chain s s' (submission operator) hagree
  have hevs : (apply chain s (submission operator)).2 = .ok evs := by
    unfold apply
    rw [toOption_eq_some.1 he]
  refine ⟨s, s', evs, ?_, hevs, houtcome ▸ hevs, (hcells (thought 0) (by decide)).symm⟩
  rw [hfunds]
  simp [s', State.setLamports]

/-- The registration of `operator` with a stake of 10 SOL. -/
def registration (operator : Pubkey) : Instruction :=
  let agent := chain.pda (.agent operator)
  .registerAgent ⟨signed operator, unsigned agent, unsigned (chain.pda (.vault agent)), system⟩ 10000000000

/-- Registrations of three operators, in two orders. -/
theorem registrations_reordered :
    (sweep (apply chain) (State.genesis 1000 funds)
        [registration (wallet 7), registration (wallet 8), registration (wallet 9)]).1 =
      (sweep (apply chain) (State.genesis 1000 funds)
        [registration (wallet 9), registration (wallet 7), registration (wallet 8)]).1 :=
  (execution_order chain _ (rearranged_of_perm Apart.symm (List.perm_append_singleton (registration (wallet 9)) [_, _])
    (by decide))).1

end Sample

end ProofOfThought.Program
