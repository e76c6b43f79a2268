import ProofOfThought.Program.Requests

/-!
# Seeds

The operator chooses the seed of a request, and may choose it again. A seed is on at most as many thoughts as requests
were accepted with it (`thoughts_le_seeds`), so no two thoughts share one along a run that supplies none twice
(`seeds_single_use`).
-/

namespace ProofOfThought.Program

open Base

variable {rt : Runtime} {s s' : State} {act : Action} {slot : UInt64} {L : Ledger Pubkey}
  {h : List (State × Action)} {seed : Bytes32}

/-- The action is a `request_vrf` that supplies `seed`. -/
def Action.supplies (seed : Bytes32) : Action → Bool
  | .instruction (.requestVrf _ _ seed') => seed' = seed
  | _ => false

/-- How many accepted requests of the history supplied `seed`. -/
def supplied (seed : Bytes32) (h : List (State × Action)) : Nat := h.countP fun x => x.2.supplies seed

/-- The requests that carry `seed`. -/
def requestsOf (seed : Bytes32) (s : State) : Set Pubkey := census s.vrfRequests fun v => v.seed = seed

/-- The thoughts that carry `seed`. -/
def thoughtsOf (seed : Bytes32) (s : State) : Set Pubkey := census s.thoughts fun t => t.vrfSeed = seed

/-- **One step** adds a request with the seed exactly when it supplies the seed. -/
theorem Effect.requestsOf (he : Effect rt s act s') (seed : Bytes32) :
    (requestsOf seed s').encard = (requestsOf seed s).encard + if act.supplies seed then 1 else 0 := by
  cases he with
  | @requestVrf ctx nonceIdx seed' a n h =>
    let v : VrfRequest := ctx.request rt s nonceIdx seed'
    have hnew := encard_census_write s.vrfRequests (fun v => v.seed = seed) ctx.vrfRequest.key (some v)
    rw [h.fresh, weight_none, add_zero] at hnew
    apply hnew.trans
    by_cases hs : seed' = seed
    · rw [weight_of_pos (P := fun v : VrfRequest => v.seed = seed) (v := v) hs]
      simp [Program.requestsOf, Action.supplies, hs]
    · rw [weight_of_neg (P := fun v : VrfRequest => v.seed = seed) (v := v) hs]
      simp [Program.requestsOf, Action.supplies, hs]
  | @submitThought ctx args traceUri a p v d n h =>
    have hkeep := census_write_congr (m := s.vrfRequests) (k := ctx.vrfRequest.key) (P := fun v => v.seed = seed)
      (o := some { v with consumed := true }) (by simp [h.requestAccount])
    exact (congrArg Set.encard hkeep).trans (add_zero _).symm
  | _ => exact (add_zero _).symm

/-- The requests that carry a seed are as many as were accepted with it. -/
theorem encard_requestsOf (hr : Reaches rt slot L h s) : (requestsOf seed s).encard = supplied seed h := by
  refine hr.inv (fun h s => (requestsOf seed s).encard = supplied seed h) ?_ ?_
  · simp [requestsOf, census, supplied, State.genesis]
  · intro h s a s' _ ih ha
    rw [(step_effect ha).requestsOf seed, ih, supplied, supplied, List.countP_append, List.countP_singleton]
    push_cast
    rfl

/-- The request of the thought at an address. -/
def requestKey (rt : Runtime) : Pubkey → Pubkey
  | .thought ak i _ => rt.pda (.vrf ak i)
  | k => k

/-- **A seed is on at most as many thoughts as requests were accepted with it.** -/
theorem thoughts_le_seeds (hr : Reaches rt slot L h s) : (thoughtsOf seed s).encard ≤ supplied seed h := by
  have hpd := paired_of_reaches hr
  have hwf := wf_of_reaches hr
  rw [← encard_requestsOf hr]
  apply Set.encard_le_encard_of_injOn (f := requestKey rt)
  · intro k hk
    obtain ⟨t, ht, hseed⟩ := hk
    obtain ⟨v, p, hv, -, -, hf⟩ := (hpd.sealings _ _ ht).fresh
    rw [(hwf.thoughts _ _ ht).address]
    exact ⟨v, hv, hf.seed.symm.trans hseed⟩
  · intro k hk k' hk' heq
    obtain ⟨t, ht, -⟩ := hk
    obtain ⟨t', ht', -⟩ := hk'
    rw [(hwf.thoughts _ _ ht).address, (hwf.thoughts _ _ ht').address] at heq ⊢
    simp only [requestKey, Runtime.pda, Seeds.address, Pubkey.vrf.injEq] at heq
    rw [heq.1, heq.2.1]

/-- **Seeds are single use where none is supplied twice.** A seed is on at most as many thoughts as requests supplied
it; where that is one, no two thoughts share it, nor the commitment of an input that embeds it. -/
theorem seeds_single_use (hr : Reaches rt slot L h s) :
    (∀ seed, (thoughtsOf seed s).encard ≤ supplied seed h) ∧
      ∀ k t k' t', s.thoughts k = some t → s.thoughts k' = some t' → supplied t.vrfSeed h ≤ 1 →
        (t'.vrfSeed = t.vrfSeed → k' = k) ∧
          ∀ seedOf : Bytes32 → Bytes32, t.vrfSeed = seedOf t.inputCommitment → t'.vrfSeed = seedOf t'.inputCommitment →
            t'.inputCommitment = t.inputCommitment → k' = k := by
  refine ⟨fun seed => thoughts_le_seeds hr, fun k t k' t' ht ht' hone => ?_⟩
  have hle : (thoughtsOf t.vrfSeed s).encard ≤ 1 := (thoughts_le_seeds hr).trans (by exact_mod_cast hone)
  have hsingle : t'.vrfSeed = t.vrfSeed → k' = k := fun hseed =>
    Set.encard_le_one_iff.1 hle k' k ⟨t', ht', hseed⟩ ⟨t, ht, rfl⟩
  refine ⟨hsingle, fun seedOf hin hin' hcommit => hsingle ?_⟩
  rw [hin, hin', hcommit]

namespace Sample

def otherSeed : Bytes32 := List.Vector.replicate 32 5

/-- The second thought of the agent, under another seed. -/
def submitOther : List Action :=
  let vrf := unsigned (chain.pda (.vrf agent 1))
  [.instruction (.requestVrf ⟨signed operator, unsigned agent, vrf, system⟩ 1 otherSeed),
    .instruction (.submitThought ⟨signed operator, unsigned agent, unsigned (chain.pda (.model modelId)),
        unsigned policy, vrf, unsigned (thought 1), system⟩
      ⟨modelId, commitment, commitment, commitment, otherSeed, policyId, action, 1⟩ "ar://trace")]

end Sample

open Sample in
/-- The theorem at the first of two thoughts. -/
theorem seeds_single_use_first :
    ∃ h s t t', Reaches chain 1000 funds h s ∧ s.thoughts (thought 0) = some t ∧ s.thoughts (thought 1) = some t' ∧
      t'.vrfSeed ≠ t.vrfSeed ∧ ∀ k u, s.thoughts k = some u → u.vrfSeed = t.vrfSeed → k = thought 0 := by
  obtain ⟨h, s, hr, hacts, hs⟩ := exists_run (setup ++ submit 0 ++ submitOther)
    (fun s => ((s.thoughts (thought 0)).map (·.vrfSeed), (s.thoughts (thought 1)).map (·.vrfSeed)))
    (some commitment, some otherSeed) (by decide +kernel)
  obtain ⟨h0, h1⟩ := Prod.mk.inj hs
  obtain ⟨t, ht, hseed⟩ := Option.map_eq_some_iff.1 h0
  obtain ⟨t', ht', hseed'⟩ := Option.map_eq_some_iff.1 h1
  have hone : supplied t.vrfSeed h ≤ 1 := by
    rw [supplied, countP_snd, hacts, hseed]
    decide
  refine ⟨h, s, t, t', hr, ht, ht', ?_, fun k u hu => ((seeds_single_use hr).2 _ _ _ _ ht hu hone).1⟩
  rw [hseed, hseed']
  decide

open Sample in
/-- The same seed requested twice, and the same commitments submitted under both nonces. -/
theorem seed_replayed :
    ∃ h s t t', Reaches chain 1000 funds h s ∧ s.thoughts (thought 0) = some t ∧ s.thoughts (thought 1) = some t' ∧
      thought 0 ≠ thought 1 ∧ t.vrfSeed = t'.vrfSeed ∧ t.inputCommitment = t'.inputCommitment ∧
      t.outputCommitment = t'.outputCommitment := by
  obtain ⟨h, s, hr, -, hs⟩ := exists_run (setup ++ submit 0 ++ submit 1)
    (fun s => [thought 0, thought 1].map fun k =>
      (s.thoughts k).map fun t => (t.vrfSeed, t.inputCommitment, t.outputCommitment))
    [some (commitment, commitment, commitment), some (commitment, commitment, commitment)] (by decide +kernel)
  simp only [List.map_cons, List.map_nil, List.cons.injEq, and_true] at hs
  obtain ⟨h0, h1⟩ := hs
  obtain ⟨t, ht, heq⟩ := Option.map_eq_some_iff.1 h0
  obtain ⟨t', ht', heq'⟩ := Option.map_eq_some_iff.1 h1
  simp only [Prod.mk.injEq] at heq heq'
  refine ⟨h, s, t, t', hr, ht, ht', by decide, ?_, ?_, ?_⟩
  · rw [heq.1, heq'.1]
  · rw [heq.2.1, heq'.2.1]
  · rw [heq.2.2, heq'.2.2]

end ProofOfThought.Program
