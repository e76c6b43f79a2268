import ProofOfThought.Program.Derive
import ProofOfThought.Sdk.Accounts

/-!
# The PDAs of the SDK

The functions of `pdas.ts` hand the seeds of the program's constraints to the derivation (`sameSeeds`). Where the
derivation keeps their bytes apart, an address belongs to one family, to one choice of its parameters and to one bump
(`pdas_separate`).
-/

namespace ProofOfThought.Sdk

open Base
open Program (Bytes32 Seeds)

/-- The functions of `pdas.ts` and the constraints name the same seeds. -/
structure SameSeeds (pkg : Packages) : Prop where
  agent : ∀ operator programId,
    agentPda pkg operator programId = pkg.findProgramAddressSync (Seeds.agent operator).bytes programId
  stakeVault : ∀ agent programId,
    stakeVaultPda pkg agent programId = pkg.findProgramAddressSync (Seeds.vault agent).bytes programId
  model : ∀ (modelId : Bytes32) programId,
    modelPda pkg modelId.toList programId = pkg.findProgramAddressSync (Seeds.model modelId).bytes programId
  policy : ∀ (policyId : Bytes32) programId,
    policyPda pkg policyId.toList programId = pkg.findProgramAddressSync (Seeds.policy policyId).bytes programId
  vrfRequest : ∀ agent (nonceIdx : UInt64) programId,
    vrfRequestPda pkg agent nonceIdx.toNat programId =
      pkg.findProgramAddressSync (Seeds.vrf agent nonceIdx).bytes programId
  thought : ∀ agent (vrfNonceIdx : UInt64) programId,
    thoughtPda pkg agent vrfNonceIdx.toNat programId =
      pkg.findProgramAddressSync (Seeds.thought agent vrfNonceIdx).bytes programId
  challenge : ∀ thought challenger programId,
    challengePda pkg thought challenger programId =
      pkg.findProgramAddressSync (Seeds.challenge thought challenger).bytes programId
  bondVault : ∀ challenge programId,
    bondVaultPda pkg challenge programId = pkg.findProgramAddressSync (Seeds.bond challenge).bytes programId

@[simp] theorem wireU64_toNat (n : UInt64) : wireU64 n.toNat = n := by
  have hn : InU64 n.toNat := ⟨Int.natCast_nonneg _, by exact_mod_cast n.toNat_lt⟩
  exact UInt64.toNat_inj.1 (by exact_mod_cast wireU64_eq_iff.2 hn)

theorem sameSeeds (pkg : Packages) : SameSeeds pkg where
  agent _ _ := rfl
  stakeVault _ _ := rfl
  model _ _ := rfl
  policy _ _ := rfl
  vrfRequest agent nonceIdx programId := by
    rw [vrfRequestPda, u64Le_eq, wireU64_toNat]
    rfl
  thought agent vrfNonceIdx programId := by
    rw [thoughtPda, u64Le_eq, wireU64_toNat]
    rfl
  challenge _ _ _ := rfl
  bondVault _ _ := rfl

/-- **PDAs are apart.** The bytes of the seeds determine the family and its parameters; so does the address, with the
bump, where the derivation keeps the bytes apart; a constraint of the program takes a PDA only for its own seeds; and
the SDK derives from the seeds of the constraints. -/
theorem pdas_separate {A : Type} (create : Bytes → PublicKey → A)
    (hinj : ∀ programId, Function.Injective (create · programId)) :
    (∀ x y : Seeds PublicKey, x.bytes.flatten = y.bytes.flatten ↔ x = y) ∧
      (∀ programId (x y : Seeds PublicKey) b c,
        create (x.bytes ++ [[b]]).flatten programId = create (y.bytes ++ [[c]]).flatten programId ↔ x = y ∧ b = c) ∧
      (∀ (x y : Seeds Program.Pubkey) b c (i : Program.AccountInfo), i.key = y.address c →
        (Program.seeds x b i = .ok () ↔ x = y ∧ b = c)) ∧
      ∀ pkg, SameSeeds pkg := by
  refine ⟨fun x y => Seeds.flatten_inj, fun programId x y b c => ?_, fun x y b c i hi => ?_, sameSeeds⟩
  · rw [(hinj programId).eq_iff]
    exact Seeds.preimage_inj
  · rw [Program.seeds_eq_ok, hi, Program.address_inj, eq_comm, eq_comm (a := c)]

namespace Sample

/-- The derivation of the known PDAs, and what it hashes where the address is not known. -/
def derivation (preimage : Bytes) (programId : PublicKey) : PublicKey ⊕ Bytes × PublicKey :=
  match knownPdas.find? fun e => e.1.preimage 255 = preimage ∧ programId = Program.ID with
  | some e => .inl e.2.1
  | none => .inr (preimage, programId)

theorem derivation_inj (programId : PublicKey) : Function.Injective (derivation · programId) := by
  have hknown : ∀ e ∈ knownPdas, ∀ f ∈ knownPdas, e.2.1 = f.2.1 → e = f := by decide +kernel
  intro p q h
  simp only [derivation] at h
  split at h <;> split at h
  · rename_i e he _ f hf
    have he' := List.find?_some he
    have hf' := List.find?_some hf
    obtain rfl := hknown e (List.mem_of_find?_eq_some he) f (List.mem_of_find?_eq_some hf) (Sum.inl.inj h)
    simp only [decide_eq_true_eq] at he' hf'
    exact he'.1.symm.trans hf'.1
  · cases h
  · cases h
  · exact (Prod.mk.inj (Sum.inr.inj h)).1

end Sample

open Sample in
/-- The addresses of an agent and of a model are apart, also where their keys are alike. -/
theorem pdas_separate_known :
    derivation (Seeds.preimage (.agent operatorKey) 255) Program.ID = .inl agentKey ∧
      ∀ b c, derivation (Seeds.preimage (.agent operatorKey) b) Program.ID ≠
        derivation (Seeds.preimage (.model operatorKey) c) Program.ID := by
  refine ⟨by decide +kernel, fun b c h => ?_⟩
  cases (((pdas_separate derivation derivation_inj).2.1 Program.ID _ _ b c).1 h).1

end ProofOfThought.Sdk
