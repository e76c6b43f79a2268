import Mathlib.Data.Vector.Basic

/-!
# Addresses

`Pubkey` is the type of account addresses. The program-derived addresses of `pot_program` are kept apart from each
other and from every other address by their seeds and bump: this is what the runtime's derivation is relied on for.
`Pubkey.key` is any other address: a wallet, a PDA of another program, a program id.
-/

namespace ProofOfThought.Program

/-- Commitments, seeds and ids. -/
abbrev Bytes32 := List.Vector UInt8 32

/-- The seeds of the program's PDAs, over any type of keys. -/
inductive Seeds (K : Type) where
  /-- `[b"agent", operator]` -/
  | agent (operator : K)
  /-- `[b"vault", agent]` -/
  | vault (agent : K)
  /-- `[b"model", model_id]` -/
  | model (modelId : Bytes32)
  /-- `[b"policy", policy_id]` -/
  | policy (policyId : Bytes32)
  /-- `[b"vrf", agent, nonce_idx_le]` -/
  | vrf (agent : K) (nonceIdx : UInt64)
  /-- `[b"thought", agent, vrf_nonce_idx_le]` -/
  | thought (agent : K) (vrfNonceIdx : UInt64)
  /-- `[b"challenge", thought, challenger]` -/
  | challenge (thought challenger : K)
  /-- `[b"bond", challenge]` -/
  | bond (challenge : K)
  deriving DecidableEq

/-- Account addresses. -/
inductive Pubkey where
  | key (bytes : Bytes32)
  | agent (operator : Pubkey) (bump : UInt8)
  | vault (agent : Pubkey) (bump : UInt8)
  | model (modelId : Bytes32) (bump : UInt8)
  | policy (policyId : Bytes32) (bump : UInt8)
  | vrf (agent : Pubkey) (nonceIdx : UInt64) (bump : UInt8)
  | thought (agent : Pubkey) (vrfNonceIdx : UInt64) (bump : UInt8)
  | challenge (thought challenger : Pubkey) (bump : UInt8)
  | bond (challenge : Pubkey) (bump : UInt8)
  deriving DecidableEq

/-- `Pubkey::create_program_address` on seeds and bump. -/
def Seeds.address : Seeds Pubkey → UInt8 → Pubkey
  | .agent o, b => .agent o b
  | .vault a, b => .vault a b
  | .model i, b => .model i b
  | .policy i, b => .policy i b
  | .vrf a n, b => .vrf a n b
  | .thought a n, b => .thought a n b
  | .challenge t c, b => .challenge t c b
  | .bond c, b => .bond c b

/-- Distinct seeds or bumps give distinct addresses. -/
@[simp] theorem address_inj {x y : Seeds Pubkey} {b c : UInt8} : x.address b = y.address c ↔ x = y ∧ b = c := by
  cases x <;> cases y <;> simp [Seeds.address, and_assoc]

/-- The PDAs of `pot_program`, for which only the program can sign. -/
def Pubkey.isPda : Pubkey → Bool
  | .key _ => false
  | _ => true

@[simp] theorem isPda_address (x : Seeds Pubkey) (b : UInt8) : (x.address b).isPda = true := by
  cases x <;> rfl

theorem ne_address {k : Pubkey} (h : k.isPda = false) (x : Seeds Pubkey) (b : UInt8) : k ≠ x.address b := by
  rintro rfl
  simp at h

/-- `GOVERNANCE`, the base58 key `Gov1111111111111111111111111111111111111111`. -/
def governance : Pubkey :=
  .key ⟨[4, 12, 193, 250, 170, 84, 214, 51, 193, 217, 167, 118, 102, 58, 67, 118, 79, 83, 237, 11, 181, 254, 20, 7,
    193, 100, 93, 0, 0, 0, 0, 0], rfl⟩

/-- The System Program's id. -/
def systemProgramId : Pubkey := .key (List.Vector.replicate 32 0)

/-- What the chain fixes and the program does not: the rent-exempt minimum of an account by its size, and the
canonical bump of each list of seeds. -/
structure Runtime where
  rent : Nat → Nat
  bump : Seeds Pubkey → UInt8

namespace Runtime

variable (rt : Runtime)

/-- `Pubkey::find_program_address`, without the bump. -/
def pda (x : Seeds Pubkey) : Pubkey := x.address (rt.bump x)

@[simp] theorem pda_inj {x y : Seeds Pubkey} : rt.pda x = rt.pda y ↔ x = y := by
  simp only [pda, address_inj, and_iff_left_iff_imp]
  rintro rfl
  rfl

theorem ne_pda {k : Pubkey} (h : k.isPda = false) (x : Seeds Pubkey) : k ≠ rt.pda x := ne_address h _ _

/-- The lamports an `init` still has to add: `create_account` on an untouched address, a top-up on a funded one. -/
def rentDue (held space : Nat) : Nat := if held = 0 then rt.rent space else max (rt.rent space) 1 - held

end Runtime

end ProofOfThought.Program
