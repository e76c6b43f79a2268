import ProofOfThought.Base.Borsh
import ProofOfThought.Program.Thought

/-!
# `submit_thought` on the wire

What Anchor generates around the handler: the dispatch on the discriminator, the decoding of the arguments, the binding
of the accounts by their position, and the bytes of the event. An address is 32 bytes there, read by `address` and
written by `toBytes`.
-/

namespace ProofOfThought.Program

open Base

/-- `declare_id!`, the base58 key `Pot1111111111111111111111111111111111111111`. -/
def ID : Bytes32 :=
  ⟨[5, 215, 200, 206, 193, 134, 195, 207, 199, 31, 224, 164, 170, 1, 254, 185, 239, 220, 238, 95, 103, 67, 138, 180,
    134, 249, 151, 0, 0, 0, 0, 0], rfl⟩

/-- The first eight bytes of the SHA-256 of `global:submit_thought`. -/
def SubmitThought.DISCRIMINATOR : List.Vector UInt8 8 := ⟨[35, 130, 65, 159, 90, 214, 192, 26], rfl⟩

/-- The first eight bytes of the SHA-256 of `event:ThoughtSubmitted`. -/
def ThoughtSubmitted.DISCRIMINATOR : List.Vector UInt8 8 := ⟨[189, 124, 75, 165, 58, 86, 46, 26], rfl⟩

/-- Failures before the accounts are validated, and those of the instruction. -/
inductive EntryError where
  | declaredProgramIdMismatch
  | instructionFallbackNotFound
  | instructionDidNotDeserialize
  | accountNotEnoughKeys
  | instruction (e : Error)

/-! ## Arguments -/

section

variable (address : Bytes32 → Pubkey)

/-- The next `n` bytes of the instruction data. -/
def takeData (n : Nat) (bs : Bytes) : Except EntryError (List.Vector UInt8 n × Bytes) :=
  Borsh.takeSlice .instructionDidNotDeserialize n bs

theorem takeData_reads (n : Nat) : Reads id (takeData n) List.Vector.toList fun _ => True :=
  Borsh.takeSlice_reads _ n

theorem takeData_append {n : Nat} (v : List.Vector UInt8 n) (bs : Bytes) : takeData n (v.toList ++ bs) = .ok (v, bs) :=
  Borsh.eq_ok_append (takeData_reads n) trivial bs

theorem takeData_all {n : Nat} (v : List.Vector UInt8 n) : takeData n v.toList = .ok (v, []) := by
  have h := takeData_append v []
  rwa [List.append_nil] at h

theorem readU64_append (n : UInt64) (bs : Bytes) :
    Borsh.readU64 takeData (leBytes 8 n.toNat ++ bs) = .ok (n, bs) :=
  Borsh.eq_ok_append (Borsh.readU64_reads takeData_reads) trivial bs

/-- `AnchorDeserialize` of the arguments. -/
def ThoughtRecordArgs.deserialize (bs : Bytes) : Except EntryError (ThoughtRecordArgs × Bytes) := do
  let (modelId, bs) ← takeData 32 bs
  let (inputCommitment, bs) ← takeData 32 bs
  let (outputCommitment, bs) ← takeData 32 bs
  let (traceUriHash, bs) ← takeData 32 bs
  let (vrfSeed, bs) ← takeData 32 bs
  let (policyId, bs) ← takeData 32 bs
  let (actionPda, bs) ← takeData 32 bs
  let (vrfNonceIdx, bs) ← Borsh.readU64 takeData bs
  return ({ modelId, inputCommitment, outputCommitment, traceUriHash, vrfSeed, policyId, actionPda := address actionPda,
            vrfNonceIdx }, bs)

/-- Arguments in Borsh decode to themselves, whatever follows. -/
theorem deserialize_append (args : ThoughtRecordArgs) (action : Bytes32) (ha : address action = args.actionPda)
    (bs : Bytes) :
    ThoughtRecordArgs.deserialize address (args.modelId.toList ++ (args.inputCommitment.toList ++
      (args.outputCommitment.toList ++ (args.traceUriHash.toList ++ (args.vrfSeed.toList ++ (args.policyId.toList ++
        (action.toList ++ (leBytes 8 args.vrfNonceIdx.toNat ++ bs)))))))) = .ok (args, bs) := by
  simp only [ThoughtRecordArgs.deserialize, seq_ok_iff, pure_ok_iff, Prod.exists]
  exact ⟨_, _, takeData_append _ _, _, _, takeData_append _ _, _, _, takeData_append _ _, _, _, takeData_append _ _,
    _, _, takeData_append _ _, _, _, takeData_append _ _, _, _, takeData_append _ _, _, _, readU64_append _ _,
    by rw [ha]⟩

/-- The arguments of `submit_thought`. -/
def SubmitThought.deserialize (bs : Bytes) : Except EntryError ((ThoughtRecordArgs × String) × Bytes) := do
  let (args, bs) ← ThoughtRecordArgs.deserialize address bs
  let (traceUri, bs) ← Borsh.readString takeData .instructionDidNotDeserialize bs
  return ((args, traceUri), bs)

/-- The arguments of `request_vrf`. -/
def RequestVrf.deserialize (bs : Bytes) : Except EntryError ((UInt64 × Bytes32) × Bytes) := do
  let (nonceIdx, bs) ← Borsh.readU64 takeData bs
  let (seed, bs) ← takeData 32 bs
  return ((nonceIdx, seed), bs)

/-- The claim of an enum tag. -/
def ChallengeClaim.fromTag : UInt8 → Option ChallengeClaim
  | 0 => some .modelMismatch
  | 1 => some .outputMismatch
  | 2 => some .inputOmission
  | 3 => some .replay
  | 4 => some .staleVRF
  | 5 => some .attestationInvalid
  | 6 => some .inconsistentCommitments
  | _ => none

theorem ChallengeClaim.fromTag_eq_some {tag : UInt8} {claim : ChallengeClaim} :
    fromTag tag = some claim ↔ claim.toU8 = tag := by
  constructor
  · intro h
    unfold fromTag at h
    split at h <;> cases h <;> rfl
  · rintro rfl
    cases claim <;> rfl

theorem ChallengeClaim.exists_toU8 : ∀ {k : Nat}, k ≤ 6 → ∃ claim : ChallengeClaim, claim.toU8.toNat = k
  | 0, _ => ⟨.modelMismatch, rfl⟩
  | 1, _ => ⟨.outputMismatch, rfl⟩
  | 2, _ => ⟨.inputOmission, rfl⟩
  | 3, _ => ⟨.replay, rfl⟩
  | 4, _ => ⟨.staleVRF, rfl⟩
  | 5, _ => ⟨.attestationInvalid, rfl⟩
  | 6, _ => ⟨.inconsistentCommitments, rfl⟩
  | _ + 7, h => absurd h (by omega)

/-- The arguments of `challenge`. -/
def OpenChallenge.deserialize (bs : Bytes) : Except EntryError ((ChallengeClaim × UInt64 × Bytes32) × Bytes) := do
  let (tag, bs) ← takeData 1 bs
  let claim ← okOr (ChallengeClaim.fromTag tag.head) .instructionDidNotDeserialize
  let (bond, bs) ← Borsh.readU64 takeData bs
  let (evidenceUriHash, bs) ← takeData 32 bs
  return ((claim, bond, evidenceUriHash), bs)

/-! ## The entry point -/

/-- A function of `n` accounts. -/
def OfAccounts (C : Type) : Nat → Type
  | 0 => C
  | n + 1 => AccountInfo → OfAccounts C n

/-- `#[derive(Accounts)]` takes the accounts in order; further ones are left over. A short list is refused before any
field is checked: Anchor checks the fields before the first one that has no account, so its error can be theirs. -/
def bindAccounts {C : Type} : (n : Nat) → OfAccounts C n → List AccountInfo → Except EntryError C
  | 0, ctx, _ => .ok ctx
  | n + 1, mk, account :: accounts => bindAccounts n (mk account) accounts
  | _ + 1, _, [] => .error .accountNotEnoughKeys

def SubmitThought.bind : List AccountInfo → Except EntryError SubmitThought :=
  bindAccounts 7 fun operator agent model policy vrfRequest thought systemProgram =>
    { operator, agent, model, policy, vrfRequest, thought, systemProgram }

/-- An invocation of `programId` that reaches `submit_thought`. -/
def submitThoughtEntry (rt : Runtime) (s : State) (programId : Bytes32) (data : Bytes) (accounts : List AccountInfo) :
    Except EntryError (State × List Event) := do
  require (programId = ID) .declaredProgramIdMismatch
  require (data.take 8 = SubmitThought.DISCRIMINATOR.toList) .instructionFallbackNotFound
  let (args, bs) ← ThoughtRecordArgs.deserialize address (data.drop 8)
  let (traceUri, _) ← Borsh.readString takeData .instructionDidNotDeserialize bs
  let ctx ← SubmitThought.bind accounts
  (submitThought rt s ctx args traceUri).mapError .instruction

/-- **What an accepted invocation emits**: the event of the arguments and the URI read from the data. -/
theorem submitThoughtEntry_emits {rt : Runtime} {s s' : State} {programId : Bytes32} {data : Bytes}
    {accounts : List AccountInfo} {evs : List Event}
    (h : submitThoughtEntry address rt s programId data accounts = .ok (s', evs)) :
    ∃ args traceUri bs rest ctx, ThoughtRecordArgs.deserialize address (data.drop 8) = .ok (args, bs) ∧
      bs = borshString traceUri ++ rest ∧ (utf8 traceUri).length < 2 ^ 32 ∧
      evs = [.thoughtSubmitted (SubmitThought.event s ctx args traceUri)] := by
  simp only [submitThoughtEntry, seq_ok_iff, require_eq_ok, mapError_eq_ok, exists_const, Prod.exists] at h
  obtain ⟨-, -, args, bs, hargs, traceUri, rest, huri, ctx, -, hs⟩ := h
  obtain ⟨hlt, hbs⟩ := (Borsh.readString_reads takeData_reads _).sound huri
  obtain ⟨_, _, _, _, _, -, rfl, -⟩ := submitThought_eq_ok.1 hs
  exact ⟨args, traceUri, bs, rest, ctx, hargs, hbs, hlt, rfl⟩

end

/-! ## The event -/

section

variable (toBytes : Pubkey → Bytes32)

/-- What `emit!` logs: the discriminator and the fields in Borsh, in the order of their declaration. -/
def ThoughtSubmitted.data (ev : ThoughtSubmitted) : Bytes :=
  ThoughtSubmitted.DISCRIMINATOR.toList ++ ((toBytes ev.agent).toList ++ ((toBytes ev.thoughtPda).toList ++
    (ev.modelId.toList ++ (ev.inputCommitment.toList ++ (ev.outputCommitment.toList ++ (ev.traceUriHash.toList ++
      (ev.vrfSeed.toList ++ (ev.policyId.toList ++ (leBytes 8 ev.slot.toNat ++ borshString ev.traceUri)))))))))

end

end ProofOfThought.Program
