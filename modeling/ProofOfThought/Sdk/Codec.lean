import ProofOfThought.Program.Wire
import ProofOfThought.Sdk.Client
import ProofOfThought.Watcher.Challenge

/-!
# The argument codec

The encoders of the SDK against the deserializers of the program. The encoders never refuse an integer, a claim or a
string: integers are written modulo `2^64`, claims modulo `2^8`, lone surrogates as U+FFFD and lengths modulo `2^32`.
What is within these bounds is read back, and nothing else (`codec_exact_iff`).
-/

namespace ProofOfThought.Sdk

open Base
open Program (Bytes32 takeData takeData_reads takeData_append takeData_all readU64_append)

/-! ## Integers -/

/-- The integer is a `u64`. -/
def InU64 (n : Int) : Prop := 0 ≤ n ∧ n < 2 ^ 64

/-- The `u64` that is written for an integer. -/
def wireU64 (n : Int) : UInt64 := UInt64.ofNat (n % 2 ^ 64).toNat

theorem wireU64_eq_iff {n : Int} : ((wireU64 n).toNat : Int) = n ↔ InU64 n := by
  have hlt : (n % 2 ^ 64).toNat < 2 ^ 64 := by omega
  rw [wireU64, UInt64.toNat_ofNat_of_lt' hlt, InU64]
  omega

theorem readU64_encode (n : Int) (bs : Bytes) :
    Borsh.readU64 takeData (encodeU64Le n ++ bs) = .ok (wireU64 n, bs) := by
  rw [encodeU64Le_eq]
  exact readU64_append _ _

/-! ## Strings -/

/-- An encoded string is read to its end when its length fits in four bytes. -/
theorem readString_encode {s : JsString} {t : String} :
    Borsh.readString takeData .instructionDidNotDeserialize (encodeString s) = .ok (t, []) ↔
      t = s.text ∧ (textEncode s).length < 2 ^ 32 := by
  have hreads := Borsh.readString_reads takeData_reads Program.EntryError.instructionDidNotDeserialize
  have henc : encodeString s = borshString s.text ++ [] := (List.append_nil _).symm
  constructor
  · intro h
    obtain ⟨hlt, ht⟩ := hreads.sound h
    have hl : (textEncode s).length < 2 ^ 32 := by
      have hl := congrArg List.length ht
      simp only [id, encodeString, borshString, List.length_append, length_leBytes, List.length_nil] at hl
      omega
    have hs := Borsh.eq_ok_append hreads (a := s.text) hl []
    rw [← henc] at hs
    cases h.symm.trans hs
    exact ⟨rfl, hl⟩
  · intro h
    obtain ⟨rfl, hl⟩ := h
    rw [henc]
    exact Borsh.eq_ok_append hreads hl []

/-! ## `submit_thought` -/

section

variable (address : Bytes32 → Program.Pubkey)

/-- The program read the byte arrays and the action of the arguments. -/
structure ThoughtRecordArgs.SameBytes (args : ThoughtRecordArgs) (read : Program.ThoughtRecordArgs) : Prop where
  modelId : read.modelId.toList = args.modelId
  inputCommitment : read.inputCommitment.toList = args.inputCommitment
  outputCommitment : read.outputCommitment.toList = args.outputCommitment
  traceUriHash : read.traceUriHash.toList = args.traceUriHash
  vrfSeed : read.vrfSeed.toList = args.vrfSeed
  policyId : read.policyId.toList = args.policyId
  actionPda : read.actionPda = address args.actionPda

/-- The program reads `bytes` to the end, and reads the arguments. -/
def SubmitRecovered (args : ThoughtRecordArgs) (traceUri : JsString) (bytes : Bytes) : Prop :=
  ∃ read uri, Program.SubmitThought.deserialize address bytes = .ok ((read, uri), []) ∧ args.SameBytes address read ∧
    (read.vrfNonceIdx.toNat : Int) = args.vrfNonceIdx ∧ JsString.ofText uri = traceUri

/-- What the program reads before the URI. -/
theorem deserialize_encoded {args : ThoughtRecordArgs} {traceUri : JsString} {bytes : Bytes}
    (h : encodeSubmitThoughtArgs args traceUri = .ok bytes) :
    ∃ read, Program.ThoughtRecordArgs.deserialize address bytes = .ok (read, encodeString traceUri) ∧
      args.SameBytes address read ∧ read.vrfNonceIdx = wireU64 args.vrfNonceIdx := by
  obtain ⟨modelId, inputCommitment, outputCommitment, traceUriHash, vrfSeed, policyId, actionPda, n⟩ := args
  simp only [encodeSubmitThoughtArgs, seq_ok_iff, pure_ok_iff, f32_eq_ok] at h
  obtain ⟨_, ⟨m, rfl, rfl⟩, _, ⟨i, rfl, rfl⟩, _, ⟨o, rfl, rfl⟩, _, ⟨u, rfl, rfl⟩, _, ⟨v, rfl, rfl⟩, _, ⟨p, rfl, rfl⟩,
    rfl⟩ := h
  rw [encodeU64Le_eq]
  exact ⟨_, Program.deserialize_append address ⟨m, i, o, u, v, p, address actionPda, wireU64 n⟩ actionPda rfl _,
    ⟨rfl, rfl, rfl, rfl, rfl, rfl, rfl⟩, rfl⟩

/-- What the program reads of an instruction that `submit` built. -/
theorem submit_reads {pkg : Packages} {cfg : ProofOfThoughtConfig} {operator : PublicKey} {handle : VrfHandle}
    {result : ThinkResult} {args : SubmitArgs} {ix : InstructionRequest} {thought : PublicKey}
    (h : submit pkg cfg operator handle result args = .ok (ix, thought)) :
    ∃ read, Program.ThoughtRecordArgs.deserialize address (ix.data.drop 8) = .ok (read, encodeString args.traceUri) ∧
      (submittedArgs pkg cfg handle result args).SameBytes address read ∧
      read.vrfNonceIdx = wireU64 handle.nonceIdx := by
  obtain ⟨bytes, hdata, hbytes⟩ := submit_encodes h
  rw [hdata, List.drop_left' (List.Vector.toList_length _)]
  exact deserialize_encoded address hbytes

theorem submitDeserialize_encoded {read : Program.ThoughtRecordArgs} {traceUri : JsString} {bytes : Bytes}
    (h : Program.ThoughtRecordArgs.deserialize address bytes = .ok (read, encodeString traceUri))
    {read' : Program.ThoughtRecordArgs} {uri : String} :
    Program.SubmitThought.deserialize address bytes = .ok ((read', uri), []) ↔
      read' = read ∧ uri = traceUri.text ∧ (textEncode traceUri).length < 2 ^ 32 := by
  rw [← readString_encode]
  simp only [Program.SubmitThought.deserialize, h, seq_ok_iff, pure_ok_iff, Except.ok.injEq, Prod.exists,
    Prod.mk.injEq]
  constructor
  · intro hx
    obtain ⟨_, _, ⟨rfl, rfl⟩, _, _, hs, ⟨rfl, rfl⟩, rfl⟩ := hx
    exact ⟨rfl, hs⟩
  · intro hx
    obtain ⟨rfl, hs⟩ := hx
    exact ⟨_, _, ⟨rfl, rfl⟩, _, _, hs, ⟨rfl, rfl⟩, rfl⟩

theorem submitRecovered_iff {args : ThoughtRecordArgs} {traceUri : JsString} {bytes : Bytes}
    (h : encodeSubmitThoughtArgs args traceUri = .ok bytes) :
    SubmitRecovered address args traceUri bytes ↔
      InU64 args.vrfNonceIdx ∧ traceUri.isWellFormed = true ∧ (textEncode traceUri).length < 2 ^ 32 := by
  obtain ⟨read, hread, hsame, hn⟩ := deserialize_encoded address h
  rw [← wireU64_eq_iff, ← hn, ← ofText_text]
  constructor
  · intro hx
    obtain ⟨_, _, hd, -, hnonce, huri⟩ := hx
    obtain ⟨rfl, rfl, hl⟩ := (submitDeserialize_encoded address hread).1 hd
    exact ⟨hnonce, huri, hl⟩
  · intro hx
    obtain ⟨hnonce, huri, hl⟩ := hx
    exact ⟨read, _, (submitDeserialize_encoded address hread).2 ⟨rfl, rfl, hl⟩, hsame, hnonce, huri⟩

end

/-! ## `request_vrf` -/

/-- The program reads `bytes` to the end, and reads the arguments. -/
def RequestRecovered (nonceIdx : Int) (seed bytes : Bytes) : Prop :=
  ∃ nonceIdx' seed', Program.RequestVrf.deserialize bytes = .ok ((nonceIdx', seed'), []) ∧
    (nonceIdx'.toNat : Int) = nonceIdx ∧ seed'.toList = seed

/-- What the program reads. -/
theorem requestDeserialize_encoded {nonceIdx : Int} {seed bytes : Bytes}
    (h : encodeRequestVrfArgs nonceIdx seed = .ok bytes) :
    ∃ seed', Program.RequestVrf.deserialize bytes = .ok ((wireU64 nonceIdx, seed'), []) ∧ seed'.toList = seed := by
  simp only [encodeRequestVrfArgs, seq_ok_iff, require_eq_ok, pure_ok_iff, exists_const] at h
  obtain ⟨hlen, rfl⟩ := h
  refine ⟨⟨seed, hlen⟩, ?_, rfl⟩
  simp only [Program.RequestVrf.deserialize, seq_ok_iff, pure_ok_iff, Prod.exists]
  exact ⟨_, _, readU64_encode _ _, _, _, takeData_all ⟨seed, hlen⟩, rfl⟩

theorem requestRecovered_iff {nonceIdx : Int} {seed bytes : Bytes}
    (h : encodeRequestVrfArgs nonceIdx seed = .ok bytes) :
    RequestRecovered nonceIdx seed bytes ↔ InU64 nonceIdx := by
  obtain ⟨seed', hread, hseed⟩ := requestDeserialize_encoded h
  rw [RequestRecovered, hread, ← wireU64_eq_iff]
  constructor
  · intro hx
    obtain ⟨_, _, hx, hn, -⟩ := hx
    cases hx
    exact hn
  · intro hx
    exact ⟨_, _, rfl, hx, hseed⟩

/-! ## `challenge` -/

/-- The number is the value of a claim. -/
def IsClaim (claim : JsNumber) : Prop := ∃ k : Nat, k ≤ 6 ∧ claim.value? = some k

/-- The byte written for a claim. -/
def claimByte (claim : JsNumber) : UInt8 := UInt8.ofBitVec ((claim.toInt32 &&& 0xff#32).setWidth 8)

theorem claimByte_toNat (claim : JsNumber) : (claimByte claim).toNat = (claim.truncate % 256).toNat := by
  have hand : ∀ x : Nat, x &&& 255 = x % 256 := fun x => Nat.and_two_pow_sub_one_eq_mod x 8
  simp only [claimByte, JsNumber.toInt32, UInt8.toNat_ofBitVec, BitVec.toNat_setWidth, BitVec.toNat_and,
    BitVec.toNat_ofInt, BitVec.toNat_ofNat]
  rw [show 255 % 2 ^ 32 = 255 from rfl, hand]
  omega

theorem claimByte_of_value {claim : JsNumber} {k : Nat} (h : claim.value? = some (k : Rat)) (hk : k ≤ 6) :
    (claimByte claim).toNat = k := by
  rw [claimByte_toNat, JsNumber.truncate, h]
  simp only [Option.map_some, Option.getD_some, Rat.num_natCast, Rat.den_natCast]
  rw [Int.natCast_one, Int.tdiv_one]
  omega

/-- The program reads `bytes` to the end, and reads the arguments. -/
def ChallengeRecovered (claim : JsNumber) (bond : Int) (evidenceUriHash bytes : Bytes) : Prop :=
  ∃ claim' bond' hash', Program.OpenChallenge.deserialize bytes = .ok ((claim', bond', hash'), []) ∧
    claim.value? = some (claim'.toU8.toNat : Rat) ∧ (bond'.toNat : Int) = bond ∧ hash'.toList = evidenceUriHash

theorem challengeRecovered_iff {claim : JsNumber} {bond : Int} {evidenceUriHash bytes : Bytes}
    (h : encodeChallengeArgs claim bond evidenceUriHash = .ok bytes) :
    ChallengeRecovered claim bond evidenceUriHash bytes ↔ IsClaim claim ∧ InU64 bond := by
  simp only [encodeChallengeArgs, seq_ok_iff, require_eq_ok, pure_ok_iff, exists_const] at h
  obtain ⟨hlen, rfl⟩ := h
  have hread : ∀ {r}, Program.OpenChallenge.deserialize (claimByte claim :: (encodeU64Le bond ++ evidenceUriHash)) =
      .ok r ↔ ∃ c, c.toU8 = claimByte claim ∧ r = ((c, wireU64 bond, ⟨evidenceUriHash, hlen⟩), []) := by
    intro r
    have htag : takeData 1 (claimByte claim :: (encodeU64Le bond ++ evidenceUriHash)) =
        .ok (⟨[claimByte claim], rfl⟩, encodeU64Le bond ++ evidenceUriHash) :=
      takeData_append ⟨[claimByte claim], rfl⟩ _
    have hhash : takeData 32 evidenceUriHash = .ok (⟨evidenceUriHash, hlen⟩, []) := takeData_all ⟨evidenceUriHash, hlen⟩
    simp only [Program.OpenChallenge.deserialize, htag, readU64_encode, hhash, seq_ok_iff, Except.ok.injEq,
      okOr_eq_ok, Program.ChallengeClaim.fromTag_eq_some, exists_eq_left', pure_ok_iff]
    exact exists_congr fun c => and_congr Iff.rfl eq_comm
  constructor
  · intro h
    obtain ⟨c, _, _, h, hc, hb, -⟩ := h
    obtain ⟨c', -, he⟩ := hread.1 h
    cases he
    refine ⟨⟨c.toU8.toNat, ?_, hc⟩, wireU64_eq_iff.1 hb⟩
    cases c <;> decide
  · intro h
    obtain ⟨⟨k, hk, hc⟩, hb⟩ := h
    obtain ⟨c, rfl⟩ := Program.ChallengeClaim.exists_toU8 hk
    have hbyte := claimByte_of_value hc hk
    exact ⟨c, _, _, hread.2 ⟨c, UInt8.toNat_inj.1 hbyte.symm, rfl⟩, hc, wireU64_eq_iff.2 hb, rfl⟩

/-- A bond past `2^64` goes out as its remainder. -/
theorem bond_wraps : ∃ bytes, encodeChallengeArgs (.finite 1) (2 ^ 64 + 500000000) (List.replicate 32 8) = .ok bytes ∧
    encodeChallengeArgs (.finite 1) 500000000 (List.replicate 32 8) = .ok bytes ∧
      ¬ChallengeRecovered (.finite 1) (2 ^ 64 + 500000000) (List.replicate 32 8) bytes := by
  refine ⟨_, rfl, rfl, fun h => ?_⟩
  obtain ⟨-, -, hlt⟩ := (challengeRecovered_iff rfl).1 h
  exact absurd hlt (by decide)

/-! ## The watcher -/

/-- The watcher's data is the SDK's encoding behind the discriminator. -/
theorem encodeChallengeArgs_watcher (args : Watcher.ChallengeArgs) :
    encodeChallengeArgs (.finite args.claim.toU8.toNat) args.bond.toNat args.evidenceUriHash.toList =
      .ok (args.ixData.drop 8) := by
  have hclaim : claimByte (.finite args.claim.toU8.toNat) = args.claim.toU8 := by
    refine UInt8.toNat_inj.1 (claimByte_of_value rfl ?_)
    cases args.claim <;> decide
  have hbond : encodeU64Le args.bond.toNat = leBytes 8 args.bond.toNat := by
    have h : ((args.bond.toNat : Int) % 2 ^ 64).toNat = args.bond.toNat := by
      have hlt := args.bond.toNat_lt
      omega
    rw [encodeU64Le, h]
  simp only [encodeChallengeArgs, seq_ok_iff, require_eq_ok, pure_ok_iff, exists_const]
  refine ⟨List.Vector.toList_length _, ?_⟩
  rw [Watcher.ChallengeArgs.ixData, List.drop_left' (List.Vector.toList_length _), hbond]
  exact congrArg (· :: _) hclaim

/-! ## The codec -/

/-- **What the program reads.** Of whatever the encoders accept, the program reads the arguments back exactly when the
integers are `u64`s, the claim is one of the seven, and the URI is well formed and its length fits in four bytes; and
the watcher writes what the SDK writes. -/
theorem codec_exact_iff (address : Bytes32 → Program.Pubkey) :
    (∀ args traceUri bytes, encodeSubmitThoughtArgs args traceUri = .ok bytes →
      (SubmitRecovered address args traceUri bytes ↔
        InU64 args.vrfNonceIdx ∧ traceUri.isWellFormed = true ∧ (textEncode traceUri).length < 2 ^ 32)) ∧
      (∀ nonceIdx seed bytes, encodeRequestVrfArgs nonceIdx seed = .ok bytes →
        (RequestRecovered nonceIdx seed bytes ↔ InU64 nonceIdx)) ∧
      (∀ claim bond evidenceUriHash bytes, encodeChallengeArgs claim bond evidenceUriHash = .ok bytes →
        (ChallengeRecovered claim bond evidenceUriHash bytes ↔ IsClaim claim ∧ InU64 bond)) ∧
      ∀ args : Watcher.ChallengeArgs,
        encodeChallengeArgs (.finite args.claim.toU8.toNat) args.bond.toNat args.evidenceUriHash.toList =
          .ok (args.ixData.drop 8) :=
  ⟨fun _ _ _ h => submitRecovered_iff address h, fun _ _ _ h => requestRecovered_iff h,
    fun _ _ _ _ h => challengeRecovered_iff h, encodeChallengeArgs_watcher⟩

/-- The largest nonce and bond, the last claim, and a URI with a surrogate pair. -/
theorem codec_exact_iff_bounds :
    let hash := List.replicate 32 8
    let args : ThoughtRecordArgs := ⟨hash, hash, hash, hash, hash, hash, List.Vector.replicate 32 5, 2 ^ 64 - 1⟩
    ∃ submitted requested challenged,
      (encodeSubmitThoughtArgs args [0xD83D, 0xDE00] = .ok submitted ∧
        SubmitRecovered .key args [0xD83D, 0xDE00] submitted) ∧
      (encodeRequestVrfArgs (2 ^ 64 - 1) hash = .ok requested ∧ RequestRecovered (2 ^ 64 - 1) hash requested) ∧
      encodeChallengeArgs (.finite 6) (2 ^ 64 - 1) hash = .ok challenged ∧
        ChallengeRecovered (.finite 6) (2 ^ 64 - 1) hash challenged := by
  obtain ⟨hsubmit, hrequest, hchallenge, -⟩ := codec_exact_iff .key
  have hmax : InU64 (2 ^ 64 - 1) := ⟨by decide, by decide⟩
  exact ⟨_, _, _, ⟨rfl, (hsubmit _ _ _ rfl).2 ⟨hmax, rfl, by decide +kernel⟩⟩, ⟨rfl, (hrequest _ _ _ rfl).2 hmax⟩, rfl,
    (hchallenge _ _ _ _ rfl).2 ⟨⟨6, by decide, rfl⟩, hmax⟩⟩

end ProofOfThought.Sdk
