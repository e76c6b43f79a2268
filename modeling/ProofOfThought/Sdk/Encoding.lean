import ProofOfThought.Base.Borsh
import ProofOfThought.Program.Keys

/-!
# Strings, numbers and instruction arguments

JavaScript strings and their UTF-8 encoding, numbers, and the hand-written Borsh encoders of `encoding.ts`. A
`Uint8Array` is a list of bytes of any length, a `bigint` an integer, and a thrown error its message.
-/

namespace ProofOfThought.Sdk

open Base
open Program (Bytes32)

/-! ## Strings -/

/-- The UTF-16 code units of a string, surrogates paired or not. -/
abbrev JsString := List UInt16

def isHighSurrogate (u : UInt16) : Bool := 0xD800 ≤ u && u ≤ 0xDBFF

def isLowSurrogate (u : UInt16) : Bool := 0xDC00 ≤ u && u ≤ 0xDFFF

/-- A code unit by itself; a lone surrogate is replaced. -/
def unitChar (u : UInt16) : Char :=
  if isHighSurrogate u || isLowSurrogate u then Char.ofNat 0xFFFD else Char.ofNat u.toNat

/-- The conversion to scalar values. -/
def scalarValues : JsString → List Char
  | [] => []
  | [u] => [unitChar u]
  | u :: v :: units =>
    if isHighSurrogate u && isLowSurrogate v then
      Char.ofNat (0x10000 + (u.toNat - 0xD800) * 0x400 + (v.toNat - 0xDC00)) :: scalarValues units
    else unitChar u :: scalarValues (v :: units)

/-- The text of a string. -/
def JsString.text (s : JsString) : String := String.ofList (scalarValues s)

/-- `new TextEncoder().encode(s)`. -/
def textEncode (s : JsString) : Bytes := utf8 s.text

/-- A pair, and a high surrogate left alone. -/
example : textEncode [0xD83D, 0xDE00, 0xD800] = [0xF0, 0x9F, 0x98, 0x80, 0xEF, 0xBF, 0xBD] := by decide +kernel

/-- The code units of a scalar value. -/
def charUnits (c : Char) : JsString :=
  if c.toNat < 0x10000 then [UInt16.ofNat c.toNat]
  else [UInt16.ofNat (0xD800 + (c.toNat - 0x10000) / 0x400), UInt16.ofNat (0xDC00 + (c.toNat - 0x10000) % 0x400)]

/-- The string with a given text. -/
def JsString.ofText (t : String) : JsString := t.toList.flatMap charUnits

/-- `isWellFormed`: no surrogate is alone. -/
def JsString.isWellFormed : JsString → Bool
  | [] => true
  | [u] => !(isHighSurrogate u || isLowSurrogate u)
  | u :: v :: units =>
    if isHighSurrogate u && isLowSurrogate v then isWellFormed units
    else !(isHighSurrogate u || isLowSurrogate u) && isWellFormed (v :: units)

theorem isHighSurrogate_iff {u : UInt16} : isHighSurrogate u = true ↔ 0xD800 ≤ u.toNat ∧ u.toNat ≤ 0xDBFF := by
  simp [isHighSurrogate, UInt16.le_iff_toNat_le]

theorem isLowSurrogate_iff {u : UInt16} : isLowSurrogate u = true ↔ 0xDC00 ≤ u.toNat ∧ u.toNat ≤ 0xDFFF := by
  simp [isLowSurrogate, UInt16.le_iff_toNat_le]

theorem toNat_charOfNat {n : Nat} (h : n.isValidChar) : (Char.ofNat n).toNat = n := by
  rw [Char.ofNat, dif_pos h]
  rfl

/-- A unit that is no surrogate is a scalar value. -/
theorem toNat_unitChar {u : UInt16} (h : (isHighSurrogate u || isLowSurrogate u) = false) :
    (unitChar u).toNat = u.toNat := by
  have hv : u.toNat.isValidChar := by
    have hlt := u.toNat_lt
    rw [Bool.or_eq_false_iff, Bool.eq_false_iff, Bool.eq_false_iff, Ne, Ne, isHighSurrogate_iff,
      isLowSurrogate_iff] at h
    simp only [Nat.isValidChar]
    omega
  rw [unitChar, if_neg (Bool.eq_false_iff.1 h), toNat_charOfNat hv]

/-- The replacement character is no surrogate. -/
theorem ne_of_surrogate {u : UInt16} (h : isHighSurrogate u = true ∨ isLowSurrogate u = true) : 0xFFFD ≠ u := by
  rintro rfl
  revert h
  decide

/-- A unit by itself is read back, unless it is a surrogate. -/
theorem charUnits_unitChar (u : UInt16) :
    charUnits (unitChar u) = [u] ↔ (isHighSurrogate u || isLowSurrogate u) = false := by
  by_cases hs : (isHighSurrogate u || isLowSurrogate u) = true
  · have hne := ne_of_surrogate (Bool.or_eq_true_iff.1 hs)
    have hu : charUnits (unitChar u) = [0xFFFD] := by
      rw [unitChar, if_pos hs]
      rfl
    simp [hu, hs, hne]
  · have hs := Bool.eq_false_iff.2 hs
    have hu : charUnits (unitChar u) = [u] := by
      rw [charUnits, toNat_unitChar hs, if_pos u.toNat_lt, UInt16.ofNat_toNat]
    exact iff_of_true hu hs

/-- A pair is read back. -/
theorem charUnits_pair {u v : UInt16} (hu : isHighSurrogate u = true) (hv : isLowSurrogate v = true) :
    charUnits (Char.ofNat (0x10000 + (u.toNat - 0xD800) * 0x400 + (v.toNat - 0xDC00))) = [u, v] := by
  rw [isHighSurrogate_iff] at hu
  rw [isLowSurrogate_iff] at hv
  have hvalid : (0x10000 + (u.toNat - 0xD800) * 0x400 + (v.toNat - 0xDC00)).isValidChar := by
    simp only [Nat.isValidChar]
    omega
  have h1 : 0xD800 + (0x10000 + (u.toNat - 0xD800) * 0x400 + (v.toNat - 0xDC00) - 0x10000) / 0x400 = u.toNat := by
    omega
  have h2 : 0xDC00 + (0x10000 + (u.toNat - 0xD800) * 0x400 + (v.toNat - 0xDC00) - 0x10000) % 0x400 = v.toNat := by
    omega
  rw [charUnits, toNat_charOfNat hvalid, if_neg (by omega), h1, h2, UInt16.ofNat_toNat, UInt16.ofNat_toNat]

theorem unitChar_units (u : UInt16) : ∃ w, charUnits (unitChar u) = [w] := by
  by_cases hs : (isHighSurrogate u || isLowSurrogate u) = true
  · exact ⟨0xFFFD, by rw [unitChar, if_pos hs]; rfl⟩
  · exact ⟨u, (charUnits_unitChar u).2 (Bool.eq_false_iff.2 hs)⟩

/-- **The text keeps the string, as long as no surrogate is alone.** -/
theorem ofText_text {s : JsString} : JsString.ofText s.text = s ↔ s.isWellFormed = true := by
  rw [JsString.ofText, JsString.text, String.toList_ofList]
  induction s using scalarValues.induct with
  | case1 => simp [scalarValues, JsString.isWellFormed]
  | case2 u => simp [scalarValues, JsString.isWellFormed, charUnits_unitChar]
  | case3 u v units h ih =>
    obtain ⟨hu, hv⟩ := Bool.and_eq_true_iff.1 h
    rw [scalarValues, if_pos h, List.flatMap_cons, charUnits_pair hu hv, JsString.isWellFormed, if_pos h, ← ih]
    simp
  | case4 u v units h ih =>
    rw [scalarValues, if_neg h, List.flatMap_cons, JsString.isWellFormed, if_neg h, Bool.and_eq_true, ← ih,
      Bool.not_eq_true', ← charUnits_unitChar]
    obtain ⟨w, hw⟩ := unitChar_units u
    rw [hw]
    simp

theorem scalarValues_cons {u : UInt16} (hu : isHighSurrogate u = false) (units : JsString) :
    scalarValues (u :: units) = unitChar u :: scalarValues units := by
  cases units with
  | nil => rfl
  | cons v units => rw [scalarValues, hu]; simp

theorem scalarValues_charUnits (c : Char) (units : JsString) :
    scalarValues (charUnits c ++ units) = c :: scalarValues units := by
  have hc : c.toNat < 0xD800 ∨ 0xDFFF < c.toNat ∧ c.toNat < 0x110000 := c.valid
  rw [charUnits]
  split_ifs with h
  · have hn : (UInt16.ofNat c.toNat).toNat = c.toNat := UInt16.toNat_ofNat_of_lt' h
    have hs : (isHighSurrogate (UInt16.ofNat c.toNat) || isLowSurrogate (UInt16.ofNat c.toNat)) = false := by
      rw [Bool.or_eq_false_iff, Bool.eq_false_iff, Bool.eq_false_iff, Ne, Ne, isHighSurrogate_iff, isLowSurrogate_iff,
        hn]
      omega
    rw [List.singleton_append, scalarValues_cons (Bool.or_eq_false_iff.1 hs).1, List.cons.injEq]
    exact ⟨Char.toNat_inj.1 ((toNat_unitChar hs).trans hn), rfl⟩
  · have hu : (UInt16.ofNat (0xD800 + (c.toNat - 0x10000) / 0x400)).toNat = 0xD800 + (c.toNat - 0x10000) / 0x400 :=
      UInt16.toNat_ofNat_of_lt' (by simp only [UInt16.size]; omega)
    have hv : (UInt16.ofNat (0xDC00 + (c.toNat - 0x10000) % 0x400)).toNat = 0xDC00 + (c.toNat - 0x10000) % 0x400 :=
      UInt16.toNat_ofNat_of_lt' (by simp only [UInt16.size]; omega)
    rw [List.cons_append, List.singleton_append, scalarValues, if_pos, hu, hv, List.cons.injEq]
    · have hval : 0x10000 + (0xD800 + (c.toNat - 0x10000) / 0x400 - 0xD800) * 0x400 +
          (0xDC00 + (c.toNat - 0x10000) % 0x400 - 0xDC00) = c.toNat := by omega
      rw [hval]
      exact ⟨Char.ofNat_toNat c, rfl⟩
    · rw [Bool.and_eq_true, isHighSurrogate_iff, isLowSurrogate_iff, hu, hv]
      omega

/-- Every text is the text of a string. -/
theorem text_ofText (t : String) : (JsString.ofText t).text = t := by
  have h (cs : List Char) : scalarValues (cs.flatMap charUnits) = cs := by
    induction cs with
    | nil => rfl
    | cons c cs ih => rw [List.flatMap_cons, scalarValues_charUnits, ih]
  rw [JsString.ofText, JsString.text, h, String.ofList_toList]

/-! ## Numbers -/

/-- A `number`. The finite ones are rationals, with `-0` apart: it equals `0` but is not encoded like it. -/
inductive JsNumber where
  | finite (q : Rat)
  | negZero
  | nan
  | infinity (negative : Bool)
  deriving DecidableEq

namespace JsNumber

/-- The mathematical value of a finite number. -/
def value? : JsNumber → Option Rat
  | finite q => some q
  | negZero => some 0
  | _ => none

/-- The integer part; 0 for a number that is not finite. -/
def truncate (n : JsNumber) : Int := (n.value?.map fun q => q.num.tdiv q.den).getD 0

/-- The conversion of the operands of `&`. -/
def toInt32 (n : JsNumber) : BitVec 32 := BitVec.ofInt 32 n.truncate

end JsNumber

/-! ## Encoders -/

/-- `PublicKey` of `@solana/web3.js`. -/
abbrev PublicKey := Bytes32

/-- `setBigUint64` takes the integer modulo `2^64`. -/
def encodeU64Le (n : Int) : Bytes := leBytes 8 (n % 2 ^ 64).toNat

/-- `setUint32` takes the length modulo `2^32`. -/
def encodeString (s : JsString) : Bytes := leBytes 4 (textEncode s).length ++ textEncode s

/-- Args struct for `submit_thought`. -/
structure ThoughtRecordArgs where
  modelId : Bytes
  inputCommitment : Bytes
  outputCommitment : Bytes
  traceUriHash : Bytes
  vrfSeed : Bytes
  policyId : Bytes
  actionPda : PublicKey
  vrfNonceIdx : Int

def f32 (b : Bytes) (name : String) : Except String Bytes :=
  if b.length ≠ 32 then .error s!"{name} must be 32 bytes, got {b.length}" else .ok b

def encodeSubmitThoughtArgs (args : ThoughtRecordArgs) (traceUri : JsString) : Except String Bytes := do
  let modelId ← f32 args.modelId "modelId"
  let inputCommitment ← f32 args.inputCommitment "inputCommitment"
  let outputCommitment ← f32 args.outputCommitment "outputCommitment"
  let traceUriHash ← f32 args.traceUriHash "traceUriHash"
  let vrfSeed ← f32 args.vrfSeed "vrfSeed"
  let policyId ← f32 args.policyId "policyId"
  return modelId ++ (inputCommitment ++ (outputCommitment ++ (traceUriHash ++ (vrfSeed ++ (policyId ++
    (args.actionPda.toList ++ (encodeU64Le args.vrfNonceIdx ++ encodeString traceUri)))))))

def encodeRequestVrfArgs (nonceIdx : Int) (seed : Bytes) : Except String Bytes := do
  require (seed.length = 32) "seed must be 32 bytes"
  return encodeU64Le nonceIdx ++ seed

/-- `claim & 0xff` is the one element of a `Uint8Array`. -/
def encodeChallengeArgs (claim : JsNumber) (bond : Int) (evidenceUriHash : Bytes) : Except String Bytes := do
  require (evidenceUriHash.length = 32) "evidenceUriHash must be 32 bytes"
  return UInt8.ofBitVec ((claim.toInt32 &&& 0xff#32).setWidth 8) :: (encodeU64Le bond ++ evidenceUriHash)

theorem f32_eq_ok {b b' : Bytes} {name : String} :
    f32 b name = .ok b' ↔ ∃ v : Bytes32, b = v.toList ∧ b' = v.toList := by
  unfold f32
  split
  · rename_i h
    simp only [reduceCtorEq, false_iff, not_exists, not_and]
    rintro v rfl
    exact absurd (List.Vector.toList_length v) h
  · rename_i h
    rw [Except.ok.injEq]
    constructor
    · rintro rfl
      exact ⟨⟨b, not_not.1 h⟩, rfl, rfl⟩
    · intro hx
      rcases hx with ⟨v, rfl, rfl⟩
      rfl

/-- The integer written is below `2^64`. -/
theorem encodeU64Le_eq (n : Int) : encodeU64Le n = leBytes 8 (UInt64.ofNat (n % 2 ^ 64).toNat).toNat := by
  have hlt : (n % 2 ^ 64).toNat < 2 ^ 64 := by omega
  rw [encodeU64Le, UInt64.toNat_ofNat_of_lt' hlt]

/-- The text a Borsh reader finds in an encoded string is no longer than the string. -/
theorem length_le_of_encodeString {s : JsString} {t : String} {bs : Bytes} (h : encodeString s = borshString t ++ bs) :
    (utf8 t).length ≤ (textEncode s).length := by
  have hl := congrArg List.length h
  simp only [encodeString, borshString, List.length_append, length_leBytes] at hl
  omega

end ProofOfThought.Sdk
