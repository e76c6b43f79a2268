import ProofOfThought.Base.ParseInt
import ProofOfThought.Sdk.Encoding

/-!
# Hex

`toHex` and `fromHex` of `hash.ts`. What is written is read back (`fromHex_toHex`), and hex is read as what it says. But
`parseInt` also makes a number of a pair with one digit in it, behind whitespace or a sign or in front of anything, and
the check for `NaN` lets that pass (`hex_exact_iff`).
-/

namespace ProofOfThought.Sdk

open Base

/-! ## The functions -/

/-- `b.toString(16).padStart(2, "0")`. -/
def byteHex (b : UInt8) : JsString := ((Nat.toDigits 16 b.toNat).flatMap charUnits).leftpad 2 0x30

def toHex (bytes : Bytes) : JsString := bytes.flatMap byteHex

def invalidHex (offset : Nat) (chunk : JsString) : JsString :=
  JsString.ofText s!"invalid hex at offset {offset}: " ++ chunk

def oddLength (length : Nat) : JsString := JsString.ofText s!"hex string has odd length: {length}"

/-- The loop of `fromHex`, over what is left from an offset on. A byte is stored modulo 256. -/
def bytesFrom (offset : Nat) : JsString → Except JsString Bytes
  | u :: v :: rest => do
    let byte ← okOr (parseInt 16 [u, v]) (invalidHex offset [u, v])
    let bytes ← bytesFrom (offset + 2) rest
    return UInt8.ofInt byte :: bytes
  | _ => return []

/-- The string without a leading `0x`. -/
def clean (hex : JsString) : JsString := if [0x30, 0x78].isPrefixOf hex then hex.drop 2 else hex

def fromHex (hex : JsString) : Except JsString Bytes :=
  if (clean hex).length % 2 ≠ 0 then .error (oddLength (clean hex).length) else bytesFrom 0 (clean hex)

/-! ## Digits -/

/-- The unit of a lower-case digit. -/
def hexUnit (d : Nat) : UInt16 := UInt16.ofNat (if d < 10 then 0x30 + d else 0x57 + d)

/-- `toLowerCase` on ASCII. -/
def toLower (u : UInt16) : UInt16 := if 0x41 ≤ u.toNat ∧ u.toNat ≤ 0x5A then u + 0x20 else u

variable {c d : Nat} {u v : UInt16} {s : JsString} {bs : Bytes}

theorem digit_hexUnit (hd : d < 16) : digit 16 (hexUnit d) = some d := by
  have hall : ∀ d < 16, digit 16 (hexUnit d) = some d := by decide
  exact hall d hd

theorem charUnits_digitChar (hd : d < 16) : charUnits (Nat.digitChar d) = [hexUnit d] := by
  have hall : ∀ d < 16, charUnits (Nat.digitChar d) = [hexUnit d] := by decide
  exact hall d hd

/-- A digit is written back in lower case. -/
theorem hexUnit_of_digit (h : digit 16 u = some d) : hexUnit d = toLower u := by
  obtain ⟨h, hd⟩ := digit_eq_some.1 h
  apply UInt16.toNat_inj.1
  unfold alphanumeric at h
  unfold hexUnit toLower
  split_ifs at h ⊢ <;> simp at h ⊢ <;> omega

/-- Two digits for every byte. -/
theorem byteHex_eq (b : UInt8) : byteHex b = [hexUnit (b.toNat / 16), hexUnit (b.toNat % 16)] := by
  have hb := b.toNat_lt
  have hlow : charUnits (Nat.digitChar (b.toNat % 16)) = [hexUnit (b.toNat % 16)] :=
    charUnits_digitChar (Nat.mod_lt _ (by decide))
  rw [byteHex, Nat.toDigits_eq_if (by decide)]
  split_ifs with h
  · rw [Nat.mod_eq_of_lt h] at hlow ⊢
    simp [hlow, Nat.div_eq_of_lt h, List.leftpad, hexUnit]
  · have hhigh : b.toNat / 16 < 16 := by omega
    rw [Nat.toDigits_of_lt_base hhigh]
    simp [hlow, charUnits_digitChar hhigh, List.leftpad]

/-! ## Pairs -/

/-- A pair with one digit that `parseInt` makes a number of. -/
def Slip (u v : UInt16) : Prop :=
  ((digit 16 u).isSome = true ∧ digit 16 v = none ∧ hasHexPrefix [u, v] = false) ∨
    ((isStrWhiteSpace u = true ∨ u = 0x2B ∨ u = 0x2D) ∧ (digit 16 v).isSome = true)

/-- Two digits. -/
def Digits (u v : UInt16) : Prop := (digit 16 u).isSome = true ∧ (digit 16 v).isSome = true

theorem Slip.not_digits (h : Slip u v) : ¬Digits u v := by
  rintro ⟨hu, hv⟩
  obtain ⟨d, hd⟩ := Option.isSome_iff_exists.1 hu
  rcases h with ⟨-, hv', -⟩ | ⟨hw | rfl | rfl, -⟩
  · simp [hv'] at hv
  · simp [not_whitespace_of_digit hd] at hw
  · exact (ne_of_digit hd).1 rfl
  · exact (ne_of_digit hd).2 rfl

/-- A byte from its two digits. -/
theorem parseInt_digits (hu : digit 16 u = some c) (hv : digit 16 v = some d) :
    parseInt 16 [u, v] = some (Int.ofNat (c * 16 + d)) := by
  have hx : hasHexPrefix [u, v] = false := by
    rw [Bool.eq_false_iff, Ne, hasHexPrefix_cons]
    rintro ⟨-, rfl | rfl⟩
    · exact nomatch (show digit 16 0x78 = none by decide).symm.trans hv
    · exact nomatch (show digit 16 0x58 = none by decide).symm.trans hv
  rw [parseInt_digit hu, magnitude_digit hu hx, digitPrefix_cons hv, digitPrefix]
  simp [ofDigits]

theorem magnitude_single : (magnitude 16 [u]).isSome = (digit 16 u).isSome := by
  cases h : digit 16 u with
  | none => rw [magnitude_none h]
  | some d => simp [magnitude_digit h hasHexPrefix_single]

theorem parseInt_single : (parseInt 16 [u]).isSome = (digit 16 u).isSome := by
  cases hu : digit 16 u with
  | some d => rw [parseInt_digit hu, Option.isSome_map, magnitude_single, hu]
  | none =>
    rw [parseInt_cons hu]
    split_ifs <;> simp [parseInt_nil, magnitude_nil]

/-- **What `parseInt` makes a number of.** -/
theorem parseInt_isSome_iff : (parseInt 16 [u, v]).isSome = true ↔ Digits u v ∨ Slip u v := by
  cases hu : digit 16 u with
  | some c =>
    have hx : hasHexPrefix [u, v] = true → digit 16 v = none := by
      rw [hasHexPrefix_cons]
      rintro ⟨-, rfl | rfl⟩ <;> decide
    rw [parseInt_digit hu, Option.isSome_map]
    cases hp : hasHexPrefix [u, v] with
    | true => simp [magnitude, hp, digitPrefix, Digits, Slip, hx hp]
    | false =>
      rw [magnitude_digit hu hp]
      cases hv : digit 16 v <;> simp [Digits, Slip, hu, hv, hp]
  | none =>
    have hslip : Digits u v ∨ Slip u v ↔
        (isStrWhiteSpace u = true ∨ u = 0x2B ∨ u = 0x2D) ∧ (digit 16 v).isSome = true := by
      simp [Digits, Slip, hu]
    rw [hslip, parseInt_cons hu]
    split_ifs <;> simp [parseInt_single, magnitude_single, *]

/-! ## Strings -/

/-- The pairs of a string of even length. -/
def pairs : JsString → List (UInt16 × UInt16)
  | u :: v :: rest => (u, v) :: pairs rest
  | _ => []

theorem short_cases (hne : ∀ u v rest, s ≠ u :: v :: rest) : s = [] ∨ ∃ u, s = [u] := by
  rcases s with _ | ⟨u, _ | ⟨v, rest⟩⟩
  · exact .inl rfl
  · exact .inr ⟨u, rfl⟩
  · exact absurd rfl (hne u v rest)

/-- What has no two units has no pairs. -/
theorem pairs_of_short (hne : ∀ u v rest, s ≠ u :: v :: rest) : pairs s = [] ∧ s.length < 2 := by
  rcases short_cases hne with rfl | ⟨u, rfl⟩
  · exact ⟨rfl, by simp⟩
  · exact ⟨rfl, by simp⟩

/-- One of `0` to `9`, `A` to `F` and `a` to `f`. -/
def IsHexDigit (u : UInt16) : Prop :=
  0x30 ≤ u.toNat ∧ u.toNat ≤ 0x39 ∨ 0x41 ≤ u.toNat ∧ u.toNat ≤ 0x46 ∨ 0x61 ≤ u.toNat ∧ u.toNat ≤ 0x66

/-- The string is hex: of even length, and digits only. -/
def IsHex (s : JsString) : Prop := s.length % 2 = 0 ∧ ∀ u ∈ s, IsHexDigit u

theorem isHexDigit_iff : IsHexDigit u ↔ (digit 16 u).isSome = true := by
  rw [Option.isSome_iff_exists]
  simp only [digit_eq_some]
  unfold alphanumeric IsHexDigit
  split_ifs <;> simp <;> omega

/-- The digits of a string of even length stand in its pairs. -/
theorem all_digits_iff (hs : s.length % 2 = 0) :
    (∀ u ∈ s, IsHexDigit u) ↔ ∀ p ∈ pairs s, Digits p.1 p.2 := by
  induction s using pairs.induct with
  | case1 u v rest ih =>
    have hrest : rest.length % 2 = 0 := by
      simp only [List.length_cons] at hs
      omega
    rw [List.forall_mem_cons, List.forall_mem_cons, ih hrest, pairs, List.forall_mem_cons, Digits, isHexDigit_iff,
      isHexDigit_iff, and_assoc]
  | case2 s hne =>
    obtain ⟨hpairs, hlen⟩ := pairs_of_short hne
    obtain rfl : s = [] := List.eq_nil_of_length_eq_zero (by omega)
    simp [hpairs]

theorem bytesFrom_cons_eq_ok {offset : Nat} : bytesFrom offset (u :: v :: s) = .ok bs ↔
    ∃ n bytes, parseInt 16 [u, v] = some n ∧ bytesFrom (offset + 2) s = .ok bytes ∧ UInt8.ofInt n :: bytes = bs := by
  simp only [bytesFrom, seq_ok_iff, okOr_eq_ok, pure_ok_iff, exists_and_left]

theorem bytesFrom_of_short (hne : ∀ u v rest, s ≠ u :: v :: rest) (offset : Nat) : bytesFrom offset s = .ok [] := by
  rcases short_cases hne with rfl | ⟨u, rfl⟩ <;> rfl

theorem ofInt_ofNat {n : Nat} (h : n < 256) : (UInt8.ofInt (Int.ofNat n)).toNat = n := by
  rw [Int.ofNat_eq_natCast, UInt8.ofInt, UInt8.toNat_ofNat']
  omega

/-- A string is read where every pair is. -/
theorem bytesFrom_isOk_iff (offset : Nat) :
    (∃ bs, bytesFrom offset s = .ok bs) ↔ ∀ p ∈ pairs s, Digits p.1 p.2 ∨ Slip p.1 p.2 := by
  induction s using pairs.induct generalizing offset with
  | case1 u v rest ih =>
    rw [pairs, List.forall_mem_cons, ← parseInt_isSome_iff, ← ih (offset + 2), Option.isSome_iff_exists]
    simp only [bytesFrom_cons_eq_ok]
    constructor
    · rintro ⟨_, n, bytes, hn, hbytes, -⟩
      exact ⟨⟨n, hn⟩, bytes, hbytes⟩
    · rintro ⟨⟨n, hn⟩, bytes, hbytes⟩
      exact ⟨_, n, bytes, hn, hbytes, rfl⟩
  | case2 s hne => simp [bytesFrom_of_short hne, (pairs_of_short hne).1]

/-- The byte of two digits is written as them, in lower case. -/
theorem byteHex_of_digits (hu : digit 16 u = some c) (hv : digit 16 v = some d) :
    byteHex (UInt8.ofInt (Int.ofNat (c * 16 + d))) = [toLower u, toLower v] := by
  have hc := (digit_eq_some.1 hu).2
  have hd := (digit_eq_some.1 hv).2
  have hbyte : (UInt8.ofInt (Int.ofNat (c * 16 + d))).toNat = c * 16 + d := ofInt_ofNat (by omega)
  have hhigh : (c * 16 + d) / 16 = c := by omega
  have hlow : (c * 16 + d) % 16 = d := by omega
  rw [byteHex_eq, hbyte, hhigh, hlow, hexUnit_of_digit hu, hexUnit_of_digit hv]

/-- Hex is read as what it says. -/
theorem toHex_of_bytesFrom {offset : Nat} (hs : IsHex s) (h : bytesFrom offset s = .ok bs) :
    toHex bs = s.map toLower := by
  induction s using pairs.induct generalizing offset bs with
  | case1 u v rest ih =>
    obtain ⟨heven, hall⟩ := hs
    have hrest : IsHex rest := by
      refine ⟨?_, fun w hw => hall w (by simp [hw])⟩
      simp only [List.length_cons] at heven
      omega
    obtain ⟨c, hc⟩ := Option.isSome_iff_exists.1 (isHexDigit_iff.1 (hall u (by simp)))
    obtain ⟨d, hd⟩ := Option.isSome_iff_exists.1 (isHexDigit_iff.1 (hall v (by simp)))
    obtain ⟨n, bytes, hn, hbytes, rfl⟩ := bytesFrom_cons_eq_ok.1 h
    obtain rfl := Option.some.inj ((parseInt_digits hc hd).symm.trans hn)
    rw [toHex, List.flatMap_cons, byteHex_of_digits hc hd, ← toHex, ih hrest hbytes]
    rfl
  | case2 s hne =>
    obtain ⟨-, hlen⟩ := pairs_of_short hne
    obtain rfl : s = [] := List.eq_nil_of_length_eq_zero (by have := hs.1; omega)
    obtain rfl := Except.ok.inj h
    rfl

theorem bytesFrom_toHex (bs : Bytes) (offset : Nat) : bytesFrom offset (toHex bs) = .ok bs := by
  induction bs generalizing offset with
  | nil => rfl
  | cons b bs ih =>
    have hb := b.toNat_lt
    have hbyte : UInt8.ofInt (Int.ofNat (b.toNat / 16 * 16 + b.toNat % 16)) = b := by
      rw [Nat.div_add_mod']
      exact UInt8.toNat_inj.1 (ofInt_ofNat hb)
    have hpair := parseInt_digits (digit_hexUnit (d := b.toNat / 16) (by omega))
      (digit_hexUnit (d := b.toNat % 16) (by omega))
    rw [toHex, List.flatMap_cons, byteHex_eq, ← toHex, List.cons_append, List.cons_append, List.nil_append]
    exact bytesFrom_cons_eq_ok.2 ⟨_, bs, hpair, ih (offset + 2), by rw [hbyte]⟩

theorem length_toHex (bs : Bytes) : (toHex bs).length = 2 * bs.length := by
  induction bs with
  | nil => rfl
  | cons b bs ih =>
    rw [toHex, List.flatMap_cons, List.length_append, ← toHex, ih, byteHex_eq]
    simp
    omega

/-- What is written does not start with `0x`. -/
theorem clean_toHex (bs : Bytes) : clean (toHex bs) = toHex bs := by
  cases bs with
  | nil => rfl
  | cons b bs =>
    have hx : hexUnit (b.toNat % 16) ≠ 0x78 := by
      intro h
      have hd := digit_hexUnit (Nat.mod_lt b.toNat (by decide : 16 > 0))
      rw [h] at hd
      exact nomatch hd
    rw [clean, if_neg]
    simp [toHex, byteHex_eq, Ne.symm hx]

/-- **What is written is read back.** -/
theorem fromHex_toHex (bs : Bytes) : fromHex (toHex bs) = .ok bs := by
  simp [fromHex, clean_toHex, length_toHex, bytesFrom_toHex]

/-! ## Errors -/

/-- The loop stops at a pair that is no number, and names it. -/
theorem bytesFrom_eq_error {offset : Nat} {e : JsString} (h : bytesFrom offset s = .error e) :
    ∃ pre u v post, s = pre ++ u :: v :: post ∧ parseInt 16 [u, v] = none ∧
      e = invalidHex (offset + pre.length) [u, v] := by
  induction s using pairs.induct generalizing offset with
  | case1 u v rest ih =>
    simp only [bytesFrom, seq_error_iff, okOr_eq_error, pure_error_iff, and_false, exists_false, or_false] at h
    rcases h with ⟨hn, rfl⟩ | ⟨n, -, hrest⟩
    · exact ⟨[], u, v, rest, rfl, hn, rfl⟩
    · obtain ⟨pre, u', v', post, rfl, hn, rfl⟩ := ih hrest
      refine ⟨u :: v :: pre, u', v', post, rfl, hn, ?_⟩
      rw [List.length_cons, List.length_cons, Nat.add_assoc, Nat.add_comm 2]
  | case2 s hne => simp [bytesFrom_of_short hne] at h

/-- An error is about the length, or about a pair of the string without its `0x`. -/
theorem fromHex_eq_error {e : JsString} (h : fromHex s = .error e) :
    ((clean s).length % 2 ≠ 0 ∧ e = oddLength (clean s).length) ∨
      ∃ pre u v post, clean s = pre ++ u :: v :: post ∧ parseInt 16 [u, v] = none ∧
        e = invalidHex pre.length [u, v] := by
  unfold fromHex at h
  split_ifs at h with hlen
  · exact .inl ⟨hlen, (Except.error.inj h).symm⟩
  · have hpair := bytesFrom_eq_error h
    simp only [Nat.zero_add] at hpair
    exact .inr hpair

/-! ## Exactness -/

theorem fromHex_eq_ok : fromHex s = .ok bs ↔ (clean s).length % 2 = 0 ∧ bytesFrom 0 (clean s) = .ok bs := by
  rw [fromHex, ite_error_eq_ok, ne_eq, not_not]

/-- The string is taken where it is hex, and is read as what it says. -/
def Exact (s : JsString) : Prop :=
  ((∃ bs, fromHex s = .ok bs) ↔ IsHex (clean s)) ∧ ∀ bs, fromHex s = .ok bs → toHex bs = (clean s).map toLower

/-- Every pair is read, and not each of them is two digits. -/
def Slips (s : JsString) : Prop :=
  s.length % 2 = 0 ∧ (∀ p ∈ pairs s, Digits p.1 p.2 ∨ Slip p.1 p.2) ∧ ∃ p ∈ pairs s, Slip p.1 p.2

/-- **Hex.** What is written is read back; and `fromHex` takes exactly the hex, for what it says, unless every pair is
read and one of them has only one digit. -/
theorem hex_exact_iff (bs : Bytes) (s : JsString) : fromHex (toHex bs) = .ok bs ∧ (Exact s ↔ ¬Slips (clean s)) := by
  refine ⟨fromHex_toHex bs, ?_⟩
  have hread : (∃ bs, fromHex s = .ok bs) ↔
      (clean s).length % 2 = 0 ∧ ∀ p ∈ pairs (clean s), Digits p.1 p.2 ∨ Slip p.1 p.2 := by
    simp only [fromHex_eq_ok, exists_and_left, bytesFrom_isOk_iff]
  constructor
  · rintro ⟨hiff, -⟩ ⟨heven, hpairs, p, hp, hslip⟩
    have hhex := hiff.1 (hread.2 ⟨heven, hpairs⟩)
    exact hslip.not_digits ((all_digits_iff heven).1 hhex.2 p hp)
  · intro hno
    have hhex : (∃ bs, fromHex s = .ok bs) ↔ IsHex (clean s) := by
      rw [hread]
      constructor
      · rintro ⟨heven, hpairs⟩
        refine ⟨heven, (all_digits_iff heven).2 fun p hp => ?_⟩
        exact (hpairs p hp).resolve_right fun hslip => hno ⟨heven, hpairs, p, hp, hslip⟩
      · rintro ⟨heven, hall⟩
        exact ⟨heven, fun p hp => .inl ((all_digits_iff heven).1 hall p hp)⟩
    exact ⟨hhex, fun bs hbs => toHex_of_bytesFrom (hhex.1 ⟨bs, hbs⟩) (fromHex_eq_ok.1 hbs).2⟩

/-- Whitespace and a sign. -/
example : fromHex (JsString.ofText "0x 5-5") = .ok [5, 251] := by rfl

/-- `"1g"` is read as `"01"`. -/
theorem digit_dropped :
    fromHex (JsString.ofText "1g") = .ok [1] ∧ toHex [1] = JsString.ofText "01" ∧
      ¬IsHex (clean (JsString.ofText "1g")) ∧ ¬Exact (JsString.ofText "1g") := by
  have hread : fromHex (JsString.ofText "1g") = .ok [1] := by rfl
  have hno : ¬IsHex (clean (JsString.ofText "1g")) := by
    intro h
    exact absurd (h.2 0x67 (by decide)) (by unfold IsHexDigit; decide)
  exact ⟨hread, by decide, hno, fun h => hno (h.1.1 ⟨_, hread⟩)⟩

end ProofOfThought.Sdk
