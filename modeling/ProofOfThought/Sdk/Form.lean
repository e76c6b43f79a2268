import ProofOfThought.Sdk.Item
import ProofOfThought.Sdk.Session

/-!
# The canonical form

`canonicalEncode` against the key order of ADR 0002: one form for every order of insertion, and the form of RFC 8949
4.2.1 unless a `Map` has keys that the two orders of RFC 8949 sort differently.
-/

namespace ProofOfThought.Sdk

open Base

/-! ## A sample library -/

namespace Sample

/-- Some numbers that are no safe integers, with their shortest floats. -/
def floats : List (JsNumber × Cbor.FloatBits) :=
  [(.negZero, .half 0x8000), (.finite (mkRat 1 2), .half 0x3800), (.finite 1152921504606846976, .single 0x5D800000)]

def floatBits (n : JsNumber) : Option Cbor.FloatBits := (floats.find? (·.1 = n)).map Prod.snd

/-- The sample packages, with a deterministic `cbor2`. -/
def deterministic : Library where
  toPackages := library.toPackages
  encode := fun v => okOr (v.item.encode (Value.atomBytes floatBits) Cbor.lengthFirst) "not encodable"
  encode_string := by
    intro s hs
    rw [okOr_eq_ok]
    exact Value.atomBytes_string.2 ⟨hs, rfl⟩

theorem mem_floats {n : JsNumber} {bits : Cbor.FloatBits} (h : floatBits n = some bits) : (n, bits) ∈ floats := by
  obtain ⟨e, he, rfl⟩ := Option.map_eq_some_iff.1 h
  have hn := List.find?_some he
  obtain rfl : e.1 = n := of_decide_eq_true hn
  exact List.mem_of_find?_eq_some he

theorem floatBits_inj {n m : JsNumber} {bits : Cbor.FloatBits} (hn : floatBits n = some bits)
    (hm : floatBits m = some bits) : n = m :=
  congrArg Prod.fst (List.inj_on_of_nodup_map (f := Prod.snd) (by decide) (mem_floats hn) (mem_floats hm) rfl)

theorem deterministic_deterministic : deterministic.Deterministic floatBits where
  encode_iff := fun _ _ _ => okOr_eq_ok
  float_inj := fun _ _ _ => floatBits_inj

/-- A `Map` with the keys 24 and -1. -/
def twoKeys : Value := .map [(.number (.finite 24), .null), (.number (.finite (-1)), .null)]

/-- An object with a `Map` in it. -/
def nested : Value :=
  objectLit [("b", .number (.finite 1)), ("aa", .map [(.string (JsString.ofText "y"), .null),
    (.string (JsString.ofText "x"), .bigint 2)])]

def nestedBytes : Bytes := [0xA2, 0x61, 0x62, 0x01, 0x62, 0x61, 0x61, 0xA2, 0x61, 0x78, 0x02, 0x61, 0x79, 0xF6]

end Sample

/-! ## Against the bytewise order -/

/-- **The canonical form** is the deterministic one with keys by length first. It does not depend on the order of
insertion, and is the form with keys bytewise exactly when no key of a `Map` is shorter than one that comes before it
bytewise; this is so when all keys are strings. -/
theorem one_canonical_form {lib : Library} {floatBits : JsNumber → Option Cbor.FloatBits}
    (h : lib.Deterministic floatBits) {v : Value} (hv : assertCanonicalValue v [] = .ok ()) :
    (∀ b, lib.canonicalEncode v = .ok b ↔ v.item.encode (Value.atomBytes floatBits) Cbor.lengthFirst = some b) ∧
      (∀ w b, v.Reordered w → (lib.canonicalEncode v = .ok b ↔ lib.canonicalEncode w = .ok b)) ∧
      (∀ b, lib.canonicalEncode v = .ok b → (v.bytewiseEncode floatBits = some b ↔ v.ShortKeysFirst floatBits)) ∧
      (v.ShortKeysFirst floatBits → ∀ c, lib.hashCommitment v = .ok c →
        ∃ b, v.bytewiseEncode floatBits = some b ∧ lib.blake3 b = c) ∧
      (v.StringKeys → v.ShortKeysFirst floatBits) := by
  refine ⟨fun b => ?_, fun w b hr => h.canonicalEncode_reordered hr, fun b hb => h.bytewiseEncode_iff hb,
    fun hs c hc => ?_, fun hk => hk.shortKeysFirst floatBits⟩
  · rw [h.canonicalEncode_eq_ok]
    exact and_iff_right hv
  · simp only [Library.hashCommitment, seq_ok_iff, pure_ok_iff] at hc
    obtain ⟨b, hb, rfl⟩ := hc
    exact ⟨b, (h.bytewiseEncode_iff hb).2 hs, rfl⟩

/-- A `Map` whose two keys stand in the other order in the form with keys bytewise. -/
theorem map_keys_sorted_differently : Sample.deterministic.Deterministic Sample.floatBits ∧
    assertCanonicalValue Sample.twoKeys [] = .ok () ∧
    Sample.deterministic.canonicalEncode Sample.twoKeys = .ok [0xA2, 0x20, 0xF6, 0x18, 0x18, 0xF6] ∧
    Sample.twoKeys.bytewiseEncode Sample.floatBits = some [0xA2, 0x18, 0x18, 0xF6, 0x20, 0xF6] :=
  ⟨Sample.deterministic_deterministic, toOption_eq_some.1 (by decide +kernel), toOption_eq_some.1 (by decide +kernel),
    by decide +kernel⟩

/-- The theorem at an object whose keys are strings. -/
theorem one_canonical_form_nested :
    Sample.deterministic.canonicalEncode Sample.nested = .ok Sample.nestedBytes ∧
      Sample.nested.bytewiseEncode Sample.floatBits = some Sample.nestedBytes := by
  obtain ⟨hform, -, hbytewise, -, hstrings⟩ :=
    one_canonical_form Sample.deterministic_deterministic (v := Sample.nested) (toOption_eq_some.1 (by decide +kernel))
  have hb := (hform Sample.nestedBytes).2 (by decide +kernel)
  refine ⟨hb, (hbytewise _ hb).2 (hstrings ?_)⟩
  simp only [Sample.nested, objectLit, Value.stringKeys_object, Value.stringKeys_map, List.map_cons, List.map_nil,
    List.forall_mem_cons, List.not_mem_nil, false_imp_iff, implies_true, and_true, Value.string.injEq, exists_eq',
    true_and]
  exact ⟨Value.stringKeys_leaf rfl, Value.stringKeys_leaf rfl, Value.stringKeys_leaf rfl⟩

end ProofOfThought.Sdk
