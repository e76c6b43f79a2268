import ProofOfThought.Base.CborKeys
import ProofOfThought.Sdk.Canonical

/-!
# Values as data items

A value as `cbor2` writes it: an object is a map from texts, an integer-valued number an integer. `canonicalEncode` is
the deterministic encoding of the item, with keys by length first. On keys ADR 0002 asks for the bytewise order; the two
differ only in a `Map` with keys that are not all strings (`one_canonical_form`). The other rules of the ADR (no float
unless a schema asks for one, texts in NFC) are about which item a producer writes, and no function here enforces them.
-/

namespace ProofOfThought.Sdk

open Base

/-! ## Items -/

/-- `Number.isSafeInteger`. -/
def JsNumber.isSafeInteger (n : JsNumber) : Bool := n.isInteger && n.value.num.natAbs < 2 ^ 53

/-- `-0` and the numbers that are no safe integers are floats. -/
def JsNumber.scalar (n : JsNumber) : Cbor.Scalar JsNumber :=
  if n ≠ .negZero ∧ n.isSafeInteger = true then .int n.value.num else .float n

/-- The scalar of a value with no value inside. -/
def Value.scalar? : Value → Option (Cbor.Scalar JsNumber)
  | null => some (.simple 22)
  | boolean b => some (.simple (if b then 21 else 20))
  | number n => some n.scalar
  | bigint n => some (.int n)
  | string s => some (.text s.text)
  | bytes b => some (.bytes b)
  | _ => none

mutual

/-- The data item of a value: the properties of an object are the entries of a map. -/
def Value.item : Value → Cbor.Item Value
  | array vs => .array (itemElements vs)
  | map entries => .map (itemEntries entries)
  | object fields => .map (itemFields fields)
  | v => .atom v

def Value.itemElements : List Value → List (Cbor.Item Value)
  | [] => []
  | v :: vs => v.item :: itemElements vs

def Value.itemEntries : List (Value × Value) → List (Cbor.Item Value × Cbor.Item Value)
  | [] => []
  | e :: entries => itemEntry e :: itemEntries entries

def Value.itemEntry : Value × Value → Cbor.Item Value × Cbor.Item Value
  | (k, v) => (k.item, v.item)

def Value.itemFields : List (JsString × Value) → List (Cbor.Item Value × Cbor.Item Value)
  | [] => []
  | f :: fields => itemField f :: itemFields fields

def Value.itemField : JsString × Value → Cbor.Item Value × Cbor.Item Value
  | (key, v) => (.atom (.string key), v.item)

end

/-- What is written for a value with no value inside. -/
def Value.atomBytes (floatBits : JsNumber → Option Cbor.FloatBits) (v : Value) : Option Bytes :=
  v.scalar?.bind (Cbor.Scalar.encode floatBits)

/-- The form of RFC 8949 4.2.1 of the same data item: as `canonicalEncode`, with keys in bytewise order. -/
def Value.bytewiseEncode (floatBits : JsNumber → Option Cbor.FloatBits) (v : Value) : Option Bytes :=
  v.item.encode (atomBytes floatBits) Cbor.bytewise

/-- `cbor2` with the options of `canonicalEncode`: deterministic, with keys by length first; `floatBits` are the bits of
the shortest float with the value of a number, if it is a number of JavaScript. -/
structure Library.Deterministic (lib : Library) (floatBits : JsNumber → Option Cbor.FloatBits) : Prop where
  encode_iff : ∀ v b, assertCanonicalValue v [] = .ok () →
    (lib.encode v = .ok b ↔ v.item.encode (Value.atomBytes floatBits) Cbor.lengthFirst = some b)
  float_inj : ∀ n m bits, floatBits n = some bits → floatBits m = some bits → n = m

/-! ## Lemmas -/

/-- A function on lists that takes the elements one by one is `map`. -/
theorem eq_map {α β : Type} {f : α → β} {g : List α → List β} (hnil : g [] = [])
    (hcons : ∀ a l, g (a :: l) = f a :: g l) (l : List α) : g l = l.map f := by
  induction l with
  | nil => exact hnil
  | cons a l ih => rw [hcons, ih, List.map_cons]

theorem Value.item_array (vs : List Value) : (Value.array vs).item = .array (vs.map item) :=
  congrArg Cbor.Item.array (eq_map rfl (fun _ _ => rfl) vs)

theorem Value.item_map (entries : List (Value × Value)) :
    (Value.map entries).item = .map (entries.map fun e => (e.1.item, e.2.item)) :=
  congrArg Cbor.Item.map (eq_map rfl (fun (_, _) _ => rfl) entries)

theorem Value.item_object (fields : List (JsString × Value)) :
    (Value.object fields).item = .map (fields.map fun f => (.atom (.string f.1), f.2.item)) :=
  congrArg Cbor.Item.map (eq_map rfl (fun (_, _) _ => rfl) fields)

/-- Induction on a value: on the elements of an array, the entries of a `Map` and the properties of an object. -/
theorem Value.induct {motive : Value → Prop} (array : ∀ vs, (∀ v ∈ vs, motive v) → motive (.array vs))
    (map : ∀ entries, (∀ e ∈ entries, motive e.1 ∧ motive e.2) → motive (.map entries))
    (object : ∀ fields, (∀ f ∈ fields, motive f.2) → motive (.object fields))
    (leaf : ∀ v, v.item = .atom v → motive v) : ∀ v, motive v
  | .array vs => array vs fun v hv =>
    have _ := List.sizeOf_lt_of_mem hv
    induct array map object leaf v
  | .map entries => map entries fun (k, v) he =>
    have _ := List.sizeOf_lt_of_mem he
    ⟨induct array map object leaf k, induct array map object leaf v⟩
  | .object fields => object fields fun (_, v) hf =>
    have _ := List.sizeOf_lt_of_mem hf
    induct array map object leaf v
  | .undefined => leaf _ rfl
  | .null => leaf _ rfl
  | .boolean _ => leaf _ rfl
  | .number _ => leaf _ rfl
  | .bigint _ => leaf _ rfl
  | .string _ => leaf _ rfl
  | .bytes _ => leaf _ rfl
  | .foreign _ => leaf _ rfl
termination_by v => sizeOf v
decreasing_by
  all_goals simp_all
  all_goals omega

/-! ## What is accepted -/

/-- A value with no value inside is accepted wherever it stands. -/
theorem assertCanonicalValue_leaf {v : Value} (hv : v.item = .atom v) {path : List Segment} {u : Unit} :
    assertCanonicalValue v path = .ok u ↔ assertCanonicalValue v [] = .ok () := by
  cases v with
  | array vs => cases hv
  | map entries => cases hv
  | object fields => cases hv
  | _ => simp [assertCanonicalValue]

section

variable (P : Value → Prop) {path : List Segment} {u : Unit}

theorem assertElements_eq_ok {vs : List Value}
    (h : ∀ v ∈ vs, ∀ path u, assertCanonicalValue v path = .ok u ↔ P v) {i : Nat} :
    assertElements vs path i = .ok u ↔ ∀ v ∈ vs, P v := by
  induction vs generalizing i with
  | nil => simp [assertElements]
  | cons v vs ih =>
    rw [List.forall_mem_cons] at h
    simp only [assertElements, seq_ok_iff, h.1, ih h.2, List.forall_mem_cons, exists_const]

theorem assertEntries_eq_ok {entries : List (Value × Value)}
    (h : ∀ e ∈ entries, (∀ path u, assertCanonicalValue e.1 path = .ok u ↔ P e.1) ∧
      ∀ path u, assertCanonicalValue e.2 path = .ok u ↔ P e.2) {i : Nat} :
    assertEntries entries path i = .ok u ↔ ∀ e ∈ entries, P e.1 ∧ P e.2 := by
  induction entries generalizing i with
  | nil => simp [assertEntries]
  | cons e entries ih =>
    rw [List.forall_mem_cons] at h
    obtain ⟨k, v⟩ := e
    simp only [assertEntries, assertEntry, seq_ok_iff, h.1.1, h.1.2, ih h.2, List.forall_mem_cons, exists_const]

theorem assertFields_eq_ok {fields : List (JsString × Value)}
    (h : ∀ f ∈ fields, ∀ path u, assertCanonicalValue f.2 path = .ok u ↔ P f.2) :
    assertFields fields path = .ok u ↔ ∀ f ∈ fields, P f.2 := by
  induction fields with
  | nil => simp [assertFields]
  | cons f fields ih =>
    rw [List.forall_mem_cons] at h
    obtain ⟨key, v⟩ := f
    simp only [assertFields, assertField, seq_ok_iff, h.1, ih h.2, List.forall_mem_cons, exists_const]

end

/-- The walk looks at every atom of the item, and the path to it only names it. -/
theorem assertCanonicalValue_eq_ok {v : Value} {path : List Segment} {u : Unit} :
    assertCanonicalValue v path = .ok u ↔ v.item.All fun a => assertCanonicalValue a [] = .ok () := by
  let P (v : Value) : Prop := v.item.All fun a => assertCanonicalValue a [] = .ok ()
  induction v using Value.induct generalizing path u with
  | array vs ih =>
    rw [assertCanonicalValue, assertElements_eq_ok P fun v hv _ _ => ih v hv, Value.item_array, Cbor.Item.all_array,
      List.forall_mem_map]
  | map entries ih =>
    rw [assertCanonicalValue, assertEntries_eq_ok P fun e he => ⟨fun _ _ => (ih e he).1, fun _ _ => (ih e he).2⟩,
      Value.item_map, Cbor.Item.all_map, List.forall_mem_map]
  | object fields ih =>
    rw [assertCanonicalValue, assertFields_eq_ok P fun f hf _ _ => ih f hf, Value.item_object, Cbor.Item.all_map,
      List.forall_mem_map]
    simp only [Cbor.Item.all_atom, assertCanonicalValue, true_and]
    exact Iff.rfl
  | leaf v hv => rw [hv, Cbor.Item.all_atom, assertCanonicalValue_leaf hv]

/-! ## One form -/

theorem Value.isScalar_of_atomBytes {floatBits : JsNumber → Option Cbor.FloatBits} {v : Value} {b : Bytes}
    (h : v.atomBytes floatBits = some b) : Cbor.IsScalar b := by
  obtain ⟨x, -, hx⟩ := Option.bind_eq_some_iff.1 h
  exact Cbor.Scalar.isScalar_of_encode hx

/-- A property is written as its text. -/
theorem Value.atomBytes_string {floatBits : JsNumber → Option Cbor.FloatBits} {s : JsString} {b : Bytes} :
    (Value.string s).atomBytes floatBits = some b ↔ (utf8 s.text).length < 2 ^ 64 ∧ b = Cbor.text s.text :=
  Cbor.string_eq_some

/-- The properties of objects and the entries of `Map`s stand in any order, at any depth. -/
def Value.Reordered (v w : Value) : Prop := v.item.Same Eq w.item

/-- Every key of a map is a string: there are only objects, and `Map`s that could be objects. -/
def Value.StringKeys (v : Value) : Prop := v.item.Maps fun es => ∀ e ∈ es, ∃ s, e.1 = .atom (.string s)

/-- No key of a map is written shorter than one that comes before it bytewise. -/
def Value.ShortKeysFirst (floatBits : JsNumber → Option Cbor.FloatBits) (v : Value) : Prop :=
  v.item.Maps (Cbor.KeyPairs (atomBytes floatBits) Cbor.lengthFirst fun k l => k.length < l.length → k ≤ l)

theorem Value.stringKeys_object {fields : List (JsString × Value)} :
    (object fields).StringKeys ↔ ∀ f ∈ fields, f.2.StringKeys := by
  rw [StringKeys, item_object, Cbor.Item.maps_map, List.forall_mem_map, List.forall_mem_map]
  constructor
  · exact fun h f hf => (h.2 f hf).2
  · exact fun h => ⟨fun f _ => ⟨f.1, rfl⟩, fun f hf => ⟨.atom _, h f hf⟩⟩

theorem Value.stringKeys_map {entries : List (Value × Value)} :
    (map entries).StringKeys ↔ ∀ e ∈ entries, (∃ s, e.1 = string s) ∧ e.2.StringKeys := by
  have hkey (v : Value) : (∃ s, v.item = .atom (string s)) ↔ ∃ s, v = string s := by
    cases v <;> simp [item]
  rw [StringKeys, item_map, Cbor.Item.maps_map, List.forall_mem_map, List.forall_mem_map]
  constructor
  · exact fun h e he => ⟨(hkey e.1).1 (h.1 e he), (h.2 e he).2⟩
  · intro h
    refine ⟨fun e he => (hkey e.1).2 (h e he).1, fun e he => ⟨?_, (h e he).2⟩⟩
    obtain ⟨s, hs⟩ := (h e he).1
    rw [hs]
    exact .atom _

/-- A value with no value inside has no keys. -/
theorem Value.stringKeys_leaf {v : Value} (h : v.item = .atom v) : v.StringKeys := by
  rw [StringKeys, h]
  exact .atom v

theorem Value.StringKeys.shortKeysFirst {v : Value} (h : v.StringKeys)
    (floatBits : JsNumber → Option Cbor.FloatBits) : v.ShortKeysFirst floatBits := by
  refine h.mono fun es hes => Cbor.keyPairs_of_text fun e he k hk => ?_
  obtain ⟨s, hs⟩ := hes e he
  rw [hs] at hk
  exact ⟨s.text, atomBytes_string.1 hk⟩

namespace Library.Deterministic

variable {lib : Library} {floatBits : JsNumber → Option Cbor.FloatBits} (h : lib.Deterministic floatBits)
include h

theorem canonicalEncode_eq_ok {v : Value} {b : Bytes} :
    lib.canonicalEncode v = .ok b ↔ assertCanonicalValue v [] = .ok () ∧
      v.item.encode (Value.atomBytes floatBits) Cbor.lengthFirst = some b := by
  simp only [canonicalEncode, seq_ok_iff, mapError_eq_ok]
  constructor
  · intro hx
    obtain ⟨_, hv, hb⟩ := hx
    exact ⟨hv, (h.encode_iff v b hv).1 hb⟩
  · intro hx
    exact ⟨(), hx.1, (h.encode_iff v b hx.1).2 hx.2⟩

/-- Values with the same atoms in the same places are encoded alike. -/
theorem canonicalEncode_of_same {R : Value → Value → Prop}
    (haccepted : ∀ a a', R a a' → assertCanonicalValue a [] = .ok () → assertCanonicalValue a' [] = .ok ())
    (hbytes : ∀ a a' b, R a a' → a.atomBytes floatBits = some b → a'.atomBytes floatBits = some b) {v w : Value}
    {b : Bytes} (hs : v.item.Same R w.item) (hv : lib.canonicalEncode v = .ok b) : lib.canonicalEncode w = .ok b := by
  rw [h.canonicalEncode_eq_ok, assertCanonicalValue_eq_ok] at hv ⊢
  exact ⟨hv.1.of_same haccepted hs, Cbor.Item.encode_of_same hbytes hs hv.2⟩

/-- **The insertion order does not matter.** -/
theorem canonicalEncode_reordered {v w : Value} (hr : v.Reordered w) {b : Bytes} :
    lib.canonicalEncode v = .ok b ↔ lib.canonicalEncode w = .ok b := by
  have himp {v w : Value} (hr : v.Reordered w) : lib.canonicalEncode v = .ok b → lib.canonicalEncode w = .ok b :=
    h.canonicalEncode_of_same (R := Eq) (fun _ _ heq ha => heq ▸ ha) (fun _ _ _ heq ha => heq ▸ ha) hr
  exact ⟨himp hr, himp (hr.symm fun _ _ => Eq.symm)⟩

/-- **When the two key orders give one form.** -/
theorem bytewiseEncode_iff {v : Value} {b : Bytes} (hv : lib.canonicalEncode v = .ok b) :
    v.bytewiseEncode floatBits = some b ↔ v.ShortKeysFirst floatBits := by
  rw [Value.bytewiseEncode, Cbor.Item.encode_iff_maps (fun _ _ => Value.isScalar_of_atomBytes)
    (h.canonicalEncode_eq_ok.1 hv).2]
  exact ⟨.mono fun _ => Cbor.keyPairs_agree_iff.1, .mono fun _ => Cbor.keyPairs_agree_iff.2⟩

end Library.Deterministic

end ProofOfThought.Sdk
