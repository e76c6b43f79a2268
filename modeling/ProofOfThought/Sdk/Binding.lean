import ProofOfThought.Sdk.Form

/-!
# Binding

Whether the bytes of `canonicalEncode` determine the value. They do, up to the order of properties and up to a number
and the equal `bigint`, except that a lone surrogate is written like U+FFFD: so they do exactly for the values whose
strings have neither (`binding_iff_legible`), and any two values without lone surrogates have different bytes
(`sameValue_of_wellFormed`).
-/

namespace ProofOfThought.Sdk

open Base

/-! ## Legible strings -/

/-- What a lone surrogate is replaced with. -/
def replacement : Char := Char.ofNat 0xFFFD

theorem replacement_eq_unitChar {u : UInt16} :
    replacement = unitChar u ↔ (isHighSurrogate u || isLowSurrogate u) = true ∨ 0xFFFD = u := by
  cases h : isHighSurrogate u || isLowSurrogate u with
  | true => simp [unitChar, h, replacement]
  | false =>
    simp only [Bool.false_eq_true, false_or]
    constructor
    · intro he
      have hn := congrArg Char.toNat he
      rw [toNat_unitChar h] at hn
      exact UInt16.toNat_inj.1 hn
    · rintro rfl
      rfl

theorem replacement_ne_pair {u v : UInt16} (hu : isHighSurrogate u = true) (hv : isLowSurrogate v = true) :
    replacement ≠ Char.ofNat (0x10000 + (u.toNat - 0xD800) * 0x400 + (v.toNat - 0xDC00)) := by
  intro h
  have hp := congrArg List.length (charUnits_pair hu hv)
  rw [← h] at hp
  cases hp

/-- No surrogate is alone, and none could have been replaced. -/
def JsString.Legible (s : JsString) : Prop := s.isWellFormed = true ∧ 0xFFFD ∉ s

/-- A string is legible exactly when its text is. -/
theorem JsString.legible_iff {s : JsString} : s.Legible ↔ replacement ∉ s.text.toList := by
  rw [JsString.text, String.toList_ofList, Legible]
  induction s using scalarValues.induct with
  | case1 => simp [scalarValues, JsString.isWellFormed]
  | case2 u =>
    simp only [scalarValues, JsString.isWellFormed, List.mem_singleton, replacement_eq_unitChar, not_or,
      Bool.not_eq_true', Bool.not_eq_true]
  | case3 u v units h ih =>
    obtain ⟨hu, hv⟩ := Bool.and_eq_true_iff.1 h
    rw [scalarValues, if_pos h, JsString.isWellFormed, if_pos h]
    simp only [List.mem_cons, not_or, ← ih, replacement_ne_pair hu hv, ne_of_surrogate (.inl hu),
      ne_of_surrogate (.inr hv), not_false_eq_true, true_and]
  | case4 u v units h ih =>
    rw [scalarValues, if_neg h, JsString.isWellFormed, if_neg h, List.mem_cons (b := u),
      List.mem_cons (a := replacement), not_or, not_or, ← ih, replacement_eq_unitChar, not_or, Bool.and_eq_true,
      Bool.not_eq_true', Bool.not_eq_true]
    tauto

/-! ## Logical values -/

/-- An integer number is the equal `bigint`. -/
def Value.asBigint : Value → Value
  | number n => if n.isInteger = true then bigint n.value.num else number n
  | v => v

/-- The same logical value: up to the order of properties, and up to an integer number and the equal `bigint`. A `Map`
is the object with its entries. -/
def SameValue (v w : Value) : Prop := v.item.Same (fun a a' => a.asBigint = a'.asBigint) w.item

/-- All strings of the value, keys included, are legible. -/
def Value.Legible (v : Value) : Prop := v.item.All fun a => ∀ s, a = .string s → s.Legible

/-- No string of the value, keys included, has a lone surrogate. -/
def Value.WellFormed (v : Value) : Prop := v.item.All fun a => ∀ s, a = .string s → s.isWellFormed = true

/-- The value that a scalar is written for. -/
def readScalar : Cbor.Scalar JsNumber → Value
  | .int n => .bigint n
  | .bytes b => .bytes b
  | .text s => .string (JsString.ofText s)
  | .simple n => if n = 20 then .boolean false else if n = 21 then .boolean true else .null
  | .float n => (Value.number n).asBigint

theorem Value.asBigint_eq_readScalar {v : Value} {x : Cbor.Scalar JsNumber} (h : v.scalar? = some x)
    (hwf : ∀ s, v = string s → s.isWellFormed = true) : v.asBigint = readScalar x := by
  cases v with
  | number n =>
    obtain rfl := Option.some.inj h
    rw [JsNumber.scalar]
    split_ifs with hsafe
    · rw [JsNumber.isSafeInteger, Bool.and_eq_true] at hsafe
      rw [asBigint, if_pos hsafe.2.1, readScalar]
    · rfl
  | string s =>
    obtain rfl := Option.some.inj h
    rw [readScalar, ofText_text.2 (hwf s rfl)]
    rfl
  | null => obtain rfl := Option.some.inj h; rfl
  | boolean b => obtain rfl := Option.some.inj h; cases b <;> rfl
  | bigint n => obtain rfl := Option.some.inj h; rfl
  | bytes b => obtain rfl := Option.some.inj h; rfl
  | _ => cases h

/-- The legibility of a string is that of what is written. -/
theorem Value.legible_of_scalar {v w : Value} {x : Cbor.Scalar JsNumber} (hv : v.scalar? = some x)
    (hw : w.scalar? = some x) (hl : ∀ s, v = string s → s.Legible) : ∀ s, w = string s → s.Legible := by
  rintro t rfl
  obtain rfl := Option.some.inj hw
  have hread := asBigint_eq_readScalar hv fun s hs => (hl s hs).1
  cases v with
  | string s =>
    have htext : s.text = t.text := (Cbor.Scalar.text.inj (Option.some.inj hv))
    rw [JsString.legible_iff, ← htext, ← JsString.legible_iff]
    exact hl s rfl
  | number n =>
    rw [asBigint] at hread
    split_ifs at hread <;> cases hread
  | _ => cases hread

namespace Library.Deterministic

variable {lib : Library} {floatBits : JsNumber → Option Cbor.FloatBits} (h : lib.Deterministic floatBits)
include h

theorem scalar_of_sameBytes {v w : Value} (hs : Cbor.SameBytes (Value.atomBytes floatBits) v w) :
    ∃ x, v.scalar? = some x ∧ w.scalar? = some x := by
  obtain ⟨b, hv, hw⟩ := hs
  obtain ⟨x, hx, hxb⟩ := Option.bind_eq_some_iff.1 hv
  obtain ⟨y, hy, hyb⟩ := Option.bind_eq_some_iff.1 hw
  obtain rfl := Cbor.Scalar.encode_inj h.float_inj hxb hyb
  exact ⟨x, hx, hy⟩

/-- **The bytes determine a legible value.** -/
theorem sameValue_of_canonicalEncode {v w : Value} {b : Bytes} (hv : lib.canonicalEncode v = .ok b)
    (hw : lib.canonicalEncode w = .ok b) (hl : v.Legible) : SameValue v w := by
  have hs := Cbor.Item.same_of_encode (fun _ _ => Value.isScalar_of_atomBytes) (h.canonicalEncode_eq_ok.1 hv).2
    (h.canonicalEncode_eq_ok.1 hw).2
  refine hs.mono_of_all (fun a a' ha hbytes => ?_) hl
  obtain ⟨x, hx, hx'⟩ := h.scalar_of_sameBytes hbytes
  have ha' := Value.legible_of_scalar hx hx' ha
  rw [Value.asBigint_eq_readScalar hx fun s hs => (ha s hs).1,
    Value.asBigint_eq_readScalar hx' fun s hs => (ha' s hs).1]

/-- **The bytes tell values without lone surrogates apart**, those with U+FFFD among them. -/
theorem sameValue_of_wellFormed {v w : Value} {b : Bytes} (hv : lib.canonicalEncode v = .ok b)
    (hw : lib.canonicalEncode w = .ok b) (hwf : v.WellFormed) (hwf' : w.WellFormed) : SameValue v w := by
  have hs := Cbor.Item.same_of_encode (fun _ _ => Value.isScalar_of_atomBytes) (h.canonicalEncode_eq_ok.1 hv).2
    (h.canonicalEncode_eq_ok.1 hw).2
  -- the atoms of one value first, then those of the other
  have hread : v.item.Same (fun a a' => ∃ x, a.asBigint = readScalar x ∧ a'.scalar? = some x) w.item := by
    refine hs.mono_of_all (fun a a' ha hbytes => ?_) hwf
    obtain ⟨x, hx, hx'⟩ := h.scalar_of_sameBytes hbytes
    exact ⟨x, Value.asBigint_eq_readScalar hx ha, hx'⟩
  refine Cbor.Item.Same.symm (fun _ _ => id) ((hread.symm fun _ _ => id).mono_of_all (fun a' a ha hx => ?_) hwf')
  obtain ⟨x, hx, hx'⟩ := hx
  exact hx.trans (Value.asBigint_eq_readScalar hx' ha).symm

end Library.Deterministic

/-! ## A second spelling -/

def broken (u : UInt16) : UInt16 := if u = 0xFFFD then 0xD800 else u

/-- A well-formed string does not begin with the second half of a pair. -/
theorem isLowSurrogate_of_wf {v : UInt16} {units : JsString} (h : JsString.isWellFormed (v :: units) = true) :
    isLowSurrogate v = false := by
  cases units with
  | nil =>
    rw [JsString.isWellFormed, Bool.not_eq_true', Bool.or_eq_false_iff] at h
    exact h.2
  | cons w units =>
    rw [JsString.isWellFormed] at h
    split_ifs at h with hp
    · rw [Bool.eq_false_iff]
      intro hl
      have hhigh := isHighSurrogate_iff.1 (Bool.and_eq_true_iff.1 hp).1
      have hlow := isLowSurrogate_iff.1 hl
      omega
    · rw [Bool.and_eq_true, Bool.not_eq_true', Bool.or_eq_false_iff] at h
      exact h.1.2

theorem unitChar_broken (u : UInt16) : unitChar (broken u) = unitChar u := by
  unfold broken
  split_ifs with h
  · subst h
    decide
  · rfl

theorem broken_surrogate {u : UInt16} (h : isHighSurrogate u = true ∨ isLowSurrogate u = true) : broken u = u :=
  if_neg (ne_of_surrogate h).symm

theorem isLowSurrogate_broken (u : UInt16) : isLowSurrogate (broken u) = isLowSurrogate u := by
  unfold broken
  split_ifs with h
  · subst h
    decide
  · rfl

theorem scalarValues_broken {s : JsString} (h : s.isWellFormed = true) :
    scalarValues (s.map broken) = scalarValues s := by
  induction s using scalarValues.induct with
  | case1 => rfl
  | case2 u => exact congrArg (fun c => [c]) (unitChar_broken u)
  | case3 u v units hp ih =>
    obtain ⟨hu, hv⟩ := Bool.and_eq_true_iff.1 hp
    rw [JsString.isWellFormed, if_pos hp] at h
    rw [List.map_cons, List.map_cons, broken_surrogate (.inl hu), broken_surrogate (.inr hv), scalarValues, if_pos hp,
      scalarValues, if_pos hp, ih h]
  | case4 u v units hp ih =>
    rw [JsString.isWellFormed, if_neg hp, Bool.and_eq_true] at h
    have hv := isLowSurrogate_of_wf h.2
    have ih := ih h.2
    rw [List.map_cons] at ih
    rw [List.map_cons, List.map_cons, scalarValues, isLowSurrogate_broken, hv, Bool.and_false,
      if_neg Bool.false_ne_true, ih, unitChar_broken, scalarValues, if_neg hp]

/-- The string with U+FFFD for every lone surrogate, and the string with a lone surrogate for every U+FFFD. -/
def JsString.repaired (s : JsString) : JsString := JsString.ofText s.text

def JsString.damaged (s : JsString) : JsString := if s.isWellFormed = true then s.map broken else s

theorem JsString.text_repaired (s : JsString) : s.repaired.text = s.text := text_ofText s.text

theorem JsString.text_damaged (s : JsString) : s.damaged.text = s.text := by
  rw [damaged]
  split_ifs with h
  · rw [text, scalarValues_broken h, text]
  · rfl

theorem JsString.isWellFormed_repaired (s : JsString) : s.repaired.isWellFormed = true := by
  rw [← ofText_text, text_repaired, repaired]

theorem JsString.not_mem_damaged {s : JsString} (h : s.isWellFormed = true) : 0xFFFD ∉ s.damaged := by
  rw [damaged, if_pos h, List.mem_map]
  rintro ⟨u, -, hu⟩
  rw [broken] at hu
  split_ifs at hu with h
  · exact absurd hu (by decide)
  · exact h hu

/-! ## Respelled values -/

mutual

/-- The value with its strings changed. -/
def Value.respell (f : JsString → JsString) : Value → Value
  | string s => string (f s)
  | array vs => array (respellElements f vs)
  | map entries => map (respellEntries f entries)
  | object fields => object (respellFields f fields)
  | v => v

def Value.respellElements (f : JsString → JsString) : List Value → List Value
  | [] => []
  | v :: vs => v.respell f :: respellElements f vs

def Value.respellEntries (f : JsString → JsString) : List (Value × Value) → List (Value × Value)
  | [] => []
  | e :: entries => respellEntry f e :: respellEntries f entries

def Value.respellEntry (f : JsString → JsString) : Value × Value → Value × Value
  | (k, v) => (k.respell f, v.respell f)

def Value.respellFields (f : JsString → JsString) : List (JsString × Value) → List (JsString × Value)
  | [] => []
  | p :: fields => respellField f p :: respellFields f fields

def Value.respellField (f : JsString → JsString) : JsString × Value → JsString × Value
  | (key, v) => (f key, v.respell f)

end

/-- An atom with its string changed. -/
def Value.respellAtom (f : JsString → JsString) : Value → Value
  | string s => string (f s)
  | v => v

section

variable {f : JsString → JsString}

theorem Value.respell_array (vs : List Value) : (array vs).respell f = array (vs.map (respell f)) :=
  congrArg array (eq_map rfl (fun _ _ => rfl) vs)

theorem Value.respell_map (entries : List (Value × Value)) :
    (map entries).respell f = map (entries.map fun e => (e.1.respell f, e.2.respell f)) :=
  congrArg map (eq_map rfl (fun (_, _) _ => rfl) entries)

theorem Value.respell_object (fields : List (JsString × Value)) :
    (object fields).respell f = object (fields.map fun p => (f p.1, p.2.respell f)) :=
  congrArg object (eq_map rfl (fun (_, _) _ => rfl) fields)

/-- The item of a respelled value has its atoms respelled. -/
theorem Value.item_respell (v : Value) : v.item.Same (fun a a' => a' = a.respellAtom f) (v.respell f).item := by
  induction v using Value.induct with
  | array vs ih =>
    rw [respell_array, item_array, item_array, Cbor.Item.same_array]
    refine ⟨_, rfl, ?_⟩
    rw [List.map_map, List.forall₂_map_left_iff, List.forall₂_map_right_iff, List.forall₂_same]
    exact ih
  | map entries ih =>
    rw [respell_map, item_map, item_map, Cbor.Item.same_map]
    refine ⟨_, _, rfl, ?_, .refl _⟩
    rw [List.map_map, List.forall₂_map_left_iff, List.forall₂_map_right_iff, List.forall₂_same]
    exact ih
  | object fields ih =>
    rw [respell_object, item_object, item_object, Cbor.Item.same_map]
    refine ⟨_, _, rfl, ?_, .refl _⟩
    rw [List.map_map, List.forall₂_map_left_iff, List.forall₂_map_right_iff, List.forall₂_same]
    exact fun p hp => ⟨.atom rfl, ih p hp⟩
  | leaf v hv =>
    cases v with
    | array vs => cases hv
    | map entries => cases hv
    | object fields => cases hv
    | _ => exact .atom rfl

/-- What holds of all respelled strings holds of the strings of a value that respelling keeps. -/
theorem Value.all_of_sameValue_respell {v : Value} {P Q : JsString → Prop} (hf : ∀ s, P s → Q (f s))
    (hP : v.item.All fun a => ∀ s, a = string s → P s) (hs : SameValue v (v.respell f)) :
    v.item.All fun a => ∀ s, a = string s → Q s := by
  have hrespelled : (v.respell f).item.All fun a => ∀ s, a = string s → Q s := by
    refine .of_same ?_ v.item_respell hP
    rintro a a' rfl ha s hs
    cases a with
    | string t =>
      obtain rfl := Value.string.inj hs
      exact hf t (ha t rfl)
    | _ => cases hs
  refine .of_same ?_ (hs.symm fun _ _ => Eq.symm) hrespelled
  rintro a a' haa' ha s rfl
  refine ha s ?_
  cases a with
  | number n =>
    simp only [asBigint] at haa'
    split_ifs at haa'
  | _ => exact haa'

/-- A value that keeps its strings when they are repaired and damaged is legible. -/
theorem Value.legible_of_sameValue {v : Value}
    (h : ∀ f : JsString → JsString, (∀ s, (f s).text = s.text) → SameValue v (v.respell f)) : v.Legible := by
  have hwf := all_of_sameValue_respell (f := JsString.repaired) (P := fun _ => True)
    (Q := fun s => s.isWellFormed = true) (fun s _ => s.isWellFormed_repaired)
    (Cbor.Item.all_of_forall (fun _ _ _ => trivial) _) (h _ JsString.text_repaired)
  have hclean := all_of_sameValue_respell (f := JsString.damaged) (Q := fun s => 0xFFFD ∉ s)
    (fun s => JsString.not_mem_damaged) hwf (h _ JsString.text_damaged)
  exact (hwf.and hclean).mono fun a ha s hs => ⟨ha.1 s hs, ha.2 s hs⟩

end

/-! ## Commitments -/

/-- `blake3` does not give the encodings of the two values one hash. -/
def Library.CollisionFree (lib : Library) (v w : Value) : Prop :=
  ∀ x y, lib.canonicalEncode v = .ok x → lib.canonicalEncode w = .ok y → lib.blake3 x = lib.blake3 y → x = y

theorem Library.hashCommitment_eq_ok {lib : Library} {v : Value} {c : Program.Bytes32} :
    lib.hashCommitment v = .ok c ↔ ∃ b, lib.canonicalEncode v = .ok b ∧ lib.blake3 b = c := by
  simp only [hashCommitment, seq_ok_iff, pure_ok_iff]

/-- Respelling that keeps every text keeps the bytes. -/
theorem Library.Deterministic.canonicalEncode_respell {lib : Library} {floatBits : JsNumber → Option Cbor.FloatBits}
    (h : lib.Deterministic floatBits) {f : JsString → JsString} (hf : ∀ s, (f s).text = s.text) {v : Value} {b : Bytes}
    (hv : lib.canonicalEncode v = .ok b) : lib.canonicalEncode (v.respell f) = .ok b := by
  refine h.canonicalEncode_of_same ?_ ?_ v.item_respell hv
  · rintro a a' rfl ha
    cases a with
    | string s => rfl
    | _ => exact ha
  · rintro a a' b rfl ha
    cases a with
    | string s =>
      rw [Value.atomBytes_string] at ha
      rw [Value.respellAtom, Value.atomBytes_string, hf]
      exact ha
    | _ => exact ha

/-- **When the commitment binds a value**: exactly when its strings have neither lone surrogates nor U+FFFD. Otherwise
another value, with the same bytes, differs from it in its strings alone. -/
theorem binding_iff_legible {lib : Library} {floatBits : JsNumber → Option Cbor.FloatBits}
    (h : lib.Deterministic floatBits) {v : Value} {b : Bytes} (hv : lib.canonicalEncode v = .ok b) :
    ((∀ w, lib.canonicalEncode w = .ok b → SameValue v w) ↔ v.Legible) ∧
      ((∀ w, lib.CollisionFree v w → lib.hashCommitment w = lib.hashCommitment v → SameValue v w) ↔ v.Legible) ∧
      (¬v.Legible → ∃ f : JsString → JsString, lib.canonicalEncode (v.respell f) = .ok b ∧
        ¬SameValue v (v.respell f)) := by
  have hbytes : (∀ w, lib.canonicalEncode w = .ok b → SameValue v w) ↔ v.Legible := by
    constructor
    · intro hb
      exact Value.legible_of_sameValue fun f hf => hb _ (h.canonicalEncode_respell hf hv)
    · intro hl w hw
      exact h.sameValue_of_canonicalEncode hv hw hl
  have hhash := Library.hashCommitment_eq_ok.2 ⟨b, hv, rfl⟩
  refine ⟨hbytes, hbytes.symm.trans ?_ |>.symm, fun hl => ?_⟩
  · constructor
    · intro hb w hfree hw
      obtain ⟨y, hy, heq⟩ := Library.hashCommitment_eq_ok.1 (hw.trans hhash)
      obtain rfl := hfree b y hv hy heq.symm
      exact hb w hy
    · intro hb w hw
      refine hb w (fun x y hx hy _ => ?_) (hhash ▸ Library.hashCommitment_eq_ok.2 ⟨b, hw, rfl⟩)
      exact Except.ok.inj ((hx.symm.trans hv).trans (hw.symm.trans hy))
  · by_contra hno
    push Not at hno
    exact hl (Value.legible_of_sameValue fun f hf => hno f (h.canonicalEncode_respell hf hv))

/-- A lone surrogate, and the character it is replaced with. -/
theorem lone_surrogate_collides : Sample.deterministic.Deterministic Sample.floatBits ∧
    Sample.deterministic.canonicalEncode (.string [0xD800]) = .ok [0x63, 0xEF, 0xBF, 0xBD] ∧
    Sample.deterministic.canonicalEncode (.string [0xFFFD]) = .ok [0x63, 0xEF, 0xBF, 0xBD] ∧
    ¬SameValue (.string [0xD800]) (.string [0xFFFD]) := by
  refine ⟨Sample.deterministic_deterministic, toOption_eq_some.1 (by decide +kernel),
    toOption_eq_some.1 (by decide +kernel), fun hs => ?_⟩
  obtain ⟨a, ha, hsame⟩ := Cbor.Item.same_atom.1 hs
  obtain rfl := Cbor.Item.atom.inj ha
  cases hsame

theorem Sample.nested_legible : Sample.nested.Legible := by
  have htext (t : String) (h : replacement ∉ t.toList) : (JsString.ofText t).Legible := by
    rwa [JsString.legible_iff, text_ofText]
  simp only [Value.Legible, nested, objectLit, List.map_cons, List.map_nil, Value.item, Value.itemFields,
    Value.itemField, Value.itemEntries, Value.itemEntry, Cbor.Item.all_map, Cbor.Item.all_atom, List.forall_mem_cons,
    List.not_mem_nil, false_imp_iff, implies_true, Value.string.injEq, forall_eq', reduceCtorEq, and_true]
  exact ⟨htext "b" (by decide), htext "aa" (by decide), htext "y" (by decide), htext "x" (by decide)⟩

/-- The theorem at a nested object. -/
theorem binding_iff_legible_nested : Sample.nested.Legible ∧
    ∀ w, Sample.deterministic.canonicalEncode w = .ok Sample.nestedBytes → SameValue Sample.nested w :=
  ⟨Sample.nested_legible, (binding_iff_legible Sample.deterministic_deterministic (v := Sample.nested)
    (toOption_eq_some.1 (by decide +kernel))).1.2 Sample.nested_legible⟩

end ProofOfThought.Sdk
