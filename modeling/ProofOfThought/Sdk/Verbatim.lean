import ProofOfThought.Sdk.Item

/-!
# Documents that validation keeps

Validation rebuilds a document from the properties in the schema. The rebuilt document is encoded like the given one
exactly when it has no other properties, and gives its integers as `bigint`s or as numbers that are written as integers
(`input_encoded_iff`, `output_encoded_iff`).
-/

namespace ProofOfThought.Sdk

open Base

/-! ## Encodings of arrays and objects -/

/-- The deterministic encoding of a value. -/
def Value.encoded (floatBits : JsNumber → Option Cbor.FloatBits) (v : Value) : Option Bytes :=
  v.item.encode (atomBytes floatBits) Cbor.lengthFirst

variable {floatBits : JsNumber → Option Cbor.FloatBits}

/-- Arrays are encoded alike exactly when their elements are. -/
theorem array_encoded_iff {vs ws : List Value} {b : Bytes} (hv : (Value.array vs).encoded floatBits = some b) :
    (Value.array ws).encoded floatBits = some b ↔
      List.Forall₂ (fun v w => w.encoded floatBits = v.encoded floatBits) vs ws := by
  rw [Value.encoded, Value.item_array] at hv ⊢
  obtain ⟨bs, hbs, hl, rfl⟩ := Cbor.Item.encode_array.1 hv
  constructor
  · intro hw
    obtain ⟨bs', hbs', hl', heq⟩ := Cbor.Item.encode_array.1 hw
    obtain rfl := Cbor.Item.array_items_eq (fun _ _ => Value.isScalar_of_atomBytes) hbs hl hbs' hl' heq
    rw [List.forall₂_map_left_iff] at hbs hbs'
    exact Cbor.forall₂_join hbs hbs' fun v _ w _ b _ hvb hwb => hwb.trans hvb.symm
  · intro h
    rw [List.forall₂_map_left_iff] at hbs
    refine Cbor.Item.encode_array.2 ⟨bs, List.forall₂_map_left_iff.2 ?_, hl, rfl⟩
    exact Cbor.forall₂_join h.flip hbs.flip fun w _ b _ v _ hvw hvb => hvw.trans hvb

/-- The bytes of a property. -/
def FieldBytes (floatBits : JsNumber → Option Cbor.FloatBits) (f : JsString × Value) (b : Bytes × Bytes) : Prop :=
  (Value.string f.1).atomBytes floatBits = some b.1 ∧ f.2.encoded floatBits = some b.2

theorem encoded_object {fields : Fields} {b : Bytes} :
    (Value.object fields).encoded floatBits = some b ↔
      ∃ bs, List.Forall₂ (FieldBytes floatBits) fields bs ∧ (bs.map Prod.fst).Nodup ∧ bs.length < 2 ^ 64 ∧
        b = Cbor.head 5 bs.length ++ (Cbor.interleave (bs.insertionSort (Cbor.keyLe Cbor.lengthFirst))).flatten := by
  rw [Value.encoded, Value.item_object, Cbor.Item.encode_map]
  simp only [List.forall₂_map_left_iff]
  rfl

/-- The properties of an encoded object have different texts. -/
theorem nodup_texts {fields : Fields} {b : Bytes} (h : (Value.object fields).encoded floatBits = some b) :
    (fields.map fun f => f.1.text).Nodup := by
  obtain ⟨bs, hbs, hn, -, -⟩ := encoded_object.1 h
  have hkeys : bs.map Prod.fst = (fields.map fun f => f.1.text).map Cbor.text := by
    rw [← List.forall₂_eq_eq_eq, List.map_map, List.forall₂_map_left_iff, List.forall₂_map_right_iff]
    exact hbs.flip.imp fun b f hf => (Value.atomBytes_string.1 hf.1).2
  rw [hkeys] at hn
  exact hn.of_map

theorem get?_eq_some_iff {fields : Fields} (hn : (fields.map fun f => f.1.text).Nodup) {key : String} {v : Value} :
    fields.get? key = some v ↔ (JsString.ofText key, v) ∈ fields := by
  have hmem {v : Value} (h : fields.get? key = some v) : (JsString.ofText key, v) ∈ fields := by
    obtain ⟨l₁, l₂, hl, -⟩ := List.lookup_eq_some_iff.1 h
    rw [hl]
    exact List.mem_append_right l₁ List.mem_cons_self
  refine ⟨hmem, fun h => ?_⟩
  obtain ⟨w, hw⟩ := Option.isSome_iff_exists.1 (List.lookup_isSome_iff.2 ⟨_, h, beq_self_eq_true _⟩)
  obtain rfl := (Prod.mk.inj (List.inj_on_of_nodup_map hn h (hmem hw) rfl)).2
  exact hw

/-- Objects are encoded alike only if their properties match. -/
theorem matched_of_encoded {fields fields' : Fields} {b : Bytes} (hv : (Value.object fields).encoded floatBits = some b)
    (hw : (Value.object fields').encoded floatBits = some b) :
    (∀ f ∈ fields, ∃ g ∈ fields', f.1.text = g.1.text ∧ g.2.encoded floatBits = f.2.encoded floatBits) := by
  intro f hf
  obtain ⟨bs, hbs, -, -, -⟩ := encoded_object.1 hv
  obtain ⟨c, -, hkey, hvalue⟩ := Cbor.exists_of_mem_left hbs hf
  have hs := Cbor.Item.same_of_encode (fun _ _ => Value.isScalar_of_atomBytes) hv hw
  rw [Value.item_object, Value.item_object, Cbor.Item.same_map] at hs
  obtain ⟨es, gs, heq, hgs, hp⟩ := hs
  obtain rfl := Cbor.Item.map.inj heq
  rw [List.forall₂_map_left_iff] at hgs
  obtain ⟨_, he, hsame⟩ := Cbor.exists_of_mem_left hgs hf
  obtain ⟨g, hg, rfl⟩ := List.mem_map.1 (hp.mem_iff.1 he)
  refine ⟨g, hg, ?_, ?_⟩
  · obtain ⟨_, ha, d, hd, hd'⟩ := Cbor.Item.same_atom.1 hsame.1
    obtain rfl := Cbor.Item.atom.inj ha
    exact utf8_inj (Cbor.string_inj (by decide) hd hd')
  · rw [hvalue]
    exact (Cbor.Item.encode_eq_iff (fun _ _ => Value.isScalar_of_atomBytes) hvalue).2 hsame.2

/-- The property of a listed name. -/
def Fields.given (fields : Fields) (g : String × Value) : JsString × Value :=
  (JsString.ofText g.1, (fields.get? g.1).getD .null)

section

variable {fields : Fields} {spec : List (String × Value)}

theorem given_mem (hn : (fields.map fun f => f.1.text).Nodup) {g : String × Value} {v : Value}
    (hget : fields.get? g.1 = some v) : fields.given g = (JsString.ofText g.1, v) ∧ fields.given g ∈ fields := by
  have hgiven : fields.given g = (JsString.ofText g.1, v) := by rw [Fields.given, hget, Option.getD_some]
  exact ⟨hgiven, hgiven ▸ (get?_eq_some_iff hn).1 hget⟩

/-- An object with the listed properties and no others has them in some order. -/
theorem given_perm (hn : (fields.map fun f => f.1.text).Nodup) (hnames : (spec.map Prod.fst).Nodup)
    (hpresent : ∀ g ∈ spec, ∃ v, fields.get? g.1 = some v)
    (honly : ∀ f ∈ fields, f.1 ∈ (spec.map Prod.fst).map JsString.ofText) : (spec.map fields.given).Perm fields := by
  have hnodup : (spec.map fields.given).Nodup := by
    refine List.Nodup.of_map (fun f : JsString × Value => f.1.text) ?_
    have htexts : (fun f : JsString × Value => f.1.text) ∘ fields.given = Prod.fst := funext fun g => text_ofText g.1
    rwa [List.map_map, htexts]
  refine (List.perm_ext_iff_of_nodup hnodup hn.of_map).2 fun f => ⟨fun hf => ?_, fun hf => ?_⟩
  · obtain ⟨g, hg, rfl⟩ := List.mem_map.1 hf
    obtain ⟨v, hget⟩ := hpresent g hg
    exact (given_mem hn hget).2
  · obtain ⟨_, hname, hkey⟩ := List.mem_map.1 (honly f hf)
    obtain ⟨g, hg, rfl⟩ := List.mem_map.1 hname
    have hget : fields.get? g.1 = some f.2 := (get?_eq_some_iff hn).2 (hkey ▸ hf)
    exact List.mem_map.2 ⟨g, hg, (given_mem hn hget).1.trans (Prod.ext hkey rfl)⟩

/-- **An object is encoded like its listed properties** exactly when it has no other ones and their values are encoded
alike. -/
theorem object_encoded_iff {b : Bytes} (hnames : (spec.map Prod.fst).Nodup)
    (hpresent : ∀ g ∈ spec, ∃ v, fields.get? g.1 = some v) (hv : (Value.object fields).encoded floatBits = some b) :
    (objectLit spec).encoded floatBits = some b ↔
      (∀ f ∈ fields, f.1 ∈ (spec.map Prod.fst).map JsString.ofText) ∧
        ∀ g ∈ spec, ∀ v, fields.get? g.1 = some v → g.2.encoded floatBits = v.encoded floatBits := by
  have hn := nodup_texts hv
  constructor
  · intro hw
    constructor
    · intro f hf
      obtain ⟨_, he, htext, -⟩ := matched_of_encoded hv hw f hf
      obtain ⟨g, hg, rfl⟩ := List.mem_map.1 he
      obtain ⟨v, hget⟩ := hpresent g hg
      have heq := List.inj_on_of_nodup_map hn hf ((get?_eq_some_iff hn).1 hget) htext
      rw [heq, List.map_map]
      exact List.mem_map_of_mem hg
    · intro g hg v hget
      obtain ⟨f, hf, htext, hvalue⟩ := matched_of_encoded hw hv (JsString.ofText g.1, g.2) (List.mem_map_of_mem hg)
      have heq := List.inj_on_of_nodup_map hn hf ((get?_eq_some_iff hn).1 hget) htext.symm
      rw [heq] at hvalue
      exact hvalue.symm
  · intro h
    obtain ⟨honly, hvalues⟩ := h
    obtain ⟨bs, hbs, -, -, -⟩ := encoded_object.1 hv
    refine (Cbor.Item.encode_eq_iff (fun _ _ => Value.isScalar_of_atomBytes) hv).2
      (Cbor.Item.Same.symm (R := Cbor.SameBytes (Value.atomBytes floatBits)) ?_ ?_)
    · rintro a a' ⟨c, ha, ha'⟩
      exact ⟨c, ha', ha⟩
    · rw [objectLit, Value.item_object, Value.item_object, Cbor.Item.same_map]
      refine ⟨_, _, rfl, ?_, (given_perm hn hnames hpresent honly).map _⟩
      rw [List.map_map, List.map_map, List.forall₂_map_left_iff, List.forall₂_map_right_iff, List.forall₂_same]
      intro g hg
      obtain ⟨v, hget⟩ := hpresent g hg
      obtain ⟨hgiven, hmem⟩ := given_mem hn hget
      obtain ⟨c, -, hkey, hvalue⟩ := Cbor.exists_of_mem_left hbs hmem
      refine ⟨.atom ⟨c.1, hkey, hkey⟩, ?_⟩
      have hg' : g.2.encoded floatBits = some c.2 := by
        rw [hvalues g hg v hget, ← hvalue, hgiven]
      exact Cbor.Item.same_of_encode (fun _ _ => Value.isScalar_of_atomBytes) hg' hvalue

end

/-- The values of an encoded object are encoded. -/
theorem encoded_of_get? {fields : Fields} {key : String} {v : Value} {b : Bytes}
    (hv : (Value.object fields).encoded floatBits = some b) (hget : fields.get? key = some v) :
    ∃ c, v.encoded floatBits = some c := by
  obtain ⟨bs, hbs, -, -, -⟩ := encoded_object.1 hv
  obtain ⟨c, -, -, hvalue⟩ := Cbor.exists_of_mem_left hbs ((get?_eq_some_iff (nodup_texts hv)).1 hget)
  exact ⟨c.2, hvalue⟩

/-! ## What validation drops and changes -/

/-- The value is an object with no other properties than these. -/
def Value.hasOnly (names : List String) : Value → Bool
  | object fields => fields.all fun f => f.1 ∈ names.map JsString.ofText
  | _ => false

/-- A `bigint`, or a number that is written as an integer. -/
def Value.isPlainInteger : Value → Bool
  | bigint _ => true
  | number n => n ≠ .negZero ∧ n.isSafeInteger = true
  | _ => false

def Value.at? (v : Value) (key : String) : Option Value :=
  match v with
  | object fields => Fields.get? fields key
  | _ => none

def Value.elements : Value → List Value
  | array vs => vs
  | _ => []

/-- Every element under the key has no other properties than these. -/
def Value.allOnly (v : Value) (key : String) (names : List String) : Bool :=
  (v.at? key).all fun w => w.elements.all (hasOnly names)

def Value.isVerbatimInput (v : Value) : Bool :=
  v.hasOnly ["system", "messages", "tools", "tool_calls", "memory_snap", "context_t", "vrf_seed", "policy_id"] &&
    v.allOnly "messages" ["role", "content", "attachments"] && v.allOnly "tool_calls" ["call", "response"] &&
    (v.at? "context_t").all isPlainInteger

def Value.isVerbatimSampling (v : Value) : Bool :=
  v.hasOnly ["temperature", "top_p", "seed", "max_tokens"] && (v.at? "seed").all isPlainInteger

def Value.isVerbatimOutput (v : Value) : Bool :=
  v.hasOnly ["decision", "reasoning", "tool_intents", "model_id", "sampling", "self_score"] &&
    v.allOnly "tool_intents" ["tool", "args"] && (v.at? "sampling").all isVerbatimSampling

/-! ## Integers -/

theorem requireU64_ok {v : Value} {path : String} {n : Int} (h : requireU64 v path = .ok n) :
    v = .bigint n ∨ ∃ m, v = .number m ∧ n = m.value.num := by
  cases v with
  | bigint m =>
    simp only [requireU64, seq_ok_iff, pure_ok_iff, Except.ok.injEq] at h
    obtain ⟨_, rfl, _, -, rfl⟩ := h
    exact .inl rfl
  | number m =>
    simp only [requireU64, seq_ok_iff, pure_ok_iff, require_eq_ok, Except.ok.injEq] at h
    obtain ⟨_, -, _, -, _, rfl, _, -, rfl⟩ := h
    exact .inr ⟨m, rfl, rfl⟩
  | _ => simp [requireU64] at h

/-- **A validated integer** is encoded like the given one exactly when that is written as an integer. -/
theorem bigint_encoded_iff (hfloat : ∀ n m bits, floatBits n = some bits → floatBits m = some bits → n = m) {v : Value}
    {path : String} {n : Int} {b : Bytes} (h : requireU64 v path = .ok n) (hv : v.encoded floatBits = some b) :
    (Value.bigint n).encoded floatBits = some b ↔ v.isPlainInteger = true := by
  obtain rfl | ⟨m, rfl, rfl⟩ := requireU64_ok h
  · exact iff_of_true hv rfl
  · have hm : m.scalar.encode floatBits = some b := hv
    rw [Value.isPlainInteger, decide_eq_true_eq]
    by_cases hplain : m ≠ .negZero ∧ m.isSafeInteger = true
    · rw [JsNumber.scalar, if_pos hplain] at hm
      exact iff_of_true hm hplain
    · rw [JsNumber.scalar, if_neg hplain] at hm
      refine iff_of_false (fun hn => ?_) hplain
      have hn' : (Cbor.Scalar.int m.value.num).encode floatBits = some b := hn
      cases Cbor.Scalar.encode_inj hfloat hm hn'

/-! ## Parts of documents -/

theorem requireString_eq_ok {v : Value} {path : String} {s : JsString} :
    requireString v path = .ok s ↔ v = .string s := by
  cases v <;> simp [requireString]

theorem requireArray_eq_ok {v : Value} {path : String} {vs : List Value} :
    requireArray v path = .ok vs ↔ v = .array vs := by
  cases v <;> simp [requireArray]

theorem requireNumber_ok {v : Value} {path : String} {n : JsNumber} (h : requireNumber v path = .ok n) :
    v = .number n := by
  cases v with
  | number m =>
    simp only [requireNumber] at h
    split_ifs at h
    rw [Except.ok.inj h]
  | _ => simp [requireNumber] at h

theorem requireInteger_ok {v : Value} {path : String} {n : JsNumber} (h : requireInteger v path = .ok n) :
    v = .number n := by
  simp only [requireInteger, seq_ok_iff, pure_ok_iff] at h
  obtain ⟨m, hm, _, -, rfl⟩ := h
  exact requireNumber_ok hm

theorem mapIndexed_ok {α : Type} {f : Value → String → Checked α} {path : String} {i : Nat} {vs : List Value}
    {as : List α} (h : mapIndexed f path i vs = .ok as) : List.Forall₂ (fun v a => ∃ path, f v path = .ok a) vs as := by
  induction vs generalizing i as with
  | nil =>
    obtain rfl := Except.ok.inj h
    exact .nil
  | cons v vs ih =>
    simp only [mapIndexed, seq_ok_iff, pure_ok_iff] at h
    obtain ⟨a, ha, as, has, rfl⟩ := h
    exact .cons ⟨_, ha⟩ (ih has)

/-- A validated array of strings is the given one. -/
theorem mapIndexed_string {path : String} {i : Nat} {vs : List Value} {ss : List JsString}
    (h : mapIndexed requireString path i vs = .ok ss) : vs = ss.map .string := by
  rw [← List.forall₂_eq_eq_eq, List.forall₂_map_right_iff]
  exact (mapIndexed_ok h).imp fun v s hs => requireString_eq_ok.1 hs.choose_spec

theorem Value.hasOnly_object {names : List String} {fields : Fields} :
    (object fields).hasOnly names = true ↔ ∀ f ∈ fields, f.1 ∈ names.map JsString.ofText := by
  simp [hasOnly]

/-- **A validated array** is encoded like the given one exactly when no element loses anything. -/
theorem mapIndexed_encoded_iff {α : Type} {f : Value → String → Checked α} {toValue : α → Value} {only : Value → Bool}
    (hf : ∀ v path a b, f v path = .ok a → v.encoded floatBits = some b →
      ((toValue a).encoded floatBits = some b ↔ only v = true)) {path : String} {i : Nat} {vs : List Value}
    {as : List α} {b : Bytes} (h : mapIndexed f path i vs = .ok as)
    (hv : (Value.array vs).encoded floatBits = some b) :
    (Value.array (as.map toValue)).encoded floatBits = some b ↔ vs.all only = true := by
  have has := mapIndexed_ok h
  have hencoded : ∀ v ∈ vs, ∃ c, v.encoded floatBits = some c := by
    rw [Value.encoded, Value.item_array] at hv
    obtain ⟨bs, hbs, -, -⟩ := Cbor.Item.encode_array.1 hv
    rw [List.forall₂_map_left_iff] at hbs
    intro v hmem
    obtain ⟨c, -, hc⟩ := Cbor.exists_of_mem_left hbs hmem
    exact ⟨c, hc⟩
  rw [array_encoded_iff hv, List.forall₂_map_right_iff, List.all_eq_true]
  constructor
  · intro hs v hmem
    obtain ⟨a, -, heq, path, ha⟩ := Cbor.exists_of_mem_left (Cbor.forall₂_both hs has) hmem
    obtain ⟨c, hc⟩ := hencoded v hmem
    exact (hf v path a c ha hc).1 (heq.trans hc)
  · intro hall
    refine Cbor.forall₂_imp_mem has fun v hmem a _ ha => ?_
    obtain ⟨path, ha⟩ := ha
    obtain ⟨c, hc⟩ := hencoded v hmem
    exact ((hf v path a c ha hc).2 (hall v hmem)).trans hc.symm

/-- An object is encoded like some of its properties exactly when it has no other ones. -/
theorem object_encoded_iff_hasOnly {fields : Fields} {spec : List (String × Value)} {names : List String} {b : Bytes}
    (hspec : spec.map Prod.fst = names) (hnames : names.Nodup) (hget : ∀ g ∈ spec, fields.get? g.1 = some g.2)
    (hv : (Value.object fields).encoded floatBits = some b) :
    (objectLit spec).encoded floatBits = some b ↔ (Value.object fields).hasOnly names = true := by
  subst hspec
  rw [object_encoded_iff hnames (fun g hg => ⟨g.2, hget g hg⟩) hv, Value.hasOnly_object]
  refine and_iff_left fun g hg v hv => ?_
  obtain rfl := Option.some.inj ((hget g hg).symm.trans hv)
  rfl

theorem toolCall_encoded_iff {v : Value} {path : String} {c : ToolCall} {b : Bytes}
    (h : validateToolCall v path = .ok c) (hv : v.encoded floatBits = some b) :
    c.toValue.encoded floatBits = some b ↔ v.hasOnly ["call", "response"] = true := by
  simp only [validateToolCall, seq_ok_iff, pure_ok_iff, requireObject_eq_ok, requireField_eq_ok, requireString_eq_ok]
    at h
  obtain ⟨o, rfl, _, hcall, call, rfl, response, hresponse, rfl⟩ := h
  exact object_encoded_iff_hasOnly rfl (by decide) (by simp [hcall, hresponse]) hv

theorem toolIntent_encoded_iff {v : Value} {path : String} {t : ToolIntent} {b : Bytes}
    (h : validateToolIntent v path = .ok t) (hv : v.encoded floatBits = some b) :
    t.toValue.encoded floatBits = some b ↔ v.hasOnly ["tool", "args"] = true := by
  simp only [validateToolIntent, seq_ok_iff, pure_ok_iff, requireObject_eq_ok, requireField_eq_ok, requireString_eq_ok]
    at h
  obtain ⟨o, rfl, _, htool, tool, rfl, args, hargs, rfl⟩ := h
  exact object_encoded_iff_hasOnly rfl (by decide) (by simp [htool, hargs]) hv

/-- A property that is not there need not be listed. -/
theorem hasOnly_append_iff {fields : Fields} {names : List String} {key : String} (hget : fields.get? key = none) :
    (Value.object fields).hasOnly (names ++ [key]) = true ↔ (Value.object fields).hasOnly names = true := by
  have hkey : ∀ f ∈ fields, f.1 ≠ JsString.ofText key := by
    intro f hf heq
    simpa [heq] using List.lookup_eq_none_iff.1 hget f hf
  rw [Value.hasOnly_object, Value.hasOnly_object]
  refine forall₂_congr fun f hf => ?_
  simp [hkey f hf]

/-- An encoded object has no undefined properties. -/
theorem get?_ne_undefined {fields : Fields} {key : String} {b : Bytes}
    (hv : (Value.object fields).encoded floatBits = some b) : fields.get? key ≠ some .undefined := by
  intro hget
  obtain ⟨c, hc⟩ := encoded_of_get? hv hget
  cases hc

theorem validateAttachments_ok {o : Option Value} {path : String} {as : Option (List JsString)}
    (h : validateAttachments o path = .ok as) (ho : o ≠ some .undefined) :
    o = as.map fun ss => .array (ss.map .string) := by
  cases o with
  | none =>
    obtain rfl := Except.ok.inj h
    rfl
  | some v =>
    cases v with
    | undefined => exact absurd rfl ho
    | array vs =>
      simp only [validateAttachments, requireArray, seq_ok_iff, pure_ok_iff, Except.ok.injEq] at h
      obtain ⟨_, rfl, ss, hss, rfl⟩ := h
      rw [mapIndexed_string hss]
      rfl
    | _ => simp [validateAttachments, requireArray] at h

theorem message_encoded_iff {v : Value} {path : String} {m : Message} {b : Bytes}
    (h : validateMessage v path = .ok m) (hv : v.encoded floatBits = some b) :
    m.toValue.encoded floatBits = some b ↔ v.hasOnly ["role", "content", "attachments"] = true := by
  simp only [validateMessage, seq_ok_iff, pure_ok_iff, requireObject_eq_ok, requireField_eq_ok, requireString_eq_ok]
    at h
  obtain ⟨o, rfl, _, hrole, role, rfl, _, hcontent, content, rfl, attachments, hattachments, rfl⟩ := h
  have hget := validateAttachments_ok hattachments (get?_ne_undefined hv)
  cases attachments with
  | none =>
    have honly := @hasOnly_append_iff o ["role", "content"] "attachments" hget
    refine Iff.trans ?_ honly.symm
    exact object_encoded_iff_hasOnly rfl (by decide) (by simp [hrole, hcontent]) hv
  | some ss => exact object_encoded_iff_hasOnly rfl (by decide) (by simp [hrole, hcontent, hget]) hv

theorem sampling_encoded_iff (hfloat : ∀ n m bits, floatBits n = some bits → floatBits m = some bits → n = m)
    {v : Value} {path : String} {x : Sampling} {b : Bytes} (h : validateSampling v path = .ok x)
    (hv : v.encoded floatBits = some b) : x.toValue.encoded floatBits = some b ↔ v.isVerbatimSampling = true := by
  simp only [validateSampling, seq_ok_iff, pure_ok_iff, requireObject_eq_ok, requireField_eq_ok] at h
  obtain ⟨o, rfl, t, ht, temperature, htemperature, _, -, p, hp, topP, htopP, _, -, s, hs, seed, hseed, m, hm,
    maxTokens, hmaxTokens, _, -, rfl⟩ := h
  obtain rfl := requireNumber_ok htemperature
  obtain rfl := requireNumber_ok htopP
  obtain rfl := requireInteger_ok hmaxTokens
  obtain ⟨c, hc⟩ := encoded_of_get? hv hs
  rw [Sampling.toValue, object_encoded_iff (by simp) (by simp [ht, hp, hs, hm]) hv, Value.isVerbatimSampling,
    Bool.and_eq_true, Value.hasOnly_object]
  simp only [List.map_cons, List.map_nil, List.forall_mem_cons, List.not_mem_nil, false_imp_iff, implies_true, ht, hp,
    hs, hm, Option.some.injEq, forall_eq', true_and, and_true, Value.at?, Option.all_some, hc,
    bigint_encoded_iff hfloat hseed hc]

/-! ## Documents -/

/-- **A validated input** is encoded like the given one exactly when validation drops and changes nothing. -/
theorem input_encoded_iff (hfloat : ∀ n m bits, floatBits n = some bits → floatBits m = some bits → n = m) {v : Value}
    {input : CanonicalInput} {b : Bytes} (h : validateCanonicalInput v = .ok input)
    (hv : v.encoded floatBits = some b) : input.toValue.encoded floatBits = some b ↔ v.isVerbatimInput = true := by
  simp only [validateCanonicalInput, seq_ok_iff, pure_ok_iff, requireObject_eq_ok, requireField_eq_ok,
    requireString_eq_ok, requireArray_eq_ok, requireBytes_eq_ok] at h
  obtain ⟨o, rfl, _, hsystem, system, rfl, _, hmessages, ms, rfl, messages, hms, _, htools, tools, rfl, _, hcalls, cs,
    rfl, toolCalls, hcs, _, hsnap, snap, ⟨rfl, -⟩, t, ht, contextT, hcontext, _, hseed, seed, ⟨rfl, -⟩, _, hpolicy,
    policy, ⟨rfl, -⟩, rfl⟩ := h
  obtain ⟨bm, hbm⟩ := encoded_of_get? hv hmessages
  obtain ⟨bc, hbc⟩ := encoded_of_get? hv hcalls
  obtain ⟨bt, hbt⟩ := encoded_of_get? hv ht
  have hmessage := mapIndexed_encoded_iff (fun _ _ _ _ => message_encoded_iff) hms hbm
  have hcall := mapIndexed_encoded_iff (fun _ _ _ _ => toolCall_encoded_iff) hcs hbc
  rw [CanonicalInput.toValue, object_encoded_iff (by simp)
    (by simp [hsystem, hmessages, htools, hcalls, hsnap, ht, hseed, hpolicy]) hv, Value.isVerbatimInput]
  simp only [Bool.and_eq_true, Value.hasOnly_object, Value.allOnly, Value.at?, Value.elements, List.map_cons,
    List.map_nil, List.forall_mem_cons, List.not_mem_nil, false_imp_iff, implies_true, hsystem, hmessages, htools,
    hcalls, hsnap, ht, hseed, hpolicy, Option.some.injEq, forall_eq', true_and, and_true, Option.all_some, hbm, hbc,
    hbt, hmessage, hcall, bigint_encoded_iff hfloat hcontext hbt]
  tauto

theorem validateSelfScore_ok {o : Option Value} {n? : Option JsNumber} (h : validateSelfScore o = .ok n?)
    (ho : o ≠ some .undefined) : o = n?.map .number := by
  cases o with
  | none =>
    obtain rfl := Except.ok.inj h
    rfl
  | some v =>
    cases v with
    | undefined => exact absurd rfl ho
    | number n =>
      simp only [validateSelfScore, seq_ok_iff, pure_ok_iff] at h
      obtain ⟨_, hn, _, -, rfl⟩ := h
      rw [requireNumber_ok hn]
      rfl
    | _ => simp [validateSelfScore, requireNumber] at h

theorem validateReasoning_ok {v : Value} {r : Reasoning} (h : validateReasoning v = .ok r) : v = r.toValue := by
  cases v with
  | string s =>
    obtain rfl := Except.ok.inj h
    rfl
  | array vs =>
    simp only [validateReasoning, seq_ok_iff, pure_ok_iff] at h
    obtain ⟨ss, hss, rfl⟩ := h
    rw [mapIndexed_string hss]
    rfl
  | _ => simp [validateReasoning] at h

/-- **A validated output** is encoded like the given one exactly when validation drops and changes nothing. -/
theorem output_encoded_iff (hfloat : ∀ n m bits, floatBits n = some bits → floatBits m = some bits → n = m) {v : Value}
    {output : CanonicalOutput} {b : Bytes} (h : validateCanonicalOutput v = .ok output)
    (hv : v.encoded floatBits = some b) : output.toValue.encoded floatBits = some b ↔ v.isVerbatimOutput = true := by
  simp only [validateCanonicalOutput, seq_ok_iff, pure_ok_iff, requireObject_eq_ok, requireField_eq_ok,
    requireArray_eq_ok, requireBytes_eq_ok] at h
  obtain ⟨o, rfl, decision, hdecision, r, hr, reasoning, hreasoning, _, hintents, ts, rfl, toolIntents, hts, selfScore,
    hself, _, hmodel, model, ⟨rfl, -⟩, s, hs, sampling, hsampling, rfl⟩ := h
  obtain rfl := validateReasoning_ok hreasoning
  have hscore := validateSelfScore_ok hself (get?_ne_undefined hv)
  obtain ⟨bt, hbt⟩ := encoded_of_get? hv hintents
  obtain ⟨bs, hbs⟩ := encoded_of_get? hv hs
  have hintent := mapIndexed_encoded_iff (fun _ _ _ _ => toolIntent_encoded_iff) hts hbt
  have hverbatim : (Value.object o).isVerbatimOutput = true ↔
      (Value.object o).hasOnly (["decision", "reasoning", "tool_intents", "model_id", "sampling"] ++ ["self_score"]) =
        true ∧ ts.all (Value.hasOnly ["tool", "args"]) = true ∧ s.isVerbatimSampling = true := by
    simp only [Value.isVerbatimOutput, Value.allOnly, Value.at?, hintents, hs, Option.all_some, Value.elements,
      Bool.and_eq_true, and_assoc]
    rfl
  rw [hverbatim]
  cases selfScore with
  | none =>
    rw [hasOnly_append_iff hscore, CanonicalOutput.toValue, object_encoded_iff (by simp)
      (by simp [hdecision, hr, hintents, hmodel, hs]) hv, Value.hasOnly_object]
    simp only [Option.map_none, Option.toList_none, List.append_nil, List.map_cons, List.map_nil, List.forall_mem_cons,
      List.not_mem_nil, false_imp_iff, implies_true, hdecision, hr, hintents, hmodel, hs, Option.some.injEq, forall_eq',
      true_and, and_true, hbt, hbs, hintent, sampling_encoded_iff hfloat hsampling hbs]
  | some n =>
    rw [CanonicalOutput.toValue, object_encoded_iff (by simp)
      (by simp [hdecision, hr, hintents, hmodel, hs, hscore]) hv, Value.hasOnly_object]
    simp only [Option.map_some, Option.toList_some, List.cons_append, List.nil_append, List.map_cons, List.map_nil,
      List.forall_mem_cons, List.not_mem_nil, false_imp_iff, implies_true, hdecision, hr, hintents, hmodel, hs, hscore,
      Option.some.injEq, forall_eq', true_and, and_true, hbt, hbs, hintent, sampling_encoded_iff hfloat hsampling hbs]

end ProofOfThought.Sdk
