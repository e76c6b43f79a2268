import ProofOfThought.Base.Schema
import ProofOfThought.Sdk.Verbatim

/-!
# The canonical schema, declaratively

The shapes that `schema.ts` documents, as schemas over values. A validator implements a schema (`Implements`) when what
it accepts conforms and is kept as the schema says, and what it rejects is violated at the path of the error; that is
all it takes to be exact (`Implements.exact`). The helpers of `schema.ts` implement leaves and arrays, and an object is
read property by property (`object_implements`).
-/

namespace ProofOfThought.Sdk

open Base

/-! ## Values as documents -/

theorem ofText_inj {s t : String} : JsString.ofText s = JsString.ofText t ↔ s = t :=
  ⟨fun h => by rw [← text_ofText s, h, text_ofText], congrArg _⟩

/-- The properties of an object literal. -/
theorem objectLit_get? (fs : List (String × Value)) (key : String) :
    Fields.get? (fs.map fun f => (JsString.ofText f.1, f.2)) key = fs.lookup key := by
  induction fs with
  | nil => rfl
  | cons f fs ih =>
    rw [Fields.get?, List.map_cons, List.lookup_cons, List.lookup_cons, ← ih, Fields.get?]
    by_cases h : key = f.1
    · simp [h]
    · rw [beq_false_of_ne h, beq_false_of_ne fun heq => h (ofText_inj.1 heq)]

instance : Document Value where
  properties?
    | .object fields => some (Fields.get? fields)
    | _ => none
  elements?
    | .array vs => some vs
    | _ => none
  isUndefined
    | .undefined => true
    | _ => false
  object := objectLit
  array := .array
  properties?_object fs := congrArg some (funext (objectLit_get? fs))
  elements?_array _ := rfl

/-! ## The schemas -/

def textSchema : Schema Value := .plain fun v => ∃ s, v = .string s

def bytesSchema (n : Nat) : Schema Value := .plain fun v => ∃ b, v = .bytes b ∧ b.length = n

/-- Finite numbers with the property `P`. -/
def numberSchema (P : Rat → Prop) : Schema Value := .plain fun v => ∃ n q, v = .number n ∧ n.value? = some q ∧ P q

/-- A `u64`: a `bigint`, or an integer number up to `top`. -/
def IsU64 (top : Int) (v : Value) : Prop :=
  (∃ n, v = .bigint n ∧ 0 ≤ n ∧ n ≤ MAX_U64) ∨
    ∃ m q, v = .number m ∧ m.value? = some q ∧ q.den = 1 ∧ 0 ≤ q.num ∧ q.num ≤ top

/-- The integer of a number as a `bigint`. -/
def Value.toBigint : Value → Value
  | number m => bigint m.value.num
  | v => v

/-- A `u64`, kept as a `bigint`. -/
def u64Schema (top : Int) (htop : top ≤ MAX_U64) : Schema Value :=
  .leaf (IsU64 top) Value.toBigint
    (by
      intro v h
      rcases h with ⟨n, rfl, h⟩ | ⟨m, q, rfl, hq, -, h0, h1⟩
      · exact .inl ⟨n, rfl, h⟩
      · refine .inl ⟨q.num, ?_, h0, h1.trans htop⟩
        rw [Value.toBigint, JsNumber.value, hq, Option.getD_some])
    (by intro v _; cases v <;> rfl)

/-- Any `u64`, given in either way. -/
def anyU64 : Schema Value := u64Schema MAX_U64 le_rfl

/-- `seed` as documented: "accepted as `bigint` or `number` in [0, 2^53-1]". -/
def seedU64 : Schema Value := u64Schema (2 ^ 53 - 1) (by decide)

def required (name : String) (S : Schema Value) : Property Value := ⟨name, true, S, nofun⟩

def optional (name : String) (S : Schema Value) (h : ¬S.Conforms .undefined) : Property Value :=
  ⟨name, false, S, fun _ v hv => by cases v <;> first | rfl | exact absurd hv h⟩

theorem array_undefined (S : Schema Value) : ¬(Schema.array S).Conforms .undefined := id

theorem number_undefined (P : Rat → Prop) : ¬(numberSchema P).Conforms .undefined := by
  rintro ⟨n, q, h, -⟩
  cases h

def messageSchema : Schema Value :=
  .object [required "role" textSchema, required "content" textSchema,
    optional "attachments" (.array textSchema) (array_undefined _)] (by simp [required, optional])

def toolCallSchema : Schema Value :=
  .object [required "call" textSchema, required "response" .any] (by decide)

def toolIntentSchema : Schema Value :=
  .object [required "tool" textSchema, required "args" .any] (by decide)

def samplingSchema (seed : Schema Value) : Schema Value :=
  .object [required "temperature" (numberSchema fun q => 0 ≤ q), required "top_p" (numberSchema fun q => 0 ≤ q ∧ q ≤ 1),
    required "seed" seed, required "max_tokens" (numberSchema fun q => q.den = 1 ∧ 0 ≤ q)] (by simp [required])

def inputSchema : Schema Value :=
  .object [required "system" textSchema, required "messages" (.array messageSchema),
    required "tools" (.array .any), required "tool_calls" (.array toolCallSchema),
    required "memory_snap" (bytesSchema 32), required "context_t" anyU64, required "vrf_seed" (bytesSchema 32),
    required "policy_id" (bytesSchema 32)] (by decide)

/-- One text, or the texts of the steps. -/
def reasoningSchema : Schema Value := .arrayOr (fun v => ∃ s, v = .string s) textSchema

def outputSchema (seed : Schema Value) : Schema Value :=
  .object [required "decision" .any, required "reasoning" reasoningSchema,
    required "tool_intents" (.array toolIntentSchema), required "model_id" (bytesSchema 32),
    required "sampling" (samplingSchema seed),
    optional "self_score" (numberSchema fun q => 0 ≤ q ∧ q ≤ 1) (number_undefined _)] (by simp [required, optional])

/-! ## Implementing a schema -/

/-- The text of a step in a path. -/
def keyText : Key → String
  | .field name => name
  | .index i => toString i

/-- The path of a location under `path`. -/
def place (path : String) : Location → String
  | [] => path
  | key :: loc => place (path ++ ("/" ++ keyText key)) loc

/-- The path of a location in a document. -/
def pointer : Location → String
  | [] => "/"
  | loc => place "" loc

/-- What the validator accepts conforms and is kept; what it rejects is violated at the path of the error. -/
structure Implements {α : Type} (S : Schema Value) (validate : Value → Checked α) (path : Location → String)
    (toValue : α → Value) : Prop where
  ok {v : Value} {a : α} : validate v = .ok a → S.Conforms v ∧ toValue a = S.keep v
  error {v : Value} {e : SchemaError} : validate v = .error e → ∃ loc, S.Violated v loc ∧ e.path = path loc

/-- What it means for a validator to be exact at a document. -/
structure ExactAt {α : Type} (S : Schema Value) (validate : Value → Checked α) (path : Location → String)
    (toValue : α → Value) (v : Value) : Prop where
  accepts : (∃ a, validate v = .ok a) ↔ S.Conforms v
  keeps : ∀ a, validate v = .ok a → toValue a = S.keep v ∧ validate (toValue a) = .ok a
  ignores : ∀ a w, validate v = .ok a → S.Agree v w → validate w = .ok a
  locates : ∀ e, validate v = .error e → ∃ loc, S.Violated v loc ∧ e.path = path loc

section

variable {α β : Type} {S : Schema Value} {validate : Value → Checked α} {path : Location → String}
  {toValue : α → Value} {v : Value}

/-- A conforming document is accepted. -/
theorem Implements.accepts (h : Implements S validate path toValue) (hv : S.Conforms v) :
    ∃ a, validate v = .ok a ∧ toValue a = S.keep v := by
  cases hval : validate v with
  | ok a => exact ⟨a, rfl, (h.ok hval).2⟩
  | error e =>
    obtain ⟨loc, hbad, -⟩ := h.error hval
    exact absurd hv (S.not_conforms hbad)

/-- **A validator that implements a schema is exact.** -/
theorem Implements.exact (h : Implements S validate path toValue) (hinj : Function.Injective toValue) (v : Value) :
    ExactAt S validate path toValue v := by
  refine ⟨⟨?_, ?_⟩, ?_, ?_, fun _ he => h.error he⟩
  · intro hacc
    obtain ⟨a, ha⟩ := hacc
    exact (h.ok ha).1
  · intro hv
    obtain ⟨a, ha, -⟩ := h.accepts hv
    exact ⟨a, ha⟩
  · intro a ha
    obtain ⟨hv, hkeep⟩ := h.ok ha
    obtain ⟨b, hb, hbv⟩ := h.accepts (S.keep_conforms hv)
    rw [S.keep_keep hv, ← hkeep] at hbv
    obtain rfl := hinj hbv
    exact ⟨hkeep, hkeep ▸ hb⟩
  · intro a w ha hag
    obtain ⟨hv, hkeep⟩ := h.ok ha
    obtain ⟨hw, hwk⟩ := S.agree hag hv
    obtain ⟨b, hb, hbw⟩ := h.accepts hw
    rw [hwk, ← hkeep] at hbw
    obtain rfl := hinj hbw
    exact hb

/-! ## Leaves and arrays -/

theorem requireString_implements (path : String) :
    Implements textSchema (requireString · path) (place path) .string where
  ok h := by
    obtain rfl := requireString_eq_ok.1 h
    exact ⟨⟨_, rfl⟩, rfl⟩
  error {v e} h := by
    refine ⟨[], ⟨rfl, ?_⟩, ?_⟩
    · rintro ⟨s, rfl⟩
      cases h
    · cases v <;> cases h <;> rfl

theorem requireBytes_implements (path : String) (n : Nat) :
    Implements (bytesSchema n) (requireBytes · path (some n)) (place path) .bytes where
  ok h := by
    obtain ⟨rfl, hlen⟩ := requireBytes_eq_ok.1 h
    exact ⟨⟨_, rfl, hlen⟩, rfl⟩
  error {v e} h := by
    refine ⟨[], ⟨rfl, ?_⟩, ?_⟩
    · rintro ⟨b, rfl, hlen⟩
      rw [requireBytes_eq_ok.2 ⟨rfl, hlen⟩] at h
      cases h
    · cases v with
      | bytes b =>
        simp only [requireBytes] at h
        split at h <;> cases h
        rfl
      | _ => cases h; rfl

theorem requireNumber_eq_ok {v : Value} {path : String} {n : JsNumber} :
    requireNumber v path = .ok n ↔ v = .number n ∧ n.value? = some n.value := by
  constructor
  · intro h
    obtain rfl := requireNumber_ok h
    simp only [requireNumber] at h
    split_ifs at h with hfin
    obtain ⟨q, hq⟩ := Option.isSome_iff_exists.1 hfin
    exact ⟨rfl, by rw [JsNumber.value, hq, Option.getD_some]⟩
  · rintro ⟨rfl, hq⟩
    rw [requireNumber, JsNumber.isFinite, hq]
    rfl

theorem requireNumber_path {v : Value} {path : String} {e : SchemaError} (h : requireNumber v path = .error e) :
    e.path = path := by
  cases v with
  | number n =>
    simp only [requireNumber] at h
    split at h <;> cases h
    rfl
  | _ => cases h; rfl

theorem isInteger_iff {n : JsNumber} : n.isInteger = true ↔ n.value? = some n.value ∧ n.value.den = 1 := by
  rw [JsNumber.isInteger, JsNumber.value]
  cases n.value? <;> simp

theorem requireU64_eq_ok {v : Value} {path : String} {n : Int} :
    requireU64 v path = .ok n ↔ IsU64 MAX_U64 v ∧ v.toBigint = .bigint n := by
  cases v with
  | bigint m =>
    simp only [requireU64, seq_ok_iff, Except.ok.injEq, require_eq_ok, pure_ok_iff, exists_eq_left', exists_const,
      IsU64, Value.toBigint, Value.bigint.injEq, reduceCtorEq, false_and, exists_false, or_false]
  | number m =>
    simp only [requireU64, seq_ok_iff, Except.ok.injEq, require_eq_ok, pure_ok_iff, exists_const, isInteger_iff,
      IsU64, Value.toBigint, Value.bigint.injEq, Value.number.injEq, reduceCtorEq, false_and, exists_eq_left',
      Rat.num_nonneg]
    constructor
    · rintro ⟨⟨hq, hden⟩, -, ⟨h0, hmax⟩, rfl⟩
      exact ⟨.inr ⟨m, _, rfl, hq, hden, h0, hmax⟩, rfl⟩
    · rintro ⟨⟨_, ⟨⟩, -⟩ | ⟨_, q, rfl, hq, hden, h0, hmax⟩, rfl⟩
      have hval : m.value = q := by rw [JsNumber.value, hq, Option.getD_some]
      rw [hval]
      exact ⟨⟨hq, hden⟩, Rat.not_lt.2 h0, ⟨h0, hmax⟩, rfl⟩
  | _ => simp [requireU64, IsU64]

theorem requireU64_path {v : Value} {path : String} {e : SchemaError} (h : requireU64 v path = .error e) :
    e.path = path := by
  cases v with
  | bigint n =>
    simp only [requireU64, seq_error_iff, require_eq_error, pure_error_iff, reduceCtorEq, false_or, and_false,
      exists_false, or_false] at h
    obtain ⟨_, -, -, rfl⟩ := h
    rfl
  | number n =>
    simp only [requireU64, seq_error_iff, require_eq_error, pure_error_iff, reduceCtorEq, and_false, exists_false,
      or_false] at h
    rcases h with ⟨-, rfl⟩ | ⟨_, -, ⟨-, rfl⟩ | ⟨_, -, h⟩⟩
    · rfl
    · rfl
    · obtain ⟨⟨⟩⟩ | ⟨_, -, -, rfl⟩ := h
      rfl
  | _ => cases h; rfl

/-- A leaf is violated where it is. -/
theorem implements_leaf {P : Value → Prop} {f : Value → Value} {hP : ∀ v, P v → P (f v)}
    {hf : ∀ v, P v → f (f v) = f v} (check : Value → String → Checked β) {toValue : β → Value} {path : String}
    (hok : ∀ v b, check v path = .ok b ↔ P v ∧ f v = toValue b) (hsome : ∀ v, P v → ∃ b, f v = toValue b)
    (hpath : ∀ v e, check v path = .error e → e.path = path) :
    Implements (.leaf P f hP hf) (check · path) (place path) toValue where
  ok h := ⟨((hok _ _).1 h).1, ((hok _ _).1 h).2.symm⟩
  error {v e} h := by
    refine ⟨[], ⟨rfl, fun hv => ?_⟩, hpath v e h⟩
    obtain ⟨b, hb⟩ := hsome v hv
    rw [(hok v b).2 ⟨hv, hb⟩] at h
    cases h

theorem requireU64_implements (path : String) :
    Implements anyU64 (requireU64 · path) (place path) .bigint := by
  refine implements_leaf requireU64 (fun _ _ => requireU64_eq_ok) ?_ fun _ _ => requireU64_path
  rintro v (⟨n, rfl, -⟩ | ⟨m, q, rfl, -⟩) <;> exact ⟨_, rfl⟩

theorem mapIndexed_implements {check : Value → String → Checked α}
    (h : ∀ path, Implements S (check · path) (place path) toValue) {path : String} {i : Nat} {vs : List Value} :
    (∀ as, mapIndexed check path i vs = .ok as → (∀ x ∈ vs, S.Conforms x) ∧ as.map toValue = vs.map S.keep) ∧
      ∀ e, mapIndexed check path i vs = .error e →
        ∃ j x rest, vs[j]? = some x ∧ S.Violated x rest ∧ e.path = place path (.index (i + j) :: rest) := by
  induction vs generalizing i with
  | nil =>
    refine ⟨fun as has => ?_, fun e he => nomatch he⟩
    obtain rfl := Except.ok.inj has
    simp
  | cons v vs ih =>
    obtain ⟨ihok, iherr⟩ := @ih (i + 1)
    constructor
    · intro as has
      simp only [mapIndexed, seq_ok_iff, pure_ok_iff] at has
      obtain ⟨a, ha, as, has, rfl⟩ := has
      obtain ⟨hv, hkeep⟩ := (h _).ok ha
      obtain ⟨hvs, hkeeps⟩ := ihok as has
      exact ⟨List.forall_mem_cons.2 ⟨hv, hvs⟩, by rw [List.map_cons, List.map_cons, hkeep, hkeeps]⟩
    · intro e he
      simp only [mapIndexed, seq_error_iff, pure_error_iff, and_false, exists_false, or_false] at he
      rcases he with he | ⟨a, -, he⟩
      · obtain ⟨rest, hbad, hpath⟩ := (h _).error he
        exact ⟨0, v, rest, rfl, hbad, hpath.trans (congrArg (place · rest) (String.append_assoc ..))⟩
      · obtain ⟨j, x, rest, hx, hbad, hpath⟩ := iherr e he
        refine ⟨j + 1, x, rest, hx, hbad, ?_⟩
        rw [hpath, Nat.add_right_comm, Nat.add_assoc]

/-- An array that was read element by element conforms and is kept. -/
theorem array_ok {f : Value → String → Checked α} (h : ∀ path, Implements S (f · path) (place path) toValue)
    {path : String} {vs : List Value} {as : List α} (has : mapIndexed f path 0 vs = .ok as) :
    (Schema.array S).Conforms (.array vs) ∧ .array (as.map toValue) = (Schema.array S).keep (.array vs) := by
  obtain ⟨hconf, hkeep⟩ := (mapIndexed_implements h).1 as has
  exact ⟨hconf, congrArg Value.array hkeep⟩

/-- The array that is checked element by element. -/
theorem array_implements {check : Value → String → Checked α}
    (h : ∀ path, Implements S (check · path) (place path) toValue) (path : String) :
    Implements (.array S) (fun v => requireArray v path >>= mapIndexed check path 0) (place path)
      fun as => .array (as.map toValue) where
  ok {v as} hv := by
    simp only [seq_ok_iff, requireArray_eq_ok] at hv
    obtain ⟨vs, rfl, has⟩ := hv
    exact array_ok h has
  error {v e} hv := by
    rw [seq_error_iff] at hv
    rcases hv with hv | ⟨vs, hvs, he⟩
    · refine ⟨[], ?_⟩
      cases v <;> cases hv <;> exact ⟨⟨rfl, id⟩, rfl⟩
    · obtain rfl := requireArray_eq_ok.1 hvs
      obtain ⟨j, x, rest, hx, hbad, hpath⟩ := (mapIndexed_implements h).2 e he
      exact ⟨_, ⟨j, x, rest, hx, hbad, rfl⟩, by rw [hpath, Nat.zero_add]⟩

end

/-! ## Objects -/

section

variable {name : String} {S : Schema Value} {v : Value} {x : Option Value}

@[simp] theorem required_name : (required name S).name = name := rfl

@[simp] theorem optional_name {h : ¬S.Conforms .undefined} : (optional name S h).name = name := rfl

@[simp] theorem required_conforms : (required name S).Conforms x ↔ ∃ v, x = some v ∧ S.Conforms v := by
  cases x with
  | none => simp [Property.Conforms, Property.given, required]
  | some v => exact ⟨fun h => ⟨v, rfl, h⟩, by rintro ⟨_, ⟨⟩, h⟩; exact h⟩

@[simp] theorem required_keep : (required name S).keep (some v) = some (S.keep v) := rfl

variable {α β : Type} {ps : List (Property Value)} {o : Fields} {path : String} {r : Checked α}

/-- A failure to read the properties of an object is a violation by one of them, at the path of the error. -/
def Blames {α : Type} (ps : List (Property Value)) (o : Fields) (path : String) (r : Checked α) : Prop :=
  ∀ e, r = .error e → ∃ p ∈ ps, ∃ rest, p.Violated (o.get? p.name) rest ∧ e.path = place path (.field p.name :: rest)

namespace Blames

theorem pure (a : α) : Blames ps o path (Pure.pure a : Checked α) := fun _ h => nomatch h

theorem bind {k : α → Checked β} (h : Blames ps o path r) (hk : ∀ a, r = .ok a → Blames ps o path (k a)) :
    Blames ps o path (r >>= k) := by
  intro e he
  rcases seq_error_iff.1 he with he | ⟨a, ha, he⟩
  · exact h e he
  · exact hk a ha e he

/-- A required property is missing. -/
theorem missing (hp : required name S ∈ ps) : Blames ps o path (requireField o name path) := by
  intro e he
  obtain ⟨hnone, rfl⟩ := okOr_eq_error.1 he
  refine ⟨_, hp, [], ?_, String.append_assoc ..⟩
  rw [required_name, hnone]
  exact ⟨rfl, rfl⟩

/-- A required property is read and checked. -/
theorem field {q : String} {f : Value → String → Checked α} {toValue : α → Value} {k : α → Checked β}
    (h : Implements S (f · q) (place q) toValue) (hp : required name S ∈ ps) (hq : q = path ++ ("/" ++ name))
    (hk : ∀ a, Blames ps o path (k a)) : Blames ps o path (requireField o name path >>= fun x => f x q >>= k) := by
  subst hq
  refine .bind (.missing hp) fun x hx => .bind ?_ fun a _ => hk a
  intro e he
  obtain ⟨rest, hbad, hpath⟩ := h.error he
  refine ⟨_, hp, rest, ?_, hpath⟩
  rw [required_name, requireField_eq_ok.1 hx]
  exact hbad

/-- A required array is read and checked element by element. -/
theorem array {q : String} {f : Value → String → Checked α} {toValue : α → Value} {k : List α → Checked β}
    (h : ∀ path, Implements S (f · path) (place path) toValue) (hp : required name (.array S) ∈ ps)
    (hq : q = path ++ ("/" ++ name)) (hk : ∀ as, Blames ps o path (k as)) :
    Blames ps o path (requireField o name path >>= fun x => requireArray x q >>= fun vs =>
      mapIndexed f q 0 vs >>= k) := by
  have hall := field (f := fun v q => requireArray v q >>= mapIndexed f q 0) (array_implements h q) hp hq hk
  simpa only [bind_assoc] using hall

/-- A required number is read and compared with its bounds. -/
theorem bounded {q : String} {f : Value → String → Checked α} {c : α → Checked Unit} {toValue : α → Value}
    {k : α → Checked β} (h : Implements S (fun x => f x q >>= fun a => c a >>= fun _ => Pure.pure a) (place q) toValue)
    (hp : required name S ∈ ps) (hq : q = path ++ ("/" ++ name)) (hk : ∀ a, Blames ps o path (k a)) :
    Blames ps o path (requireField o name path >>= fun x => f x q >>= fun a => c a >>= fun _ => k a) := by
  have hall := field (f := fun x q => f x q >>= fun a => c a >>= fun _ => Pure.pure a) h hp hq hk
  simpa only [bind_assoc, pure_bind] using hall

theorem bytes {q : String} {n : Nat} {k : Bytes → Checked β} (hp : required name (bytesSchema n) ∈ ps)
    (hq : q = path ++ ("/" ++ name)) (hk : ∀ b, Blames ps o path (k b)) :
    Blames ps o path (requireField o name path >>= fun x => requireBytes x q (some n) >>= k) :=
  field (f := fun v q => requireBytes v q (some n)) (requireBytes_implements q n) hp hq hk

end Blames

/-- An optional property is read: it may be missing or undefined. -/
def readOptional {α : Type} (f : Value → Checked α) : Option Value → Checked (Option α)
  | none => .ok none
  | some .undefined => .ok none
  | some v => do return some (← f v)

theorem readOptional_some {f : Value → Checked α} (hv : v ≠ .undefined) :
    readOptional f (some v) = f v >>= fun a => Pure.pure (some a) := by
  cases v <;> first | exact absurd rfl hv | rfl

section

variable {f : Value → Checked α} {toPath : Location → String} {toValue : α → Value} {h : ¬S.Conforms .undefined}

theorem optional_given (hv : v ≠ .undefined) : (optional name S h).given (some v) = some v := by
  cases v <;> first | exact absurd rfl hv | rfl

/-- A property that was read conforms and is kept. -/
theorem optional_ok (name : String) (hf : Implements S f toPath toValue) {a : Option α}
    (ha : readOptional f x = .ok a) :
    (optional name S h).Conforms x ∧ (optional name S h).keep x = a.map toValue := by
  rcases x with _ | v
  · obtain rfl := Except.ok.inj ha
    exact ⟨rfl, rfl⟩
  · by_cases hv : v = .undefined
    · subst hv
      obtain rfl := Except.ok.inj ha
      exact ⟨rfl, rfl⟩
    · simp only [readOptional_some hv, seq_ok_iff, pure_ok_iff] at ha
      obtain ⟨b, hb, rfl⟩ := ha
      obtain ⟨hconf, hkeep⟩ := hf.ok hb
      rw [Property.Conforms, Property.keep, optional_given hv, Option.map_some, Option.map_some, hkeep]
      exact ⟨hconf, rfl⟩

theorem Blames.optional {q : String} (hf : Implements S f (place q) toValue) (hp : optional name S h ∈ ps)
    (hq : q = path ++ ("/" ++ name)) : Blames ps o path (readOptional f (o.get? name)) := by
  subst hq
  intro e he
  cases hx : o.get? name with
  | none => simp [hx, readOptional] at he
  | some v =>
    rw [hx] at he
    by_cases hv : v = .undefined
    · subst hv
      cases he
    · simp only [readOptional_some hv, seq_error_iff, pure_error_iff, and_false, exists_false, or_false] at he
      obtain ⟨rest, hbad, hpath⟩ := hf.error he
      refine ⟨_, hp, rest, ?_, hpath⟩
      rw [optional_name, hx, Property.Violated, optional_given hv]
      exact hbad

end

/-- An object that is read property by property. -/
theorem object_implements (path : String) {hn : (ps.map Property.name).Nodup} {read : Fields → Checked α}
    {root : String} {toPath : Location → String} {fields : α → List (String × Value)} (hroot : toPath [] = root)
    (hpath : ∀ name rest, toPath (.field name :: rest) = place path (.field name :: rest))
    (hok : ∀ o a, read o = .ok a → (∀ p ∈ ps, p.Conforms (o.get? p.name)) ∧
      fields a = ps.filterMap fun p => (p.keep (o.get? p.name)).map fun v => (p.name, v))
    (herror : ∀ o, Blames ps o path (read o)) :
    Implements (.object ps hn) (fun v => requireObject v root >>= read) toPath fun a => objectLit (fields a) where
  ok {v a} h := by
    simp only [seq_ok_iff, requireObject_eq_ok] at h
    obtain ⟨o, rfl, ha⟩ := h
    obtain ⟨hconf, hkeep⟩ := hok o a ha
    exact ⟨⟨_, rfl, hconf⟩, congrArg objectLit hkeep⟩
  error {v e} h := by
    rcases seq_error_iff.1 h with h | ⟨o, ho, h⟩
    · refine ⟨[], ?_⟩
      cases v <;> cases h <;> exact ⟨rfl, hroot.symm⟩
    · obtain rfl := requireObject_eq_ok.1 ho
      obtain ⟨p, hp, rest, hbad, heq⟩ := herror o e h
      exact ⟨_, ⟨p, hp, rest, hbad, rfl⟩, heq.trans (hpath _ _).symm⟩

end

end ProofOfThought.Sdk
