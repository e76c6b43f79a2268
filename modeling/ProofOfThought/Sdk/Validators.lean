import ProofOfThought.Sdk.Conformance
import ProofOfThought.Sdk.Session

/-!
# The validators are exact

Each validator of `schema.ts` implements its schema, and is exact at every document (`validators_exact`). One shape is
documented more narrowly than it is checked: a seed given as a number is documented to be at most `2^53 - 1`, and the
validator of outputs is exact for the documented schema except at documents with a larger one.
-/

namespace ProofOfThought.Sdk

open Base

/-! ## The validators -/

theorem requireArray_implements (path : String) :
    Implements (.array .any) (requireArray · path) (place path) .array where
  ok h := by
    obtain rfl := requireArray_eq_ok.1 h
    exact ⟨fun _ _ => trivial, congrArg Value.array (List.map_id _).symm⟩
  error {v e} h := by
    refine ⟨[], ?_⟩
    cases v <;> cases h <;> exact ⟨⟨rfl, id⟩, rfl⟩

/-- A number that is read with the property `Q` and compared with its bounds. -/
theorem number_implements {P Q : Rat → Prop} {f : Value → String → Checked JsNumber} {c : JsNumber → Prop}
    [DecidablePred c] {path message : String}
    (hf : ∀ {v n}, f v path = .ok n ↔ v = .number n ∧ n.value? = some n.value ∧ Q n.value)
    (hpath : ∀ {v e}, f v path = .error e → e.path = path) (hP : ∀ n, P n.value ↔ Q n.value ∧ c n) :
    Implements (numberSchema P)
      (fun v => f v path >>= fun n => require (c n) ⟨path, message⟩ >>= fun _ => Pure.pure n) (place path) .number := by
  refine implements_leaf (fun v path => f v path >>= fun n =>
    require (c n) ⟨path, message⟩ >>= fun _ => Pure.pure n) ?_ ?_ ?_
  · intro v n
    simp only [seq_ok_iff, hf, require_eq_ok, exists_const, pure_ok_iff, id]
    constructor
    · rintro ⟨_, ⟨rfl, hq, hQ⟩, hc, rfl⟩
      exact ⟨⟨_, _, rfl, hq, (hP _).2 ⟨hQ, hc⟩⟩, rfl⟩
    · rintro ⟨⟨m, q, rfl, hq, hPq⟩, hm⟩
      obtain rfl := Value.number.inj hm
      have hval : m.value = q := by rw [JsNumber.value, hq, Option.getD_some]
      obtain ⟨hQ, hc⟩ := (hP m).1 (hval ▸ hPq)
      exact ⟨m, ⟨rfl, hval ▸ hq, hQ⟩, hc, rfl⟩
  · rintro v ⟨n, q, rfl, -⟩
    exact ⟨n, rfl⟩
  · intro v e he
    simp only [seq_error_iff, require_eq_error, pure_error_iff, and_false, exists_false, or_false] at he
    rcases he with he | ⟨n, -, -, rfl⟩
    · exact hpath he
    · rfl

theorem requireInteger_eq_ok {v : Value} {path : String} {n : JsNumber} :
    requireInteger v path = .ok n ↔ v = .number n ∧ n.value? = some n.value ∧ n.value.den = 1 := by
  simp only [requireInteger, seq_ok_iff, requireNumber_eq_ok, require_eq_ok, isInteger_iff, exists_const, pure_ok_iff]
  constructor
  · rintro ⟨_, ⟨rfl, hq⟩, ⟨-, hden⟩, rfl⟩
    exact ⟨rfl, hq, hden⟩
  · rintro ⟨rfl, hq, hden⟩
    exact ⟨n, ⟨rfl, hq⟩, ⟨hq, hden⟩, rfl⟩

theorem requireInteger_path {v : Value} {path : String} {e : SchemaError} (h : requireInteger v path = .error e) :
    e.path = path := by
  simp only [requireInteger, seq_error_iff, require_eq_error, pure_error_iff, and_false, exists_false, or_false] at h
  rcases h with h | ⟨n, -, -, rfl⟩
  · exact requireNumber_path h
  · rfl

/-- The number of a reader without bounds of its own. -/
theorem requireNumber_finite {v : Value} {path : String} {n : JsNumber} :
    requireNumber v path = .ok n ↔ v = .number n ∧ n.value? = some n.value ∧ True := by
  rw [requireNumber_eq_ok, and_true]

theorem temperature_implements (path message : String) :
    Implements (numberSchema fun q => 0 ≤ q) (fun v => requireNumber v path >>= fun n =>
      require (¬n.value < 0) ⟨path, message⟩ >>= fun _ => Pure.pure n) (place path) .number :=
  number_implements (Q := fun _ => True) requireNumber_finite requireNumber_path fun n => by rw [Rat.not_lt, true_and]

theorem unit_implements (path message : String) :
    Implements (numberSchema fun q => 0 ≤ q ∧ q ≤ 1) (fun v => requireNumber v path >>= fun n =>
      require (¬(n.value < 0 ∨ 1 < n.value)) ⟨path, message⟩ >>= fun _ => Pure.pure n) (place path) .number :=
  number_implements (Q := fun _ => True) requireNumber_finite requireNumber_path fun n => by
    rw [not_or, Rat.not_lt, Rat.not_lt, true_and]

theorem count_implements (path message : String) :
    Implements (numberSchema fun q => q.den = 1 ∧ 0 ≤ q) (fun v => requireInteger v path >>= fun n =>
      require (¬n.value < 0) ⟨path, message⟩ >>= fun _ => Pure.pure n) (place path) .number :=
  number_implements (Q := fun q => q.den = 1) requireInteger_eq_ok requireInteger_path fun n => by rw [Rat.not_lt]

/-- The attachments of a message are read like any optional array of texts. -/
theorem validateAttachments_eq (x : Option Value) (path : String) :
    validateAttachments x path =
      readOptional (fun v => requireArray v path >>= mapIndexed requireString path 0) x := by
  rcases x with _ | v
  · rfl
  · cases v <;> rfl

theorem validateSelfScore_eq (x : Option Value) :
    validateSelfScore x = readOptional (fun v => requireNumber v "/self_score" >>= fun n =>
      require (¬(n.value < 0 ∨ 1 < n.value)) ⟨"/self_score", "must be in [0, 1]"⟩ >>= fun _ => Pure.pure n) x := by
  rcases x with _ | v
  · rfl
  · cases v with
    | undefined => rfl
    | _ => simp only [validateSelfScore, readOptional, bind_assoc, pure_bind]

theorem validateReasoning_implements :
    Implements reasoningSchema validateReasoning (place "/reasoning") Reasoning.toValue where
  ok {v r} h := by
    cases v with
    | string s =>
      obtain rfl := Except.ok.inj h
      exact ⟨⟨s, rfl⟩, rfl⟩
    | array vs =>
      simp only [validateReasoning, seq_ok_iff, pure_ok_iff] at h
      obtain ⟨ss, hss, rfl⟩ := h
      obtain ⟨hconf, hkeep⟩ := (mapIndexed_implements requireString_implements).1 ss hss
      exact ⟨hconf, congrArg Value.array hkeep⟩
    | _ => cases h
  error {v e} h := by
    cases v with
    | string s => cases h
    | array vs =>
      simp only [validateReasoning, seq_error_iff, pure_error_iff, and_false, exists_false, or_false] at h
      obtain ⟨j, x, rest, hx, hbad, hpath⟩ := (mapIndexed_implements requireString_implements).2 e h
      exact ⟨_, ⟨j, x, rest, hx, hbad, rfl⟩, by rw [hpath, Nat.zero_add]⟩
    | _ =>
      cases h
      exact ⟨[], ⟨rfl, nofun⟩, rfl⟩

theorem validateToolCall_implements (path : String) :
    Implements toolCallSchema (validateToolCall · path) (place path) ToolCall.toValue := by
  refine object_implements path rfl (fun _ _ => rfl) ?_ fun o => ?_
  · intro o a h
    simp only [seq_ok_iff, pure_ok_iff, requireField_eq_ok] at h
    obtain ⟨_, hcall, call, hc, response, hresponse, rfl⟩ := h
    obtain ⟨hconf, hkeep⟩ := (requireString_implements _).ok hc
    simp [hcall, hresponse, hconf, ← hkeep]
  · refine .field (requireString_implements _) (by simp) rfl fun call => ?_
    exact .bind (.missing (S := .any) (by simp)) fun _ _ => .pure _

theorem validateToolIntent_implements (path : String) :
    Implements toolIntentSchema (validateToolIntent · path) (place path) ToolIntent.toValue := by
  refine object_implements path rfl (fun _ _ => rfl) ?_ fun o => ?_
  · intro o a h
    simp only [seq_ok_iff, pure_ok_iff, requireField_eq_ok] at h
    obtain ⟨_, htool, tool, ht, args, hargs, rfl⟩ := h
    obtain ⟨hconf, hkeep⟩ := (requireString_implements _).ok ht
    simp [htool, hargs, hconf, ← hkeep]
  · refine .field (requireString_implements _) (by simp) rfl fun tool => ?_
    exact .bind (.missing (S := .any) (by simp)) fun _ _ => .pure _

theorem attachments_implements (path : String) :
    Implements (.array textSchema) (fun v => requireArray v path >>= mapIndexed requireString path 0) (place path)
      fun ss => .array (ss.map .string) :=
  array_implements requireString_implements path

theorem validateMessage_implements (path : String) :
    Implements messageSchema (validateMessage · path) (place path) Message.toValue := by
  refine object_implements path rfl (fun _ _ => rfl) ?_ fun o => ?_
  · intro o a h
    simp only [seq_ok_iff, pure_ok_iff, requireField_eq_ok, validateAttachments_eq] at h
    obtain ⟨_, hrole, role, hr, _, hcontent, content, hc, attachments, ha, rfl⟩ := h
    obtain ⟨hrconf, hrkeep⟩ := (requireString_implements _).ok hr
    obtain ⟨hcconf, hckeep⟩ := (requireString_implements _).ok hc
    obtain ⟨haconf, hakeep⟩ := optional_ok (h := array_undefined _) "attachments" (attachments_implements _) ha
    cases attachments <;> simp [hrole, hcontent, hrconf, hcconf, haconf, hakeep, ← hrkeep, ← hckeep]
  · refine .field (requireString_implements _) (by simp) rfl fun role => ?_
    refine .field (requireString_implements _) (by simp) rfl fun content => ?_
    rw [validateAttachments_eq]
    exact .bind (.optional (h := array_undefined _) (attachments_implements _) (by simp) rfl) fun _ _ => .pure _

theorem numberSchema_ok {P : Rat → Prop} {n : JsNumber} (hq : n.value? = some n.value) (hP : P n.value) :
    (numberSchema P).Conforms (.number n) ∧ .number n = (numberSchema P).keep (.number n) :=
  ⟨⟨n, _, rfl, hq, hP⟩, rfl⟩

theorem validateSampling_implements (path : String) :
    Implements (samplingSchema anyU64) (validateSampling · path) (place path) Sampling.toValue := by
  refine object_implements path rfl (fun _ _ => rfl) ?_ fun o => ?_
  · intro o a h
    simp only [seq_ok_iff, pure_ok_iff, requireField_eq_ok, requireNumber_eq_ok, requireInteger_eq_ok, require_eq_ok,
      exists_const, not_or, Rat.not_lt] at h
    obtain ⟨_, ht, temperature, ⟨rfl, htq⟩, ht0, _, hp, topP, ⟨rfl, hpq⟩, hp01, s, hs, seed, hseed, _, hm, maxTokens,
      ⟨rfl, hmq, hden⟩, hm0, rfl⟩ := h
    obtain ⟨htconf, htkeep⟩ := numberSchema_ok (P := fun q => 0 ≤ q) htq ht0
    obtain ⟨hpconf, hpkeep⟩ := numberSchema_ok (P := fun q => 0 ≤ q ∧ q ≤ 1) hpq hp01
    obtain ⟨hsconf, hskeep⟩ := (requireU64_implements _).ok hseed
    obtain ⟨hmconf, hmkeep⟩ := numberSchema_ok (P := fun q => q.den = 1 ∧ 0 ≤ q) hmq ⟨hden, hm0⟩
    simp [ht, hp, hs, hm, htconf, hpconf, hsconf, hmconf, ← htkeep, ← hpkeep, ← hskeep, ← hmkeep]
  · refine .bounded (temperature_implements _ _) (by simp) rfl fun temperature => ?_
    refine .bounded (unit_implements _ _) (by simp) rfl fun topP => ?_
    refine .field (requireU64_implements _) (by simp) rfl fun seed => ?_
    exact .bounded (count_implements _ _) (by simp) rfl fun maxTokens => .pure _

theorem validateCanonicalInput_implements :
    Implements inputSchema validateCanonicalInput pointer CanonicalInput.toValue := by
  refine object_implements "" rfl (fun _ _ => rfl) ?_ fun o => ?_
  · intro o a h
    simp only [seq_ok_iff, pure_ok_iff, requireField_eq_ok, requireArray_eq_ok] at h
    obtain ⟨_, hsystem, system, hsys, _, hmessages, ms, rfl, messages, hms, _, htools, tools, rfl, _, hcalls, cs, rfl,
      toolCalls, hcs, _, hsnap, snap, hsn, _, ht, contextT, hct, _, hseed, seed, hsd, _, hpolicy, policy, hpl, rfl⟩ := h
    obtain ⟨hsysconf, hsyskeep⟩ := (requireString_implements _).ok hsys
    obtain ⟨hmsconf, hmskeep⟩ := array_ok validateMessage_implements hms
    obtain ⟨htoolsconf, htoolskeep⟩ := (requireArray_implements "").ok (v := .array tools) rfl
    obtain ⟨hcsconf, hcskeep⟩ := array_ok validateToolCall_implements hcs
    obtain ⟨hsnconf, hsnkeep⟩ := (requireBytes_implements _ _).ok hsn
    obtain ⟨hctconf, hctkeep⟩ := (requireU64_implements _).ok hct
    obtain ⟨hsdconf, hsdkeep⟩ := (requireBytes_implements _ _).ok hsd
    obtain ⟨hplconf, hplkeep⟩ := (requireBytes_implements _ _).ok hpl
    simp [hsystem, hmessages, htools, hcalls, hsnap, ht, hseed, hpolicy, hsysconf, hmsconf, htoolsconf, hcsconf,
      hsnconf, hctconf, hsdconf, hplconf, ← hsyskeep, ← hmskeep, ← htoolskeep, ← hcskeep, ← hsnkeep, ← hctkeep,
      ← hsdkeep, ← hplkeep]
  · refine .field (requireString_implements _) (by simp) rfl fun system => ?_
    refine .array validateMessage_implements (by simp) rfl fun messages => ?_
    refine .field (requireArray_implements _) (by simp) rfl fun tools => ?_
    refine .array validateToolCall_implements (by simp) rfl fun toolCalls => ?_
    refine .bytes (by simp) rfl fun memorySnap => ?_
    refine .field (requireU64_implements _) (by simp) rfl fun contextT => ?_
    refine .bytes (by simp) rfl fun vrfSeed => ?_
    exact .bytes (by simp) rfl fun policyId => .pure _

theorem validateCanonicalOutput_implements :
    Implements (outputSchema anyU64) validateCanonicalOutput pointer CanonicalOutput.toValue := by
  refine object_implements "" rfl (fun _ _ => rfl) ?_ fun o => ?_
  · intro o a h
    simp only [seq_ok_iff, pure_ok_iff, requireField_eq_ok, requireArray_eq_ok, validateSelfScore_eq] at h
    obtain ⟨decision, hdecision, _, hr, reasoning, hreasoning, _, hintents, ts, rfl, toolIntents, hts, selfScore, hself,
      _, hmodel, model, hmd, _, hs, sampling, hsampling, rfl⟩ := h
    obtain ⟨hrconf, hrkeep⟩ := validateReasoning_implements.ok hreasoning
    obtain ⟨htsconf, htskeep⟩ := array_ok validateToolIntent_implements hts
    obtain ⟨hselfconf, hselfkeep⟩ := optional_ok (h := number_undefined _) "self_score" (unit_implements _ _) hself
    obtain ⟨hmdconf, hmdkeep⟩ := (requireBytes_implements _ _).ok hmd
    obtain ⟨hsconf, hskeep⟩ := (validateSampling_implements _).ok hsampling
    cases selfScore <;> simp [hdecision, hr, hintents, hmodel, hs, hrconf, htsconf, hselfconf, hmdconf, hsconf,
      hselfkeep, ← hrkeep, ← htskeep, ← hmdkeep, ← hskeep]
  · refine .bind (.missing (S := .any) (by simp)) fun decision _ => ?_
    refine .field (f := fun v _ => validateReasoning v) validateReasoning_implements (by simp) rfl fun reasoning => ?_
    refine .array validateToolIntent_implements (by simp) rfl fun toolIntents => ?_
    rw [validateSelfScore_eq]
    refine .bind (.optional (h := number_undefined _) (unit_implements _ _) (by simp) rfl) fun selfScore _ => ?_
    refine .bytes (by simp) rfl fun modelId => ?_
    exact .field (validateSampling_implements _) (by simp) rfl fun sampling => .pure _

/-! ## Values of documents -/

theorem objectLit_inj {fs gs : List (String × Value)} : objectLit fs = objectLit gs ↔ fs = gs := by
  rw [objectLit, objectLit, Value.object.injEq]
  refine List.map_inj_right fun f g h => ?_
  obtain ⟨hname, hvalue⟩ := Prod.mk.inj h
  exact Prod.ext (ofText_inj.1 hname) hvalue

theorem string_map_inj {ss ts : List JsString} : ss.map Value.string = ts.map Value.string ↔ ss = ts :=
  List.map_inj_right fun _ _ h => Value.string.inj h

theorem Message.toValue_injective : Function.Injective Message.toValue := by
  intro m n h
  obtain ⟨role, content, attachments⟩ := m
  obtain ⟨role', content', attachments'⟩ := n
  rw [toValue, toValue, objectLit_inj] at h
  cases attachments <;> cases attachments' <;> simp [string_map_inj] at h ⊢ <;> exact h

theorem ToolCall.toValue_injective : Function.Injective ToolCall.toValue := by
  intro c d h
  obtain ⟨call, response⟩ := c
  obtain ⟨call', response'⟩ := d
  simpa [toValue, objectLit_inj] using h

theorem ToolIntent.toValue_injective : Function.Injective ToolIntent.toValue := by
  intro t u h
  obtain ⟨tool, args⟩ := t
  obtain ⟨tool', args'⟩ := u
  simpa [toValue, objectLit_inj] using h

theorem Sampling.toValue_injective : Function.Injective Sampling.toValue := by
  intro x y h
  obtain ⟨temperature, topP, seed, maxTokens⟩ := x
  obtain ⟨temperature', topP', seed', maxTokens'⟩ := y
  simpa [toValue, objectLit_inj] using h

theorem Reasoning.toValue_injective : Function.Injective Reasoning.toValue := by
  intro x y h
  rcases x with s | ss <;> rcases y with t | ts
  · exact congrArg text (Value.string.inj h)
  · cases h
  · cases h
  · exact congrArg steps (string_map_inj.1 (Value.array.inj h))

theorem CanonicalInput.toValue_injective : Function.Injective CanonicalInput.toValue := by
  intro i j h
  obtain ⟨system, messages, tools, toolCalls, memorySnap, contextT, vrfSeed, policyId⟩ := i
  obtain ⟨system', messages', tools', toolCalls', memorySnap', contextT', vrfSeed', policyId'⟩ := j
  simpa [toValue, objectLit_inj, List.map_inj_right Message.toValue_injective,
    List.map_inj_right ToolCall.toValue_injective] using h

theorem CanonicalOutput.toValue_injective : Function.Injective CanonicalOutput.toValue := by
  intro x y h
  obtain ⟨decision, reasoning, toolIntents, selfScore, modelId, sampling⟩ := x
  obtain ⟨decision', reasoning', toolIntents', selfScore', modelId', sampling'⟩ := y
  rw [toValue, toValue, objectLit_inj] at h
  cases selfScore <;> cases selfScore' <;>
    simp [List.map_inj_right ToolIntent.toValue_injective, Reasoning.toValue_injective.eq_iff,
      Sampling.toValue_injective.eq_iff] at h ⊢ <;> simp [h]

/-! ## The documented seed -/

/-- A number from `2^53` on. -/
def Value.isWide : Value → Bool
  | number n => 2 ^ 53 ≤ n.value.num
  | _ => false

/-- The seed of the sampling settings is given as a number from `2^53` on. -/
def Value.hasWideSeed (v : Value) : Bool :=
  (v.at? "sampling").any fun s => (s.at? "seed").any isWide

theorem seedU64_conforms_iff (v : Value) : seedU64.Conforms v ↔ anyU64.Conforms v ∧ v.isWide = false := by
  constructor
  · rintro (⟨n, rfl, hn⟩ | ⟨m, q, rfl, hq, hden, h0, htop⟩)
    · exact ⟨.inl ⟨n, rfl, hn⟩, rfl⟩
    · refine ⟨.inr ⟨m, q, rfl, hq, hden, h0, htop.trans (by decide)⟩, decide_eq_false ?_⟩
      rw [JsNumber.value, hq, Option.getD_some]
      omega
  · rintro ⟨⟨n, rfl, hn⟩ | ⟨m, q, rfl, hq, hden, h0, -⟩, hwide⟩
    · exact .inl ⟨n, rfl, hn⟩
    · have hnot := of_decide_eq_false hwide
      rw [JsNumber.value, hq, Option.getD_some] at hnot
      exact .inr ⟨m, q, rfl, hq, hden, h0, by omega⟩

/-- The properties of a value are found by their names. -/
theorem at?_of_properties? {v : Value} {o : String → Option Value} (h : Document.properties? v = some o)
    (key : String) : v.at? key = o key := by
  cases v with
  | object fields =>
    obtain rfl := Option.some.inj h
    rfl
  | _ => cases h

theorem required_conforms_iff {name : String} {S T : Schema Value} {wide : Value → Bool}
    (h : ∀ v, S.Conforms v ↔ T.Conforms v ∧ wide v = false) (x : Option Value) :
    (required name S).Conforms x ↔ (required name T).Conforms x ∧ x.any wide = false := by
  cases x <;> simp [h]

/-- A property made stricter in this way makes an object stricter in this way. -/
theorem object_conforms_iff (ps₁ ps₂ : List (Property Value)) {name : String} {S T : Schema Value} {wide : Value → Bool}
    (h : ∀ v, S.Conforms v ↔ T.Conforms v ∧ wide v = false)
    {hS : ((ps₁ ++ required name S :: ps₂).map Property.name).Nodup}
    {hT : ((ps₁ ++ required name T :: ps₂).map Property.name).Nodup} {v : Value} :
    (Schema.object (ps₁ ++ required name S :: ps₂) hS).Conforms v ↔
      (Schema.object (ps₁ ++ required name T :: ps₂) hT).Conforms v ∧ (v.at? name).any wide = false := by
  rw [Schema.object_conforms_iff (p := required name S) (q := required name T) rfl (required_conforms_iff h)]
  refine and_congr_right fun hv => ?_
  obtain ⟨o, ho, -⟩ := hv
  rw [at?_of_properties? ho]
  exact ⟨fun h => h o ho, fun h o' ho' => Option.some.inj (ho.symm.trans ho') ▸ h⟩

theorem samplingSchema_conforms_iff (v : Value) :
    (samplingSchema seedU64).Conforms v ↔
      (samplingSchema anyU64).Conforms v ∧ (v.at? "seed").any Value.isWide = false :=
  object_conforms_iff [_, _] [_] seedU64_conforms_iff

/-- An output conforms as documented exactly when it conforms and its seed is no number from `2^53` on. -/
theorem outputSchema_conforms_iff (v : Value) :
    (outputSchema seedU64).Conforms v ↔ (outputSchema anyU64).Conforms v ∧ v.hasWideSeed = false :=
  object_conforms_iff [_, _, _, _] [_] samplingSchema_conforms_iff

theorem seedU64_stricter : Schema.Stricter seedU64 anyU64 where
  keep := rfl
  agree := rfl
  violated h := ⟨h.1, fun hv => h.2 ((seedU64_conforms_iff _).1 hv).1⟩

theorem samplingSchema_stricter : Schema.Stricter (samplingSchema seedU64) (samplingSchema anyU64) :=
  .object [_, _] [_] rfl rfl seedU64_stricter

theorem outputSchema_stricter : Schema.Stricter (outputSchema seedU64) (outputSchema anyU64) :=
  .object [_, _, _, _] [_] rfl rfl samplingSchema_stricter

/-- **The documented schema.** The validator of outputs is exact for it except at conforming outputs whose seed is a
number from `2^53` on. -/
theorem output_exactAt_iff (v : Value) :
    ExactAt (outputSchema seedU64) validateCanonicalOutput pointer CanonicalOutput.toValue v ↔
      ¬((outputSchema anyU64).Conforms v ∧ v.hasWideSeed = true) := by
  have hexact := validateCanonicalOutput_implements.exact CanonicalOutput.toValue_injective v
  have hstrict := outputSchema_stricter
  constructor
  · intro h hwide
    obtain ⟨hv, hwide⟩ := hwide
    have hconf := h.accepts.1 (hexact.accepts.2 hv)
    rw [outputSchema_conforms_iff, hwide] at hconf
    cases hconf.2
  · intro hnot
    refine ⟨hexact.accepts.trans ?_, ?_, ?_, ?_⟩
    · rw [outputSchema_conforms_iff, ← Bool.not_eq_true]
      exact ⟨fun hv => ⟨hv, fun hwide => hnot ⟨hv, hwide⟩⟩, And.left⟩
    · rw [hstrict.keep]
      exact hexact.keeps
    · rw [hstrict.agree]
      exact hexact.ignores
    · intro e he
      obtain ⟨loc, hbad, hpath⟩ := hexact.locates e he
      exact ⟨loc, hstrict.violated hbad, hpath⟩

/-- Inputs and outputs that agree on what is kept get the same commitment. -/
theorem buildThoughtCommitment_agree {lib : Library} {input input' output output' : Value}
    {parts : List TraceManifestEntry} {c : ThoughtCommitment}
    (hin : ∀ i, validateCanonicalInput input = .ok i → validateCanonicalInput input' = .ok i)
    (hout : ∀ o, validateCanonicalOutput output = .ok o → validateCanonicalOutput output' = .ok o)
    (h : buildThoughtCommitment lib input output parts = .ok c) :
    buildThoughtCommitment lib input' output' parts = .ok c := by
  rw [buildThoughtCommitment, seq_ok_iff] at h ⊢
  obtain ⟨vi, hvi, h⟩ := h
  rw [seq_ok_iff] at h
  obtain ⟨vo, hvo, h⟩ := h
  rw [mapError_eq_ok] at hvi hvo
  refine ⟨vi, mapError_eq_ok.2 (hin vi hvi), ?_⟩
  rw [seq_ok_iff]
  exact ⟨vo, mapError_eq_ok.2 (hout vo hvo), h⟩

/-- **The validators are exact** for what they check, at every document; for what is documented, at every input, and
exactly at the outputs that are no conforming ones with a number from `2^53` on as their seed. Documents that differ
only in what is not kept get the same commitments. -/
theorem validators_exact (v : Value) :
    ExactAt inputSchema validateCanonicalInput pointer CanonicalInput.toValue v ∧
      ExactAt (outputSchema anyU64) validateCanonicalOutput pointer CanonicalOutput.toValue v ∧
      (ExactAt (outputSchema seedU64) validateCanonicalOutput pointer CanonicalOutput.toValue v ↔
        ¬((outputSchema anyU64).Conforms v ∧ v.hasWideSeed = true)) ∧
      (∀ (lib : Library) (w output : Value) (parts : List TraceManifestEntry) (c : ThoughtCommitment),
        inputSchema.Agree v w → buildThoughtCommitment lib v output parts = .ok c →
          buildThoughtCommitment lib w output parts = .ok c) ∧
      ∀ (lib : Library) (w input : Value) (parts : List TraceManifestEntry) (c : ThoughtCommitment),
        (outputSchema seedU64).Agree v w → buildThoughtCommitment lib input v parts = .ok c →
          buildThoughtCommitment lib input w parts = .ok c := by
  have hin := validateCanonicalInput_implements.exact CanonicalInput.toValue_injective v
  have hout := validateCanonicalOutput_implements.exact CanonicalOutput.toValue_injective v
  refine ⟨hin, hout, output_exactAt_iff v, ?_, ?_⟩
  · intro lib w output parts c hag
    exact buildThoughtCommitment_agree (fun i hi => hin.ignores i w hi hag) fun _ ho => ho
  · intro lib w input parts c hag
    rw [outputSchema_stricter.agree] at hag
    exact buildThoughtCommitment_agree (fun _ hi => hi) fun o ho => hout.ignores o w ho hag

namespace Sample

/-- The sample decision with the sampling settings as a model returns them, the seed as a number. -/
def numbered (seed : Rat) : Value :=
  objectLit [("decision", .null), ("reasoning", .string []), ("tool_intents", .array []),
    ("model_id", .bytes (List.replicate 32 6)),
    ("sampling", objectLit [("temperature", .number (.finite 0)), ("top_p", .number (.finite 1)),
      ("seed", .number (.finite seed)), ("max_tokens", .number (.finite 256))])]

end Sample

/-- The documented schema at an output whose seed is the number 7. -/
theorem validators_exact_numbered :
    ExactAt (outputSchema seedU64) validateCanonicalOutput pointer CanonicalOutput.toValue (Sample.numbered 7) ∧
      (outputSchema seedU64).Conforms (Sample.numbered 7) := by
  have hexact := (validators_exact (Sample.numbered 7)).2.2.1.2 fun h => absurd h.2 (by decide +kernel)
  exact ⟨hexact, hexact.accepts.1 (exists_eq_ok (by decide +kernel))⟩

/-- An output whose seed is the number `2^53` is accepted, and does not conform as documented. -/
theorem wide_seed_accepted :
    (∃ w, validateCanonicalOutput (Sample.numbered 9007199254740992) = .ok w) ∧
      ¬(outputSchema seedU64).Conforms (Sample.numbered 9007199254740992) := by
  refine ⟨exists_eq_ok (by decide +kernel), fun h => ?_⟩
  exact absurd ((outputSchema_conforms_iff _).1 h).2 (by decide +kernel)

end ProofOfThought.Sdk
