import ProofOfThought.Sdk.Value

/-!
# The canonical schema

The validators of `schema.ts`: strict checks of the shape of canonical inputs and outputs, which drop every property
that is not in the schema.
-/

namespace ProofOfThought.Sdk

open Base

/-! ## Types -/

/-- A single chat message. -/
structure Message where
  role : JsString
  content : JsString
  attachments : Option (List JsString)

/-- Tool I/O the model consumed. -/
structure ToolCall where
  call : JsString
  response : Value

structure Sampling where
  temperature : JsNumber
  topP : JsNumber
  seed : Int
  maxTokens : JsNumber

/-- What the model saw. -/
structure CanonicalInput where
  system : JsString
  messages : List Message
  tools : List Value
  toolCalls : List ToolCall
  memorySnap : Bytes
  contextT : Int
  vrfSeed : Bytes
  policyId : Bytes

structure ToolIntent where
  tool : JsString
  args : Value

/-- One text, or the texts of the steps. -/
inductive Reasoning where
  | text (s : JsString)
  | steps (ss : List JsString)

/-- The thought the agent emits. -/
structure CanonicalOutput where
  decision : Value
  reasoning : Reasoning
  toolIntents : List ToolIntent
  selfScore : Option JsNumber
  modelId : Bytes
  sampling : Sampling

/-- `CanonicalSchemaError`; its text is `canonical schema error at <path>: <message>`. -/
structure SchemaError where
  path : String
  message : String
  deriving DecidableEq

/-! ## Helpers -/

abbrev Checked := Except SchemaError

def MAX_U64 : Int := 2 ^ 64 - 1

def requireObject : Value → String → Checked Fields
  | .object fields, _ => .ok fields
  | v, path => .error ⟨path, s!"expected object, got {v.typeOf}"⟩

def requireField (obj : Fields) (key path : String) : Checked Value :=
  okOr (obj.get? key) ⟨s!"{path}/{key}", "missing required field"⟩

def requireString : Value → String → Checked JsString
  | .string s, _ => .ok s
  | v, path => .error ⟨path, s!"expected string, got {v.typeOf}"⟩

def requireBytes (v : Value) (path : String) (len : Option Nat) : Checked Bytes :=
  match v with
  | .bytes b =>
    match len with
    | some n => if b.length ≠ n then .error ⟨path, s!"expected {n} bytes, got {b.length}"⟩ else .ok b
    | none => .ok b
  | v => .error ⟨path, s!"expected Uint8Array, got {v.typeOf}"⟩

def requireU64 (v : Value) (path : String) : Checked Int := do
  let asBig ← match v with
    | .bigint n => .ok n
    | .number n => do
      require (n.isInteger = true) ⟨path, "expected integer u64, got non-integer number"⟩
      require (¬n.value < 0) ⟨path, "expected non-negative u64"⟩
      .ok n.value.num
    | v => .error ⟨path, s!"expected u64 (bigint/number), got {v.typeOf}"⟩
  require (0 ≤ asBig ∧ asBig ≤ MAX_U64) ⟨path, s!"u64 out of range: {asBig}"⟩
  return asBig

def requireNumber (v : Value) (path : String) : Checked JsNumber :=
  match v with
  | .number n =>
    if n.isFinite = true then .ok n
    else .error ⟨path, "non-finite numbers (NaN/±Infinity) are forbidden"⟩
  | v => .error ⟨path, s!"expected number, got {v.typeOf}"⟩

def requireInteger (v : Value) (path : String) : Checked JsNumber := do
  let n ← requireNumber v path
  require (n.isInteger = true) ⟨path, "expected integer"⟩
  return n

def requireArray : Value → String → Checked (List Value)
  | .array vs, _ => .ok vs
  | v, path => .error ⟨path, s!"expected array, got {v.typeOf}"⟩

/-- `vs.map((v, i) => f(v, path/i))`, from the index `i`. -/
def mapIndexed {α : Type} (f : Value → String → Checked α) (path : String) : Nat → List Value → Checked (List α)
  | _, [] => .ok []
  | i, v :: vs => do
    let a ← f v s!"{path}/{i}"
    let as ← mapIndexed f path (i + 1) vs
    return a :: as

/-! What the helpers return. -/

@[simp] theorem requireObject_eq_ok {v : Value} {path : String} {o : Fields} :
    requireObject v path = .ok o ↔ v = .object o := by
  cases v <;> simp [requireObject]

@[simp] theorem requireField_eq_ok {obj : Fields} {key path : String} {v : Value} :
    requireField obj key path = .ok v ↔ obj.get? key = some v := okOr_eq_ok

@[simp] theorem requireBytes_eq_ok {v : Value} {path : String} {n : Nat} {b : Bytes} :
    requireBytes v path (some n) = .ok b ↔ v = .bytes b ∧ b.length = n := by
  cases v with
  | bytes b' =>
    simp only [requireBytes, Value.bytes.injEq]
    split
    · rename_i hne
      exact iff_of_false (fun h => nomatch h) fun h => hne (h.1 ▸ h.2)
    · rename_i heq
      rw [Except.ok.injEq]
      exact ⟨fun h => ⟨h, h ▸ not_not.1 heq⟩, And.left⟩
  | _ => simp [requireBytes]

/-! ## Validators -/

/-- `attachments` of a message, if they are there. -/
def validateAttachments : Option Value → String → Checked (Option (List JsString))
  | none, _ => .ok none
  | some .undefined, _ => .ok none
  | some v, path => do
    let arr ← requireArray v path
    let attachments ← mapIndexed requireString path 0 arr
    return some attachments

def validateMessage (v : Value) (path : String) : Checked Message := do
  let o ← requireObject v path
  let role ← requireString (← requireField o "role" path) s!"{path}/role"
  let content ← requireString (← requireField o "content" path) s!"{path}/content"
  let attachments ← validateAttachments (o.get? "attachments") s!"{path}/attachments"
  return { role, content, attachments }

def validateToolCall (v : Value) (path : String) : Checked ToolCall := do
  let o ← requireObject v path
  let call ← requireString (← requireField o "call" path) s!"{path}/call"
  let response ← requireField o "response" path
  return { call, response }

def validateToolIntent (v : Value) (path : String) : Checked ToolIntent := do
  let o ← requireObject v path
  let tool ← requireString (← requireField o "tool" path) s!"{path}/tool"
  let args ← requireField o "args" path
  return { tool, args }

def validateSampling (v : Value) (path : String) : Checked Sampling := do
  let o ← requireObject v path
  let temperature ← requireNumber (← requireField o "temperature" path) s!"{path}/temperature"
  require (¬temperature.value < 0) ⟨s!"{path}/temperature", "must be >= 0"⟩
  let topP ← requireNumber (← requireField o "top_p" path) s!"{path}/top_p"
  require (¬(topP.value < 0 ∨ 1 < topP.value)) ⟨s!"{path}/top_p", "must be in [0, 1]"⟩
  let seed ← requireU64 (← requireField o "seed" path) s!"{path}/seed"
  let maxTokens ← requireInteger (← requireField o "max_tokens" path) s!"{path}/max_tokens"
  require (¬maxTokens.value < 0) ⟨s!"{path}/max_tokens", "must be >= 0"⟩
  return { temperature, topP, seed, maxTokens }

def validateCanonicalInput (v : Value) : Checked CanonicalInput := do
  let path := ""
  let o ← requireObject v "/"
  let system ← requireString (← requireField o "system" path) "/system"
  let messages ← mapIndexed validateMessage "/messages" 0
    (← requireArray (← requireField o "messages" path) "/messages")
  let tools ← requireArray (← requireField o "tools" path) "/tools"
  let toolCalls ← mapIndexed validateToolCall "/tool_calls" 0
    (← requireArray (← requireField o "tool_calls" path) "/tool_calls")
  let memorySnap ← requireBytes (← requireField o "memory_snap" path) "/memory_snap" (some 32)
  let contextT ← requireU64 (← requireField o "context_t" path) "/context_t"
  let vrfSeed ← requireBytes (← requireField o "vrf_seed" path) "/vrf_seed" (some 32)
  let policyId ← requireBytes (← requireField o "policy_id" path) "/policy_id" (some 32)
  return { system, messages, tools, toolCalls, memorySnap, contextT, vrfSeed, policyId }

/-- `reasoning` of an output. -/
def validateReasoning : Value → Checked Reasoning
  | .string s => .ok (.text s)
  | .array vs => do
    let ss ← mapIndexed requireString "/reasoning" 0 vs
    return .steps ss
  | v => .error ⟨"/reasoning", s!"expected string or string[], got {v.typeOf}"⟩

/-- `self_score` of an output, if it is there. -/
def validateSelfScore : Option Value → Checked (Option JsNumber)
  | none => .ok none
  | some .undefined => .ok none
  | some v => do
    let s ← requireNumber v "/self_score"
    require (¬(s.value < 0 ∨ 1 < s.value)) ⟨"/self_score", "must be in [0, 1]"⟩
    return some s

def validateCanonicalOutput (v : Value) : Checked CanonicalOutput := do
  let path := ""
  let o ← requireObject v "/"
  let decision ← requireField o "decision" path
  let reasoning ← validateReasoning (← requireField o "reasoning" path)
  let toolIntents ← mapIndexed validateToolIntent "/tool_intents" 0
    (← requireArray (← requireField o "tool_intents" path) "/tool_intents")
  let selfScore ← validateSelfScore (o.get? "self_score")
  let modelId ← requireBytes (← requireField o "model_id" path) "/model_id" (some 32)
  let sampling ← validateSampling (← requireField o "sampling" path) "/sampling"
  return { decision, reasoning, toolIntents, selfScore, modelId, sampling }

/-! ## Bytes of a document -/

/-- The bytes that a document has under a key. -/
def Value.bytesAt (v : Value) (key : String) : Option Bytes :=
  match v with
  | .object fields =>
    match Fields.get? fields key with
    | some (.bytes b) => some b
    | _ => none
  | _ => none

theorem Value.bytesAt_object {fields : Fields} {key : String} {b : Bytes} (h : fields.get? key = some (.bytes b)) :
    (Value.object fields).bytesAt key = some b := by
  simp only [bytesAt, h]

/-- The bytes of a validated input are those of the document. -/
theorem validateCanonicalInput_bytes {v : Value} {input : CanonicalInput} (h : validateCanonicalInput v = .ok input) :
    v.bytesAt "vrf_seed" = some input.vrfSeed ∧ v.bytesAt "policy_id" = some input.policyId := by
  simp only [validateCanonicalInput, seq_ok_iff, pure_ok_iff, requireObject_eq_ok, requireField_eq_ok,
    requireBytes_eq_ok] at h
  obtain ⟨o, rfl, _, -, _, -, _, -, _, -, _, -, _, -, _, -, _, -, _, -, _, -, _, -, _, -, _, -, _, -, _, hseed, seed,
    ⟨rfl, -⟩, _, hpolicy, policy, ⟨rfl, -⟩, rfl⟩ := h
  exact ⟨Value.bytesAt_object hseed, Value.bytesAt_object hpolicy⟩

theorem validateCanonicalOutput_bytes {v : Value} {output : CanonicalOutput}
    (h : validateCanonicalOutput v = .ok output) : v.bytesAt "model_id" = some output.modelId := by
  simp only [validateCanonicalOutput, seq_ok_iff, pure_ok_iff, requireObject_eq_ok, requireField_eq_ok,
    requireBytes_eq_ok] at h
  obtain ⟨o, rfl, _, -, _, -, _, -, _, -, _, -, _, -, _, -, _, hmodel, model, ⟨rfl, -⟩, _, -, _, -, rfl⟩ := h
  exact Value.bytesAt_object hmodel

end ProofOfThought.Sdk
