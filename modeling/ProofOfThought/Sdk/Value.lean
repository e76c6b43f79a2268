import ProofOfThought.Sdk.Encoding

/-!
# Values

The JavaScript values that the schema validators and the canonical encoder walk over.
-/

namespace ProofOfThought.Sdk

open Base

/-- A value that is no data. -/
inductive Foreign where
  | function
  | symbol
  /-- A view of an `ArrayBuffer` other than a `Uint8Array`. -/
  | view
  /-- An instance of the named class. -/
  | classInstance (name : String)
  deriving DecidableEq

inductive Value where
  | undefined
  | null
  | boolean (b : Bool)
  | number (n : JsNumber)
  | bigint (n : Int)
  | string (s : JsString)
  | bytes (b : Bytes)
  | array (vs : List Value)
  /-- A `Map`, with its entries in order. -/
  | map (entries : List (Value × Value))
  /-- A plain object, with its own enumerable properties in order. -/
  | object (fields : List (JsString × Value))
  | foreign (f : Foreign)

abbrev Fields := List (JsString × Value)

/-- `obj[key]`, if `key in obj`. -/
def Fields.get? (fields : Fields) (key : String) : Option Value := fields.lookup (JsString.ofText key)

/-- `typeOf` of `schema.ts`. -/
def Value.typeOf : Value → String
  | undefined => "undefined"
  | null => "null"
  | boolean _ => "boolean"
  | number _ => "number"
  | bigint _ => "bigint"
  | string _ => "string"
  | bytes _ => "Uint8Array"
  | array _ => "array"
  | map _ => "object"
  | object _ => "object"
  | foreign .function => "function"
  | foreign .symbol => "symbol"
  | foreign .view => "object"
  | foreign (.classInstance _) => "object"

namespace JsNumber

/-- `Number.isFinite`. -/
def isFinite (n : JsNumber) : Bool := n.value?.isSome

/-- `Number.isInteger`. -/
def isInteger (n : JsNumber) : Bool := n.value?.any fun q => q.den = 1

/-- The value of a finite number. -/
def value (n : JsNumber) : Rat := n.value?.getD 0

/-- `String(n)` of a number that is not finite. -/
def nonFiniteText : JsNumber → String
  | infinity true => "-Infinity"
  | infinity false => "Infinity"
  | _ => "NaN"

end JsNumber

end ProofOfThought.Sdk
