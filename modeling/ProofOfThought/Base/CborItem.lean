import Mathlib.Data.List.Forall2
import Mathlib.Data.List.Perm.Basic
import Mathlib.Data.List.Sort
import ProofOfThought.Base.Cbor

/-!
# Deterministic CBOR

The deterministic encoding of a data item over any type of atoms: heads are shortest, and the entries of a map are
sorted by their encoded keys, which differ from each other. The order of the keys is a parameter `le`.
-/

namespace Base.Cbor

/-! ## Scalars -/

/-- A float of one of the three widths. -/
inductive FloatBits where
  | half (bits : UInt16)
  | single (bits : UInt32)
  | double (bits : UInt64)
  deriving DecidableEq

namespace FloatBits

def info : FloatBits → Nat
  | half _ => 25
  | single _ => 26
  | double _ => 27

def argBytes : FloatBits → Bytes
  | half bits => beBytes 2 bits.toNat
  | single bits => beBytes 4 bits.toNat
  | double bits => beBytes 8 bits.toNat

def bytes (x : FloatBits) : Bytes := initial 7 x.info :: x.argBytes

end FloatBits

/-- An item with no item inside; `F` are the numbers that are written as floats. -/
inductive Scalar (F : Type) where
  | int (n : Int)
  | bytes (b : Bytes)
  | text (s : String)
  | simple (n : Nat)
  | float (x : F)

/-- A head whose argument fits. -/
def head? (major : UInt8) (n : Nat) : Option Bytes := if n < 2 ^ 64 then some (head major n) else none

def Scalar.encode {F : Type} (floatBits : F → Option FloatBits) : Scalar F → Option Bytes
  | int n => if 0 ≤ n then head? 0 n.toNat else head? 1 (-1 - n).toNat
  | bytes b => (head? 2 b.length).map (· ++ b)
  | text s => (head? 3 (utf8 s).length).map (· ++ utf8 s)
  | simple n => if n < 24 then some (head 7 n) else none
  | float x => (floatBits x).map FloatBits.bytes

/-! What a scalar is written as. -/

theorem head?_eq_some {major : UInt8} {n : Nat} {b : Bytes} :
    head? major n = some b ↔ n < 2 ^ 64 ∧ b = head major n := by
  rw [head?, Option.ite_none_right_eq_some, Option.some.injEq, eq_comm]

theorem string_eq_some {major : UInt8} {s b : Bytes} :
    (head? major s.length).map (· ++ s) = some b ↔ s.length < 2 ^ 64 ∧ b = head major s.length ++ s := by
  simp only [Option.map_eq_some_iff, head?_eq_some]
  constructor
  · intro h
    obtain ⟨_, ⟨hl, rfl⟩, rfl⟩ := h
    exact ⟨hl, rfl⟩
  · intro h
    exact ⟨_, ⟨h.1, rfl⟩, h.2.symm⟩

theorem simple_eq_some {n : Nat} {b : Bytes} :
    (if n < 24 then some (head 7 n) else none) = some b ↔ n < 24 ∧ b = head 7 n := by
  rw [Option.ite_none_right_eq_some, Option.some.injEq, eq_comm]

theorem isScalar_head {major : UInt8} (h : major ∈ [0, 1, 7]) (n : Nat) : IsScalar (head major n) := by
  rw [head_eq, ← List.append_nil (beBytes _ n)]
  simp only [List.mem_cons, List.not_mem_nil, or_false] at h
  refine .mk ?_ (shortestInfo_lt n) (length_beBytes _ n) ?_ <;> rcases h with rfl | rfl | rfl <;> simp

theorem isScalar_string {major : UInt8} (h : major ∈ [2, 3]) {s : Bytes} (hl : s.length < 2 ^ 64) :
    IsScalar (head major s.length ++ s) := by
  rw [head_eq, List.cons_append]
  refine .mk ?_ (shortestInfo_lt _) (length_beBytes _ _) (by rw [if_pos h, argument_head hl])
  simp only [List.mem_cons, List.not_mem_nil, or_false] at h
  rcases h with rfl | rfl <;> simp

theorem FloatBits.info_mem (x : FloatBits) : 25 ≤ x.info ∧ x.info ≤ 27 := by
  cases x <;> simp [info]

theorem FloatBits.length_argBytes (x : FloatBits) : x.argBytes.length = argumentWidth x.info := by
  cases x <;> simp [argBytes, info, argumentWidth]

theorem FloatBits.isScalar_bytes (x : FloatBits) : IsScalar x.bytes := by
  have hx := x.info_mem
  rw [bytes, ← List.append_nil x.argBytes]
  exact .mk (by simp) (by omega) x.length_argBytes rfl

theorem FloatBits.bytes_inj {x y : FloatBits} (h : x.bytes = y.bytes) : x = y := by
  have hx := x.info_mem
  have hy := y.info_mem
  rw [bytes, bytes, ← List.append_nil x.argBytes, ← List.append_nil y.argBytes] at h
  obtain ⟨-, hinfo, harg, -⟩ := initial_append_inj (by decide) (by decide) (by omega) (by omega) x.length_argBytes
    y.length_argBytes h
  cases x with
  | half bits =>
    cases y with
    | half bits' => exact congrArg half (UInt16.toNat_inj.1 (beBytes_inj bits.toNat_lt bits'.toNat_lt harg))
    | _ => cases hinfo
  | single bits =>
    cases y with
    | single bits' => exact congrArg single (UInt32.toNat_inj.1 (beBytes_inj bits.toNat_lt bits'.toNat_lt harg))
    | _ => cases hinfo
  | double bits =>
    cases y with
    | double bits' => exact congrArg double (UInt64.toNat_inj.1 (beBytes_inj bits.toNat_lt bits'.toNat_lt harg))
    | _ => cases hinfo

section

variable {F : Type} {floatBits : F → Option FloatBits}

theorem Scalar.isScalar_of_encode {x : Scalar F} {b : Bytes} (h : x.encode floatBits = some b) : IsScalar b := by
  cases x with
  | int n =>
    rw [encode] at h
    split_ifs at h
    all_goals
      obtain ⟨-, rfl⟩ := head?_eq_some.1 h
      exact isScalar_head (by simp) _
  | bytes s =>
    obtain ⟨hl, rfl⟩ := string_eq_some.1 h
    exact isScalar_string (by simp) hl
  | text s =>
    obtain ⟨hl, rfl⟩ := string_eq_some.1 h
    exact isScalar_string (by simp) hl
  | simple n =>
    obtain ⟨-, rfl⟩ := simple_eq_some.1 h
    exact isScalar_head (by simp) n
  | float x =>
    obtain ⟨bits, -, rfl⟩ := Option.map_eq_some_iff.1 h
    exact bits.isScalar_bytes

/-- A simple value is no float. -/
theorem head_ne_bytes {n : Nat} (hn : n < 24) (x : FloatBits) : head 7 n ≠ x.bytes := by
  intro h
  have hx := x.info_mem
  rw [head, if_pos hn, FloatBits.bytes] at h
  obtain ⟨-, hinfo⟩ := initial_inj (by decide) (by decide) (by omega) (by omega) (List.cons.inj h).1
  omega

/-- The major type of a scalar. -/
def Scalar.major : Scalar F → UInt8
  | int n => if 0 ≤ n then 0 else 1
  | bytes _ => 2
  | text _ => 3
  | simple _ => 7
  | float _ => 7

theorem Scalar.major_lt (x : Scalar F) : x.major < 8 := by
  cases x with
  | int n =>
    rw [major]
    split_ifs <;> decide
  | _ => exact of_decide_eq_true rfl

theorem Scalar.eq_int_of_major {x : Scalar F} {n : Int} (h : x.major = (int n : Scalar F).major) : ∃ m, x = int m := by
  have hn : (int n : Scalar F).major = 0 ∨ (int n : Scalar F).major = 1 := by
    rw [major]
    split_ifs <;> simp
  cases x with
  | int m => exact ⟨m, rfl⟩
  | _ => rcases hn with hn | hn <;> cases h.trans hn

theorem Scalar.exists_initial {x : Scalar F} {b : Bytes} (h : x.encode floatBits = some b) :
    ∃ info rest, info < 28 ∧ b = initial x.major info :: rest := by
  cases x with
  | int n =>
    rw [encode] at h
    rw [major]
    split_ifs at h ⊢
    all_goals
      obtain ⟨-, rfl⟩ := head?_eq_some.1 h
      exact ⟨_, _, shortestInfo_lt _, head_eq _ _⟩
  | bytes s =>
    obtain ⟨-, rfl⟩ := string_eq_some.1 h
    exact ⟨_, _, shortestInfo_lt _, congrArg (· ++ s) (head_eq _ _)⟩
  | text s =>
    obtain ⟨-, rfl⟩ := string_eq_some.1 h
    exact ⟨_, _, shortestInfo_lt _, congrArg (· ++ utf8 s) (head_eq _ _)⟩
  | simple n =>
    obtain ⟨-, rfl⟩ := simple_eq_some.1 h
    exact ⟨_, _, shortestInfo_lt _, head_eq _ _⟩
  | float x =>
    obtain ⟨bits, -, rfl⟩ := Option.map_eq_some_iff.1 h
    exact ⟨_, _, by have := bits.info_mem; omega, rfl⟩

theorem head_inj {major : UInt8} (hm : major < 8) {n n' : Nat} (hn : n < 2 ^ 64) (hn' : n' < 2 ^ 64)
    (h : head major n = head major n') : n = n' :=
  (head_append_inj hm hm hn hn' (congrArg (· ++ []) h)).2.1

theorem string_inj {major : UInt8} (hm : major < 8) {s t b : Bytes} (hs : (head? major s.length).map (· ++ s) = some b)
    (ht : (head? major t.length).map (· ++ t) = some b) : s = t := by
  obtain ⟨hl, rfl⟩ := string_eq_some.1 hs
  obtain ⟨hl', hb⟩ := string_eq_some.1 ht
  exact (head_append_inj hm hm hl hl' hb).2.2

theorem int_inj {n m : Int} {b : Bytes} (hn : (Scalar.int n).encode floatBits = some b)
    (hm : (Scalar.int m).encode floatBits = some b) : n = m := by
  rw [Scalar.encode] at hn hm
  split_ifs at hn hm
  all_goals
    obtain ⟨hl, rfl⟩ := head?_eq_some.1 hn
    obtain ⟨hl', hb⟩ := head?_eq_some.1 hm
    have hi := head_append_inj (by decide) (by decide) hl hl' (congrArg (· ++ []) hb)
  · omega
  · exact absurd hi.1 (by decide)
  · exact absurd hi.1 (by decide)
  · omega

/-- **Different scalars have different bytes**, as long as different numbers are different floats. -/
theorem Scalar.encode_inj (hfloat : ∀ x y bits, floatBits x = some bits → floatBits y = some bits → x = y)
    {x y : Scalar F} {b : Bytes} (hx : x.encode floatBits = some b) (hy : y.encode floatBits = some b) : x = y := by
  have hmajor : x.major = y.major := by
    obtain ⟨i, r, hi, rfl⟩ := exists_initial hx
    obtain ⟨j, t, hj, heq⟩ := exists_initial hy
    exact (initial_inj x.major_lt y.major_lt (by omega) (by omega) (List.cons.inj heq).1).1
  cases x with
  | int n =>
    obtain ⟨m, rfl⟩ := eq_int_of_major hmajor.symm
    exact congrArg int (int_inj hx hy)
  | bytes s =>
    cases y with
    | bytes t => exact congrArg bytes (string_inj (by decide) hx hy)
    | int m => exact nomatch eq_int_of_major hmajor
    | _ => cases hmajor
  | text s =>
    cases y with
    | text t => exact congrArg text (utf8_inj (string_inj (by decide) hx hy))
    | int m => exact nomatch eq_int_of_major hmajor
    | _ => cases hmajor
  | simple n =>
    cases y with
    | simple m =>
      obtain ⟨hn, rfl⟩ := simple_eq_some.1 hx
      obtain ⟨hm, hb⟩ := simple_eq_some.1 hy
      exact congrArg simple (head_inj (by decide) (by omega) (by omega) hb)
    | float x =>
      obtain ⟨hn, rfl⟩ := simple_eq_some.1 hx
      obtain ⟨bits, -, hb⟩ := Option.map_eq_some_iff.1 hy
      exact absurd hb.symm (head_ne_bytes hn bits)
    | int m => exact nomatch eq_int_of_major hmajor
    | _ => cases hmajor
  | float x =>
    obtain ⟨bits, hbits, rfl⟩ := Option.map_eq_some_iff.1 hx
    cases y with
    | simple m =>
      obtain ⟨hm, hb⟩ := simple_eq_some.1 hy
      exact absurd hb.symm (head_ne_bytes hm bits)
    | float y =>
      obtain ⟨bits', hbits', hb⟩ := Option.map_eq_some_iff.1 hy
      obtain rfl := FloatBits.bytes_inj hb
      exact congrArg float (hfloat x y bits' hbits hbits')
    | int m => exact nomatch eq_int_of_major hmajor
    | _ => cases hmajor

end

/-! ## Items -/

inductive Item (A : Type) where
  | atom (a : A)
  | array (items : List (Item A))
  | map (entries : List (Item A × Item A))

variable {A : Type}

/-- Induction on an item: on the items of an array, and on the keys and values of a map. -/
theorem Item.induct {motive : Item A → Prop} (atom : ∀ a, motive (.atom a))
    (array : ∀ items, (∀ x ∈ items, motive x) → motive (.array items))
    (map : ∀ entries, (∀ e ∈ entries, motive e.1 ∧ motive e.2) → motive (.map entries)) : ∀ x, motive x
  | .atom a => atom a
  | .array items => array items fun x hx =>
    have _ := List.sizeOf_lt_of_mem hx
    induct atom array map x
  | .map entries => map entries fun (k, v) he =>
    have _ := List.sizeOf_lt_of_mem he
    ⟨induct atom array map k, induct atom array map v⟩
termination_by x => sizeOf x
decreasing_by
  all_goals simp_all
  all_goals omega

/-! ## Encoding -/

/-- The order of entries, by their encoded keys. -/
def keyLe (le : Bytes → Bytes → Prop) (e f : Bytes × Bytes) : Prop := le e.1 f.1

/-- The keys and values of the entries, one after the other. -/
def interleave (entries : List (Bytes × Bytes)) : List Bytes := entries.flatMap fun e => [e.1, e.2]

def arrayBytes (items : List Bytes) : Option Bytes := (head? 4 items.length).map (· ++ items.flatten)

section

variable (atom : A → Option Bytes) (le : Bytes → Bytes → Prop) [DecidableRel le]

instance : DecidableRel (keyLe le) := fun e f => inferInstanceAs (Decidable (le e.1 f.1))

def mapBytes (entries : List (Bytes × Bytes)) : Option Bytes :=
  if (entries.map Prod.fst).Nodup then
    (head? 5 entries.length).map (· ++ (interleave (entries.insertionSort (keyLe le))).flatten)
  else none

mutual

/-- The bytes of an item, if there are any: no two keys of a map have one encoding. -/
def Item.encode : Item A → Option Bytes
  | .atom a => atom a
  | .array items => (encodeAll items).bind arrayBytes
  | .map entries => (encodeEntries entries).bind (mapBytes le)

def Item.encodeAll : List (Item A) → Option (List Bytes)
  | [] => some []
  | x :: items => do
    let b ← encode x
    let bs ← encodeAll items
    return b :: bs

def Item.encodeEntries : List (Item A × Item A) → Option (List (Bytes × Bytes))
  | [] => some []
  | e :: entries => do
    let b ← encodeEntry e
    let bs ← encodeEntries entries
    return b :: bs

def Item.encodeEntry : Item A × Item A → Option (Bytes × Bytes)
  | (k, v) => do
    let key ← encode k
    let value ← encode v
    return (key, value)

end

end

/-! ## What has an encoding -/

/-- The bytes of an entry are those of its key and of its value. -/
def Item.EntryBytes (atom : A → Option Bytes) (le : Bytes → Bytes → Prop) [DecidableRel le] (e : Item A × Item A)
    (b : Bytes × Bytes) : Prop :=
  e.1.encode atom le = some b.1 ∧ e.2.encode atom le = some b.2

variable {atom : A → Option Bytes} {le : Bytes → Bytes → Prop} [DecidableRel le]

theorem Item.encodeAll_eq_some {items : List (Item A)} {bs : List Bytes} :
    encodeAll atom le items = some bs ↔ List.Forall₂ (fun x b => x.encode atom le = some b) items bs := by
  induction items generalizing bs with
  | nil => simp [encodeAll, eq_comm]
  | cons x items ih =>
    simp only [encodeAll, Option.bind_eq_bind, Option.bind_eq_some_iff, Option.pure_def, Option.some.injEq, ih,
      List.forall₂_cons_left_iff]
    constructor
    · intro h
      obtain ⟨b, hb, bs, hbs, rfl⟩ := h
      exact ⟨b, bs, hb, hbs, rfl⟩
    · intro h
      obtain ⟨b, bs, hb, hbs, rfl⟩ := h
      exact ⟨b, hb, bs, hbs, rfl⟩

theorem Item.encodeEntry_eq_some {e : Item A × Item A} {b : Bytes × Bytes} :
    encodeEntry atom le e = some b ↔ EntryBytes atom le e b := by
  obtain ⟨k, v⟩ := e
  simp only [encodeEntry, EntryBytes, Option.bind_eq_bind, Option.bind_eq_some_iff, Option.pure_def, Option.some.injEq]
  constructor
  · intro h
    obtain ⟨bk, hk, bv, hv, rfl⟩ := h
    exact ⟨hk, hv⟩
  · intro h
    exact ⟨b.1, h.1, b.2, h.2, rfl⟩

theorem Item.encodeEntries_eq_some {entries : List (Item A × Item A)} {bs : List (Bytes × Bytes)} :
    encodeEntries atom le entries = some bs ↔ List.Forall₂ (EntryBytes atom le) entries bs := by
  induction entries generalizing bs with
  | nil => simp [encodeEntries, eq_comm]
  | cons e entries ih =>
    simp only [encodeEntries, Option.bind_eq_bind, Option.bind_eq_some_iff, Option.pure_def, Option.some.injEq, ih,
      encodeEntry_eq_some, List.forall₂_cons_left_iff]
    constructor
    · intro h
      obtain ⟨b, hb, bs, hbs, rfl⟩ := h
      exact ⟨b, bs, hb, hbs, rfl⟩
    · intro h
      obtain ⟨b, bs, hb, hbs, rfl⟩ := h
      exact ⟨b, hb, bs, hbs, rfl⟩

/-- The bytes of an array. -/
theorem Item.encode_array {items : List (Item A)} {b : Bytes} :
    (Item.array items).encode atom le = some b ↔
      ∃ bs, List.Forall₂ (fun x b => x.encode atom le = some b) items bs ∧ bs.length < 2 ^ 64 ∧
        b = head 4 bs.length ++ bs.flatten := by
  simp only [encode, Option.bind_eq_some_iff, encodeAll_eq_some, arrayBytes, Option.map_eq_some_iff, head?_eq_some]
  constructor
  · intro h
    obtain ⟨bs, hbs, _, ⟨hl, rfl⟩, rfl⟩ := h
    exact ⟨bs, hbs, hl, rfl⟩
  · intro h
    obtain ⟨bs, hbs, hl, rfl⟩ := h
    exact ⟨bs, hbs, _, ⟨hl, rfl⟩, rfl⟩

/-- The bytes of a map. -/
theorem Item.encode_map {entries : List (Item A × Item A)} {b : Bytes} :
    (Item.map entries).encode atom le = some b ↔
      ∃ bs, List.Forall₂ (EntryBytes atom le) entries bs ∧ (bs.map Prod.fst).Nodup ∧ bs.length < 2 ^ 64 ∧
        b = head 5 bs.length ++ (interleave (bs.insertionSort (keyLe le))).flatten := by
  simp only [encode, Option.bind_eq_some_iff, encodeEntries_eq_some, mapBytes, Option.ite_none_right_eq_some,
    Option.map_eq_some_iff, head?_eq_some]
  constructor
  · intro h
    obtain ⟨bs, hbs, hn, _, ⟨hl, rfl⟩, rfl⟩ := h
    exact ⟨bs, hbs, hn, hl, rfl⟩
  · intro h
    obtain ⟨bs, hbs, hn, hl, rfl⟩ := h
    exact ⟨bs, hbs, hn, _, ⟨hl, rfl⟩, rfl⟩

end Base.Cbor
