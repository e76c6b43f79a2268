import ProofOfThought.Base.Bytes

/-!
# Base64

The standard alphabet with canonical padding: three bytes to four characters, the last group padded with `=`. The
decoder rejects any other character, missing or misplaced padding, and padding that hides nonzero bits. It reads back
what the encoder writes (`decode_encode`).
-/

namespace Base.Base64

def alphabet : List Char := "ABCDEFGHIJKLMNOPQRSTUVWXYZabcdefghijklmnopqrstuvwxyz0123456789+/".toList

/-- The character of a six-bit value. -/
def symbol (v : Nat) : Char := alphabet.getD v '='

/-- The six-bit value of a character. -/
def value (c : Char) : Option Nat := alphabet.idxOf? c

theorem value_symbol {v : Nat} (h : v < 64) : value (symbol v) = some v := by
  revert h
  revert v
  decide +kernel

theorem symbol_ne_pad {v : Nat} (h : v < 64) : symbol v ≠ '=' := by
  revert h
  revert v
  decide +kernel

/-! ## Encoding -/

def encode : Bytes → List Char
  | [] => []
  | [x] => [symbol (x.toNat / 4), symbol (x.toNat % 4 * 16), '=', '=']
  | [x, y] => [symbol (x.toNat / 4), symbol (x.toNat % 4 * 16 + y.toNat / 16), symbol (y.toNat % 16 * 4), '=']
  | x :: y :: z :: rest =>
    symbol (x.toNat / 4) :: symbol (x.toNat % 4 * 16 + y.toNat / 16) :: symbol (y.toNat % 16 * 4 + z.toNat / 64) ::
      symbol (z.toNat % 64) :: encode rest

/-! ## Decoding -/

/-- A group without padding. -/
def decodeGroup (a b c d : Char) : Option Bytes := do
  let a ← value a
  let b ← value b
  let c ← value c
  let d ← value d
  return [UInt8.ofNat (a * 4 + b / 16), UInt8.ofNat (b % 16 * 16 + c / 4), UInt8.ofNat (c % 4 * 64 + d)]

/-- The last group, which may be padded; the bits under the padding are zero. -/
def decodeLast (a b c d : Char) : Option Bytes :=
  if d = '=' then
    if c = '=' then do
      let a ← value a
      let b ← value b
      if b % 16 = 0 then some [UInt8.ofNat (a * 4 + b / 16)] else none
    else do
      let a ← value a
      let b ← value b
      let c ← value c
      if c % 4 = 0 then some [UInt8.ofNat (a * 4 + b / 16), UInt8.ofNat (b % 16 * 16 + c / 4)] else none
  else decodeGroup a b c d

def decode : List Char → Option Bytes
  | [] => some []
  | a :: b :: c :: d :: rest =>
    if rest = [] then decodeLast a b c d
    else do
      let group ← decodeGroup a b c d
      let bytes ← decode rest
      return group ++ bytes
  | _ => none

/-! ## Round trip -/

/-- Each byte is put together again from the parts it was cut into. -/
theorem decodeGroup_symbols (x y z : UInt8) :
    decodeGroup (symbol (x.toNat / 4)) (symbol (x.toNat % 4 * 16 + y.toNat / 16))
      (symbol (y.toNat % 16 * 4 + z.toNat / 64)) (symbol (z.toNat % 64)) = some [x, y, z] := by
  have hx := x.toNat_lt
  have hy := y.toNat_lt
  have hz := z.toNat_lt
  unfold decodeGroup
  rw [value_symbol (by omega), value_symbol (by omega), value_symbol (by omega), value_symbol (by omega)]
  have h1 : x.toNat / 4 * 4 + (x.toNat % 4 * 16 + y.toNat / 16) / 16 = x.toNat := by omega
  have h2 : (x.toNat % 4 * 16 + y.toNat / 16) % 16 * 16 + (y.toNat % 16 * 4 + z.toNat / 64) / 4 = y.toNat := by omega
  have h3 : (y.toNat % 16 * 4 + z.toNat / 64) % 4 * 64 + z.toNat % 64 = z.toNat := by omega
  simp only [Option.bind_eq_bind, Option.bind_some, h1, h2, h3, UInt8.ofNat_toNat]
  rfl

theorem decodeLast_one (x : UInt8) :
    decodeLast (symbol (x.toNat / 4)) (symbol (x.toNat % 4 * 16)) '=' '=' = some [x] := by
  have hx := x.toNat_lt
  unfold decodeLast
  rw [if_pos rfl, if_pos rfl, value_symbol (by omega), value_symbol (by omega)]
  have h0 : x.toNat % 4 * 16 % 16 = 0 := by omega
  have h1 : x.toNat / 4 * 4 + x.toNat % 4 * 16 / 16 = x.toNat := by omega
  simp only [Option.bind_eq_bind, Option.bind_some, h0, h1, if_true, UInt8.ofNat_toNat]

theorem decodeLast_two (x y : UInt8) :
    decodeLast (symbol (x.toNat / 4)) (symbol (x.toNat % 4 * 16 + y.toNat / 16)) (symbol (y.toNat % 16 * 4)) '=' =
      some [x, y] := by
  have hx := x.toNat_lt
  have hy := y.toNat_lt
  unfold decodeLast
  rw [if_pos rfl, if_neg (symbol_ne_pad (by omega)), value_symbol (by omega), value_symbol (by omega),
    value_symbol (by omega)]
  have h0 : y.toNat % 16 * 4 % 4 = 0 := by omega
  have h1 : x.toNat / 4 * 4 + (x.toNat % 4 * 16 + y.toNat / 16) / 16 = x.toNat := by omega
  have h2 : (x.toNat % 4 * 16 + y.toNat / 16) % 16 * 16 + y.toNat % 16 * 4 / 4 = y.toNat := by omega
  simp only [Option.bind_eq_bind, Option.bind_some, h0, h1, h2, if_true, UInt8.ofNat_toNat]

/-- **The decoder reads back what the encoder writes.** -/
theorem decode_encode (bs : Bytes) : decode (encode bs) = some bs := by
  induction bs using encode.induct with
  | case1 => rfl
  | case2 x => exact decodeLast_one x
  | case3 x y => exact decodeLast_two x y
  | case4 x y z rest ih =>
    rw [encode, decode, ih, decodeGroup_symbols]
    split
    · -- the group is the last one, and it is full
      rename_i he
      have hrest : rest = [] := by
        rw [he] at ih
        exact (Option.some.inj ih).symm
      have hz := z.toNat_lt
      rw [decodeLast, if_neg (symbol_ne_pad (by omega)), decodeGroup_symbols, hrest]
    · rfl

/-- What the encoder writes holds no white space and no other character outside the alphabet and the padding. -/
theorem mem_encode {bs : Bytes} {c : Char} (h : c ∈ encode bs) : c ∈ '=' :: alphabet := by
  have hsym : ∀ v, symbol v ∈ '=' :: alphabet := by
    intro v
    unfold symbol
    rw [List.getD_eq_getElem?_getD]
    cases hv : alphabet[v]? with
    | none => exact List.mem_cons_self
    | some c => exact List.mem_cons_of_mem _ (List.mem_of_getElem? hv)
  induction bs using encode.induct with
  | case1 => cases h
  | case2 x =>
    simp only [encode, List.mem_cons, List.not_mem_nil, or_false] at h
    rcases h with rfl | rfl | rfl | rfl
    · exact hsym _
    · exact hsym _
    · exact List.mem_cons_self
    · exact List.mem_cons_self
  | case3 x y =>
    simp only [encode, List.mem_cons, List.not_mem_nil, or_false] at h
    rcases h with rfl | rfl | rfl | rfl
    · exact hsym _
    · exact hsym _
    · exact hsym _
    · exact List.mem_cons_self
  | case4 x y z rest ih =>
    simp only [encode, List.mem_cons] at h
    rcases h with rfl | rfl | rfl | rfl | h
    · exact hsym _
    · exact hsym _
    · exact hsym _
    · exact hsym _
    · exact ih h

end Base.Base64
