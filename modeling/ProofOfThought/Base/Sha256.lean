import ProofOfThought.Base.Bytes

/-!
# SHA-256

The hash of FIPS 180-4, on messages of whole bytes that are shorter than `2 ^ 61`: a message is padded to blocks of 64
bytes, and the blocks are compressed one after the other.
-/

namespace Base.Sha256

/-! ## Functions and constants -/

def rotr (n x : UInt32) : UInt32 := x >>> n ||| x <<< (32 - n)

def ch (x y z : UInt32) : UInt32 := (x &&& y) ^^^ (~~~x &&& z)

def maj (x y z : UInt32) : UInt32 := (x &&& y) ^^^ (x &&& z) ^^^ (y &&& z)

def bigSigma0 (x : UInt32) : UInt32 := rotr 2 x ^^^ rotr 13 x ^^^ rotr 22 x

def bigSigma1 (x : UInt32) : UInt32 := rotr 6 x ^^^ rotr 11 x ^^^ rotr 25 x

def sigma0 (x : UInt32) : UInt32 := rotr 7 x ^^^ rotr 18 x ^^^ x >>> 3

def sigma1 (x : UInt32) : UInt32 := rotr 17 x ^^^ rotr 19 x ^^^ x >>> 10

/-- The first 32 bits of the fractional part of the cube root of each of the first 64 primes. -/
def constants : List UInt32 := [
  0x428a2f98, 0x71374491, 0xb5c0fbcf, 0xe9b5dba5, 0x3956c25b, 0x59f111f1, 0x923f82a4, 0xab1c5ed5,
  0xd807aa98, 0x12835b01, 0x243185be, 0x550c7dc3, 0x72be5d74, 0x80deb1fe, 0x9bdc06a7, 0xc19bf174,
  0xe49b69c1, 0xefbe4786, 0x0fc19dc6, 0x240ca1cc, 0x2de92c6f, 0x4a7484aa, 0x5cb0a9dc, 0x76f988da,
  0x983e5152, 0xa831c66d, 0xb00327c8, 0xbf597fc7, 0xc6e00bf3, 0xd5a79147, 0x06ca6351, 0x14292967,
  0x27b70a85, 0x2e1b2138, 0x4d2c6dfc, 0x53380d13, 0x650a7354, 0x766a0abb, 0x81c2c92e, 0x92722c85,
  0xa2bfe8a1, 0xa81a664b, 0xc24b8b70, 0xc76c51a3, 0xd192e819, 0xd6990624, 0xf40e3585, 0x106aa070,
  0x19a4c116, 0x1e376c08, 0x2748774c, 0x34b0bcb5, 0x391c0cb3, 0x4ed8aa4a, 0x5b9cca4f, 0x682e6ff3,
  0x748f82ee, 0x78a5636f, 0x84c87814, 0x8cc70208, 0x90befffa, 0xa4506ceb, 0xbef9a3f7, 0xc67178f2]

/-- The constants are those parts. -/
example : ([2, 3, 5, 7, 11, 13, 17, 19, 23, 29, 31, 37, 41, 43, 47, 53, 59, 61, 67, 71, 73, 79, 83, 89, 97, 101, 103,
    107, 109, 113, 127, 131, 137, 139, 149, 151, 157, 163, 167, 173, 179, 181, 191, 193, 197, 199, 211, 223, 227, 229,
    233, 239, 241, 251, 257, 263, 269, 271, 277, 281, 283, 293, 307, 311].zip constants).all fun e =>
      (List.range 7).any fun r => (r * 2 ^ 32 + e.2.toNat) ^ 3 ≤ e.1 * 2 ^ 96 ∧
        e.1 * 2 ^ 96 < (r * 2 ^ 32 + e.2.toNat + 1) ^ 3 := by
  decide +kernel

/-- The eight words of a hash value, and the working variables. -/
structure State where
  a : UInt32
  b : UInt32
  c : UInt32
  d : UInt32
  e : UInt32
  f : UInt32
  g : UInt32
  h : UInt32

/-- The first 32 bits of the fractional part of the square root of each of the first eight primes. -/
def initial : State :=
  ⟨0x6a09e667, 0xbb67ae85, 0x3c6ef372, 0xa54ff53a, 0x510e527f, 0x9b05688c, 0x1f83d9ab, 0x5be0cd19⟩

/-! ## Padding -/

/-- The message, a one, zeros up to the last eight bytes of a block, and the length in bits. -/
def pad (m : Bytes) : Bytes :=
  m ++ 0x80 :: (List.replicate ((119 - m.length % 64) % 64) 0 ++ (leBytes 8 (8 * m.length)).reverse)

/-- The blocks of a padded message. -/
def blocks (bs : Bytes) : List Bytes := (List.range (bs.length / 64)).map fun i => (bs.drop (64 * i)).take 64

/-! ## Compression -/

/-- A word of a block, the most significant byte first. -/
def word (block : Bytes) (t : Nat) : UInt32 := UInt32.ofNat (ofLe ((block.drop (4 * t)).take 4).reverse)

/-- The message schedule. -/
def schedule (M : Nat → UInt32) : Nat → UInt32
  | t + 16 => sigma1 (schedule M (t + 14)) + schedule M (t + 9) + sigma0 (schedule M (t + 1)) + schedule M t
  | t => M t

def step (k w : UInt32) (v : State) : State :=
  let t1 := v.h + bigSigma1 v.e + ch v.e v.f v.g + k + w
  let t2 := bigSigma0 v.a + maj v.a v.b v.c
  { a := t1 + t2, b := v.a, c := v.b, d := v.c, e := v.d + t1, f := v.e, g := v.f, h := v.g }

def compress (H : State) (M : Nat → UInt32) : State :=
  let v := (List.range 64).foldl (fun v t => step (constants.getD t 0) (schedule M t) v) H
  { a := H.a + v.a, b := H.b + v.b, c := H.c + v.c, d := H.d + v.d, e := H.e + v.e, f := H.f + v.f, g := H.g + v.g,
    h := H.h + v.h }

/-! ## The hash -/

/-- The hash value after some blocks. -/
def hashBlocks (bs : List Bytes) : State := bs.foldl (fun H block => compress H (word block)) initial

def State.digest (H : State) : List.Vector UInt8 32 :=
  ⟨[H.a, H.b, H.c, H.d, H.e, H.f, H.g, H.h].flatMap fun w => (leBytes 4 w.toNat).reverse, by simp⟩

def sha256 (m : Bytes) : List.Vector UInt8 32 := (hashBlocks (blocks (pad m))).digest

example : (sha256 (utf8 "abc")).toList.take 8 = [0xba, 0x78, 0x16, 0xbf, 0x8f, 0x01, 0xcf, 0xea] := by decide +kernel

/-! ## Rules -/

variable {m : Bytes} {M : Nat → UInt32} {t : Nat}

theorem schedule_of_lt (h : t < 16) : schedule M t = M t := by
  rw [schedule]
  intro _ hx
  omega

theorem schedule_of_le (h : 16 ≤ t) : schedule M t =
    sigma1 (schedule M (t - 2)) + schedule M (t - 7) + sigma0 (schedule M (t - 15)) + schedule M (t - 16) := by
  obtain ⟨s, rfl⟩ := Nat.exists_eq_add_of_le' h
  rw [schedule]
  rfl

/-- A padded message is a message of whole blocks. -/
theorem length_pad (m : Bytes) : (pad m).length = 64 * ((m.length + 72) / 64) := by
  simp [pad]
  omega

end Base.Sha256
