import ProofOfThought.Base.Bytes

/-!
# Anchor discriminators

The compile-time SHA-256 of `types.rs` and the discriminators it computes. The buffer has 128 bytes; an input that
does not fit is an index out of range, which stops the compilation.
-/

namespace ProofOfThought.Watcher

open Base

/-- The round constants. -/
def K : List UInt32 := [
  0x428a2f98, 0x71374491, 0xb5c0fbcf, 0xe9b5dba5, 0x3956c25b, 0x59f111f1, 0x923f82a4, 0xab1c5ed5,
  0xd807aa98, 0x12835b01, 0x243185be, 0x550c7dc3, 0x72be5d74, 0x80deb1fe, 0x9bdc06a7, 0xc19bf174,
  0xe49b69c1, 0xefbe4786, 0x0fc19dc6, 0x240ca1cc, 0x2de92c6f, 0x4a7484aa, 0x5cb0a9dc, 0x76f988da,
  0x983e5152, 0xa831c66d, 0xb00327c8, 0xbf597fc7, 0xc6e00bf3, 0xd5a79147, 0x06ca6351, 0x14292967,
  0x27b70a85, 0x2e1b2138, 0x4d2c6dfc, 0x53380d13, 0x650a7354, 0x766a0abb, 0x81c2c92e, 0x92722c85,
  0xa2bfe8a1, 0xa81a664b, 0xc24b8b70, 0xc76c51a3, 0xd192e819, 0xd6990624, 0xf40e3585, 0x106aa070,
  0x19a4c116, 0x1e376c08, 0x2748774c, 0x34b0bcb5, 0x391c0cb3, 0x4ed8aa4a, 0x5b9cca4f, 0x682e6ff3,
  0x748f82ee, 0x78a5636f, 0x84c87814, 0x8cc70208, 0x90befffa, 0xa4506ceb, 0xbef9a3f7, 0xc67178f2]

def rotateRight (x : UInt32) (n : UInt32) : UInt32 := x >>> n ||| x <<< (32 - n)

/-- Eight words: the chaining value, and the working variables of a block. -/
structure Words where
  a : UInt32
  b : UInt32
  c : UInt32
  d : UInt32
  e : UInt32
  f : UInt32
  g : UInt32
  hh : UInt32

def initial : Words :=
  ⟨0x6a09e667, 0xbb67ae85, 0x3c6ef372, 0xa54ff53a, 0x510e527f, 0x9b05688c, 0x1f83d9ab, 0x5be0cd19⟩

/-- The zeroed buffer with the input, `0x80` and the length, and how much of it is hashed. -/
def padBuffer (input : Bytes) : Option (Bytes × Nat) :=
  let len := input.length
  if len < 128 then
    let buf := input ++ 0x80 :: List.replicate (127 - len) 0
    let bitLen := UInt64.ofNat len * 8
    let paddedLen := if len < 56 then 64 else 128
    -- the length is written over whatever stands in the last eight bytes
    some ((List.range 8).foldl (fun buf j => buf.set (paddedLen - 1 - j) (UInt8.ofNat (bitLen.toNat / 256 ^ j))) buf,
      paddedLen)
  else none

/-- The big-endian words of a block. -/
def blockWords : Bytes → List UInt32
  | b0 :: b1 :: b2 :: b3 :: rest =>
    (b0.toUInt32 <<< 24 ||| b1.toUInt32 <<< 16 ||| b2.toUInt32 <<< 8 ||| b3.toUInt32) :: blockWords rest
  | _ => []

/-- `n` more words of the message schedule. -/
def extend : Nat → List UInt32 → List UInt32
  | 0, w => w
  | n + 1, w =>
    let t := w.length
    let x := w.getD (t - 15) 0
    let y := w.getD (t - 2) 0
    let s0 := rotateRight x 7 ^^^ rotateRight x 18 ^^^ x >>> 3
    let s1 := rotateRight y 17 ^^^ rotateRight y 19 ^^^ y >>> 10
    extend n (w ++ [w.getD (t - 16) 0 + s0 + w.getD (t - 7) 0 + s1])

def round (v : Words) (kw : UInt32 × UInt32) : Words :=
  let s1 := rotateRight v.e 6 ^^^ rotateRight v.e 11 ^^^ rotateRight v.e 25
  let ch := (v.e &&& v.f) ^^^ (~~~v.e &&& v.g)
  let temp1 := v.hh + s1 + ch + kw.1 + kw.2
  let s0 := rotateRight v.a 2 ^^^ rotateRight v.a 13 ^^^ rotateRight v.a 22
  let maj := (v.a &&& v.b) ^^^ (v.a &&& v.c) ^^^ (v.b &&& v.c)
  let temp2 := s0 + maj
  { a := temp1 + temp2, b := v.a, c := v.b, d := v.c, e := v.d + temp1, f := v.e, g := v.f, hh := v.g }

/-- One block of 64 bytes. -/
def compress (h : Words) (block : Bytes) : Words :=
  let v := (K.zip (extend 48 (blockWords block))).foldl round h
  { a := h.a + v.a, b := h.b + v.b, c := h.c + v.c, d := h.d + v.d, e := h.e + v.e, f := h.f + v.f, g := h.g + v.g,
    hh := h.hh + v.hh }

/-- `to_be_bytes`. -/
def beBytes (x : UInt32) : Bytes := [(x >>> 24).toUInt8, (x >>> 16).toUInt8, (x >>> 8).toUInt8, x.toUInt8]

def Words.digest (h : Words) : List.Vector UInt8 32 :=
  ⟨beBytes h.a ++ beBytes h.b ++ beBytes h.c ++ beBytes h.d ++ beBytes h.e ++ beBytes h.f ++ beBytes h.g ++
    beBytes h.hh, rfl⟩

def constSha256 (input : Bytes) : Option (List.Vector UInt8 32) := do
  let (buf, paddedLen) ← padBuffer input
  let h := compress initial (buf.take 64)
  let h := if paddedLen = 128 then compress h (buf.drop 64) else h
  return h.digest

/-- The first eight bytes of the digest. -/
def computeAnchorDiscriminator (input : Bytes) : Option (List.Vector UInt8 8) :=
  (constSha256 input).map fun digest => ⟨digest.toList.take 8, by simp⟩

def THOUGHT_SUBMITTED_DISCRIMINATOR : List.Vector UInt8 8 :=
  (computeAnchorDiscriminator (utf8 "event:ThoughtSubmitted")).get (by decide +kernel)

theorem challenge_isSome : (computeAnchorDiscriminator (utf8 "global:challenge")).isSome = true := by decide +kernel

def CHALLENGE_IX_DISCRIMINATOR : List.Vector UInt8 8 :=
  (computeAnchorDiscriminator (utf8 "global:challenge")).get challenge_isSome

end ProofOfThought.Watcher
