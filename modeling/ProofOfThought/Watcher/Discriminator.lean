import ProofOfThought.Base.Sha256
import ProofOfThought.Program.Entry
import ProofOfThought.Watcher.Sha256

/-!
# The compile-time SHA-256

`const_sha256` against SHA-256. Its schedule, rounds and output are the standard's (`compress_state`), and so is its
padding as long as that fits into two blocks, which is up to 119 bytes (`constSha256_exact_iff`). The buffer also admits
120 to 127 bytes, and there the length is written over the end of the input.
-/

namespace ProofOfThought.Watcher

open Base
open Base.Sha256 (State word schedule schedule_of_lt schedule_of_le pad sha256 blocks hashBlocks)

/-! ## Compression -/

/-- The words as a hash value. -/
def Words.state (v : Words) : State := ⟨v.a, v.b, v.c, v.d, v.e, v.f, v.g, v.hh⟩

theorem round_state (v : Words) (k w : UInt32) : (round v (k, w)).state = Sha256.step k w v.state := rfl

/-- A byte in its place within a word. -/
theorem toNat_shift (b : UInt8) {n : UInt32} (hn : n.toNat ≤ 24) :
    (b.toUInt32 <<< n).toNat = b.toNat * 2 ^ n.toNat := by
  have hlt : b.toNat * 2 ^ n.toNat < 2 ^ 32 :=
    calc b.toNat * 2 ^ n.toNat < 2 ^ 8 * 2 ^ n.toNat := Nat.mul_lt_mul_of_pos_right b.toNat_lt (Nat.two_pow_pos _)
      _ ≤ 2 ^ 8 * 2 ^ 24 := Nat.mul_le_mul_left _ (Nat.pow_le_pow_right (by decide) hn)
  rw [UInt32.toNat_shiftLeft, UInt8.toNat_toUInt32, Nat.shiftLeft_eq, Nat.mod_eq_of_lt (by omega : n.toNat < 32),
    Nat.mod_eq_of_lt hlt]

/-- A word is put together from its bytes. -/
theorem word_cons (b0 b1 b2 b3 : UInt8) (rest : Bytes) :
    b0.toUInt32 <<< 24 ||| b1.toUInt32 <<< 16 ||| b2.toUInt32 <<< 8 ||| b3.toUInt32 =
      word (b0 :: b1 :: b2 :: b3 :: rest) 0 := by
  have h0 := b0.toNat_lt
  have h1 := b1.toNat_lt
  have h2 := b2.toNat_lt
  have h3 := b3.toNat_lt
  have hor : b0.toNat * 2 ^ 24 ||| (b1.toNat * 2 ^ 16 ||| (b2.toNat * 2 ^ 8 ||| b3.toNat)) =
      b3.toNat + 256 * (b2.toNat + 256 * (b1.toNat + 256 * b0.toNat)) := by
    rw [Nat.mul_comm b2.toNat, ← Nat.two_pow_add_eq_or_of_lt h3, Nat.mul_comm b1.toNat,
      ← Nat.two_pow_add_eq_or_of_lt (by omega), Nat.mul_comm b0.toNat, ← Nat.two_pow_add_eq_or_of_lt (by omega)]
    omega
  have h24 : (b0.toUInt32 <<< 24).toNat = b0.toNat * 2 ^ 24 := toNat_shift b0 (by decide)
  have h16 : (b1.toUInt32 <<< 16).toNat = b1.toNat * 2 ^ 16 := toNat_shift b1 (by decide)
  have h8 : (b2.toUInt32 <<< 8).toNat = b2.toNat * 2 ^ 8 := toNat_shift b2 (by decide)
  have hword : word (b0 :: b1 :: b2 :: b3 :: rest) 0 =
      UInt32.ofNat (b3.toNat + 256 * (b2.toNat + 256 * (b1.toNat + 256 * b0.toNat))) := rfl
  apply UInt32.toNat_inj.1
  rw [hword, UInt32.toNat_ofNat_of_lt' (by simp only [UInt32.size]; omega), ← hor, ← Nat.or_assoc, ← Nat.or_assoc,
    UInt32.toNat_or, UInt32.toNat_or, UInt32.toNat_or, h24, h16, h8, UInt8.toNat_toUInt32]

theorem word_succ (b0 b1 b2 b3 : UInt8) (rest : Bytes) (t : Nat) :
    word (b0 :: b1 :: b2 :: b3 :: rest) (t + 1) = word rest t := by
  rw [word, Nat.mul_succ, List.drop_succ_cons, List.drop_succ_cons, List.drop_succ_cons, List.drop_succ_cons, word]

/-- The words of a block. -/
theorem blockWords_eq (bs : Bytes) : blockWords bs = (List.range (bs.length / 4)).map (word bs) := by
  induction bs using blockWords.induct with
  | case1 b0 b1 b2 b3 rest ih =>
    have hlen : (b0 :: b1 :: b2 :: b3 :: rest).length / 4 = rest.length / 4 + 1 := by
      simp only [List.length_cons]
      omega
    rw [blockWords, ih, word_cons b0 b1 b2 b3 rest, hlen, List.range_succ_eq_map, List.map_cons, List.map_map]
    exact congrArg _ (List.map_congr_left fun t _ => (word_succ b0 b1 b2 b3 rest t).symm)
  | case2 bs h =>
    rcases bs with _ | ⟨b0, _ | ⟨b1, _ | ⟨b2, _ | ⟨b3, rest⟩⟩⟩⟩
    · rfl
    · simp [blockWords]
    · simp [blockWords]
    · simp [blockWords]
    · exact (h b0 b1 b2 b3 rest rfl).elim

/-- The loop goes on with the message schedule. -/
theorem extend_schedule (M : Nat → UInt32) (n t : Nat) (ht : 16 ≤ t) :
    extend n ((List.range t).map (schedule M)) = (List.range (t + n)).map (schedule M) := by
  induction n generalizing t with
  | zero => rfl
  | succ n ih =>
    have hget : ∀ i, 1 ≤ i → i ≤ 16 → ((List.range t).map (schedule M)).getD (t - i) 0 = schedule M (t - i) := by
      intro i h1 h16
      have hi : t - i < t := by omega
      simp [hi]
    have hnext : schedule M t = schedule M (t - 16) + Sha256.sigma0 (schedule M (t - 15)) + schedule M (t - 7) +
        Sha256.sigma1 (schedule M (t - 2)) := by
      rw [schedule_of_le ht]
      ac_rfl
    have hsum : t + (n + 1) = t + 1 + n := by omega
    rw [hsum, ← ih (t + 1) (by omega), List.range_succ, List.map_append, List.map_singleton, hnext]
    simp only [extend, List.length_map, List.length_range]
    rw [hget 15 (by omega) (by omega), hget 2 (by omega) (by omega), hget 16 (by omega) (by omega),
      hget 7 (by omega) (by omega)]
    rfl

/-- **One block.** -/
theorem compress_state (h : Words) (block : Bytes) (hb : block.length = 64) :
    (compress h block).state = Sha256.compress h.state (word block) := by
  have hwords : extend 48 (blockWords block) = (List.range 64).map (schedule (word block)) := by
    have hfirst : blockWords block = (List.range 16).map (schedule (word block)) := by
      rw [blockWords_eq, hb]
      exact List.map_congr_left fun t ht => (schedule_of_lt (List.mem_range.1 ht)).symm
    rw [hfirst, extend_schedule _ 48 16 (by decide)]
  have hK : K = (List.range 64).map (Sha256.constants.getD · 0) := by decide +kernel
  have hrounds : ((K.zip (extend 48 (blockWords block))).foldl round h).state = (List.range 64).foldl
      (fun v t => Sha256.step (Sha256.constants.getD t 0) (schedule (word block) t) v) h.state := by
    rw [hwords, hK, List.zip_map', List.foldl_map]
    exact (List.foldl_hom Words.state fun v t => round_state v _ _).symm
  unfold compress Sha256.compress
  generalize (K.zip (extend 48 (blockWords block))).foldl round h = v at hrounds ⊢
  simp only [← hrounds]
  rfl

/-! ## Output -/

theorem beBytes_eq (x : UInt32) : beBytes x = (leBytes 4 x.toNat).reverse := by
  have hbyte : ∀ n : UInt32, n.toNat < 32 → (x >>> n).toUInt8 = UInt8.ofNat (x.toNat / 2 ^ n.toNat) := by
    intro n hn
    apply UInt8.toNat_inj.1
    rw [UInt32.toNat_toUInt8, UInt32.toNat_shiftRight, Nat.mod_eq_of_lt hn, Nat.shiftRight_eq_div_pow,
      UInt8.toNat_ofNat']
  rw [beBytes, hbyte 24 (by decide), hbyte 16 (by decide), hbyte 8 (by decide)]
  simp [leBytes, Nat.div_div_eq_div_mul]

theorem digest_eq (h : Words) : h.digest = h.state.digest := by
  apply List.Vector.toList_injective
  simp [Words.digest, State.digest, Words.state, beBytes_eq]

/-! ## Padding -/

/-- Bytes written from the end of a range on. -/
theorem foldl_set (buf : Bytes) (f : Nat → UInt8) {e n : Nat} (he : e ≤ buf.length) (hn : n ≤ e) :
    (List.range n).foldl (fun buf j => buf.set (e - 1 - j) (f j)) buf =
      buf.take (e - n) ++ (((List.range n).map f).reverse ++ buf.drop e) := by
  induction n with
  | zero => simp
  | succ n ih =>
    have hi : e - (n + 1) < buf.length := by omega
    have hlast : buf.take (e - n) = buf.take (e - (n + 1)) ++ [buf[e - (n + 1)]] := by
      rw [List.take_append_getElem hi]
      congr 1
      omega
    have hpos : e - 1 - n = (buf.take (e - (n + 1))).length := by
      rw [List.length_take]
      omega
    rw [List.range_succ, List.foldl_append, ih (by omega), hlast, List.foldl_cons, List.foldl_nil, hpos,
      List.append_assoc, List.set_append_right _ _ (le_refl _)]
    simp

/-- The buffer before the length is written. -/
def filled (input : Bytes) : Bytes := input ++ 0x80 :: List.replicate (127 - input.length) 0

/-- How much of the buffer is hashed. -/
def paddedLen (len : Nat) : Nat := if len < 56 then 64 else 128

/-- What is hashed. -/
def hashed (input : Bytes) : Option Bytes := (padBuffer input).map fun x => x.1.take x.2

variable {input : Bytes}

theorem length_filled (h : input.length < 128) : (filled input).length = 128 := by
  simp [filled]
  omega

theorem paddedLen_cases (len : Nat) : paddedLen len = 64 ∨ paddedLen len = 128 := by
  unfold paddedLen
  split_ifs <;> simp

/-- The length takes the place of the last eight bytes that are hashed. -/
theorem padBuffer_eq (h : input.length < 128) :
    padBuffer input = some ((filled input).take (paddedLen input.length - 8) ++
      ((leBytes 8 (8 * input.length)).reverse ++ (filled input).drop (paddedLen input.length)),
        paddedLen input.length) := by
  have hbits : (UInt64.ofNat input.length * 8).toNat = 8 * input.length := by
    simp
    omega
  have hlen := paddedLen_cases input.length
  have hbuf := length_filled h
  have hset := foldl_set (filled input) (fun j => UInt8.ofNat (8 * input.length / 256 ^ j))
    (e := paddedLen input.length) (n := 8) (by omega) (by omega)
  rw [← leBytes_eq_map] at hset
  rw [padBuffer, if_pos h]
  dsimp only
  rw [hbits]
  exact congrArg (fun buf => some (buf, paddedLen input.length)) hset

theorem hashed_eq (h : input.length < 128) : hashed input =
    some ((filled input).take (paddedLen input.length - 8) ++ (leBytes 8 (8 * input.length)).reverse) := by
  have hlen := paddedLen_cases input.length
  have hbuf := length_filled h
  rw [hashed, padBuffer_eq h, Option.map_some, ← List.append_assoc, List.take_left']
  simp
  omega

theorem hashed_none (h : 128 ≤ input.length) : hashed input = none := by
  rw [hashed, padBuffer, if_neg (by omega)]
  rfl

/-- **Up to 119 bytes** the length stands behind the input, and what is hashed is the padded message. -/
theorem hashed_eq_pad_iff : hashed input = some (pad input) ↔ input.length ≤ 119 := by
  constructor
  · intro h
    by_contra hlong
    have hfit : input.length < 128 := by
      by_contra hno
      rw [hashed_none (by omega)] at h
      cases h
    rw [hashed_eq hfit, Option.some.injEq] at h
    have hlen := congrArg List.length h
    have hbuf := length_filled hfit
    rw [Sha256.length_pad, List.length_append, List.length_take, List.length_reverse, length_leBytes, hbuf,
      paddedLen, if_neg (by omega)] at hlen
    omega
  · intro h
    have hzeros : paddedLen input.length - 8 = input.length + ((119 - input.length % 64) % 64 + 1) := by
      unfold paddedLen
      split_ifs <;> omega
    have hmin : min ((119 - input.length % 64) % 64) (127 - input.length) = (119 - input.length % 64) % 64 := by omega
    rw [hashed_eq (by omega), filled, pad, hzeros, List.take_length_add_append, List.take_succ_cons,
      List.take_replicate, hmin, List.append_assoc, List.cons_append]

/-! ## The digest -/

theorem padBuffer_shape (h : input.length < 128) :
    ∃ buf n, padBuffer input = some (buf, n) ∧ buf.length = 128 ∧ (n = 64 ∨ n = 128) := by
  have hlen := paddedLen_cases input.length
  have hbuf := length_filled h
  refine ⟨_, _, padBuffer_eq h, ?_, hlen⟩
  simp
  omega

/-- What is hashed consists of one or two blocks, and they are hashed as the standard has it. -/
theorem constSha256_eq (input : Bytes) :
    constSha256 input = (hashed input).map fun bs => (hashBlocks (blocks bs)).digest := by
  by_cases h : input.length < 128
  · obtain ⟨buf, n, hpad, hbuf, hn⟩ := padBuffer_shape h
    have hfirst : (compress initial (buf.take 64)).state = Sha256.compress Sha256.initial (word (buf.take 64)) :=
      compress_state initial _ (by simp [hbuf])
    rcases hn with rfl | rfl
    · have hblocks : blocks (buf.take 64) = [buf.take 64] := by
        simp [blocks, hbuf]
      simp [constSha256, hashed, hpad, hblocks, hashBlocks, digest_eq, hfirst]
    · have hsecond := compress_state (compress initial (buf.take 64)) (buf.drop 64) (by simp [hbuf])
      have hblocks : blocks (buf.take 128) = [buf.take 64, buf.drop 64] := by
        simp [blocks, hbuf, List.range_succ, List.take_of_length_le]
      simp [constSha256, hashed, hpad, hblocks, hashBlocks, digest_eq, hfirst, hsecond]
  · have hpad : padBuffer input = none := by rw [padBuffer, if_neg h]
    simp [constSha256, hashed, hpad]

/-- It returns exactly on inputs that leave room for a byte in the buffer. -/
theorem constSha256_isSome_iff : (constSha256 input).isSome = true ↔ input.length < 128 := by
  rw [constSha256_eq, Option.isSome_map]
  constructor
  · intro h
    by_contra hlong
    rw [hashed_none (by omega)] at h
    cases h
  · intro h
    rw [hashed_eq h]
    rfl

/-! ## Discriminators -/

/-- Anchor's discriminator of a name. -/
def anchorDiscriminator (name : Bytes) : List.Vector UInt8 8 := ⟨(sha256 name).toList.take 8, by simp⟩

/-- The discriminators of the program are Anchor's. -/
theorem program_discriminators :
    Program.ThoughtSubmitted.DISCRIMINATOR = anchorDiscriminator (utf8 "event:ThoughtSubmitted") ∧
      Program.RequestVrf.DISCRIMINATOR = anchorDiscriminator (utf8 "global:request_vrf") ∧
      Program.SubmitThought.DISCRIMINATOR = anchorDiscriminator (utf8 "global:submit_thought") ∧
      Program.OpenChallenge.DISCRIMINATOR = anchorDiscriminator (utf8 "global:challenge") ∧
      Program.ConsumeThought.DISCRIMINATOR = anchorDiscriminator (utf8 "global:consume_thought") := by
  decide +kernel

/-- Up to 119 bytes. -/
theorem constSha256_of_le (h : input.length ≤ 119) : constSha256 input = some (sha256 input) := by
  rw [constSha256_eq, hashed_eq_pad_iff.2 h]
  rfl

theorem computeAnchorDiscriminator_of_le (h : input.length ≤ 119) :
    computeAnchorDiscriminator input = some (anchorDiscriminator input) := by
  rw [computeAnchorDiscriminator, constSha256_of_le h]
  rfl

/-- A computed discriminator is Anchor's. -/
theorem get_discriminator (hlen : input.length ≤ 119) (h) :
    (computeAnchorDiscriminator input).get h = anchorDiscriminator input :=
  Option.get_of_eq_some h (computeAnchorDiscriminator_of_le hlen)

/-- The discriminators of the watcher are the program's. -/
theorem watcher_discriminators :
    THOUGHT_SUBMITTED_DISCRIMINATOR = Program.ThoughtSubmitted.DISCRIMINATOR ∧
      CHALLENGE_IX_DISCRIMINATOR = Program.OpenChallenge.DISCRIMINATOR := by
  obtain ⟨hevent, -, -, hchallenge, -⟩ := program_discriminators
  rw [hevent, hchallenge]
  exact ⟨get_discriminator (by decide) _, get_discriminator (by decide) _⟩

/-- From 120 to 127 bytes, each time on zeros. -/
theorem zeros_ne : ∀ i < 8, constSha256 (List.replicate (120 + i) 0) ≠ some (sha256 (List.replicate (120 + i) 0)) := by
  simp only [constSha256_eq]
  decide +kernel

/-- **The compile-time SHA-256** is SHA-256 on the inputs of a length, wherever it returns, exactly where they have at
most 119 bytes or are too long for the buffer, where it does not return. Up to 119 bytes what it hashes is the padded
message, and its discriminators are Anchor's, as the program's are. -/
theorem constSha256_exact_iff (n : Nat) :
    ((∀ input digest, input.length = n → constSha256 input = some digest → digest = sha256 input) ↔
        n ≤ 119 ∨ 128 ≤ n) ∧
      (∀ input : Bytes, input.length = n → ((constSha256 input).isSome = true ↔ n < 128)) ∧
      (∀ input : Bytes, input.length = n → (hashed input = some (pad input) ↔ n ≤ 119)) ∧
      (∀ input : Bytes, input.length = n → n ≤ 119 →
        computeAnchorDiscriminator input = some (anchorDiscriminator input)) ∧
      THOUGHT_SUBMITTED_DISCRIMINATOR = Program.ThoughtSubmitted.DISCRIMINATOR ∧
      CHALLENGE_IX_DISCRIMINATOR = Program.OpenChallenge.DISCRIMINATOR := by
  refine ⟨⟨fun h => ?_, fun hn input digest hlen h => ?_⟩, ?_, ?_, ?_, watcher_discriminators⟩
  · by_contra hlong
    obtain ⟨i, rfl⟩ : ∃ i, n = 120 + i := ⟨n - 120, by omega⟩
    obtain ⟨digest, hd⟩ := Option.isSome_iff_exists.1
      (constSha256_isSome_iff.2 (by simp; omega : (List.replicate (120 + i) (0 : UInt8)).length < 128))
    apply zeros_ne i (by omega)
    rw [hd, h _ _ (by simp) hd]
  · rcases hn with hn | hn
    · exact Option.some.inj (h.symm.trans (constSha256_of_le (hlen ▸ hn)))
    · have hfit := constSha256_isSome_iff.1 (Option.isSome_iff_exists.2 ⟨_, h⟩)
      omega
  · rintro input rfl
    exact constSha256_isSome_iff
  · rintro input rfl
    exact hashed_eq_pad_iff
  · rintro input rfl h
    exact computeAnchorDiscriminator_of_le h

/-- The digest of 120 zeros is another one: the length is written over the byte behind them. -/
theorem long_digest_wrong :
    ∃ digest, constSha256 (List.replicate 120 0) = some digest ∧ digest ≠ sha256 (List.replicate 120 0) := by
  obtain ⟨digest, h⟩ := Option.isSome_iff_exists.1
    (constSha256_isSome_iff.2 (by simp : (List.replicate 120 (0 : UInt8)).length < 128))
  refine ⟨digest, h, ?_⟩
  rintro rfl
  exact zeros_ne 0 (by decide) h

end ProofOfThought.Watcher
