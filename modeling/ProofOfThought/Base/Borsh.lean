import ProofOfThought.Base.Bytes

/-!
# Borsh

The integers and strings of Borsh, for any reader `take` of a fixed number of bytes: what is written is read back, and
nothing else is read.
-/

namespace Base

/-- A string: its length in four bytes, and its bytes. -/
def borshString (s : String) : Bytes := leBytes 4 (utf8 s).length ++ utf8 s

/-- A `Vec`: its length in four bytes, and its elements. -/
def borshVec {α : Type} (enc : α → Bytes) (xs : List α) : Bytes := leBytes 4 xs.length ++ xs.flatMap enc

namespace Borsh

section Readers

variable {ε S : Type} {rest : S → Bytes} (take : ∀ n, S → Except ε (List.Vector UInt8 n × S))

def readU64 (s : S) : Except ε (UInt64 × S) := (take 8 s).map fun r => (UInt64.ofNat (ofLe r.1.toList), r.2)

def readU32 (s : S) : Except ε (UInt32 × S) := (take 4 s).map fun r => (UInt32.ofNat (ofLe r.1.toList), r.2)

/-- `bad` is the error of a string that is not UTF-8. -/
def readString (bad : ε) (s : S) : Except ε (String × S) := do
  let (len, s) ← readU32 take s
  let (bytes, s) ← take len.toNat s
  let text ← okOr (fromUtf8 bytes.toList) bad
  return (text, s)

variable {take} (ht : ∀ n, Reads rest (take n) List.Vector.toList fun _ => True)

include ht

theorem readU64_reads : Reads rest (readU64 take) (fun n => leBytes 8 n.toNat) fun _ => True := by
  refine (ht 8).map (Q := fun _ => True) (fun v => UInt64.ofNat (ofLe v.toList)) (fun v _ => ⟨trivial, ?_⟩)
    fun u _ => ?_
  · rw [UInt64.toNat_ofNat_of_lt' (ofLe_toList_lt v), leBytes_ofLe_toList]
  · refine ⟨⟨leBytes 8 u.toNat, length_leBytes 8 _⟩, trivial, ?_⟩
    show UInt64.ofNat (ofLe (leBytes 8 u.toNat)) = u
    rw [ofLe_leBytes u.toNat_lt, UInt64.ofNat_toNat]

theorem readU32_reads : Reads rest (readU32 take) (fun n => leBytes 4 n.toNat) fun _ => True := by
  refine (ht 4).map (Q := fun _ => True) (fun v => UInt32.ofNat (ofLe v.toList)) (fun v _ => ⟨trivial, ?_⟩)
    fun u _ => ?_
  · rw [UInt32.toNat_ofNat_of_lt' (ofLe_toList_lt v), leBytes_ofLe_toList]
  · refine ⟨⟨leBytes 4 u.toNat, length_leBytes 4 _⟩, trivial, ?_⟩
    show UInt32.ofNat (ofLe (leBytes 4 u.toNat)) = u
    rw [ofLe_leBytes u.toNat_lt, UInt32.ofNat_toNat]

theorem readString_reads (bad : ε) :
    Reads rest (readString take bad) borshString fun s => (utf8 s).length < 2 ^ 32 := by
  intro c s bs
  simp only [readString, seq_ok_iff, okOr_eq_ok, pure_ok_iff, Prod.exists, Prod.mk.injEq, fromUtf8_eq_some]
  constructor
  · intro h
    rcases h with ⟨c', ⟨len, c1, hlen, v, c2, hv, s', hs, rfl, rfl⟩, rfl⟩
    have h1 := ((readU32_reads ht).sound hlen).2
    have h2 := ((ht _).sound hv).2
    have hl : (utf8 s').length = len.toNat := by rw [← hs, List.Vector.toList_length]
    refine ⟨hl ▸ len.toNat_lt, ?_⟩
    rw [h1, h2, borshString, hl, hs, List.append_assoc]
  · intro hx
    rcases hx with ⟨hlt, hr⟩
    rw [borshString, List.append_assoc] at hr
    have hlen : (UInt32.ofNat (utf8 s).length).toNat = (utf8 s).length := UInt32.toNat_ofNat_of_lt' hlt
    obtain ⟨c1, h1, hr1⟩ := (readU32_reads ht).complete (a := UInt32.ofNat (utf8 s).length) trivial (hlen.symm ▸ hr)
    obtain ⟨c2, h2, hr2⟩ := (ht _).complete (a := ⟨utf8 s, hlen.symm⟩) trivial hr1
    exact ⟨c2, ⟨_, c1, h1, _, c2, h2, s, rfl, rfl, rfl⟩, hr2⟩

/-! ### Enums -/

/-- An enum without fields: its tag in one byte. `bad` is the error of a tag that `ofTag` does not know. -/
def readTag {α : Type} (take : ∀ n, S → Except ε (List.Vector UInt8 n × S)) (bad : ε) (ofTag : UInt8 → Option α)
    (s : S) : Except ε (α × S) := do
  let (tag, s) ← take 1 s
  let a ← okOr (ofTag tag.head) bad
  return (a, s)

theorem readTag_reads {α : Type} (bad : ε) {ofTag : UInt8 → Option α} {tag : α → UInt8}
    (hof : ∀ t a, ofTag t = some a ↔ tag a = t) :
    Reads rest (readTag take bad ofTag) (fun a => [tag a]) fun _ => True := by
  intro s a bs
  simp only [readTag, seq_ok_iff, okOr_eq_ok, pure_ok_iff, Prod.exists, Prod.mk.injEq, hof, true_and]
  constructor
  · intro h
    obtain ⟨_, ⟨v, s', hv, a, htag, rfl, rfl⟩, rfl⟩ := h
    rw [((ht 1).sound hv).2, htag]
    congr 1
    exact List.Vector.toList_singleton v
  · intro h
    obtain ⟨s', hs, hr⟩ := (ht 1).complete (a := ⟨[tag a], rfl⟩) trivial h
    exact ⟨s', ⟨_, s', hs, a, rfl, rfl, rfl⟩, hr⟩

/-! ### Sequences -/

section Sequences

variable {α : Type} {f : S → Except ε (α × S)} {enc : α → Bytes} {P : α → Prop}

/-- The elements of a sequence of that length. -/
def readMany (f : S → Except ε (α × S)) : Nat → S → Except ε (List α × S)
  | 0, s => .ok ([], s)
  | n + 1, s => do
    let (x, s) ← f s
    let (xs, s) ← readMany f n s
    return (x :: xs, s)

/-- A `Vec`: its length in four bytes, and its elements. -/
def readVec (take : ∀ n, S → Except ε (List.Vector UInt8 n × S)) (f : S → Except ε (α × S)) (s : S) :
    Except ε (List α × S) := do
  let (len, s) ← readU32 take s
  readMany f len.toNat s

omit ht in
theorem readMany_iff (hf : Reads rest f enc P) {n : Nat} {s : S} {xs : List α} {bs : Bytes} :
    (∃ s', readMany f n s = .ok (xs, s') ∧ rest s' = bs) ↔
      xs.length = n ∧ (∀ x ∈ xs, P x) ∧ rest s = xs.flatMap enc ++ bs := by
  induction n generalizing s xs with
  | zero =>
    simp only [readMany, Except.ok.injEq, Prod.mk.injEq, List.length_eq_zero_iff]
    constructor
    · rintro ⟨_, ⟨rfl, rfl⟩, rfl⟩
      simp
    · rintro ⟨rfl, -, h⟩
      exact ⟨s, ⟨rfl, rfl⟩, h⟩
  | succ n ih =>
    simp only [readMany, seq_ok_iff, pure_ok_iff, Prod.exists, Prod.mk.injEq]
    constructor
    · rintro ⟨_, ⟨x, s1, hx, xs, s2, hxs, rfl, rfl⟩, rfl⟩
      obtain ⟨hP, hs⟩ := hf.sound hx
      obtain ⟨hlen, hall, hs1⟩ := ih.1 ⟨s2, hxs, rfl⟩
      refine ⟨by rw [List.length_cons, hlen], List.forall_mem_cons.2 ⟨hP, hall⟩, ?_⟩
      rw [hs, hs1, List.flatMap_cons, List.append_assoc]
    · rintro ⟨hlen, hall, hs⟩
      cases xs with
      | nil => cases hlen
      | cons x xs =>
        obtain ⟨hP, hall⟩ := List.forall_mem_cons.1 hall
        rw [List.flatMap_cons, List.append_assoc] at hs
        obtain ⟨s1, hx, hs1⟩ := hf.complete hP hs
        obtain ⟨s2, hxs, hs2⟩ := ih.2 ⟨Nat.succ.inj hlen, hall, hs1⟩
        exact ⟨s2, ⟨x, s1, hx, xs, s2, hxs, rfl, rfl⟩, hs2⟩

theorem readVec_reads (hf : Reads rest f enc P) :
    Reads rest (readVec take f) (borshVec enc) fun xs => xs.length < 2 ^ 32 ∧ ∀ x ∈ xs, P x := by
  intro s xs bs
  simp only [readVec, seq_ok_iff, Prod.exists]
  constructor
  · rintro ⟨s2, ⟨len, s1, hlen, hxs⟩, rfl⟩
    obtain ⟨hl, hall, hs1⟩ := (readMany_iff hf).1 ⟨s2, hxs, rfl⟩
    refine ⟨⟨hl ▸ len.toNat_lt, hall⟩, ?_⟩
    rw [((readU32_reads ht).sound hlen).2, hs1, borshVec, hl, List.append_assoc]
  · rintro ⟨⟨hlt, hall⟩, hs⟩
    have hlen : (UInt32.ofNat xs.length).toNat = xs.length := UInt32.toNat_ofNat_of_lt' hlt
    rw [borshVec, List.append_assoc] at hs
    obtain ⟨s1, h1, hs1⟩ := (readU32_reads ht).complete (a := UInt32.ofNat xs.length) trivial (hlen.symm ▸ hs)
    obtain ⟨s2, h2, hs2⟩ := (readMany_iff hf).2 ⟨hlen.symm, hall, hs1⟩
    exact ⟨s2, ⟨_, s1, h1, h2⟩, hs2⟩

end Sequences

end Readers

/-! ## Reading a slice -/

section Slice

variable {ε : Type} (eof : ε)

/-- `&mut &[u8]`: the first `n` bytes and what follows them. -/
def takeSlice (n : Nat) (bs : Bytes) : Except ε (List.Vector UInt8 n × Bytes) :=
  if h : 0 + n ≤ bs.length then .ok (slice bs 0 n h, bs.drop n) else .error eof

theorem takeSlice_reads (n : Nat) : Reads id (takeSlice eof n) List.Vector.toList fun _ => True := by
  intro c v bs
  simp only [true_and, id]
  constructor
  · intro hx
    rcases hx with ⟨c', hc, rfl⟩
    unfold takeSlice at hc
    split at hc
    · cases hc
      have h := toList_slice_append_drop c 0 n ‹_›
      rw [Nat.zero_add, List.drop_zero] at h
      exact h.symm
    · cases hc
  · rintro rfl
    have hlen : 0 + n ≤ (v.toList ++ bs).length := by
      rw [List.length_append, List.Vector.toList_length]
      omega
    refine ⟨bs, ?_, rfl⟩
    unfold takeSlice
    rw [dif_pos hlen, List.drop_left' (List.Vector.toList_length v)]
    congr 2
    exact slice_append (rfl : ([] : Bytes).length = 0) v bs _

/-- A reader of slices reads what is written in front of any rest. -/
theorem eq_ok_append {α : Type*} {f : Bytes → Except ε (α × Bytes)} {enc : α → Bytes} {P : α → Prop}
    (hf : Reads id f enc P) {a : α} (ha : P a) (bs : Bytes) : f (enc a ++ bs) = .ok (a, bs) := by
  obtain ⟨s', h, rfl⟩ := hf.complete ha rfl
  exact h

/-- A reader of slices, on any slice. -/
theorem eq_ok_iff {α : Type*} {f : Bytes → Except ε (α × Bytes)} {enc : α → Bytes} {P : α → Prop}
    (hf : Reads id f enc P) {bs r : Bytes} {a : α} : f bs = .ok (a, r) ↔ P a ∧ bs = enc a ++ r := by
  refine ⟨hf.sound, ?_⟩
  rintro ⟨ha, rfl⟩
  exact eq_ok_append hf ha r

variable {eof} {bs r : Bytes}

theorem takeSlice_eq_ok {n : Nat} {v : List.Vector UInt8 n} : takeSlice eof n bs = .ok (v, r) ↔ bs = v.toList ++ r := by
  simp only [eq_ok_iff (takeSlice_reads eof n), true_and]

theorem readU64_eq_ok {n : UInt64} : readU64 (takeSlice eof) bs = .ok (n, r) ↔ bs = leBytes 8 n.toNat ++ r := by
  simp only [eq_ok_iff (readU64_reads (takeSlice_reads eof)), true_and]

theorem readU32_eq_ok {n : UInt32} : readU32 (takeSlice eof) bs = .ok (n, r) ↔ bs = leBytes 4 n.toNat ++ r := by
  simp only [eq_ok_iff (readU32_reads (takeSlice_reads eof)), true_and]

theorem readTag_eq_ok {α : Type} {bad : ε} {ofTag : UInt8 → Option α} {tag : α → UInt8}
    (hof : ∀ t a, ofTag t = some a ↔ tag a = t) {a : α} :
    readTag (takeSlice eof) bad ofTag bs = .ok (a, r) ↔ bs = tag a :: r := by
  simp only [eq_ok_iff (readTag_reads (takeSlice_reads eof) bad hof), true_and, List.singleton_append]

theorem readString_eq_ok {bad : ε} {text : String} :
    readString (takeSlice eof) bad bs = .ok (text, r) ↔ (utf8 text).length < 2 ^ 32 ∧ bs = borshString text ++ r :=
  eq_ok_iff (readString_reads (takeSlice_reads eof) bad)

theorem readVec_eq_ok {n : Nat} {vs : List (List.Vector UInt8 n)} :
    readVec (takeSlice eof) (takeSlice eof n) bs = .ok (vs, r) ↔
      vs.length < 2 ^ 32 ∧ bs = borshVec List.Vector.toList vs ++ r := by
  simp only [eq_ok_iff (readVec_reads (takeSlice_reads eof) (takeSlice_reads eof n)), implies_true, and_true]

end Slice

/-! ## Booleans -/

/-- The `bool` of a byte. -/
def boolOfTag : UInt8 → Option Bool
  | 0 => some false
  | 1 => some true
  | _ => none

def boolTag (b : Bool) : UInt8 := if b then 1 else 0

theorem boolOfTag_eq_some (tag : UInt8) (b : Bool) : boolOfTag tag = some b ↔ boolTag b = tag := by
  constructor
  · intro h
    unfold boolOfTag at h
    split at h <;> cases h <;> rfl
  · rintro rfl
    cases b <;> rfl

end Borsh

end Base
