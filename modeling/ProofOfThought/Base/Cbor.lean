import ProofOfThought.Base.Bytes

/-!
# CBOR

Data items of RFC 8949 in their shortest form: the head, and text strings. A data item says itself where it ends, so no
item is the beginning of another one (`WellFormed.append_inj`).
-/

namespace Base.Cbor

/-- The `w` low bytes of `n`, the most significant first. -/
def beBytes (w n : Nat) : Bytes := (leBytes w n).reverse

/-- The head of an item: its major type, and its argument in the fewest bytes. -/
def head (major : UInt8) (n : Nat) : Bytes :=
  if n < 24 then [major * 32 + UInt8.ofNat n]
  else if n < 2 ^ 8 then (major * 32 + 24) :: beBytes 1 n
  else if n < 2 ^ 16 then (major * 32 + 25) :: beBytes 2 n
  else if n < 2 ^ 32 then (major * 32 + 26) :: beBytes 4 n
  else (major * 32 + 27) :: beBytes 8 n

theorem head_ne_nil (major : UInt8) (n : Nat) : head major n ≠ [] := by
  unfold head
  split_ifs <;> simp

/-- A text string, of major type 3. -/
def text (s : String) : Bytes := head 3 (utf8 s).length ++ utf8 s

/-- A text string takes more bytes than its text. -/
theorem length_utf8_lt_text (s : String) : (utf8 s).length < (text s).length := by
  have hpos := List.length_pos_of_ne_nil (head_ne_nil 3 (utf8 s).length)
  rw [text, List.length_append]
  omega

/-! ## Initial bytes -/

/-- The initial byte of an item: its major type and its additional information. -/
def initial (major : UInt8) (info : Nat) : UInt8 := major * 32 + UInt8.ofNat info

/-- How many bytes of the argument follow the initial byte. -/
def argumentWidth (info : Nat) : Nat := if info < 24 then 0 else 2 ^ (info - 24)

/-- The argument of an item. -/
def argument (info : Nat) (arg : Bytes) : Nat := if info < 24 then info else ofLe arg.reverse

/-- The additional information of a shortest head. -/
def shortestInfo (n : Nat) : Nat :=
  if n < 24 then n else if n < 2 ^ 8 then 24 else if n < 2 ^ 16 then 25 else if n < 2 ^ 32 then 26 else 27

@[simp] theorem length_beBytes (w n : Nat) : (beBytes w n).length = w := by simp [beBytes]

theorem beBytes_inj {w n m : Nat} (hn : n < 256 ^ w) (hm : m < 256 ^ w) (h : beBytes w n = beBytes w m) : n = m := by
  rw [← ofLe_leBytes hn, List.reverse_injective h, ofLe_leBytes hm]

theorem shortestInfo_lt (n : Nat) : shortestInfo n < 28 := by
  unfold shortestInfo
  split_ifs <;> omega

/-- A head is an initial byte and an argument. -/
theorem head_eq (major : UInt8) (n : Nat) :
    head major n = initial major (shortestInfo n) :: beBytes (argumentWidth (shortestInfo n)) n := by
  unfold head shortestInfo
  split_ifs with h
  · simp [initial, argumentWidth, h, beBytes, leBytes]
  all_goals simp [initial, argumentWidth]

/-- The argument of a head is read back. -/
theorem argument_head {n : Nat} (hn : n < 2 ^ 64) :
    argument (shortestInfo n) (beBytes (argumentWidth (shortestInfo n)) n) = n := by
  have hread (w : Nat) (h : n < 256 ^ w) : ofLe (beBytes w n).reverse = n := by
    rw [beBytes, List.reverse_reverse, ofLe_leBytes h]
  unfold shortestInfo
  split_ifs with h1 h2 h3 h4
  · simp [argument, h1]
  all_goals
    simp only [argument, argumentWidth, Nat.reduceLT, if_false, Nat.reduceSub, Nat.reducePow]
    exact hread _ (by omega)

/-- An initial byte keeps its two parts. -/
theorem initial_inj {major major' : UInt8} {info info' : Nat} (hm : major < 8) (hm' : major' < 8) (hi : info < 32)
    (hi' : info' < 32) (h : initial major info = initial major' info') : major = major' ∧ info = info' := by
  have hn := congrArg UInt8.toNat h
  rw [UInt8.lt_iff_toNat_lt] at hm hm'
  simp only [initial, UInt8.toNat_add, UInt8.toNat_mul, UInt8.toNat_ofNat', UInt8.reduceToNat] at hn hm hm'
  constructor
  · apply UInt8.toNat_inj.1
    omega
  · omega

theorem initial_append_inj {major major' : UInt8} {info info' : Nat} {arg arg' r r' : Bytes} (hm : major < 8)
    (hm' : major' < 8) (hi : info < 28) (hi' : info' < 28) (ha : arg.length = argumentWidth info)
    (ha' : arg'.length = argumentWidth info')
    (h : initial major info :: (arg ++ r) = initial major' info' :: (arg' ++ r')) :
    major = major' ∧ info = info' ∧ arg = arg' ∧ r = r' := by
  obtain ⟨h1, h2⟩ := List.cons.inj h
  obtain ⟨rfl, rfl⟩ := initial_inj hm hm' (by omega) (by omega) h1
  obtain ⟨rfl, rfl⟩ := List.append_inj h2 (ha.trans ha'.symm)
  exact ⟨rfl, rfl, rfl, rfl⟩

/-- An item keeps its initial byte and its argument, whatever follows it. -/
theorem item_append_inj {major major' : UInt8} {info info' : Nat} {arg arg' p p' r r' : Bytes} (hm : major < 8)
    (hm' : major' < 8) (hi : info < 28) (hi' : info' < 28) (ha : arg.length = argumentWidth info)
    (ha' : arg'.length = argumentWidth info')
    (h : initial major info :: (arg ++ p) ++ r = initial major' info' :: (arg' ++ p') ++ r') :
    major = major' ∧ info = info' ∧ arg = arg' ∧ p ++ r = p' ++ r' := by
  rw [List.cons_append, List.cons_append, List.append_assoc, List.append_assoc] at h
  exact initial_append_inj hm hm' hi hi' ha ha' h

/-- A shortest head keeps its major type and its argument. -/
theorem head_append_inj {major major' : UInt8} {n n' : Nat} {r r' : Bytes} (hm : major < 8) (hm' : major' < 8)
    (hn : n < 2 ^ 64) (hn' : n' < 2 ^ 64) (h : head major n ++ r = head major' n' ++ r') :
    major = major' ∧ n = n' ∧ r = r' := by
  rw [head_eq, head_eq, List.cons_append, List.cons_append] at h
  obtain ⟨rfl, hi, ha, rfl⟩ := initial_append_inj hm hm' (shortestInfo_lt n) (shortestInfo_lt n') (length_beBytes _ _)
    (length_beBytes _ _) h
  have hargument := argument_head hn
  rw [ha, hi, argument_head hn'] at hargument
  exact ⟨rfl, hargument.symm, rfl⟩

/-! ## Well-formed bytes -/

/-- The bytes of an item with no item inside: an integer, a string, a simple value or a float. -/
inductive IsScalar : Bytes → Prop
  | mk {major : UInt8} {info : Nat} {arg payload : Bytes} (hmajor : major ∈ [0, 1, 2, 3, 7]) (hinfo : info < 28)
    (harg : arg.length = argumentWidth info)
    (hpayload : payload.length = if major ∈ [2, 3] then argument info arg else 0) :
    IsScalar (initial major info :: (arg ++ payload))

/-- The bytes of a data item of definite length and without tags. -/
inductive WellFormed : Bytes → Prop
  | scalar {bs : Bytes} (h : IsScalar bs) : WellFormed bs
  /-- An array, or a map: the items of its entries, one after the other. -/
  | container {major : UInt8} {info : Nat} {arg : Bytes} {items : List Bytes} (hmajor : major ∈ [4, 5])
    (hinfo : info < 28) (harg : arg.length = argumentWidth info)
    (hcount : items.length = if major = 5 then 2 * argument info arg else argument info arg)
    (hitems : ∀ b ∈ items, WellFormed b) : WellFormed (initial major info :: (arg ++ items.flatten))

theorem scalar_major_lt : ∀ major ∈ ([0, 1, 2, 3, 7] : List UInt8), major < 8 := by simp

theorem container_major_lt : ∀ major ∈ ([4, 5] : List UInt8), major < 8 := by simp

theorem not_container_of_scalar : ∀ major ∈ ([0, 1, 2, 3, 7] : List UInt8), major ∉ ([4, 5] : List UInt8) := by simp

/-- As many items in a row are the same ones, if each ends where it says. -/
theorem flatten_append_inj {items items' : List Bytes} {r r' : Bytes}
    (hends : ∀ b ∈ items, ∀ b' s s', WellFormed b' → b ++ s = b' ++ s' → b = b' ∧ s = s')
    (hitems' : ∀ b ∈ items', WellFormed b) (hl : items.length = items'.length)
    (h : items.flatten ++ r = items'.flatten ++ r') : items = items' ∧ r = r' := by
  induction items generalizing items' with
  | nil =>
    obtain rfl := List.length_eq_zero_iff.1 hl.symm
    exact ⟨rfl, h⟩
  | cons b items ih =>
    cases items' with
    | nil => simp at hl
    | cons b' items' =>
      rw [List.flatten_cons, List.flatten_cons, List.append_assoc, List.append_assoc] at h
      obtain ⟨rfl, hrest⟩ := hends b List.mem_cons_self b' _ _ (hitems' b' List.mem_cons_self) h
      obtain ⟨rfl, rfl⟩ := ih (fun c hc => hends c (List.mem_cons_of_mem b hc))
        (fun c hc => hitems' c (List.mem_cons_of_mem b hc)) (Nat.succ.inj hl) hrest
      exact ⟨rfl, rfl⟩

/-- **An item ends where it says**, whatever follows. -/
theorem WellFormed.append_inj {bs bs' r r' : Bytes} (hbs : WellFormed bs) (hbs' : WellFormed bs')
    (h : bs ++ r = bs' ++ r') : bs = bs' ∧ r = r' := by
  induction hbs generalizing bs' r r' with
  | scalar hscalar =>
    obtain ⟨hmajor, hinfo, harg, hpayload⟩ := hscalar
    cases hbs' with
    | scalar hscalar' =>
      obtain ⟨hmajor', hinfo', harg', hpayload'⟩ := hscalar'
      obtain ⟨rfl, rfl, rfl, hrest⟩ := item_append_inj (scalar_major_lt _ hmajor) (scalar_major_lt _ hmajor') hinfo
        hinfo' harg harg' h
      obtain ⟨rfl, rfl⟩ := List.append_inj hrest (hpayload.trans hpayload'.symm)
      exact ⟨rfl, rfl⟩
    | container hmajor' hinfo' harg' _ _ =>
      obtain ⟨rfl, -⟩ := item_append_inj (scalar_major_lt _ hmajor) (container_major_lt _ hmajor') hinfo hinfo' harg
        harg' h
      exact absurd hmajor' (not_container_of_scalar _ hmajor)
  | container hmajor hinfo harg hcount _ ih =>
    cases hbs' with
    | scalar hscalar' =>
      obtain ⟨hmajor', hinfo', harg', -⟩ := hscalar'
      obtain ⟨rfl, -⟩ := item_append_inj (container_major_lt _ hmajor) (scalar_major_lt _ hmajor') hinfo hinfo' harg
        harg' h
      exact absurd hmajor (not_container_of_scalar _ hmajor')
    | container hmajor' hinfo' harg' hcount' hitems' =>
      obtain ⟨rfl, rfl, rfl, hrest⟩ := item_append_inj (container_major_lt _ hmajor) (container_major_lt _ hmajor')
        hinfo hinfo' harg harg' h
      obtain ⟨rfl, rfl⟩ := flatten_append_inj (fun b hb b' s s' => ih b hb) hitems' (hcount.trans hcount'.symm) hrest
      exact ⟨rfl, rfl⟩

end Base.Cbor
