import ProofOfThought.Base.CborOrder

/-!
# Orders of map keys

The two orders of RFC 8949 for the keys of a map, bytewise and by length first. Two orders give one encoding exactly
where they agree on the keys of every map (`encode_iff_maps`). The two of the RFC agree where no key is shorter than a
key before it, and always on text keys.
-/

namespace Base.Cbor

variable {A : Type}

/-! ## Where two orders agree -/

/-- The entries of every map of the item, those inside keys and values included, satisfy `Q`. -/
inductive Item.Maps (Q : List (Item A × Item A) → Prop) : Item A → Prop
  | atom (a : A) : Maps Q (.atom a)
  | array {xs : List (Item A)} (h : ∀ x ∈ xs, Maps Q x) : Maps Q (.array xs)
  | map {es : List (Item A × Item A)} (h : Q es) (hk : ∀ e ∈ es, Maps Q e.1) (hv : ∀ e ∈ es, Maps Q e.2) :
    Maps Q (.map es)

/-- Any two keys satisfy `P`, as they are written. -/
def KeyPairs (atom : A → Option Bytes) (le : Bytes → Bytes → Prop) [DecidableRel le] (P : Bytes → Bytes → Prop)
    (es : List (Item A × Item A)) : Prop :=
  ∀ e ∈ es, ∀ f ∈ es, ∀ k l, e.1.encode atom le = some k → f.1.encode atom le = some l → P k l

theorem Item.Maps.mono {Q Q' : List (Item A × Item A) → Prop} (hQ : ∀ es, Q es → Q' es) {x : Item A} (h : x.Maps Q) :
    x.Maps Q' := by
  induction h with
  | atom a => exact .atom a
  | array _ ih => exact .array ih
  | map h _ _ ihk ihv => exact .map (hQ _ h) ihk ihv

theorem Item.maps_array {Q : List (Item A × Item A) → Prop} {xs : List (Item A)} :
    (Item.array xs).Maps Q ↔ ∀ x ∈ xs, x.Maps Q := by
  constructor
  · intro h
    cases h with
    | array h => exact h
  · exact .array

theorem Item.maps_map {Q : List (Item A × Item A) → Prop} {es : List (Item A × Item A)} :
    (Item.map es).Maps Q ↔ Q es ∧ ∀ e ∈ es, e.1.Maps Q ∧ e.2.Maps Q := by
  constructor
  · intro h
    cases h with
    | map h hk hv => exact ⟨h, fun e he => ⟨hk e he, hv e he⟩⟩
  · intro h
    exact .map h.1 (fun e he => (h.2 e he).1) fun e he => (h.2 e he).2

section

variable {atom : A → Option Bytes} {le le' : Bytes → Bytes → Prop} [DecidableRel le] [DecidableRel le'] [Std.Total le]
  [IsTrans Bytes le] [Std.Antisymm le]

/-- Entries written in two orders with the same bytes in another order are written as the same bytes. -/
theorem Item.entryBytes_of_perm (hatom : ∀ a b, atom a = some b → IsScalar b) {es : List (Item A × Item A)}
    {bs bs' : List (Bytes × Bytes)} (hbs : List.Forall₂ (EntryBytes atom le) es bs) (hn : (bs.map Prod.fst).Nodup)
    (hbs' : List.Forall₂ (EntryBytes atom le') es bs') (hp : bs.Perm bs') : bs = bs' := by
  rw [← List.forall₂_eq_eq_eq]
  refine forall₂_join hbs.flip hbs'.flip fun b hb b' hb' e _ he he' => ?_
  obtain ⟨f, -, hf⟩ := exists_of_mem_right hbs (hp.mem_iff.2 hb')
  -- the key is written in the second order as another key is in the first: the two are the same
  have hkey : e.1.encode atom le = some b'.1 := (encode_eq_iff hatom hf.1).2 (same_of_encode hatom hf.1 he'.1)
  exact List.inj_on_of_nodup_map hn hb (hp.mem_iff.2 hb') (Option.some.inj (he.1.symm.trans hkey))

variable [Std.Total le'] [IsTrans Bytes le'] [Std.Antisymm le']

/-- Two orders that hold between the same elements sort them alike. -/
theorem insertionSort_eq_iff {bs : List (Bytes × Bytes)} (hn : (bs.map Prod.fst).Nodup) :
    bs.insertionSort (keyLe le) = bs.insertionSort (keyLe le') ↔
      ∀ e ∈ bs, ∀ f ∈ bs, (le e.1 f.1 ↔ le' e.1 f.1) := by
  have hp := List.perm_insertionSort (keyLe le) bs
  have hp' := List.perm_insertionSort (keyLe le') bs
  have hle := List.pairwise_insertionSort (keyLe le) bs
  have hle' := List.pairwise_insertionSort (keyLe le') bs
  constructor
  · intro h e he f hf
    rw [← h] at hle'
    have hne := List.pairwise_map.1 ((hp.map Prod.fst).nodup_iff.2 hn)
    -- in the common sorted list, an earlier key is below a later one in both orders, and a later one in neither
    have hflip : List.Pairwise (fun e f : Bytes × Bytes => le f.1 e.1 ↔ le' f.1 e.1) (bs.insertionSort (keyLe le)) := by
      refine ((hle.and hle').and hne).imp fun hef => iff_of_false (fun hfe => ?_) fun hfe => ?_
      · exact hef.2 (Std.Antisymm.antisymm (r := le) _ _ hef.1.1 hfe)
      · exact hef.2 (Std.Antisymm.antisymm (r := le') _ _ hef.1.2 hfe)
    have hforth : List.Pairwise (fun e f : Bytes × Bytes => le e.1 f.1 ↔ le' e.1 f.1) (bs.insertionSort (keyLe le)) :=
      (hle.and hle').imp fun hef => iff_of_true hef.1 hef.2
    exact List.Pairwise.forall_of_forall_of_flip (R := fun e f : Bytes × Bytes => le e.1 f.1 ↔ le' e.1 f.1)
      (fun e _ => iff_of_true (refl_of le e.1) (refl_of le' e.1)) hforth hflip (hp.mem_iff.2 he) (hp.mem_iff.2 hf)
  · intro h
    refine List.Perm.eq_of_pairwise ?_ hle (hle'.imp_of_mem fun he hf hef => ?_) (hp.trans hp'.symm)
    · intro e f he hf hef hfe
      exact List.inj_on_of_nodup_map hn (hp.mem_iff.1 he) (hp'.mem_iff.1 hf)
        (Std.Antisymm.antisymm (r := le) _ _ hef hfe)
    · exact (h _ (hp'.mem_iff.1 he) _ (hp'.mem_iff.1 hf)).2 hef

/-- **When two orders give one encoding**: exactly when they agree on the keys of every map. -/
theorem Item.encode_iff_maps (hatom : ∀ a b, atom a = some b → IsScalar b) {x : Item A} {b : Bytes}
    (hx : x.encode atom le = some b) :
    x.encode atom le' = some b ↔ x.Maps (KeyPairs atom le fun k l => le k l ↔ le' k l) := by
  induction x using Item.induct generalizing b with
  | atom a => exact iff_of_true hx (.atom a)
  | array xs ih =>
    obtain ⟨bs, hbs, hl, rfl⟩ := encode_array.1 hx
    rw [maps_array]
    constructor
    · intro h x hx
      obtain ⟨bs', hbs', hl', heq⟩ := encode_array.1 h
      obtain rfl := array_items_eq hatom hbs hl hbs' hl' heq
      obtain ⟨b, -, hxb, hxb'⟩ := exists_of_mem_left (forall₂_both hbs hbs') hx
      exact (ih x hx hxb).1 hxb'
    · intro h
      exact encode_array.2 ⟨bs, forall₂_imp_mem hbs fun x hx b _ hxb => (ih x hx hxb).2 (h x hx), hl, rfl⟩
  | map es ih =>
    obtain ⟨bs, hbs, hn, hl, rfl⟩ := encode_map.1 hx
    rw [maps_map]
    constructor
    · intro h
      obtain ⟨bs', hbs', -, hl', heq⟩ := encode_map.1 h
      have hsorted := map_entries_eq hatom hbs hl hbs' hl' heq
      have hperm : bs.Perm bs' :=
        (List.perm_insertionSort (keyLe le) bs).symm.trans (hsorted ▸ List.perm_insertionSort (keyLe le') bs')
      obtain rfl := entryBytes_of_perm hatom hbs hn hbs' hperm
      have hboth := forall₂_both hbs hbs'
      refine ⟨fun e he f hf k l hk hl => ?_, fun e he => ?_⟩
      · obtain ⟨b, hb, heb⟩ := exists_of_mem_left hbs he
        obtain ⟨c, hc, hfc⟩ := exists_of_mem_left hbs hf
        obtain rfl := Option.some.inj (heb.1.symm.trans hk)
        obtain rfl := Option.some.inj (hfc.1.symm.trans hl)
        exact (insertionSort_eq_iff hn).1 hsorted b hb c hc
      · obtain ⟨b, -, heb, heb'⟩ := exists_of_mem_left hboth he
        exact ⟨((ih e he).1 heb.1).1 heb'.1, ((ih e he).2 heb.2).1 heb'.2⟩
    · intro h
      obtain ⟨hpairs, hall⟩ := h
      refine encode_map.2 ⟨bs, forall₂_imp_mem hbs fun e he b _ heb =>
        ⟨((ih e he).1 heb.1).2 (hall e he).1, ((ih e he).2 heb.2).2 (hall e he).2⟩, hn, hl, ?_⟩
      have hsorted : bs.insertionSort (keyLe le) = bs.insertionSort (keyLe le') := by
        refine (insertionSort_eq_iff hn).2 fun b hb c hc => ?_
        obtain ⟨e, he, heb⟩ := exists_of_mem_right hbs hb
        obtain ⟨f, hf, hfc⟩ := exists_of_mem_right hbs hc
        exact hpairs e he f hf b.1 c.1 heb.1 hfc.1
      rw [hsorted]

end

/-! ## The orders of the RFC -/

/-- Section 4.2.1: bytewise. -/
def bytewise (k l : Bytes) : Prop := k ≤ l

/-- Section 4.2.3: the shorter key first, and keys of one length bytewise. -/
def lengthFirst (k l : Bytes) : Prop := k.length < l.length ∨ k.length = l.length ∧ k ≤ l

instance : DecidableRel bytewise := fun k l => inferInstanceAs (Decidable (k ≤ l))

instance : DecidableRel lengthFirst := fun _ _ => inferInstanceAs (Decidable (_ ∨ _))

instance : Std.Total bytewise := ⟨fun k l => List.le_total k l⟩

instance : IsTrans Bytes bytewise := ⟨fun _ _ _ h h' => List.le_trans h h'⟩

instance : Std.Antisymm bytewise := ⟨fun _ _ h h' => List.le_antisymm h h'⟩

instance : Std.Total lengthFirst where
  total k l := by
    have h := List.le_total k l
    simp only [lengthFirst]
    rcases Nat.lt_trichotomy k.length l.length with hl | hl | hl
    · exact .inl (.inl hl)
    · exact h.imp (fun h => .inr ⟨hl, h⟩) fun h => .inr ⟨hl.symm, h⟩
    · exact .inr (.inl hl)

instance : IsTrans Bytes lengthFirst where
  trans k l m h h' := by
    rcases h with h | ⟨h, hkl⟩
    · rcases h' with h' | ⟨h', -⟩
      · exact .inl (h.trans h')
      · exact .inl (h' ▸ h)
    · rcases h' with h' | ⟨h', hlm⟩
      · exact .inl (h ▸ h')
      · exact .inr ⟨h.trans h', List.le_trans hkl hlm⟩

instance : Std.Antisymm lengthFirst where
  antisymm k l h h' := by
    rcases h with h | ⟨h, hkl⟩
    · rcases h' with h' | ⟨h', -⟩ <;> omega
    · rcases h' with h' | ⟨-, hlk⟩
      · omega
      · exact List.le_antisymm hkl hlk

/-- The two orders agree on keys when no shorter key comes later in the bytewise one. -/
theorem keyPairs_agree_iff {atom : A → Option Bytes} {le : Bytes → Bytes → Prop} [DecidableRel le]
    {es : List (Item A × Item A)} :
    KeyPairs atom le (fun k l => lengthFirst k l ↔ bytewise k l) es ↔
      KeyPairs atom le (fun k l => k.length < l.length → k ≤ l) es := by
  constructor
  · intro h e he f hf k l hk hl hlt
    exact (h e he f hf k l hk hl).1 (.inl hlt)
  · intro h e he f hf k l hk hl
    constructor
    · intro hkl
      rcases hkl with hlt | ⟨-, hkl⟩
      · exact h e he f hf k l hk hl hlt
      · exact hkl
    · intro hkl
      rcases Nat.lt_trichotomy k.length l.length with hlt | heq | hlt
      · exact .inl hlt
      · exact .inr ⟨heq, hkl⟩
      · have hlk := h f hf e he l k hl hk hlt
        rw [List.le_antisymm hkl hlk] at hlt
        omega

/-! ## Text keys -/

theorem append_le_append {p r t : Bytes} (h : r ≤ t) : p ++ r ≤ p ++ t := by
  induction p with
  | nil => exact h
  | cons b p ih => exact List.cons_le_cons_iff.2 (.inr ⟨rfl, ih⟩)

/-- Big-endian integers of one width compare like the integers. -/
theorem beBytes_append_le {w n m : Nat} (hlt : n < m) (hm : m < 256 ^ w) (r t : Bytes) :
    beBytes w n ++ r ≤ beBytes w m ++ t := by
  have hsucc (w n : Nat) : beBytes (w + 1) n = beBytes w (n / 256) ++ [UInt8.ofNat n] := by simp [beBytes, leBytes]
  induction w generalizing n m r t with
  | zero => simp at hm; omega
  | succ w ih =>
    rw [hsucc, hsucc, List.append_assoc, List.append_assoc]
    rw [Nat.pow_succ] at hm
    by_cases hq : n / 256 < m / 256
    · exact ih hq (by omega) _ _
    · have heq : n / 256 = m / 256 := by omega
      rw [heq]
      refine append_le_append (List.cons_le_cons_iff.2 (.inl ?_))
      rw [UInt8.lt_iff_toNat_lt, UInt8.toNat_ofNat', UInt8.toNat_ofNat']
      omega

theorem shortestInfo_mono {n m : Nat} (h : n ≤ m) : shortestInfo n ≤ shortestInfo m := by
  unfold shortestInfo
  split_ifs <;> omega

/-- An argument that is not in the initial byte fits behind it. -/
theorem lt_pow_width {n : Nat} (h24 : 24 ≤ n) (hn : n < 2 ^ 64) : n < 256 ^ argumentWidth (shortestInfo n) := by
  unfold shortestInfo
  split_ifs with h1 h2 h3 h4
  · omega
  all_goals
    simp only [argumentWidth, Nat.reduceLT, if_false, Nat.reduceSub, Nat.reducePow]
    omega

/-- A head with a smaller argument comes first. -/
theorem head_append_le {major : UInt8} {n m : Nat} (hlt : n < m) (hm : m < 2 ^ 64) (r t : Bytes) :
    head major n ++ r ≤ head major m ++ t := by
  have hn' := shortestInfo_lt n
  have hm' := shortestInfo_lt m
  rw [head_eq, head_eq, List.cons_append, List.cons_append, List.cons_le_cons_iff]
  rcases (shortestInfo_mono hlt.le).lt_or_eq with hinfo | hinfo
  · left
    rw [UInt8.lt_iff_toNat_lt]
    simp only [initial, UInt8.toNat_add, UInt8.toNat_mul, UInt8.toNat_ofNat', UInt8.reduceToNat]
    omega
  · right
    rw [hinfo]
    refine ⟨rfl, beBytes_append_le hlt (lt_pow_width (not_lt.1 fun hsmall => ?_) hm) _ _⟩
    rw [shortestInfo, shortestInfo, if_pos hsmall, if_pos (hlt.trans hsmall)] at hinfo
    omega

theorem length_head_le {major : UInt8} {n m : Nat} (h : n ≤ m) : (head major n).length ≤ (head major m).length := by
  unfold head
  split_ifs <;> simp <;> omega

/-- **A shorter text key comes first in both orders.** -/
theorem text_le {s t : String} (ht : (utf8 t).length < 2 ^ 64) (h : (text s).length < (text t).length) :
    text s ≤ text t := by
  rw [text, text, List.length_append, List.length_append] at h
  by_cases hlt : (utf8 s).length < (utf8 t).length
  · exact head_append_le hlt ht _ _
  · have hle := @length_head_le 3 _ _ (not_lt.1 hlt)
    omega

theorem keyPairs_of_text {atom : A → Option Bytes} {le : Bytes → Bytes → Prop} [DecidableRel le]
    {es : List (Item A × Item A)}
    (h : ∀ e ∈ es, ∀ k, e.1.encode atom le = some k → ∃ s, (utf8 s).length < 2 ^ 64 ∧ k = text s) :
    KeyPairs atom le (fun k l => k.length < l.length → k ≤ l) es := by
  intro e he f hf k l hk hl hlt
  obtain ⟨s, -, rfl⟩ := h e he k hk
  obtain ⟨t, ht, rfl⟩ := h f hf l hl
  exact text_le ht hlt

end Base.Cbor
