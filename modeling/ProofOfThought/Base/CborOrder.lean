import ProofOfThought.Base.CborItem

/-!
# Deterministic CBOR up to the order of entries

An encoding has one item, up to the order of the entries of its maps and up to atoms with the same bytes, and an item
has one encoding in whatever order its entries are given (`encode_eq_iff`).
-/

namespace Base.Cbor

variable {A : Type}

/-! ## Items up to the order of entries -/

/-- The items are equal up to the order of the entries of their maps, and up to `R` in their atoms. -/
inductive Item.Same (R : A → A → Prop) : Item A → Item A → Prop
  | atom {a a' : A} (h : R a a') : Same R (.atom a) (.atom a')
  | array {xs ys : List (Item A)} (hl : xs.length = ys.length) (h : ∀ p ∈ xs.zip ys, Same R p.1 p.2) :
    Same R (.array xs) (.array ys)
  /-- The entries of one map are those of the other one in some order. -/
  | map {es fs gs : List (Item A × Item A)} (hl : es.length = gs.length) (hk : ∀ p ∈ es.zip gs, Same R p.1.1 p.2.1)
    (hv : ∀ p ∈ es.zip gs, Same R p.1.2 p.2.2) (hp : gs.Perm fs) : Same R (.map es) (.map fs)

def Item.SameEntry (R : A → A → Prop) (e f : Item A × Item A) : Prop := e.1.Same R f.1 ∧ e.2.Same R f.2

/-- Every atom of the item satisfies `P`. -/
inductive Item.All (P : A → Prop) : Item A → Prop
  | atom {a : A} (h : P a) : All P (.atom a)
  | array {xs : List (Item A)} (h : ∀ x ∈ xs, All P x) : All P (.array xs)
  | map {es : List (Item A × Item A)} (hk : ∀ e ∈ es, All P e.1) (hv : ∀ e ∈ es, All P e.2) : All P (.map es)

theorem Item.all_atom {P : A → Prop} {a : A} : (Item.atom a).All P ↔ P a := by
  constructor
  · intro h
    cases h with
    | atom h => exact h
  · exact .atom

theorem Item.all_array {P : A → Prop} {xs : List (Item A)} : (Item.array xs).All P ↔ ∀ x ∈ xs, x.All P := by
  constructor
  · intro h
    cases h with
    | array h => exact h
  · exact .array

theorem Item.all_map {P : A → Prop} {es : List (Item A × Item A)} :
    (Item.map es).All P ↔ ∀ e ∈ es, e.1.All P ∧ e.2.All P := by
  constructor
  · intro h
    cases h with
    | map hk hv => exact fun e he => ⟨hk e he, hv e he⟩
  · intro h
    exact .map (fun e he => (h e he).1) fun e he => (h e he).2

section

variable {R S : A → A → Prop}

theorem Item.same_atom {a : A} {y : Item A} : (Item.atom a).Same R y ↔ ∃ a', y = .atom a' ∧ R a a' := by
  constructor
  · intro h
    cases h with
    | atom h => exact ⟨_, rfl, h⟩
  · intro h
    obtain ⟨a', rfl, h⟩ := h
    exact .atom h

theorem Item.same_array {xs : List (Item A)} {y : Item A} :
    (Item.array xs).Same R y ↔ ∃ ys, y = .array ys ∧ List.Forall₂ (Same R) xs ys := by
  constructor
  · intro h
    cases h with
    | array hl h => exact ⟨_, rfl, List.forall₂_iff_zip.2 ⟨hl, fun hp => h _ hp⟩⟩
  · intro h
    obtain ⟨ys, rfl, h⟩ := h
    exact .array h.length_eq fun p hp => List.forall₂_zip h hp

theorem Item.same_map {es : List (Item A × Item A)} {y : Item A} :
    (Item.map es).Same R y ↔ ∃ fs gs, y = .map fs ∧ List.Forall₂ (SameEntry R) es gs ∧ gs.Perm fs := by
  constructor
  · intro h
    cases h with
    | map hl hk hv hp => exact ⟨_, _, rfl, List.forall₂_iff_zip.2 ⟨hl, fun h => ⟨hk _ h, hv _ h⟩⟩, hp⟩
  · intro h
    obtain ⟨fs, gs, rfl, h, hp⟩ := h
    exact .map h.length_eq (fun p hp => (List.forall₂_zip h hp).1) (fun p hp => (List.forall₂_zip h hp).2) hp

/-- Two lists that match a third one match each other. -/
theorem forall₂_join {α β γ : Type} {P : α → γ → Prop} {Q : β → γ → Prop} {T : α → β → Prop} {xs : List α} {ys : List β}
    {zs : List γ} (hx : List.Forall₂ P xs zs) (hy : List.Forall₂ Q ys zs)
    (h : ∀ x ∈ xs, ∀ y ∈ ys, ∀ z ∈ zs, P x z → Q y z → T x y) : List.Forall₂ T xs ys := by
  induction hx generalizing ys with
  | nil =>
    cases hy
    exact .nil
  | cons hxz _ ih =>
    cases hy with
    | cons hyz hy =>
      refine .cons (h _ List.mem_cons_self _ List.mem_cons_self _ List.mem_cons_self hxz hyz) (ih hy ?_)
      intro x hx y hy z hz
      exact h x (List.mem_cons_of_mem _ hx) y (List.mem_cons_of_mem _ hy) z (List.mem_cons_of_mem _ hz)

theorem exists_of_mem_left {α β : Type} {P : α → β → Prop} {xs : List α} {ys : List β} (h : List.Forall₂ P xs ys)
    {x : α} (hx : x ∈ xs) : ∃ y ∈ ys, P x y := by
  induction h with
  | nil => cases hx
  | cons hp _ ih =>
    rcases List.mem_cons.1 hx with rfl | hx
    · exact ⟨_, List.mem_cons_self, hp⟩
    · obtain ⟨y, hy, hxy⟩ := ih hx
      exact ⟨y, List.mem_cons_of_mem _ hy, hxy⟩

theorem exists_of_mem_right {α β : Type} {P : α → β → Prop} {xs : List α} {ys : List β} (h : List.Forall₂ P xs ys)
    {y : β} (hy : y ∈ ys) : ∃ x ∈ xs, P x y :=
  exists_of_mem_left h.flip hy

theorem forall₂_both {α β : Type} {P Q : α → β → Prop} {xs : List α} {ys : List β} (hP : List.Forall₂ P xs ys)
    (hQ : List.Forall₂ Q xs ys) : List.Forall₂ (fun x y => P x y ∧ Q x y) xs ys :=
  List.forall₂_iff_zip.2 ⟨hP.length_eq, fun h => ⟨List.forall₂_zip hP h, List.forall₂_zip hQ h⟩⟩

end

/-! ## An encoding is well formed -/

section

variable {atom : A → Option Bytes} {le le' : Bytes → Bytes → Prop} [DecidableRel le] [DecidableRel le']

theorem length_interleave (entries : List (Bytes × Bytes)) : (interleave entries).length = 2 * entries.length := by
  induction entries with
  | nil => rfl
  | cons e entries ih =>
    rw [interleave, List.flatMap_cons, List.length_append, ← interleave, ih, List.length_cons, List.length_cons,
      List.length_cons, List.length_nil]
    omega

theorem interleave_inj {es fs : List (Bytes × Bytes)} (h : interleave es = interleave fs) : es = fs := by
  induction es generalizing fs with
  | nil =>
    cases fs with
    | nil => rfl
    | cons f fs => simp [interleave] at h
  | cons e es ih =>
    cases fs with
    | nil => simp [interleave] at h
    | cons f fs =>
      simp only [interleave, List.flatMap_cons, List.cons_append, List.nil_append, List.cons.injEq] at h
      obtain ⟨h1, h2, h3⟩ := h
      rw [Prod.ext h1 h2, ih h3]

/-- A container is its head and the items in it. -/
theorem wellFormed_container {major : UInt8} {n : Nat} {items : List Bytes} (hmajor : major ∈ [4, 5]) (hn : n < 2 ^ 64)
    (hcount : items.length = if major = 5 then 2 * n else n) (hitems : ∀ b ∈ items, WellFormed b) :
    WellFormed (head major n ++ items.flatten) := by
  rw [head_eq, List.cons_append]
  exact .container hmajor (shortestInfo_lt n) (length_beBytes _ _) (by rw [hcount, argument_head hn]) hitems

/-- Each item in the bytes of a map is a key or a value of it. -/
theorem Item.exists_of_mem_interleave {es : List (Item A × Item A)} {bs : List (Bytes × Bytes)}
    (he : List.Forall₂ (EntryBytes atom le) es bs) {b : Bytes} (hb : b ∈ interleave (bs.insertionSort (keyLe le))) :
    ∃ e ∈ es, e.1.encode atom le = some b ∨ e.2.encode atom le = some b := by
  obtain ⟨f, hf, hb⟩ := List.mem_flatMap.1 hb
  obtain ⟨e, he, hk, hv⟩ := exists_of_mem_right he ((List.mem_insertionSort _).1 hf)
  simp only [List.mem_cons, List.not_mem_nil, or_false] at hb
  rcases hb with rfl | rfl
  · exact ⟨e, he, .inl hk⟩
  · exact ⟨e, he, .inr hv⟩

theorem Item.wellFormed_of_encode (hatom : ∀ a b, atom a = some b → IsScalar b) {x : Item A} {b : Bytes}
    (h : x.encode atom le = some b) : WellFormed b := by
  induction x using Item.induct generalizing b with
  | atom a => exact .scalar (hatom a b h)
  | array items ih =>
    obtain ⟨bs, hbs, hl, rfl⟩ := encode_array.1 h
    refine wellFormed_container (by simp) hl rfl fun b hb => ?_
    obtain ⟨x, hx, hxb⟩ := exists_of_mem_right hbs hb
    exact ih x hx hxb
  | map entries ih =>
    obtain ⟨bs, hbs, -, hl, rfl⟩ := encode_map.1 h
    refine wellFormed_container (by simp) hl ?_ fun b hb => ?_
    · rw [length_interleave, List.length_insertionSort]
      rfl
    · obtain ⟨e, he, hk | hv⟩ := exists_of_mem_interleave hbs hb
      · exact (ih e he).1 hk
      · exact (ih e he).2 hv

/-! ## An encoding has one item -/

/-- The atoms are written as the same bytes. -/
def SameBytes (atom : A → Option Bytes) (a a' : A) : Prop := ∃ b, atom a = some b ∧ atom a' = some b

theorem flatten_inj {items items' : List Bytes} (h : ∀ b ∈ items, WellFormed b) (h' : ∀ b ∈ items', WellFormed b)
    (hl : items.length = items'.length) (heq : items.flatten = items'.flatten) : items = items' :=
  (flatten_append_inj (fun b hb _ _ _ hb' heq => (h b hb).append_inj hb' heq) h' hl (congrArg (· ++ []) heq)).1

theorem not_isScalar_container {major : UInt8} {n : Nat} {rest : Bytes} (hmajor : major ∈ [4, 5]) :
    ¬IsScalar (head major n ++ rest) := by
  intro h
  generalize hb : head major n ++ rest = b at h
  obtain ⟨hscalar, hinfo, -, -⟩ := h
  rw [head_eq] at hb
  have hlt := shortestInfo_lt n
  obtain ⟨rfl, -⟩ := initial_inj (container_major_lt _ hmajor) (scalar_major_lt _ hscalar) (by omega) (by omega)
    (List.cons.inj hb).1
  exact not_container_of_scalar _ hscalar hmajor

theorem array_ne_map {n m : Nat} {r r' : Bytes} (hn : n < 2 ^ 64) (hm : m < 2 ^ 64) : head 4 n ++ r ≠ head 5 m ++ r' :=
  fun h => absurd (head_append_inj (by decide) (by decide) hn hm h).1 (by decide)

variable (hatom : ∀ a b, atom a = some b → IsScalar b)
include hatom

/-- Arrays with the same bytes have the same bytes inside. -/
theorem Item.array_items_eq {xs ys : List (Item A)} {bs bs' : List Bytes}
    (hx : List.Forall₂ (fun x b => x.encode atom le = some b) xs bs) (hl : bs.length < 2 ^ 64)
    (hy : List.Forall₂ (fun x b => x.encode atom le' = some b) ys bs') (hl' : bs'.length < 2 ^ 64)
    (h : head 4 bs.length ++ bs.flatten = head 4 bs'.length ++ bs'.flatten) : bs = bs' := by
  obtain ⟨-, hlen, heq⟩ := head_append_inj (by decide) (by decide) hl hl' h
  refine flatten_inj (fun b hb => ?_) (fun b hb => ?_) hlen heq
  · obtain ⟨x, -, hxb⟩ := exists_of_mem_right hx hb
    exact wellFormed_of_encode hatom hxb
  · obtain ⟨y, -, hyb⟩ := exists_of_mem_right hy hb
    exact wellFormed_of_encode hatom hyb

theorem Item.wellFormed_interleave {es : List (Item A × Item A)} {bs : List (Bytes × Bytes)}
    (he : List.Forall₂ (EntryBytes atom le) es bs) {b : Bytes} (hb : b ∈ interleave (bs.insertionSort (keyLe le))) :
    WellFormed b := by
  obtain ⟨e, -, hk | hv⟩ := exists_of_mem_interleave he hb
  · exact wellFormed_of_encode hatom hk
  · exact wellFormed_of_encode hatom hv

/-- Maps with the same bytes have the same bytes inside, in the same order. -/
theorem Item.map_entries_eq {es fs : List (Item A × Item A)} {bs bs' : List (Bytes × Bytes)}
    (he : List.Forall₂ (EntryBytes atom le) es bs) (hl : bs.length < 2 ^ 64)
    (hf : List.Forall₂ (EntryBytes atom le') fs bs') (hl' : bs'.length < 2 ^ 64)
    (h : head 5 bs.length ++ (interleave (bs.insertionSort (keyLe le))).flatten =
      head 5 bs'.length ++ (interleave (bs'.insertionSort (keyLe le'))).flatten) :
    bs.insertionSort (keyLe le) = bs'.insertionSort (keyLe le') := by
  obtain ⟨-, hlen, heq⟩ := head_append_inj (by decide) (by decide) hl hl' h
  refine interleave_inj (flatten_inj (fun b hb => wellFormed_interleave hatom he hb)
    (fun b hb => wellFormed_interleave hatom hf hb) ?_ heq)
  rw [length_interleave, length_interleave, List.length_insertionSort, List.length_insertionSort, hlen]

/-- **Items with the same bytes are the same**, even if they are written in different orders. -/
theorem Item.same_of_encode {x y : Item A} {b : Bytes} (hx : x.encode atom le = some b)
    (hy : y.encode atom le' = some b) : x.Same (SameBytes atom) y := by
  induction x using Item.induct generalizing y b with
  | atom a =>
    cases y with
    | atom a' => exact .atom ⟨b, hx, hy⟩
    | array ys =>
      obtain ⟨bs, -, -, rfl⟩ := encode_array.1 hy
      exact absurd (hatom a _ hx) (not_isScalar_container (by simp))
    | map fs =>
      obtain ⟨bs, -, -, -, rfl⟩ := encode_map.1 hy
      exact absurd (hatom a _ hx) (not_isScalar_container (by simp))
  | array xs ih =>
    obtain ⟨bs, hxs, hl, rfl⟩ := encode_array.1 hx
    cases y with
    | atom a' => exact absurd (hatom a' _ hy) (not_isScalar_container (by simp))
    | array ys =>
      obtain ⟨bs', hys, hl', heq⟩ := encode_array.1 hy
      obtain rfl := array_items_eq hatom hxs hl hys hl' heq
      exact same_array.2 ⟨ys, rfl, forall₂_join hxs hys fun x hx y _ b _ hxb hyb => ih x hx hxb hyb⟩
    | map fs =>
      obtain ⟨bs', -, -, hl', heq⟩ := encode_map.1 hy
      exact absurd heq (array_ne_map hl hl')
  | map es ih =>
    obtain ⟨bs, hes, -, hl, rfl⟩ := encode_map.1 hx
    cases y with
    | atom a' => exact absurd (hatom a' _ hy) (not_isScalar_container (by simp))
    | array ys =>
      obtain ⟨bs', -, hl', heq⟩ := encode_array.1 hy
      exact absurd heq.symm (array_ne_map hl' hl)
    | map fs =>
      obtain ⟨bs', hfs, -, hl', heq⟩ := encode_map.1 hy
      have hsorted := map_entries_eq hatom hes hl hfs hl' heq
      have hperm : bs.Perm bs' :=
        (List.perm_insertionSort (keyLe le) bs).symm.trans (hsorted ▸ List.perm_insertionSort (keyLe le') bs')
      obtain ⟨gs, hgs, hp⟩ := List.perm_comp_forall₂ hperm hfs.flip
      exact same_map.2 ⟨fs, gs, rfl, forall₂_join hes hgs.flip fun e he f _ b _ heb hfb =>
        ⟨(ih e he).1 heb.1 hfb.1, (ih e he).2 heb.2 hfb.2⟩, hp⟩

end

/-! ## An item has one encoding -/

section

variable {R S : A → A → Prop}

/-- A weaker relation, on the atoms of an item. -/
theorem Item.Same.mono_of_all {P : A → Prop} (hRS : ∀ a a', P a → R a a' → S a a') {x y : Item A} (h : x.Same R y)
    (hx : x.All P) : x.Same S y := by
  induction h with
  | atom h => exact .atom (hRS _ _ (all_atom.1 hx) h)
  | array hl _ ih => exact .array hl fun p hp => ih p hp (all_array.1 hx p.1 (List.of_mem_zip hp).1)
  | map hl _ _ hperm ihk ihv =>
    exact .map hl (fun p hp => ihk p hp (all_map.1 hx p.1 (List.of_mem_zip hp).1).1)
      (fun p hp => ihv p hp (all_map.1 hx p.1 (List.of_mem_zip hp).1).2) hperm

theorem Item.same_refl (hR : ∀ a, R a a) (x : Item A) : x.Same R x := by
  induction x using Item.induct with
  | atom a => exact .atom (hR a)
  | array items ih => exact same_array.2 ⟨items, rfl, List.forall₂_same.2 ih⟩
  | map entries ih => exact same_map.2 ⟨entries, entries, rfl, List.forall₂_same.2 ih, .refl entries⟩

/-- A relation with membership in hand. -/
theorem forall₂_imp_mem {α β : Type} {P T : α → β → Prop} {xs : List α} {ys : List β} (h : List.Forall₂ P xs ys)
    (hT : ∀ x ∈ xs, ∀ y ∈ ys, P x y → T x y) : List.Forall₂ T xs ys :=
  forall₂_join h (List.forall₂_same.2 fun _ _ => rfl) fun x hx y hy _ _ hxz hyz => hT x hx y hy (hyz ▸ hxz)

theorem Item.Same.symm (hR : ∀ a a', R a a' → S a' a) {x y : Item A} (h : x.Same R y) : y.Same S x := by
  induction x using Item.induct generalizing y with
  | atom a =>
    obtain ⟨a', rfl, ha⟩ := same_atom.1 h
    exact .atom (hR a a' ha)
  | array xs ih =>
    obtain ⟨ys, rfl, hs⟩ := same_array.1 h
    exact same_array.2 ⟨xs, rfl, forall₂_imp_mem hs.flip fun _ _ x hx hxy => ih x hx hxy⟩
  | map es ih =>
    obtain ⟨fs, gs, rfl, hs, hp⟩ := same_map.1 h
    obtain ⟨es', hes', hp'⟩ := List.perm_comp_forall₂ hp.symm hs.flip
    refine same_map.2 ⟨es, es', rfl, forall₂_imp_mem hes' fun f _ e he hef => ?_, hp'⟩
    exact ⟨(ih e (hp'.mem_iff.1 he)).1 hef.1, (ih e (hp'.mem_iff.1 he)).2 hef.2⟩

/-- What holds of the atoms of one item holds of those of the other. -/
theorem Item.All.of_same {P Q : A → Prop} (hR : ∀ a a', R a a' → P a → Q a') {x y : Item A} (h : x.Same R y)
    (hx : x.All P) : y.All Q := by
  induction x using Item.induct generalizing y with
  | atom a =>
    obtain ⟨a', rfl, ha⟩ := same_atom.1 h
    cases hx with
    | atom hx => exact .atom (hR a a' ha hx)
  | array xs ih =>
    obtain ⟨ys, rfl, hs⟩ := same_array.1 h
    cases hx with
    | array hx =>
      refine .array fun y hy => ?_
      obtain ⟨x, hmem, hxy⟩ := exists_of_mem_right hs hy
      exact ih x hmem hxy (hx x hmem)
  | map es ih =>
    obtain ⟨fs, gs, rfl, hs, hp⟩ := same_map.1 h
    cases hx with
    | map hk hv =>
      refine .map (fun f hf => ?_) fun f hf => ?_
      all_goals obtain ⟨e, he, hef⟩ := exists_of_mem_right hs (hp.mem_iff.2 hf)
      · exact (ih e he).1 hef.1 (hk e he)
      · exact (ih e he).2 hef.2 (hv e he)

theorem Item.all_of_forall {P : A → Prop} (h : ∀ a, P a) (x : Item A) : x.All P := by
  induction x using Item.induct with
  | atom a => exact .atom (h a)
  | array xs ih => exact .array ih
  | map es ih => exact all_map.2 ih

theorem Item.All.mono {P Q : A → Prop} (hPQ : ∀ a, P a → Q a) {x : Item A} (h : x.All P) : x.All Q :=
  h.of_same (fun a _ heq ha => heq ▸ hPQ a ha) (same_refl (R := Eq) (fun _ => rfl) x)

theorem Item.All.and {P Q : A → Prop} {x : Item A} (hP : x.All P) (hQ : x.All Q) : x.All fun a => P a ∧ Q a := by
  induction x using Item.induct with
  | atom a => exact .atom ⟨all_atom.1 hP, all_atom.1 hQ⟩
  | array xs ih => exact .array fun x hx => ih x hx (all_array.1 hP x hx) (all_array.1 hQ x hx)
  | map es ih =>
    rw [all_map] at hP hQ ⊢
    exact fun e he => ⟨(ih e he).1 (hP e he).1 (hQ e he).1, (ih e he).2 (hP e he).2 (hQ e he).2⟩

variable {atom : A → Option Bytes} {le le' : Bytes → Bytes → Prop} [DecidableRel le] [DecidableRel le']

instance [Std.Total le] : Std.Total (keyLe le) := ⟨fun e f => Std.Total.total (r := le) e.1 f.1⟩

instance [IsTrans Bytes le] : IsTrans (Bytes × Bytes) (keyLe le) :=
  ⟨fun e f g => IsTrans.trans (r := le) e.1 f.1 g.1⟩

variable [Std.Total le] [IsTrans Bytes le] [Std.Antisymm le]

/-- Entries with different keys have one order. -/
theorem insertionSort_perm {bs bs' : List (Bytes × Bytes)} (hp : bs.Perm bs') (hn : (bs.map Prod.fst).Nodup) :
    bs.insertionSort (keyLe le) = bs'.insertionSort (keyLe le) := by
  refine List.Perm.eq_of_pairwise ?_ (List.pairwise_insertionSort _ bs) (List.pairwise_insertionSort _ bs')
    ((List.perm_insertionSort _ bs).trans (hp.trans (List.perm_insertionSort _ bs').symm))
  intro e f he hf hef hfe
  rw [List.mem_insertionSort] at he hf
  exact List.inj_on_of_nodup_map hn he (hp.mem_iff.2 hf) (Std.Antisymm.antisymm (r := le) _ _ hef hfe)

/-- **The order of the entries does not matter.** -/
theorem Item.encode_of_same (hR : ∀ a a' b, R a a' → atom a = some b → atom a' = some b) {x y : Item A} {b : Bytes}
    (h : x.Same R y) (hx : x.encode atom le = some b) : y.encode atom le = some b := by
  induction x using Item.induct generalizing y b with
  | atom a =>
    obtain ⟨a', rfl, ha⟩ := same_atom.1 h
    exact hR a a' b ha hx
  | array xs ih =>
    obtain ⟨ys, rfl, hs⟩ := same_array.1 h
    obtain ⟨bs, hbs, hl, rfl⟩ := encode_array.1 hx
    exact encode_array.2 ⟨bs, forall₂_join hs.flip hbs.flip fun y _ b _ x hx hxy hxb => ih x hx hxy hxb, hl, rfl⟩
  | map es ih =>
    obtain ⟨fs, gs, rfl, hs, hp⟩ := same_map.1 h
    obtain ⟨bs, hbs, hn, hl, rfl⟩ := encode_map.1 hx
    have hgs : List.Forall₂ (EntryBytes atom le) gs bs :=
      forall₂_join hs.flip hbs.flip fun f _ b _ e he hef heb => ⟨(ih e he).1 hef.1 heb.1, (ih e he).2 hef.2 heb.2⟩
    obtain ⟨bs', hbs', hp'⟩ := List.perm_comp_forall₂ hp.symm hgs
    refine encode_map.2 ⟨bs', hbs', (hp'.map Prod.fst).nodup_iff.2 hn, hp'.length_eq ▸ hl, ?_⟩
    rw [hp'.length_eq, insertionSort_perm hp'.symm hn]

/-- **When items are written alike**: exactly when they are the same up to atoms with the same bytes. -/
theorem Item.encode_eq_iff (hatom : ∀ a b, atom a = some b → IsScalar b) {x y : Item A} {b : Bytes}
    (hx : x.encode atom le = some b) : y.encode atom le = some b ↔ x.Same (SameBytes atom) y := by
  constructor
  · exact same_of_encode hatom hx
  · intro h
    refine encode_of_same (fun a a' c hc ha => ?_) h hx
    obtain ⟨d, hd, hd'⟩ := hc
    rw [← ha, hd, hd']

end

end Base.Cbor
