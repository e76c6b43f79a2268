import Mathlib.Data.List.Forall2
import Mathlib.Data.Option.Basic

/-!
# Schemas of documents

A document is an object with named properties, an array, or a leaf. A schema says which documents conform, what is kept
of them, which documents agree on what is kept, and where a document violates it. Every schema keeps its laws with it:
what is kept conforms and is kept whole, documents that agree conform alike, and a violated document does not conform.

Schemas are built from leaves (`Schema.leaf`), arrays (`Schema.arrayOr`) and objects (`Schema.object`).
-/

namespace Base

/-- Documents with objects and arrays; a property may be there and undefined. -/
class Document (V : Type*) where
  properties? : V → Option (String → Option V)
  elements? : V → Option (List V)
  isUndefined : V → Bool
  object : List (String × V) → V
  array : List V → V
  properties?_object (fs : List (String × V)) : properties? (object fs) = some fun key => fs.lookup key
  elements?_array (vs : List V) : elements? (array vs) = some vs

/-- A step into a document. -/
inductive Key where
  | field (name : String)
  | index (i : Nat)
  deriving DecidableEq

abbrev Location := List Key

structure Schema (V : Type*) where
  Conforms : V → Prop
  /-- What is kept of a document. -/
  keep : V → V
  /-- The documents differ at most in what is not kept. -/
  Agree : V → V → Prop
  /-- The document violates the schema at the location. -/
  Violated : V → Location → Prop
  keep_conforms {v : V} : Conforms v → Conforms (keep v)
  keep_keep {v : V} : Conforms v → keep (keep v) = keep v
  agree {v w : V} : Agree v w → Conforms v → Conforms w ∧ keep w = keep v
  not_conforms {v : V} {loc : Location} : Violated v loc → ¬Conforms v

namespace Schema

variable {V : Type*}

/-! ## Leaves -/

/-- Documents with the property `P`, of which `f` is kept. -/
def leaf (P : V → Prop) (f : V → V) (hP : ∀ v, P v → P (f v)) (hf : ∀ v, P v → f (f v) = f v) : Schema V where
  Conforms := P
  keep := f
  Agree := Eq
  Violated v loc := loc = [] ∧ ¬P v
  keep_conforms h := hP _ h
  keep_keep h := hf _ h
  agree := by rintro v _ rfl h; exact ⟨h, rfl⟩
  not_conforms h := h.2

/-- Documents with the property `P`, kept as they are. -/
def plain (P : V → Prop) : Schema V := leaf P id (fun _ h => h) fun _ _ => rfl

/-- Any document. -/
def any : Schema V := plain fun _ => True

@[simp] theorem any_conforms {v : V} : (any : Schema V).Conforms v := trivial

@[simp] theorem any_keep {v : V} : (any : Schema V).keep v = v := rfl

/-! ## Arrays -/

section Array

variable [Document V]

open Document

/-- Arrays of conforming documents, and documents with the property `P` that are no arrays. -/
def arrayOr (P : V → Prop) (S : Schema V) : Schema V where
  Conforms v := match elements? v with
    | some vs => ∀ x ∈ vs, S.Conforms x
    | none => P v
  keep v := match elements? v with
    | some vs => array (vs.map S.keep)
    | none => v
  Agree v w := v = w ∨ ∃ vs ws, elements? v = some vs ∧ elements? w = some ws ∧ List.Forall₂ S.Agree vs ws
  Violated v loc := match elements? v with
    | some vs => ∃ i x rest, vs[i]? = some x ∧ S.Violated x rest ∧ loc = .index i :: rest
    | none => loc = [] ∧ ¬P v
  keep_conforms := by
    intro v h
    cases hv : elements? v with
    | none => simpa only [hv] using h
    | some vs =>
      simp only [hv, elements?_array, List.forall_mem_map] at h ⊢
      exact fun x hx => S.keep_conforms (h x hx)
  keep_keep := by
    intro v h
    cases hv : elements? v with
    | none => simp only [hv]
    | some vs =>
      simp only [hv, elements?_array, List.map_map] at h ⊢
      exact congrArg array (List.map_congr_left fun x hx => S.keep_keep (h x hx))
  agree := by
    intro v w hag h
    rcases hag with rfl | ⟨vs, ws, hv, hw, hall⟩
    · exact ⟨h, rfl⟩
    · simp only [hv, hw] at h ⊢
      clear hv hw
      suffices hs : (∀ x ∈ ws, S.Conforms x) ∧ ws.map S.keep = vs.map S.keep from ⟨hs.1, congrArg array hs.2⟩
      induction hall with
      | nil => simp
      | @cons x y xs ys hxy _ ih =>
        obtain ⟨hx, hxs⟩ := List.forall_mem_cons.1 h
        obtain ⟨hy, hkeep⟩ := S.agree hxy hx
        obtain ⟨hys, hkeeps⟩ := ih hxs
        exact ⟨List.forall_mem_cons.2 ⟨hy, hys⟩, by rw [List.map_cons, List.map_cons, hkeep, hkeeps]⟩
  not_conforms := by
    intro v loc h hc
    cases hv : elements? v with
    | none =>
      simp only [hv] at h hc
      exact h.2 hc
    | some vs =>
      simp only [hv] at h hc
      obtain ⟨i, x, rest, hx, hbad, -⟩ := h
      exact S.not_conforms hbad (hc x (List.mem_of_getElem? hx))

/-- Arrays of conforming documents. -/
def array (S : Schema V) : Schema V := arrayOr (fun _ => False) S

end Array

end Schema

/-! ## Objects -/

/-- A property of an object. An optional one may be missing or undefined. -/
structure Property (V : Type*) [Document V] where
  name : String
  required : Bool
  schema : Schema V
  defined : required = false → ∀ v, schema.Conforms v → Document.isUndefined v = false

namespace Property

variable {V : Type*} [Document V] (p : Property V)

/-- What counts as given for the property. -/
def given (x : Option V) : Option V := x.filter fun v => p.required || !Document.isUndefined v

def Conforms (x : Option V) : Prop :=
  match p.given x with
  | some v => p.schema.Conforms v
  | none => p.required = false

def Agree (x y : Option V) : Prop := Option.Rel p.schema.Agree (p.given x) (p.given y)

def Violated (x : Option V) (rest : Location) : Prop :=
  match p.given x with
  | some v => p.schema.Violated v rest
  | none => rest = [] ∧ p.required = true

def keep (x : Option V) : Option V := (p.given x).map p.schema.keep

variable {p} {x y : Option V}

/-- What is kept of a conforming property is given. -/
theorem given_keep (h : p.Conforms x) : p.given (p.keep x) = p.keep x := by
  unfold Conforms at h
  unfold keep
  split at h
  · rename_i v hv
    rw [hv, Option.map_some, given, Option.filter_some, if_pos]
    cases hr : p.required with
    | true => rfl
    | false => simp [p.defined hr _ (p.schema.keep_conforms h)]
  · rename_i hv
    rw [hv]
    rfl

theorem keep_conforms (h : p.Conforms x) : p.Conforms (p.keep x) := by
  have hgiven := given_keep h
  unfold Conforms at h ⊢
  rw [hgiven, keep]
  split at h
  · rename_i v hv
    simpa only [hv, Option.map_some] using p.schema.keep_conforms h
  · rename_i hv
    simpa only [hv, Option.map_none] using h

theorem keep_keep (h : p.Conforms x) : p.keep (p.keep x) = p.keep x := by
  have hgiven := given_keep h
  unfold Conforms at h
  rw [keep, hgiven, keep]
  split at h
  · rename_i v hv
    rw [hv, Option.map_some, Option.map_some, p.schema.keep_keep h]
  · rename_i hv
    rw [hv]
    rfl

theorem agree (hag : p.Agree x y) (h : p.Conforms x) : p.Conforms y ∧ p.keep y = p.keep x := by
  unfold Agree at hag
  unfold Conforms at h ⊢
  unfold keep
  generalize p.given x = x' at hag h ⊢
  generalize p.given y = y' at hag ⊢
  cases hag with
  | some hvw =>
    obtain ⟨hw, hkeep⟩ := p.schema.agree hvw h
    exact ⟨hw, congrArg some hkeep⟩
  | none => exact ⟨h, rfl⟩

theorem not_conforms {rest : Location} (h : p.Violated x rest) : ¬p.Conforms x := by
  unfold Violated at h
  unfold Conforms
  split at h
  · exact p.schema.not_conforms h
  · simp [h.2]

end Property

namespace Schema

variable {V : Type*} [Document V]

/-- What is kept of an object is found under its names. -/
theorem lookup_keep {ps : List (Property V)} (hn : (ps.map Property.name).Nodup) (o : String → Option V)
    {p : Property V} (hp : p ∈ ps) :
    (ps.filterMap fun q => (q.keep (o q.name)).map fun v => (q.name, v)).lookup p.name = p.keep (o p.name) := by
  induction ps with
  | nil => cases hp
  | cons q ps ih =>
    rw [List.map_cons, List.nodup_cons] at hn
    obtain ⟨hnot, hn⟩ := hn
    rw [List.filterMap_cons]
    rcases List.mem_cons.1 hp with rfl | hp
    · cases hk : p.keep (o p.name) with
      | some v => simp
      | none =>
        -- the name is not taken by another property
        refine List.lookup_eq_none_iff.2 fun f hf => ?_
        obtain ⟨q, hq, hf⟩ := List.mem_filterMap.1 hf
        obtain ⟨v, -, rfl⟩ := Option.map_eq_some_iff.1 hf
        have hne : p.name ≠ q.name := fun heq => hnot (heq ▸ List.mem_map_of_mem hq)
        exact bne_iff_ne.2 hne
    · have hne : p.name ≠ q.name := fun heq => hnot (heq ▸ List.mem_map_of_mem hp)
      cases hk : q.keep (o q.name) with
      | some v =>
        rw [Option.map_some, List.lookup_cons, beq_false_of_ne hne]
        exact ih hn hp
      | none => exact ih hn hp

open Document

/-- Objects whose properties conform; other properties are not kept. -/
def object (ps : List (Property V)) (hn : (ps.map Property.name).Nodup) : Schema V where
  Conforms v := ∃ o, properties? v = some o ∧ ∀ p ∈ ps, p.Conforms (o p.name)
  keep v := match properties? v with
    | some o => Document.object (ps.filterMap fun p => (p.keep (o p.name)).map fun v => (p.name, v))
    | none => v
  Agree v w := v = w ∨ ∃ o o', properties? v = some o ∧ properties? w = some o' ∧
    ∀ p ∈ ps, p.Agree (o p.name) (o' p.name)
  Violated v loc := match properties? v with
    | some o => ∃ p ∈ ps, ∃ rest, p.Violated (o p.name) rest ∧ loc = .field p.name :: rest
    | none => loc = []
  keep_conforms := by
    intro v h
    obtain ⟨o, ho, h⟩ := h
    simp only [ho, properties?_object]
    refine ⟨_, rfl, fun p hp => ?_⟩
    rw [lookup_keep hn o hp]
    exact Property.keep_conforms (h p hp)
  keep_keep := by
    intro v h
    obtain ⟨o, ho, h⟩ := h
    simp only [ho, properties?_object]
    refine congrArg Document.object (List.filterMap_congr fun p hp => ?_)
    rw [lookup_keep hn o hp, Property.keep_keep (h p hp)]
  agree := by
    intro v w hag h
    rcases hag with rfl | ⟨o, o', hv, hw, hall⟩
    · exact ⟨h, rfl⟩
    · obtain ⟨_, ho, h⟩ := h
      obtain rfl := Option.some.inj (hv.symm.trans ho)
      simp only [hv, hw]
      refine ⟨⟨o', rfl, fun p hp => (Property.agree (hall p hp) (h p hp)).1⟩, ?_⟩
      refine congrArg Document.object (List.filterMap_congr fun p hp => ?_)
      rw [(Property.agree (hall p hp) (h p hp)).2]
  not_conforms := by
    intro v loc h hc
    obtain ⟨o, ho, hc⟩ := hc
    simp only [ho] at h
    obtain ⟨p, hp, rest, hbad, -⟩ := h
    exact Property.not_conforms hbad (hc p hp)

/-! ## Stricter schemas -/

/-- `S` keeps and compares like `T` and is violated wherever `T` is. -/
structure Stricter (S T : Schema V) : Prop where
  keep : S.keep = T.keep
  agree : S.Agree = T.Agree
  violated : ∀ {v loc}, T.Violated v loc → S.Violated v loc

section Replace

variable {ps₁ ps₂ : List (Property V)} {p q : Property V} {hp : ((ps₁ ++ p :: ps₂).map Property.name).Nodup}
  {hq : ((ps₁ ++ q :: ps₂).map Property.name).Nodup}

/-- An object conforms with one property made stricter if that property does. -/
theorem object_conforms_iff (hname : p.name = q.name) {c : Option V → Prop}
    (h : ∀ x, p.Conforms x ↔ q.Conforms x ∧ c x) {v : V} :
    (object (ps₁ ++ p :: ps₂) hp).Conforms v ↔
      (object (ps₁ ++ q :: ps₂) hq).Conforms v ∧ ∀ o, properties? v = some o → c (o p.name) := by
  have hall (o : String → Option V) : (∀ r ∈ ps₁ ++ p :: ps₂, r.Conforms (o r.name)) ↔
      (∀ r ∈ ps₁ ++ q :: ps₂, r.Conforms (o r.name)) ∧ c (o p.name) := by
    rw [List.forall_mem_append, List.forall_mem_append, List.forall_mem_cons, List.forall_mem_cons, h, ← hname]
    tauto
  constructor
  · rintro ⟨o, ho, hv⟩
    obtain ⟨hv, hc⟩ := (hall o).1 hv
    refine ⟨⟨o, ho, hv⟩, fun o' ho' => ?_⟩
    obtain rfl := Option.some.inj (ho.symm.trans ho')
    exact hc
  · rintro ⟨⟨o, ho, hv⟩, hc⟩
    exact ⟨o, ho, (hall o).2 ⟨hv, hc o ho⟩⟩

/-- A stricter property makes an object stricter. -/
theorem Stricter.object (ps₁ ps₂ : List (Property V)) {hp : ((ps₁ ++ p :: ps₂).map Property.name).Nodup}
    {hq : ((ps₁ ++ q :: ps₂).map Property.name).Nodup} (hname : p.name = q.name) (hreq : p.required = q.required)
    (h : Stricter p.schema q.schema) :
    Stricter (object (ps₁ ++ p :: ps₂) hp) (object (ps₁ ++ q :: ps₂) hq) := by
  have hgiven (x : Option V) : p.given x = q.given x := by simp only [Property.given, hreq]
  have hviolated {x : Option V} {rest : Location} : q.Violated x rest → p.Violated x rest := by
    unfold Property.Violated
    rw [hgiven, hreq]
    split
    · exact h.violated
    · exact id
  have hkeep (x : Option V) : p.keep x = q.keep x := by rw [Property.keep, Property.keep, hgiven, h.keep]
  have hagree (x y : Option V) : p.Agree x y = q.Agree x y := by
    rw [Property.Agree, Property.Agree, hgiven, hgiven, h.agree]
  constructor
  · funext v
    simp only [Schema.object, List.filterMap_append, List.filterMap_cons, hkeep, hname]
  · funext v w
    simp only [Schema.object, List.forall_mem_append, List.forall_mem_cons, hagree, hname]
  · intro v loc hv
    simp only [Schema.object] at hv ⊢
    split at hv
    · obtain ⟨r, hr, rest, hbad, rfl⟩ := hv
      simp only [List.mem_append, List.mem_cons] at hr
      rcases hr with hr | rfl | hr
      · exact ⟨r, by simp [hr], rest, hbad, rfl⟩
      · exact ⟨p, by simp, rest, hviolated (hname ▸ hbad), by rw [hname]⟩
      · exact ⟨r, by simp [hr], rest, hbad, rfl⟩
    · exact hv

end Replace

end Schema

end Base
