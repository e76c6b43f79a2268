import Mathlib.Data.List.Induction
import Mathlib.Data.Set.Function

/-!
# Merkle trees

Binary trees of digests, under any digest `pair` of two digests, and proofs that climb from a digest to a root. Where
`pair` does not collide and no leaf is the digest of a pair (`Separated`), the digests with a proof are exactly those of
the nodes (`hasProof_iff`): those of the leaves, and those of the inner nodes.
-/

namespace Base

variable {D : Type*}

inductive MerkleTree (D : Type*) where
  | leaf (d : D)
  | node (l r : MerkleTree D)

namespace MerkleTree

def leaves : MerkleTree D → List D
  | leaf d => [d]
  | node l r => leaves l ++ leaves r

variable (pair : D × D → D)

def root : MerkleTree D → D
  | leaf d => d
  | node l r => pair (root l, root r)

/-- The digests of the inner nodes. -/
def inner : MerkleTree D → List D
  | leaf _ => []
  | node l r => pair (root pair l, root pair r) :: (inner l ++ inner r)

/-- The pairs hashed for the root. -/
def pairs : MerkleTree D → List (D × D)
  | leaf _ => []
  | node l r => (root pair l, root pair r) :: (pairs l ++ pairs r)

/-- Among the pairs of `S`, which has those of the tree, none collide, and none has the digest of a leaf. -/
structure Separated (S : Set (D × D)) (t : MerkleTree D) : Prop where
  injOn : Set.InjOn pair S
  pairs : ∀ p ∈ t.pairs pair, p ∈ S
  leaves : ∀ d ∈ t.leaves, ∀ p ∈ S, d ≠ pair p

variable {pair} {S : Set (D × D)} {t l r : MerkleTree D} {d : D}

theorem root_mem (t : MerkleTree D) : t.root pair ∈ t.leaves ∨ t.root pair ∈ t.inner pair := by
  cases t with
  | leaf d => exact .inl List.mem_cons_self
  | node l r => exact .inr List.mem_cons_self

theorem Separated.left (h : Separated pair S (node l r)) : Separated pair S l where
  injOn := h.injOn
  pairs := fun p hp => h.pairs p (List.mem_cons_of_mem _ (List.mem_append_left _ hp))
  leaves := fun d hd => h.leaves d (List.mem_append_left _ hd)

theorem Separated.right (h : Separated pair S (node l r)) : Separated pair S r where
  injOn := h.injOn
  pairs := fun p hp => h.pairs p (List.mem_cons_of_mem _ (List.mem_append_right _ hp))
  leaves := fun d hd => h.leaves d (List.mem_append_right _ hd)

/-- The digest of an inner node is that of a pair hashed for the root. -/
theorem exists_pair_of_inner (h : d ∈ t.inner pair) : ∃ p ∈ t.pairs pair, d = pair p := by
  induction t with
  | leaf _ => cases h
  | node l r ihl ihr =>
    simp only [inner, List.mem_cons, List.mem_append] at h
    rcases h with rfl | h | h
    · exact ⟨_, List.mem_cons_self, rfl⟩
    · obtain ⟨p, hp, rfl⟩ := ihl h
      exact ⟨p, List.mem_cons_of_mem _ (List.mem_append_left _ hp), rfl⟩
    · obtain ⟨p, hp, rfl⟩ := ihr h
      exact ⟨p, List.mem_cons_of_mem _ (List.mem_append_right _ hp), rfl⟩

/-- No inner node has the digest of a leaf. -/
theorem Separated.disjoint (h : Separated pair S t) (hd : d ∈ t.leaves) : d ∉ t.inner pair := by
  intro hi
  obtain ⟨p, hp, rfl⟩ := exists_pair_of_inner hi
  exact h.leaves _ hd p (h.pairs p hp) rfl

end MerkleTree

/-! ## Proofs -/

section Climb

open MerkleTree

/-- The pair of a digest and its sibling, which is on the right for `true`. -/
def withSibling (d : D) (x : Bool × D) : D × D := if x.1 then (d, x.2) else (x.2, d)

variable (pair : D × D → D)

/-- From a digest up, past one sibling after the other. -/
def climb (d : D) (proof : List (Bool × D)) : D := proof.foldl (fun acc x => pair (withSibling acc x)) d

/-- The pairs hashed on the way. -/
def climbPairs : D → List (Bool × D) → List (D × D)
  | _, [] => []
  | d, x :: proof => withSibling d x :: climbPairs (pair (withSibling d x)) proof

variable {pair} {S : Set (D × D)} {t : MerkleTree D} {d : D}

theorem climb_snoc (d : D) (proof : List (Bool × D)) (x : Bool × D) :
    climb pair d (proof ++ [x]) = pair (withSibling (climb pair d proof) x) := by
  simp [climb]

theorem climbPairs_snoc (proof : List (Bool × D)) (x : Bool × D) : ∀ d : D,
    climbPairs pair d (proof ++ [x]) = climbPairs pair d proof ++ [withSibling (climb pair d proof) x] := by
  induction proof with
  | nil => exact fun _ => rfl
  | cons y proof ih =>
    intro d
    exact congrArg (_ :: ·) (ih _)

/-- Some proof leads from the digest to the root of the tree, over the pairs of `S`. -/
def HasProof (pair : D × D → D) (S : Set (D × D)) (t : MerkleTree D) (d : D) : Prop :=
  ∃ proof, (∀ p ∈ climbPairs pair d proof, p ∈ S) ∧ climb pair d proof = t.root pair

/-- A proof in a subtree, and the root of the other one as the last sibling. -/
theorem HasProof.up {sub : MerkleTree D} (h : HasProof pair S sub d) (x : Bool × D)
    (hx : withSibling (sub.root pair) x ∈ S) (ht : t.root pair = pair (withSibling (sub.root pair) x)) :
    HasProof pair S t d := by
  obtain ⟨proof, hp, hc⟩ := h
  refine ⟨proof ++ [x], ?_, by rw [climb_snoc, hc, ht]⟩
  rw [climbPairs_snoc, hc]
  intro p hm
  rcases List.mem_append.1 hm with hm | hm
  · exact hp p hm
  · rw [List.mem_singleton.1 hm]
    exact hx

/-- **Completeness**: every node has a proof. -/
theorem hasProof_of_mem (hS : ∀ p ∈ t.pairs pair, p ∈ S) (h : d ∈ t.leaves ∨ d ∈ t.inner pair) :
    HasProof pair S t d := by
  induction t with
  | leaf e =>
    obtain rfl : d = e := by simpa [MerkleTree.leaves, MerkleTree.inner] using h
    exact ⟨[], nofun, rfl⟩
  | node l r ihl ihr =>
    simp only [MerkleTree.pairs, List.forall_mem_cons, List.forall_mem_append] at hS
    obtain ⟨htop, hSl, hSr⟩ := hS
    have hleft : d ∈ l.leaves ∨ d ∈ l.inner pair → HasProof pair S (node l r) d :=
      fun hl => (ihl hSl hl).up (true, r.root pair) htop rfl
    have hright : d ∈ r.leaves ∨ d ∈ r.inner pair → HasProof pair S (node l r) d :=
      fun hr => (ihr hSr hr).up (false, l.root pair) htop rfl
    simp only [MerkleTree.leaves, MerkleTree.inner, List.mem_append, List.mem_cons] at h
    rcases h with (h | h) | rfl | h | h
    · exact hleft (.inl h)
    · exact hright (.inl h)
    · exact ⟨[], nofun, rfl⟩
    · exact hleft (.inr h)
    · exact hright (.inr h)

/-- **Soundness**: whatever climbs to the root over the pairs of `S` is a node. -/
theorem mem_of_climb (h : Separated pair S t) {proof : List (Bool × D)} (hc : climb pair d proof = t.root pair)
    (hp : ∀ p ∈ climbPairs pair d proof, p ∈ S) : d ∈ t.leaves ∨ d ∈ t.inner pair := by
  induction proof using List.reverseRecOn generalizing t with
  | nil =>
    obtain rfl : d = t.root pair := hc
    exact root_mem t
  | append_singleton proof x ih =>
    rw [climb_snoc] at hc
    rw [climbPairs_snoc] at hp
    have hx : withSibling (climb pair d proof) x ∈ S := hp _ (List.mem_append_right _ (List.mem_singleton_self _))
    have hp' : ∀ p ∈ climbPairs pair d proof, p ∈ S := fun p hm => hp p (List.mem_append_left _ hm)
    cases t with
    | leaf e => exact absurd hc.symm (h.leaves e List.mem_cons_self _ hx)
    | node l r =>
      -- the last pair is the one of the root, and the way to it leads to one of its two sides
      have hlr := h.injOn hx (h.pairs _ List.mem_cons_self) hc
      obtain ⟨right, sibling⟩ := x
      simp only [MerkleTree.leaves, MerkleTree.inner, List.mem_append, List.mem_cons]
      cases right with
      | true =>
        have hl := ih h.left (Prod.mk.inj hlr).1 hp'
        tauto
      | false =>
        have hr := ih h.right (Prod.mk.inj hlr).2 hp'
        tauto

/-- **The digests with a proof** are those of the nodes. -/
theorem hasProof_iff (h : Separated pair S t) : HasProof pair S t d ↔ d ∈ t.leaves ∨ d ∈ t.inner pair := by
  constructor
  · intro hx
    obtain ⟨proof, hp, hc⟩ := hx
    exact mem_of_climb h hc hp
  · exact hasProof_of_mem h.pairs

end Climb

end Base
