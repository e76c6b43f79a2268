import ProofOfThought.Base.Merkle
import ProofOfThought.Watcher.Verify

/-!
# Committed samples

`AnyOfNEquiv::merkle_member` over any tree of samples: what passes is exactly the digests of the nodes, so the claim of
membership is right for every digest but those of the inner nodes (`member_is_sample_iff`).
-/

namespace ProofOfThought.Watcher

open Base
open Program (Bytes32)

variable (blake3 : Bytes → Bytes32)

namespace AnyOfNEquiv

def merkleMember (revealedLeafHash : Bytes32) (proof : List (Bool × Bytes32)) (claimedRoot : Bytes32) : Bool :=
  let acc := proof.foldl (fun acc x =>
    let (isRight, sibling) := x
    if isRight then blake3 (acc.toList ++ sibling.toList) else blake3 (sibling.toList ++ acc.toList)) revealedLeafHash
  acc == claimedRoot

end AnyOfNEquiv

/-- `blake3(left || right)`. -/
def pairHash (p : Bytes32 × Bytes32) : Bytes32 := blake3 (p.1.toList ++ p.2.toList)

variable {blake3}

/-- The fold is a climb. -/
theorem merkleMember_eq_true {h r : Bytes32} {proof : List (Bool × Bytes32)} :
    AnyOfNEquiv.merkleMember blake3 h proof r = true ↔ climb (pairHash blake3) h proof = r := by
  have hstep : (fun (acc : Bytes32) (x : Bool × Bytes32) => pairHash blake3 (withSibling acc x)) =
      fun acc x => if x.1 then blake3 (acc.toList ++ x.2.toList) else blake3 (x.2.toList ++ acc.toList) := by
    funext acc x
    obtain ⟨isRight, sibling⟩ := x
    cases isRight <;> rfl
  rw [AnyOfNEquiv.merkleMember, climb, hstep, beq_iff_eq]

/-- Some proof makes `merkle_member` accept the digest for the root of the tree, over the pairs of `S`. -/
def Passes (blake3 : Bytes → Bytes32) (S : Set (Bytes32 × Bytes32)) (t : MerkleTree Bytes32) (h : Bytes32) : Prop :=
  ∃ proof, (∀ p ∈ climbPairs (pairHash blake3) h proof, p ∈ S) ∧
    AnyOfNEquiv.merkleMember blake3 h proof (t.root (pairHash blake3)) = true

variable {S : Set (Bytes32 × Bytes32)} {t : MerkleTree Bytes32} {h : Bytes32}

theorem passes_iff (hsep : t.Separated (pairHash blake3) S) :
    Passes blake3 S t h ↔ h ∈ t.leaves ∨ h ∈ t.inner (pairHash blake3) := by
  rw [← hasProof_iff hsep]
  simp only [Passes, HasProof, merkleMember_eq_true]

/-- **What passes is a sample exactly when it is not an inner node.** Over any pairs that do not collide and have no
sample as their digest, those of the tree among them. -/
theorem member_is_sample_iff (hsep : t.Separated (pairHash blake3) S) (h : Bytes32) :
    (Passes blake3 S t h ↔ h ∈ t.leaves) ↔ h ∉ t.inner (pairHash blake3) := by
  rw [passes_iff hsep]
  constructor
  · intro hx hi
    exact hsep.disjoint (hx.1 (.inr hi)) hi
  · intro hi
    exact ⟨fun hx => hx.resolve_right hi, .inl⟩

namespace Sample

def sampleA : Bytes32 := List.Vector.replicate 32 1

def sampleB : Bytes32 := List.Vector.replicate 32 2

/-- Two samples. -/
def twoSamples : MerkleTree Bytes32 := .node (.leaf sampleA) (.leaf sampleB)

theorem separated_twoSamples : twoSamples.Separated (pairHash digest) {(sampleA, sampleB)} where
  injOn := Set.injOn_singleton _ _
  pairs := by
    intro p hp
    exact List.mem_singleton.1 hp
  leaves := by
    intro d hd p hp
    obtain rfl := Set.mem_singleton_iff.1 hp
    simp only [twoSamples, MerkleTree.leaves, List.singleton_append, List.mem_cons, List.not_mem_nil, or_false] at hd
    rcases hd with rfl | rfl
    · decide +kernel
    · decide +kernel

end Sample

open Sample in
/-- The root passes, with the empty proof. -/
theorem root_passes : ¬∀ (blake3 : Bytes → Bytes32) (S : Set (Bytes32 × Bytes32)) (t : MerkleTree Bytes32)
    (h : Bytes32), t.Separated (pairHash blake3) S → (Passes blake3 S t h ↔ h ∈ t.leaves) := by
  intro hx
  have hleaf := (hx digest _ twoSamples (twoSamples.root (pairHash digest)) separated_twoSamples).1
    ⟨[], nofun, merkleMember_eq_true.2 rfl⟩
  exact absurd hleaf (by decide)

open Sample in
/-- The theorem at the first of two samples: it is no inner node, and passes. -/
theorem member_is_sample_iff_two : Passes digest {(sampleA, sampleB)} twoSamples sampleA :=
  ((member_is_sample_iff separated_twoSamples sampleA).2 (by decide)).2 (by decide)

end ProofOfThought.Watcher
