import Mathlib.Data.Set.Function
import ProofOfThought.Program.Entry

/-!
# Derived addresses

The runtime hashes the seeds of a PDA one after the other, without their lengths, and the bump behind them. The lengths
of the eight families keep them apart: where two of them are as long in total, they are as long seed by seed
(`lengths_of_sum`), and so the bytes determine the seeds (`flatten_inj`).

`Pubkey` keeps derived addresses apart by its constructors. `onChain_injOn` says when the addresses on the chain do so;
then they are read back from their bytes (`AddressBook`).
-/

namespace ProofOfThought.Program

open Base

namespace Seeds

variable {K : Type} {x y : Seeds Bytes32} {b c : UInt8}

/-! ## Seeds in a row -/

/-- The lengths of the seeds. -/
def lengths : Seeds K → List Nat
  | agent _ | vault _ | model _ => [5, 32]
  | policy _ => [6, 32]
  | vrf _ _ => [3, 32, 8]
  | thought _ _ => [7, 32, 8]
  | challenge _ _ => [9, 32, 32]
  | bond _ => [4, 32]

theorem length_utf8_tag (x : Seeds K) : x.lengths.head? = some (utf8 x.tag).length := by
  cases x <;> rfl

theorem map_length_bytes (x : Seeds Bytes32) : x.bytes.map List.length = x.lengths := by
  have htag := length_utf8_tag x
  cases x <;> simp_all [lengths, bytes]

/-- Agents, vaults and models are as long as each other; no other two families are. -/
theorem lengths_of_sum (x y : Seeds K) (h : x.lengths.sum = y.lengths.sum) : x.lengths = y.lengths := by
  cases x <;> cases y <;> simp [lengths] at h ⊢

/-- **The bytes of the seeds, one after the other, determine them.** -/
theorem flatten_inj : x.bytes.flatten = y.bytes.flatten ↔ x = y := by
  constructor
  · intro h
    have hsum := congrArg List.length h
    rw [List.length_flatten, List.length_flatten, map_length_bytes, map_length_bytes] at hsum
    have hlengths : x.bytes.map List.length = y.bytes.map List.length := by
      rw [map_length_bytes, map_length_bytes, lengths_of_sum x y hsum]
    exact bytes_inj (List.eq_iff_flatten_eq.2 ⟨h, hlengths⟩)
  · rintro rfl
    rfl

/-- What `create_program_address` hashes in front of the program id. -/
def preimage (x : Seeds Bytes32) (b : UInt8) : Bytes := (x.bytes ++ [[b]]).flatten

theorem preimage_inj : x.preimage b = y.preimage c ↔ x = y ∧ b = c := by
  rw [preimage, preimage, List.flatten_concat, List.flatten_concat]
  constructor
  · intro h
    obtain ⟨hx, hb⟩ := List.append_inj' h rfl
    exact ⟨flatten_inj.1 hx, List.head_eq_of_cons_eq hb⟩
  · rintro ⟨rfl, rfl⟩
    rfl

/-- The keys among the seeds. -/
def keys : Seeds K → List K
  | agent k | vault k | vrf k _ | thought k _ | bond k => [k]
  | model _ | policy _ => []
  | challenge t c => [t, c]

/-- Seeds are determined by what their keys are mapped to, where that determines the keys. -/
theorem eq_of_map {L : Type} {f : K → L} {x y : Seeds K} (hf : ∀ k ∈ x.keys, ∀ l ∈ y.keys, f k = f l → k = l)
    (h : x.map f = y.map f) : x = y := by
  cases x <;> cases y <;> simp_all [map, keys]

end Seeds

/-! ## Addresses on the chain -/

/-- Induction over addresses: every other one is derived from seeds. -/
@[elab_as_elim]
theorem Pubkey.induction {P : Pubkey → Prop} (key : ∀ bs, P (.key bs))
    (address : ∀ (x : Seeds Pubkey) b, (∀ k ∈ x.keys, P k) → P (x.address b)) : ∀ k, P k := by
  intro k
  induction k with
  | key bs => exact key bs
  | agent o b ho => exact address (.agent o) b (by simpa [Seeds.keys] using ho)
  | vault a b ha => exact address (.vault a) b (by simpa [Seeds.keys] using ha)
  | model i b => exact address (.model i) b (by simp [Seeds.keys])
  | policy i b => exact address (.policy i) b (by simp [Seeds.keys])
  | vrf a n b ha => exact address (.vrf a n) b (by simpa [Seeds.keys] using ha)
  | thought a n b ha => exact address (.thought a n) b (by simpa [Seeds.keys] using ha)
  | challenge t c b ht hc => exact address (.challenge t c) b (by simp [Seeds.keys, ht, hc])
  | bond c b hc => exact address (.bond c) b (by simpa [Seeds.keys] using hc)

/-- The addresses that an address is derived from. -/
def Pubkey.parents : Pubkey → List Pubkey
  | .key _ | .model _ _ | .policy _ _ => []
  | .agent k _ | .vault k _ | .vrf k _ _ | .thought k _ _ | .bond k _ => [k]
  | .challenge t c _ => [t, c]

theorem parents_address (x : Seeds Pubkey) (b : UInt8) : (x.address b).parents = x.keys := by
  cases x <;> rfl

section

variable (create : Bytes → Bytes32)

/-- The bytes of an address, where `create` hashes what is in front of the id of `pot_program`. -/
def Pubkey.onChain : Pubkey → Bytes32
  | .key bs => bs
  | .agent o b => create ((Seeds.agent o.onChain).preimage b)
  | .vault a b => create ((Seeds.vault a.onChain).preimage b)
  | .model i b => create ((Seeds.model i).preimage b)
  | .policy i b => create ((Seeds.policy i).preimage b)
  | .vrf a n b => create ((Seeds.vrf a.onChain n).preimage b)
  | .thought a n b => create ((Seeds.thought a.onChain n).preimage b)
  | .challenge t c b => create ((Seeds.challenge t.onChain c.onChain).preimage b)
  | .bond c b => create ((Seeds.bond c.onChain).preimage b)

theorem onChain_address (x : Seeds Pubkey) (b : UInt8) :
    (x.address b).onChain create = create ((x.map (·.onChain create)).preimage b) := by
  cases x <;> rfl

variable {create}

/-- Among the addresses of a set, the hash has no collisions, and no key that is not derived is one of its values. -/
structure Separates (create : Bytes → Bytes32) (S : Set Pubkey) : Prop where
  keys : ∀ x b, Seeds.address x b ∈ S → ∀ k ∈ x.keys, k ∈ S
  offCurve : ∀ x b bs, Seeds.address x b ∈ S → .key bs ∈ S → (x.address b).onChain create ≠ bs
  collisions : ∀ x b y c, Seeds.address x b ∈ S → Seeds.address y c ∈ S →
    (x.address b).onChain create = (y.address c).onChain create →
      (x.map (·.onChain create)).preimage b = (y.map (·.onChain create)).preimage c

variable {S : Set Pubkey}

/-- **The constructors keep apart what the chain keeps apart.** -/
theorem onChain_injOn (h : Separates create S) : Set.InjOn (·.onChain create) S := by
  intro k
  induction k using Pubkey.induction with
  | key bs =>
    intro hk k' hk' heq
    cases k' using Pubkey.induction with
    | key bs' => exact congrArg Pubkey.key heq
    | address y c => exact absurd heq.symm (h.offCurve y c bs hk' hk)
  | address x b ih =>
    intro hk k' hk' heq
    cases k' using Pubkey.induction with
    | key bs' => exact absurd heq (h.offCurve x b bs' hk hk')
    | address y c =>
      obtain ⟨hxy, rfl⟩ := Seeds.preimage_inj.1 (h.collisions x b y c hk hk' heq)
      refine congrArg (Seeds.address · b) (Seeds.eq_of_map ?_ hxy)
      intro k hkx l hly
      exact ih k hkx (h.keys x b hk k hkx) (h.keys y b hk' l hly)

/-- The addresses of a list are kept apart when their bytes are distinct, and those they are derived from are listed. -/
theorem separates_of_nodup {known : List Pubkey}
    (hparents : ∀ k ∈ known, k.parents ⊆ known) (hn : (known.map (·.onChain create)).Nodup) :
    Separates create {k | k ∈ known} where
  keys x b hx k hk := hparents _ hx (by rwa [parents_address])
  offCurve x b bs hx hk heq := absurd (List.inj_on_of_nodup_map hn hk hx heq.symm) (ne_address rfl x b)
  collisions x b y c hx hy heq := by
    obtain ⟨rfl, rfl⟩ := address_inj.1 (List.inj_on_of_nodup_map hn hx hy heq)
    rfl

end

/-! ## Reading addresses -/

/-- Addresses that their bytes keep apart, where `create` hashes the seeds. -/
structure AddressBook where
  create : Bytes → Bytes32
  known : List Pubkey
  separates : Separates create {k | k ∈ known}

namespace AddressBook

variable (book : AddressBook)

/-- The bytes of an address. -/
def bytes (k : Pubkey) : Bytes32 := k.onChain book.create

/-- The address with the bytes `b`: a known one, or a key. -/
def address (b : Bytes32) : Pubkey := (book.known.find? fun k => book.bytes k = b).getD (.key b)

@[simp] theorem bytes_address (b : Bytes32) : book.bytes (book.address b) = b := by
  unfold address
  cases hf : book.known.find? fun k => book.bytes k = b with
  | none => rfl
  | some k => simpa using List.find?_some hf

/-- The bytes of seeds whose keys are read. -/
theorem map_bytes_address (x : Seeds Bytes32) : (x.map book.address).map book.bytes = x := by
  cases x <;> simp [Seeds.map]

variable {book} {k : Pubkey}

/-- **A known address is read back from its bytes.** -/
theorem address_bytes (hk : k ∈ book.known) : book.address (book.bytes k) = k := by
  unfold address
  cases hf : book.known.find? fun k' => book.bytes k' = book.bytes k with
  | none => exact absurd (decide_eq_true rfl) (List.find?_eq_none.1 hf k hk)
  | some k' =>
    have hsame : book.bytes k' = book.bytes k := by simpa using List.find?_some hf
    exact onChain_injOn book.separates (List.mem_of_find?_eq_some hf) hk hsame

end AddressBook

end ProofOfThought.Program
