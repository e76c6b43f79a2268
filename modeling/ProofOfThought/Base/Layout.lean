import ProofOfThought.Base.Bytes

/-!
# Layouts of records

A record is written field by field, without separators. Where a field starts is the length of what is written before it
(`Record.mem_offsets`), and that is where its bytes are read (`Record.read_at`).
-/

namespace Base

/-- The fields of a record in order, by name, each with the bytes it is written as. -/
abbrev Record := List (String × Bytes)

namespace Record

def bytes (r : Record) : Bytes := (r.map Prod.snd).flatten

/-- Where the fields start, the first one at `start`. -/
def offsets : Nat → Record → List (String × Nat)
  | _, [] => []
  | start, f :: r => (f.1, start) :: offsets (start + f.2.length) r

variable {r r' : Record} {start : Nat}

@[simp] theorem bytes_nil : bytes [] = [] := rfl

@[simp] theorem bytes_cons (f : String × Bytes) (r : Record) : bytes (f :: r) = f.2 ++ bytes r := rfl

@[simp] theorem bytes_append : bytes (r ++ r') = bytes r ++ bytes r' := by simp [bytes]

theorem offsets_append : offsets start (r ++ r') = offsets start r ++ offsets (start + (bytes r).length) r' := by
  induction r generalizing start with
  | nil => rfl
  | cons f r ih =>
    rw [List.cons_append, offsets, offsets, ih, bytes_cons, List.length_append, Nat.add_assoc]
    rfl

theorem mem_offsets {name : String} {o : Nat} :
    (name, o) ∈ offsets start r ↔ ∃ pre bs post, r = pre ++ (name, bs) :: post ∧ o = start + (bytes pre).length := by
  constructor
  · intro h
    induction r generalizing start with
    | nil => cases h
    | cons f r ih =>
      rcases List.mem_cons.1 h with h | h
      · obtain ⟨rfl, rfl⟩ := Prod.mk.inj h
        exact ⟨[], f.2, r, rfl, rfl⟩
      · obtain ⟨pre, bs, post, rfl, rfl⟩ := ih h
        exact ⟨f :: pre, bs, post, rfl, by rw [bytes_cons, List.length_append, Nat.add_assoc]⟩
  · rintro ⟨pre, bs, post, rfl, rfl⟩
    rw [offsets_append]
    exact List.mem_append_right _ List.mem_cons_self

/-- A field is read where it starts, in what follows a header. -/
theorem read_at {name : String} {o : Nat} (header : Bytes) (h : (name, o) ∈ offsets header.length r) :
    ∃ bs, (name, bs) ∈ r ∧ ((header ++ bytes r).drop o).take bs.length = bs := by
  obtain ⟨pre, bs, post, rfl, rfl⟩ := mem_offsets.1 h
  refine ⟨bs, by simp, ?_⟩
  rw [bytes_append, bytes_cons, ← List.append_assoc, ← List.length_append, List.drop_left, List.take_left]

end Record

/-! ## Buffers -/

/-- A buffer of `n` bytes with `bs` at its front and zeros behind them. -/
def padTo (n : Nat) (bs : Bytes) : Bytes := bs ++ List.replicate (n - bs.length) 0

/-- Writing to the front of a buffer. -/
def overwrite (old new : Bytes) : Bytes := new ++ old.drop new.length

theorem length_padTo {n : Nat} {bs : Bytes} (h : bs.length ≤ n) : (padTo n bs).length = n := by
  rw [padTo, List.length_append, List.length_replicate]
  omega

/-- The first write into an empty buffer. -/
theorem overwrite_zeros (n : Nat) (bs : Bytes) : overwrite (List.replicate n 0) bs = padTo n bs := by
  rw [overwrite, List.drop_replicate, padTo]

/-- A write of the same length leaves nothing of the one before. -/
theorem overwrite_padTo {n : Nat} {as bs : Bytes} (h : as.length = bs.length) :
    overwrite (padTo n as) bs = padTo n bs := by
  rw [overwrite, padTo, padTo, List.drop_left' h, h]

end Base
