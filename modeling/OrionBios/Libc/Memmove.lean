import OrionBios.Machine.Memory

/-!
# `memmove`

The copy in the order that the overlap asks for. The invariant of both loops is one: a row of bytes
has been copied from the memory before, and nothing else has changed.
-/

namespace OrionBios.Libc.Memmove

open Machine

/-! ## The function -/

/-- `while (n--) *d++ = *s++` -/
def copyUp : Nat → Memory → Address → Address → Memory
  | 0, memory, _, _ => memory
  | n + 1, memory, d, s => copyUp n (store8 memory d (memory s)) (d + 1) (s + 1)

/-- `while (n--) *--d = *--s` -/
def copyDown : Nat → Memory → Address → Address → Memory
  | 0, memory, _, _ => memory
  | n + 1, memory, d, s => copyDown n (store8 memory (d - 1) (memory (s - 1))) (d - 1) (s - 1)

/-- What memory holds behind the call, and the pointer that is returned. -/
def memmove (memory : Memory) (dest src : Address) (n : Word) : Memory × Address :=
  if dest > src ∧ dest < src + n then (copyDown n.toNat memory (dest + n) (src + n), dest)
  else (copyUp n.toNat memory dest src, dest)

/-! ## What has been copied -/

/-- The bytes from the distance `low` to the distance `high` are those of the source. -/
def moved (memory : Memory) (dest src : Address) (low high : Nat) : Memory := fun other =>
  if low ≤ (other - dest).toNat ∧ (other - dest).toNat < high then memory (src + (other - dest))
  else memory other

variable {memory : Memory} {dest src other : Address} {low high index n : Nat}

theorem moved_inside (above : low ≤ (other - dest).toNat) (below : (other - dest).toNat < high) :
    moved memory dest src low high other = memory (src + (other - dest)) := if_pos ⟨above, below⟩

theorem moved_outside (outside : (other - dest).toNat < low ∨ high ≤ (other - dest).toNat) :
    moved memory dest src low high other = memory other := if_neg (by omega)

theorem moved_none : moved memory dest src index index = memory := by
  funext other
  exact moved_outside (by omega)

/-- A byte more, which was still in the source. -/
theorem store_moved {byte : BitVec 8} {low' high' : Nat} (small : index < 2 ^ 32)
    (isByte : byte = memory (src + BitVec.ofNat 32 index))
    (grows : ∀ distance, low' ≤ distance ∧ distance < high' ↔
      (low ≤ distance ∧ distance < high) ∨ distance = index) :
    store8 (moved memory dest src low high) (dest + BitVec.ofNat 32 index) byte =
      moved memory dest src low' high' := by
  funext other
  rw [store8]
  by_cases same : other = dest + BitVec.ofNat 32 index
  · have distance : other - dest = BitVec.ofNat 32 index := by rw [same, add_sub_cancel_left]
    have isIndex : (other - dest).toNat = index := by
      rw [distance, BitVec.toNat_ofNat, Nat.mod_eq_of_lt small]
    obtain ⟨above, below⟩ := (grows _).mpr (.inr isIndex)
    rw [if_pos same, moved_inside above below, distance, isByte]
  · have differs : (other - dest).toNat ≠ index := by
      intro isIndex
      apply same
      rw [← isIndex, BitVec.ofNat_toNat, BitVec.setWidth_eq, BitVec.add_comm, BitVec.sub_add_cancel]
    have as := grows (other - dest).toNat
    rw [if_neg same, moved, moved]
    by_cases within : low ≤ (other - dest).toNat ∧ (other - dest).toNat < high
    · rw [if_pos within, if_pos (as.mpr (.inl within))]
    · rw [if_neg within, if_neg fun later => (as.mp later).elim within differs]

/-! ## The loops -/

theorem next_address (address : Address) (index : Nat) :
    address + BitVec.ofNat 32 index + 1 = address + BitVec.ofNat 32 (index + 1) := by
  rw [BitVec.ofNat_add, BitVec.add_assoc]
  rfl

theorem previous_address (address : Address) (index : Nat) :
    address + BitVec.ofNat 32 (index + 1) - 1 = address + BitVec.ofNat 32 index := by
  rw [← next_address, BitVec.add_sub_cancel]

/-- In increasing order: no byte of the source has been written when its turn comes. -/
theorem copyUp_moved (destFits : dest.toNat + n ≤ 2 ^ 32) (srcFits : src.toNat + n ≤ 2 ^ 32)
    (forward : dest.toNat ≤ src.toNat ∨ src.toNat + n ≤ dest.toNat) {count done : Nat}
    (total : done + count = n) :
    copyUp count (moved memory dest src 0 done) (dest + BitVec.ofNat 32 done)
        (src + BitVec.ofNat 32 done) = moved memory dest src 0 n := by
  induction count generalizing done with
  | zero => rw [copyUp, ← total, Nat.add_zero]
  | succ count inductionHypothesis =>
      have unread : moved memory dest src 0 done (src + BitVec.ofNat 32 done) =
          memory (src + BitVec.ofNat 32 done) := moved_outside (.inr (by bv_omega))
      rw [copyUp, unread, @store_moved _ _ _ _ _ done _ 0 (done + 1) (by omega) rfl
        (fun distance => by omega), next_address, next_address]
      exact inductionHypothesis (by omega)

/-- In decreasing order, where the destination begins inside the source. -/
theorem copyDown_moved (destFits : dest.toNat + n ≤ 2 ^ 32) (backward : src.toNat < dest.toNat)
    {count : Nat} (within : count ≤ n) :
    copyDown count (moved memory dest src count n) (dest + BitVec.ofNat 32 count)
        (src + BitVec.ofNat 32 count) = moved memory dest src 0 n := by
  induction count with
  | zero => rfl
  | succ count inductionHypothesis =>
      have unread : moved memory dest src (count + 1) n (src + BitVec.ofNat 32 count) =
          memory (src + BitVec.ofNat 32 count) := by
        rw [moved, if_neg (by bv_omega)]
      rw [copyDown, previous_address, previous_address, unread,
        @store_moved _ _ _ _ _ count _ count n (by omega) rfl (fun distance => by omega)]
      exact inductionHypothesis (by omega)

theorem memmove_moved {n : Word} (destFits : dest.toNat + n.toNat ≤ 2 ^ 32)
    (srcFits : src.toNat + n.toNat ≤ 2 ^ 32) :
    (memmove memory dest src n).1 = moved memory dest src 0 n.toNat := by
  have whole : BitVec.ofNat 32 n.toNat = n := by rw [BitVec.ofNat_toNat, BitVec.setWidth_eq]
  rw [memmove]
  by_cases overlap : dest > src ∧ dest < src + n
  · have backward := @copyDown_moved memory dest src _ destFits (BitVec.lt_def.mp overlap.1) _
      (Nat.le_refl n.toNat)
    rw [moved_none, whole] at backward
    rw [if_pos overlap]
    exact backward
  · have forward : dest.toNat ≤ src.toNat ∨ src.toNat + n.toNat ≤ dest.toNat := by
      rw [not_and_or] at overlap
      bv_omega
    have upward := @copyUp_moved memory dest src _ destFits srcFits forward _ 0
      (Nat.zero_add n.toNat)
    rw [moved_none, BitVec.add_zero, BitVec.add_zero] at upward
    rw [if_neg overlap]
    exact upward

/-- The destination holds what the source held, and no other byte has changed. -/
theorem memmove_copies (memory : Memory) (dest src : Address) (n : Word)
    (destFits : dest.toNat + n.toNat ≤ 2 ^ 32) (srcFits : src.toNat + n.toNat ≤ 2 ^ 32) :
    (∀ index < n.toNat, (memmove memory dest src n).1 (dest + BitVec.ofNat 32 index) =
      memory (src + BitVec.ofNat 32 index)) ∧
    ∀ other, ¬Within dest n.toNat other → (memmove memory dest src n).1 other = memory other := by
  rw [memmove_moved destFits srcFits]
  constructor
  · intro index less
    have distance : dest + BitVec.ofNat 32 index - dest = BitVec.ofNat 32 index :=
      add_sub_cancel_left dest _
    have isIndex : (BitVec.ofNat 32 index).toNat = index := by
      rw [BitVec.toNat_ofNat, Nat.mod_eq_of_lt (by omega)]
    rw [moved_inside (Nat.zero_le _) (by rw [distance, isIndex]; exact less), distance]
  · intro other outside
    exact moved_outside (.inr (Nat.not_lt.mp outside))

/-- Every byte its own address, and three of them moved to the right by one. -/
theorem memmove_copies_overlapping :
    (∀ index < 3, (memmove (fun address => address.setWidth 8) 101 100 3).1
        (101 + BitVec.ofNat 32 index) = (100 + BitVec.ofNat 32 index).setWidth 8) ∧
    ∀ other, ¬Within 101 3 other →
      (memmove (fun address => address.setWidth 8) 101 100 3).1 other = other.setWidth 8 :=
  memmove_copies (fun address => address.setWidth 8) 101 100 3 (by decide) (by decide)

end OrionBios.Libc.Memmove
