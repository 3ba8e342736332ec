import OrionBios.SectorPath.Moving

/-!
# The bytes of a buffer

The 68k keeps the first byte of a word on top, the firmware below, and the DMA channels swap the
two: a block of the card and the words of the 68k name the same bytes in the same order, through
the bounce buffer or without it.
-/

namespace OrionBios.SectorPath

open Machine (Address Memory Program Within store8)
open PicoIde Transition

/-! ## Bytes of words -/

theorem highByte_append (upper lower : Byte) : highByte (upper ++ lower) = upper := by
  apply BitVec.eq_of_getLsbD_eq
  intro i less
  rw [highByte, BitVec.getLsbD_extractLsb', BitVec.getLsbD_append]
  simp [less]

theorem lowByte_append (upper lower : Byte) : lowByte (upper ++ lower) = lower := by
  apply BitVec.eq_of_getLsbD_eq
  intro i less
  rw [lowByte, BitVec.getLsbD_extractLsb', BitVec.getLsbD_append]
  simp [less]

theorem bswap_bswap (word : Word) : bswap (bswap word) = word := by
  rw [bswap, bswap, lowByte_append, highByte_append]
  exact BitVec.extractLsb'_append_extractLsb'

theorem upper_lt (i : Fin 256) : 2 * i.val < 512 := by
  omega

theorem lower_lt (i : Fin 256) : 2 * i.val + 1 < 512 := by
  omega

def blockWords (block : Block) : List Word :=
  (List.finRange 256).map fun i =>
    block ⟨2 * i.val, upper_lt i⟩ ++ block ⟨2 * i.val + 1, lower_lt i⟩

theorem blockWords_length (block : Block) : (blockWords block).length = 256 := by
  rw [blockWords, List.length_map, List.length_finRange]

theorem sectorWords_sectorOfBlock (block : Block) :
    sectorWords (sectorOfBlock block) = blockWords block := by
  refine List.map_congr_left fun i _ => ?_
  rw [bswap, sectorOfBlock, lowByte_append, highByte_append]

/-- The byte `k` of a row of words. -/
def byteAt (words : List Word) (k : Nat) : Byte :=
  if k % 2 = 0 then highByte (words.getD (k / 2) 0) else lowByte (words.getD (k / 2) 0)

theorem byteAt_blockWords (block : Block) (i : Fin 512) :
    byteAt (blockWords block) i.val = block i := by
  have half : i.val / 2 < 256 := by omega
  have word : (blockWords block).getD (i.val / 2) 0 =
      block ⟨2 * (i.val / 2), by omega⟩ ++ block ⟨2 * (i.val / 2) + 1, by omega⟩ := by
    have inside : i.val / 2 < (blockWords block).length := by
      rw [blockWords_length]
      exact half
    rw [List.getD_eq_getElem?_getD, List.getElem?_eq_getElem inside, Option.getD_some]
    simp only [blockWords, List.getElem_map, List.getElem_finRange, Fin.val_cast]
  rw [byteAt, word, highByte_append, lowByte_append]
  split
  · next even =>
    refine congrArg block (Fin.ext ?_)
    show 2 * (i.val / 2) = i.val
    omega
  · next odd =>
    refine congrArg block (Fin.ext ?_)
    show 2 * (i.val / 2) + 1 = i.val
    omega

theorem byteAt_cons (word : Word) (words : List Word) (k : Nat) :
    byteAt (word :: words) (k + 2) = byteAt words k := by
  have half : (k + 2) / 2 = k / 2 + 1 := by omega
  rw [byteAt, half, List.getD_cons_succ, Nat.add_mod_right]
  rfl

/-! ## Stores -/

theorem storeWords_apply (words : List Word) (address : Address) (memory : Memory)
    (fits : 2 * words.length ≤ 2 ^ 32) (other : Address) :
    storeWords words address memory other =
      if (other - address).toNat < 2 * words.length then byteAt words (other - address).toNat
      else memory other := by
  induction words generalizing address memory with
  | nil => rfl
  | cons word rest inductionHypothesis =>
      rw [List.length_cons] at fits ⊢
      rw [storeWords, inductionHypothesis _ _ (by omega)]
      by_cases first : other = address
      · have near : (other - address).toNat = 0 := by bv_omega
        have far : ¬ (other - (address + 2)).toNat < 2 * rest.length := by bv_omega
        have apart : other ≠ address + 1 := by bv_omega
        rw [near, if_neg far, if_pos (by omega), store8, if_neg apart, store8, if_pos first]
        rfl
      · by_cases second : other = address + 1
        · have near : (other - address).toNat = 1 := by bv_omega
          have far : ¬ (other - (address + 2)).toNat < 2 * rest.length := by bv_omega
          rw [near, if_neg far, if_pos (by omega), store8, if_pos second]
          rfl
        · have step : (other - address).toNat = (other - (address + 2)).toNat + 2 := by bv_omega
          rw [step, byteAt_cons, store8, if_neg second, store8, if_neg first]
          refine if_congr ?_ rfl rfl
          omega

theorem storeWords_blockWords (block : Block) (address : Address) (memory : Memory)
    (other : Address) :
    storeWords (blockWords block) address memory other =
      if inside : (other - address).toNat < 512 then block ⟨(other - address).toNat, inside⟩
      else memory other := by
  rw [storeWords_apply _ _ _ (by rw [blockWords_length]; decide), blockWords_length]
  split
  · next inside => exact byteAt_blockWords block ⟨_, inside⟩
  · rfl

/-! ## Loads -/

theorem loadWords_length (memory : Memory) (address : Address) :
    (loadWords memory address).length = 256 := by
  rw [loadWords, List.length_map, List.length_range]

def blockAt (memory : Memory) (address : Address) : Block := fun i =>
  memory (address + BitVec.ofNat 32 i.val)

theorem loadWords_getElem? (memory : Memory) (address : Address) (i : Nat) (word : Word)
    (at1 : (loadWords memory address)[i]? = some word) :
    word = memory (address + BitVec.ofNat 32 (2 * i)) ++
      memory (address + BitVec.ofNat 32 (2 * i + 1)) := by
  obtain ⟨inside, same⟩ := List.getElem?_eq_some_iff.mp at1
  rw [← same]
  simp only [loadWords, List.getElem_map, List.getElem_range]

theorem memcpy_apply (destination source : Address) (sources memory : Memory) (k : Nat)
    (inside : k < 512) :
    memcpy destination source 512 sources memory (destination + BitVec.ofNat 32 k) =
      sources (source + BitVec.ofNat 32 k) := by
  have offset : destination + BitVec.ofNat 32 k - destination = BitVec.ofNat 32 k := by
    rw [BitVec.add_comm, BitVec.add_sub_cancel]
  have small : (BitVec.ofNat 32 k).toNat < 512 := by
    rw [BitVec.toNat_ofNat]
    omega
  rw [memcpy, offset, if_pos small]

/-- Through the bounce buffer or without it, the driver has the words of its buffer. -/
theorem loadWords_memcpy (source : Address) (sources memory : Memory) :
    loadWords (memcpy 0 source 512 sources memory) 0 = loadWords sources source := by
  refine List.map_congr_left fun i among => ?_
  have less := List.mem_range.mp among
  rw [memcpy_apply _ _ _ _ _ (by omega), memcpy_apply _ _ _ _ _ (by omega)]

end OrionBios.SectorPath
