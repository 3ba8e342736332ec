import OrionBios.Disks.Driver
import OrionBios.PicoIde.DataPath
import Mathlib.Data.List.GetD
import Mathlib.Tactic.IntervalCases

/-!
# IDENTIFY from the firmware to the driver

The firmware sums the bytes of its words as they lie in its memory. The DMA channel swaps
them and the 68k stores its words with the upper byte first, so the driver sums the same
bytes in the same order.
-/

namespace OrionBios.PicoIde

open Machine

/-! ## The driver -/

def memoryBytes (words : List Word) : List Byte :=
  words.flatMap fun word => [highByte word, lowByte word]

/-- The end of `picoide_identify`: the check of the block, and `ata_total_sectors`. -/
def totalSectors (id : List Word) : Option (BitVec 32) :=
  let b := memoryBytes id
  let sum := b.foldl (· + ·) 0
  if b.getD 510 0 ≠ 0xA5 ∨ sum ≠ 0 then none
  else
    some ((b.getD 120 0).zeroExtend 32 ||| (b.getD 121 0).zeroExtend 32 <<< 8 |||
      (b.getD 122 0).zeroExtend 32 <<< 16 ||| (b.getD 123 0).zeroExtend 32 <<< 24)

/-- `picoide_identify`, with the total that it stores. -/
def picoideIdentify {State : Type} (port : Disks.Port State) :
    Program State (Option (BitVec 32)) := do
  let id ← Disks.picoideIdentify port
  pure (id.bind totalSectors)

/-! ## The words on their way -/

def readWords : Nat → Firmware → Option (List Word × Firmware)
  | 0, s => some ([], s)
  | count + 1, s => do
    let word ← s.dataTx.head?
    let s ← eventStep s .readData
    let (words, s) ← readWords count s
    pure (word :: words, s)

/-- `DMA_B` with the FIFO filled behind the first `taken` words. -/
def filledBehind (s : Firmware) (buffer : Fin 2) (taken : Nat) : Firmware :=
  sendAt s buffer (min (taken + 4) 256) (((sectorWords (s.buf buffer)).drop taken).take 4)

theorem filledBehind_next (s : Firmware) (buffer : Fin 2) {taken : Nat} (more : taken < 256) :
    (filledBehind s buffer taken).dataTx.head? = some (bswap (s.buf buffer ⟨taken, more⟩)) ∧
      eventStep (filledBehind s buffer taken) .readData =
        some (filledBehind s buffer (taken + 1)) := by
  have front := @sectorWords_drop (s.buf buffer) _ more
  have length := sectorWords_length (s.buf buffer)
  constructor
  · simp only [filledBehind, sendAt, front, List.take_succ_cons, List.head?_cons]
  · have tail : ∀ tx, { filledBehind s buffer taken with dataTx := tx } =
        sendAt s buffer (min (taken + 4) 256) tx := fun tx => rfl
    have rest : (((sectorWords (s.buf buffer)).drop (taken + 1)).take 3).length =
        min 3 (255 - taken) := by
      rw [List.length_take, List.length_drop, length]
      omega
    have more' : min (4 - min 3 (255 - taken)) (256 - min (taken + 4) 256) =
        min 1 (252 - taken) := by omega
    have position : min (taken + 4) 256 + min 1 (252 - taken) = min (taken + 1 + 4) 256 := by omega
    simp only [eventStep]
    have shown : (filledBehind s buffer taken).dataTx =
        bswap (s.buf buffer ⟨taken, more⟩) ::
          ((sectorWords (s.buf buffer)).drop (taken + 1)).take 3 := by
      simp only [filledBehind, sendAt, front, List.take_succ_cons]
    rw [shown]
    simp only
    rw [tail, pumpB_sendAt s buffer (Nat.min_le_right _ _), rest, more', position]
    unfold filledBehind
    congr 2
    by_cases full : taken < 252
    · have one : min 1 (252 - taken) = 1 := by omega
      have whole : min (taken + 4) 256 = taken + 1 + 3 := by omega
      rw [one, whole]
      show _ = List.take (3 + 1) _
      rw [List.take_add, List.drop_drop]
    · have none : min 1 (252 - taken) = 0 := by omega
      rw [none, List.take_zero, List.append_nil, List.take_of_length_le, List.take_of_length_le]
      · rw [List.length_drop, length]
        omega
      · rw [List.length_drop, length]
        omega

theorem readWords_filledBehind (s : Firmware) (buffer : Fin 2) (count taken : Nat)
    (enough : taken + count ≤ 256) :
    readWords count (filledBehind s buffer taken) =
      some (((sectorWords (s.buf buffer)).drop taken).take count,
        filledBehind s buffer (taken + count)) := by
  induction count generalizing taken with
  | zero => rw [List.take_zero]; rfl
  | succ count inductionHypothesis =>
      obtain ⟨word, next⟩ := filledBehind_next s buffer (show taken < 256 by omega)
      have front := @sectorWords_drop (s.buf buffer) _ (show taken < 256 by omega)
      rw [readWords, word, next, front, List.take_succ_cons]
      show (readWords count (filledBehind s buffer (taken + 1))).bind _ = _
      rw [inductionHypothesis (taken + 1) (by omega), Nat.add_right_comm, Nat.add_assoc]
      rfl

theorem readWords_identify {s : Firmware} (known : s.sdSectors ≠ 0) :
    ∃ t, readWords 256 (dispatchCommand IDE_CMD_IDENTIFY s) =
      some (sectorWords (buildIdentify s.sdSectors), t) := by
  have notRead : IDE_CMD_IDENTIFY ≠ IDE_CMD_READ_SECTORS := by decide
  have notWrite : IDE_CMD_IDENTIFY ≠ IDE_CMD_WRITE_SECTORS := by decide
  have filled : ∃ t : Firmware, t.buf 0 = buildIdentify s.sdSectors ∧
      dispatchCommand IDE_CMD_IDENTIFY s = filledBehind t 0 0 := by
    simp only [dispatchCommand, if_neg notRead, if_neg notWrite, if_true, beginIdentify,
      if_neg known]
    rw [armDmaBFromBuffer_eq 0 rfl (Nat.zero_le _)]
    refine ⟨setDrq _, ?_, rfl⟩
    exact Function.update_self 0 (buildIdentify s.sdSectors) s.buf
  obtain ⟨t, built, started⟩ := filled
  refine ⟨filledBehind t 0 256, ?_⟩
  rw [started, readWords_filledBehind t 0 256 0 (by decide), built, List.drop_zero,
    List.take_of_length_le (by rw [sectorWords_length])]

/-! ## The sum -/

theorem highByte_bswap (word : Word) : highByte (bswap word) = lowByte word := by
  unfold highByte bswap lowByte
  exact BitVec.extractLsb'_append_eq_left

theorem lowByte_bswap (word : Word) : lowByte (bswap word) = highByte word := by
  unfold lowByte bswap highByte
  exact BitVec.extractLsb'_append_eq_right

theorem memoryBytes_sectorWords (w : Sector) :
    memoryBytes (sectorWords w) =
      (List.finRange 256).flatMap fun i => [lowByte (w i), highByte (w i)] := by
  unfold memoryBytes sectorWords
  rw [List.flatMap_map]
  congr 1
  funext i
  rw [highByte_bswap, lowByte_bswap]

theorem sum_memoryBytes (w : Sector) :
    (memoryBytes (sectorWords w)).foldl (· + ·) 0 = byteSum w := by
  rw [memoryBytes_sectorWords, List.foldl_flatMap]
  rfl

theorem byteSum_last (w : Sector) :
    ∃ sum, ∀ value, byteSum (put 255 value w) = sum + lowByte value + highByte value := by
  refine ⟨((List.finRange 255).map Fin.castSucc).foldl
    (fun sum i => sum + lowByte (w i) + highByte (w i)) 0, fun value => ?_⟩
  have split : List.finRange 256 = (List.finRange 255).map Fin.castSucc ++ [Fin.last 255] :=
    List.finRange_succ_last
  have own : put 255 value w (Fin.last 255) = value := Function.update_self _ _ _
  unfold byteSum
  rw [split, List.foldl_append, List.foldl_cons, List.foldl_nil, own, List.foldl_map,
    List.foldl_map]
  congr 3
  funext sum i
  have other : put 255 value w i.castSucc = w i.castSucc :=
    Function.update_of_ne (ne_of_lt i.castSucc_lt_last) _ _
  rw [other]

theorem byteSum_checked (w : Sector) :
    byteSum (put 255 (0x00A5 ||| ((0 - byteSum (put 255 0x00A5 w)).zeroExtend 16 <<< 8))
      (put 255 0x00A5 w)) = 0 := by
  obtain ⟨sum, total⟩ := byteSum_last w
  have again : ∀ value, put 255 value (put 255 0x00A5 w) = put 255 value w := fun value =>
    Function.update_idem _ _ _
  have low : ∀ byte : Byte, lowByte (0x00A5 ||| byte.zeroExtend 16 <<< 8) = 0xA5 := by decide
  have high : ∀ byte : Byte, highByte (0x00A5 ||| byte.zeroExtend 16 <<< 8) = byte := by decide
  rw [again, total, low, high, total]
  have signature : lowByte 0x00A5 = 0xA5 := rfl
  have clear : highByte 0x00A5 = 0 := rfl
  rw [signature, clear]
  show sum + 0xA5 + (0#8 - (sum + 0xA5 + 0#8)) = 0#8
  rw [BitVec.add_zero, BitVec.zero_sub, ← BitVec.sub_eq_add_neg, BitVec.sub_self]

/-! ## The fields -/

theorem memoryBytes_getD (words : List Word) (i : Nat) :
    (memoryBytes words).getD (2 * i) 0 = highByte (words.getD i 0) ∧
      (memoryBytes words).getD (2 * i + 1) 0 = lowByte (words.getD i 0) := by
  induction words generalizing i with
  | nil => simp [memoryBytes, highByte, lowByte]
  | cons word words inductionHypothesis =>
      cases i with
      | zero => exact ⟨rfl, rfl⟩
      | succ i => exact inductionHypothesis i

theorem sectorWords_getD (w : Sector) (i : Fin 256) :
    (sectorWords w).getD i.val 0 = bswap (w i) := by
  rw [List.getD_eq_getElem _ _ (by rw [sectorWords_length]; exact i.isLt)]
  simp [sectorWords]

theorem sectorBytes_getD (w : Sector) (i : Fin 256) :
    (memoryBytes (sectorWords w)).getD (2 * i.val) 0 = lowByte (w i) ∧
      (memoryBytes (sectorWords w)).getD (2 * i.val + 1) 0 = highByte (w i) := by
  obtain ⟨even, odd⟩ := memoryBytes_getD (sectorWords w) i.val
  rw [even, odd, sectorWords_getD, highByte_bswap, lowByte_bswap]
  exact ⟨rfl, rfl⟩

theorem halves_joined (total : BitVec 32) :
    (lowByte ((total &&& 0xFFFF).truncate 16)).zeroExtend 32 |||
      (highByte ((total &&& 0xFFFF).truncate 16)).zeroExtend 32 <<< 8 |||
      (lowByte ((total >>> 16).truncate 16)).zeroExtend 32 <<< 16 |||
      (highByte ((total >>> 16).truncate 16)).zeroExtend 32 <<< 24 = total := by
  apply BitVec.eq_of_getLsbD_eq
  intro i less
  interval_cases i <;> simp [lowByte, highByte]

/-- `min(n, 2^28 - 1)`, in the firmware's words. -/
def limited (n : BitVec 32) : BitVec 32 := if 0x0FFFFFFF < n then 0x0FFFFFFF else n

theorem limited_toNat (n : BitVec 32) : (limited n).toNat = min n.toNat (2 ^ 28 - 1) := by
  unfold limited
  split
  case isTrue above =>
    have above : 0x0FFFFFFF < n.toNat := above
    show 0x0FFFFFFF = _
    omega
  case isFalse below =>
    have below : ¬ 0x0FFFFFFF < n.toNat := below
    omega

theorem totalSectors_identify (n : BitVec 32) :
    totalSectors (sectorWords (buildIdentify n)) = some (limited n) := by
  have sum : byteSum (buildIdentify n) = 0 := byteSum_checked _
  have last : lowByte (buildIdentify n 255) = 0xA5 := by
    have own : ∀ byte : Byte, lowByte (0x00A5 ||| byte.zeroExtend 16 <<< 8) = 0xA5 := by decide
    exact own _
  have signature : (memoryBytes (sectorWords (buildIdentify n))).getD 510 0 = 0xA5 := by
    exact (sectorBytes_getD (buildIdentify n) 255).1.trans last
  have first := sectorBytes_getD (buildIdentify n) 60
  have second := sectorBytes_getD (buildIdentify n) 61
  have low : buildIdentify n 60 = (limited n &&& 0xFFFF).truncate 16 := rfl
  have high : buildIdentify n 61 = (limited n >>> 16).truncate 16 := rfl
  rw [low] at first
  rw [high] at second
  have accepted : ¬ ((memoryBytes (sectorWords (buildIdentify n))).getD 510 0 ≠ 0xA5 ∨
      (memoryBytes (sectorWords (buildIdentify n))).foldl (· + ·) 0 ≠ 0) := by
    rw [sum_memoryBytes, sum, signature]
    decide
  unfold totalSectors
  simp only [if_neg accepted]
  rw [show 120 = 2 * (60 : Fin 256).val from rfl, show 122 = 2 * (61 : Fin 256).val from rfl,
    first.1, second.1]
  show some (_ ||| ((memoryBytes (sectorWords (buildIdentify n))).getD
    (2 * (60 : Fin 256).val + 1) 0).zeroExtend 32 <<< 8 ||| _ |||
    ((memoryBytes (sectorWords (buildIdentify n))).getD
      (2 * (61 : Fin 256).val + 1) 0).zeroExtend 32 <<< 24) = _
  rw [first.2, second.2, halves_joined]

theorem capacity_words (n : BitVec 32) :
    (buildIdentify n 58 ++ buildIdentify n 57).toNat = min n.toNat (16383 * 16 * 63) := by
  let chs : BitVec 32 := if limited n < 16383 * 16 * 63 then limited n else 16383 * 16 * 63
  have low : buildIdentify n 57 = (chs &&& 0xFFFF).truncate 16 := rfl
  have high : buildIdentify n 58 = (chs >>> 16).truncate 16 := rfl
  have joined : (chs >>> 16).truncate 16 ++ (chs &&& 0xFFFF).truncate 16 = chs := by
    apply BitVec.eq_of_getLsbD_eq
    intro i less
    rw [BitVec.getLsbD_append]
    interval_cases i <;> simp
  rw [low, high, joined]
  have total := limited_toNat n
  show (if limited n < 16383 * 16 * 63 then limited n else 16383 * 16 * 63).toNat = _
  split
  case isTrue below =>
    have below : (limited n).toNat < 16514064 := below
    omega
  case isFalse above =>
    have above : ¬ (limited n).toNat < 16514064 := above
    show 16514064 = _
    omega

end OrionBios.PicoIde
