import OrionBios.Buffers.Overlap
import OrionBios.Graphics.Screen
import Mathlib.Logic.Function.Iterate

/-!
# Copies by the DMA channel

`dma_memcpy`, with the processor's loops before and behind the transfer of words. A transfer copies
its elements one after the other, also after the call has returned; a transfer of words from or to
an address that is not a multiple of four has no meaning.
-/

namespace OrionBios.Graphics

open Buffers

/-! ## The channel -/

/-- Absolute addresses. The objects copied do not wrap around the address space. -/
abbrev Memory := Nat → Byte

inductive TransferSize where
  | DMA_SIZE_8 | DMA_SIZE_32
  deriving DecidableEq, Repr

def TransferSize.bytes : TransferSize → Nat
  | .DMA_SIZE_8 => 1
  | .DMA_SIZE_32 => 4

structure ChannelConfig where
  transferDataSize : TransferSize
  readIncrement : Bool
  writeIncrement : Bool

/-- `dma_channel_get_default_config`. -/
def ChannelConfig.default : ChannelConfig := ⟨.DMA_SIZE_32, true, false⟩

/-- A channel, with the number of elements it still has to copy. -/
structure DmaChannel where
  config : ChannelConfig
  writeAddress : Nat
  readAddress : Nat
  transferCount : Nat

/-- The memory and the channel `memcpy_dma_chan`. -/
structure DmaState where
  memory : Memory
  channel : DmaChannel

namespace DmaState

/-- The channel copies its next element, if it has one. -/
def tick (state : DmaState) : DmaState :=
  let channel := state.channel
  let size := channel.config.transferDataSize.bytes
  match channel.transferCount with
  | 0 => state
  | left + 1 =>
    { memory := move state.memory channel.writeAddress channel.readAddress size
      channel :=
        { channel with
          writeAddress :=
            if channel.config.writeIncrement then channel.writeAddress + size
            else channel.writeAddress
          readAddress :=
            if channel.config.readIncrement then channel.readAddress + size
            else channel.readAddress
          transferCount := left } }

/-- `dma_channel_wait_for_finish_blocking`. -/
def waitForFinish (state : DmaState) : DmaState := tick^[state.channel.transferCount] state

def isBusy (state : DmaState) : Bool := state.channel.transferCount ≠ 0

def WordAligned (address : Nat) : Prop := address &&& 3 = 0

instance (address : Nat) : Decidable (WordAligned address) := Nat.decEq _ _

/-- `dma_channel_configure` with the trigger set; there is no result for words that are not
aligned. -/
def configure (state : DmaState) (config : ChannelConfig) (dest src count : Nat) :
    Option DmaState :=
  if config.transferDataSize = .DMA_SIZE_32 ∧ ¬(WordAligned dest ∧ WordAligned src) then none
  else some { state with channel := ⟨config, dest, src, count⟩ }

end DmaState

/-! ## The copy -/

def DMA_MIN_XFER : Nat := 16

/-- `memmove`. -/
def memmove (memory : Memory) (dest src num : Nat) : Memory := move memory dest src num

/-- The memory, the two pointers and the bytes left. -/
structure Cursor where
  memory : Memory
  d : Nat
  s : Nat
  num : Nat

/-- The loop that copies bytes until the pointers are aligned. -/
def copyHead (memory : Memory) (d s : Nat) : (num : Nat) → Cursor
  | 0 => ⟨memory, d, s, 0⟩
  | num + 1 =>
    if d &&& 3 ≠ 0 then copyHead (move memory d s 1) (d + 1) (s + 1) num
    else ⟨memory, d, s, num + 1⟩

/-- The loop that copies the bytes behind the last word. -/
def copyTail (memory : Memory) (d s : Nat) : (tail : Nat) → Memory
  | 0 => memory
  | tail + 1 => copyTail (move memory d s 1) (d + 1) (s + 1) tail

/-- `dma_memcpy` behind its head, where the pointers are aligned. -/
def copyAligned (state : DmaState) (c : ChannelConfig) (d s num : Nat) (block : Bool) :
    Option DmaState :=
  let words := num >>> 2
  let tail := num &&& 3
  if block then
    if words > 0 then
      (state.configure { c with transferDataSize := .DMA_SIZE_32 } d s words).map fun started =>
        let state := started.waitForFinish
        let bulk := words <<< 2
        { state with memory := copyTail state.memory (d + bulk) (s + bulk) tail }
    else some { state with memory := copyTail state.memory d s tail }
  else if tail = 0 then
    state.configure { c with transferDataSize := .DMA_SIZE_32 } d s words
  else state.configure { c with transferDataSize := .DMA_SIZE_8 } d s num

/-- `dma_memcpy`. -/
def dmaMemcpy (state : DmaState) (dest src num : Nat) (block : Bool) : Option DmaState :=
  if num = 0 then some state
  else if num < DMA_MIN_XFER then
    some { state with memory := memmove state.memory dest src num }
  else
    let state := if state.isBusy then state.waitForFinish else state
    let c := { ChannelConfig.default with readIncrement := true, writeIncrement := true }
    if (dest ^^^ src) &&& 3 ≠ 0 then
      (state.configure { c with transferDataSize := .DMA_SIZE_8 } dest src num).map fun started =>
        if block then started.waitForFinish else started
    else
      let head := copyHead state.memory dest src num
      let state := { state with memory := head.memory }
      if head.num = 0 then some state
      else copyAligned state c head.d head.s head.num block

/-! ## Transfers -/

namespace DmaState

variable {state : DmaState}

theorem waitForFinish_tick : state.tick.waitForFinish = state.waitForFinish := by
  cases count : state.channel.transferCount with
  | zero =>
      have same : state.tick = state := by
        unfold tick
        simp only [count]
      rw [same]
  | succ left =>
      have fewer : state.tick.channel.transferCount = left := by
        unfold tick
        simp only [count]
      rw [waitForFinish, waitForFinish, fewer, count, Function.iterate_succ_apply]

theorem waitForFinish_ticks (ticks : Nat) :
    (tick^[ticks] state).waitForFinish = state.waitForFinish := by
  induction ticks with
  | zero => rfl
  | succ ticks inductionHypothesis =>
      rw [Function.iterate_succ_apply', waitForFinish_tick, inductionHypothesis]

theorem waitForFinish_idle (idle : state.channel.transferCount = 0) :
    state.waitForFinish = state := by
  rw [waitForFinish, idle]
  rfl

theorem idle_memory (idle : state.channel.transferCount = 0) (memory : Memory) :
    ({ state with memory := memory } : DmaState).waitForFinish.memory = memory :=
  congrArg DmaState.memory (@waitForFinish_idle { state with memory := memory } idle)

theorem waitForFinish_count : ∀ {count : Nat} {state : DmaState},
    state.channel.transferCount = count → state.waitForFinish.channel.transferCount = 0 := by
  intro count
  induction count with
  | zero =>
      intro state idle
      rw [waitForFinish_idle idle, idle]
  | succ count inductionHypothesis =>
      intro state left
      rw [← waitForFinish_tick]
      apply inductionHypothesis
      unfold tick
      simp only [left]

theorem waitForFinish_memory : ∀ {count : Nat} {state : DmaState},
    state.channel.transferCount = count → state.channel.config.readIncrement = true →
      state.channel.config.writeIncrement = true →
        state.waitForFinish.memory =
          movePieces state.channel.config.transferDataSize.bytes count state.memory
            state.channel.writeAddress state.channel.readAddress := by
  intro count
  induction count with
  | zero =>
      intro state idle _ _
      rw [waitForFinish_idle idle]
      rfl
  | succ count inductionHypothesis =>
      intro state left reads writes
      have ticked : state.tick =
          { memory := move state.memory state.channel.writeAddress state.channel.readAddress
              state.channel.config.transferDataSize.bytes
            channel :=
              { state.channel with
                writeAddress := state.channel.writeAddress +
                  state.channel.config.transferDataSize.bytes
                readAddress := state.channel.readAddress +
                  state.channel.config.transferDataSize.bytes
                transferCount := count } } := by
        unfold tick
        simp only [left, reads, writes, if_true]
      rw [← waitForFinish_tick, inductionHypothesis]
      · rw [ticked]
        rfl
      · rw [ticked]
      · rw [ticked]
        exact reads
      · rw [ticked]
        exact writes

theorem configured {size : TransferSize} {dest src count : Nat}
    (aligned : size = .DMA_SIZE_32 → WordAligned dest ∧ WordAligned src)
    (forward : Forward dest src (size.bytes * count)) :
    ∃ started, state.configure ⟨size, true, true⟩ dest src count = some started ∧
      started.waitForFinish.memory = memmove state.memory dest src (size.bytes * count) := by
  refine ⟨{ state with channel := ⟨⟨size, true, true⟩, dest, src, count⟩ }, ?_, ?_⟩
  · exact if_neg fun misaligned => misaligned.2 (aligned misaligned.1)
  · rw [waitForFinish_memory rfl rfl rfl]
    exact movePieces_eq_move forward

theorem waitIfBusy : (if state.isBusy then state.waitForFinish else state) =
    state.waitForFinish := by
  by_cases idle : state.channel.transferCount = 0
  · rw [waitForFinish_idle idle, ite_self]
  · exact if_pos (decide_eq_true idle)

end DmaState

/-! ## The loops of the processor -/

section Loops

variable {memory : Memory} {d s num : Nat}

theorem copyHead_spec : ∀ {num d s : Nat} {memory : Memory}, Forward d s num →
    ∃ head rest, num = head + rest ∧
      copyHead memory d s num = ⟨memmove memory d s head, d + head, s + head, rest⟩ ∧
      (rest = 0 ∨ DmaState.WordAligned (d + head)) := by
  intro num
  induction num with
  | zero =>
      intro d s memory _
      refine ⟨0, 0, rfl, ?_, Or.inl rfl⟩
      rw [memmove, move_zero]
      rfl
  | succ num inductionHypothesis =>
      intro d s memory forward
      rw [Nat.add_comm num 1] at forward
      by_cases unaligned : d &&& 3 ≠ 0
      · obtain ⟨head, rest, rfl, copied, ready⟩ :=
          @inductionHypothesis _ _ (move memory d s 1) forward.rest
        rw [← Nat.add_assoc] at forward
        refine ⟨1 + head, rest, by omega, ?_, ?_⟩
        · rw [copyHead, if_pos unaligned, copied, memmove, move_move forward.first, memmove]
          rw [Nat.add_assoc, Nat.add_assoc]
        · rw [← Nat.add_assoc]
          exact ready
      · refine ⟨0, num + 1, by omega, ?_, Or.inr (not_not.mp unaligned)⟩
        rw [copyHead, if_neg unaligned, memmove, move_zero]
        rfl

theorem copyTail_eq : ∀ {tail d s : Nat} {memory : Memory}, Forward d s tail →
    copyTail memory d s tail = memmove memory d s tail := by
  intro tail
  induction tail with
  | zero => exact fun _ => move_zero.symm
  | succ tail inductionHypothesis =>
      intro d s memory forward
      rw [Nat.add_comm tail 1] at forward ⊢
      rw [Nat.add_comm 1 tail, copyTail, inductionHypothesis forward.rest, memmove,
        move_move forward, memmove, Nat.add_comm 1 tail]

end Loops

/-- Two addresses that are aligned in the same way are both aligned after the same distance. -/
theorem aligned_together {d s head : Nat} (same : (d ^^^ s) &&& 3 = 0)
    (aligned : DmaState.WordAligned (d + head)) : DmaState.WordAligned (s + head) := by
  have low : ∀ n : Nat, n &&& 3 = n % 4 := fun n => Nat.and_two_pow_sub_one_eq_mod n 2
  have equal : d % 4 = s % 4 := by
    rw [low, Nat.xor_mod_two_pow (n := 2)] at same
    have zero : ∀ a < 4, ∀ b < 4, a ^^^ b = 0 → a = b := by decide
    exact zero _ (Nat.mod_lt _ (by omega)) _ (Nat.mod_lt _ (by omega)) same
  unfold DmaState.WordAligned at *
  rw [low] at *
  omega

/-! ## The whole copy -/

theorem copyAligned_spec {state : DmaState} {d s num : Nat} (block : Bool)
    (idle : state.channel.transferCount = 0)
    (aligned : DmaState.WordAligned d ∧ DmaState.WordAligned s) (forward : Forward d s num) :
    ∃ after, copyAligned state ⟨.DMA_SIZE_32, true, true⟩ d s num block = some after ∧
      (block → after.channel.transferCount = 0) ∧
        after.waitForFinish.memory = memmove state.memory d s num := by
  have split : num = 4 * (num >>> 2) + (num &&& 3) := by
    have low : num &&& 3 = num % 4 := Nat.and_two_pow_sub_one_eq_mod num 2
    rw [low, Nat.shiftRight_eq_div_pow]
    omega
  unfold copyAligned
  dsimp only
  generalize num >>> 2 = words at *
  generalize num &&& 3 = tail at *
  cases block with
  | true =>
      rw [if_pos rfl, split]
      rw [split] at forward
      by_cases some : words > 0
      · obtain ⟨started, isStarted, copied⟩ :=
          @DmaState.configured state .DMA_SIZE_32 d s words (fun _ => aligned) forward.first
        have bulk : words <<< 2 = 4 * words := by
          rw [Nat.shiftLeft_eq, Nat.mul_comm]
        have ended : started.waitForFinish.channel.transferCount = 0 :=
          DmaState.waitForFinish_count rfl
        rw [if_pos some, isStarted, bulk]
        refine ⟨_, rfl, fun _ => ended, ?_⟩
        rw [DmaState.idle_memory ended, copied, copyTail_eq forward.rest]
        exact move_move forward
      · obtain rfl : words = 0 := by omega
        rw [if_neg some]
        rw [Nat.mul_zero, Nat.zero_add] at forward ⊢
        refine ⟨_, rfl, fun _ => idle, ?_⟩
        rw [DmaState.idle_memory idle]
        exact copyTail_eq forward
  | false =>
      rw [if_neg Bool.false_ne_true]
      by_cases whole : tail = 0
      · rw [if_pos whole]
        rw [whole, Nat.add_zero] at split
        rw [split]
        rw [split] at forward
        obtain ⟨started, isStarted, copied⟩ :=
          @DmaState.configured state .DMA_SIZE_32 d s words (fun _ => aligned) forward
        exact ⟨started, isStarted, nofun, copied⟩
      · rw [if_neg whole]
        rw [← Nat.one_mul num] at forward
        obtain ⟨started, isStarted, copied⟩ := @DmaState.configured state .DMA_SIZE_8 d s num
          (fun word => by cases word) forward
        refine ⟨started, isStarted, nofun, ?_⟩
        rw [copied]
        exact congrArg _ (Nat.one_mul num)

/-- A copy that is not small first waits for an earlier transfer. -/
theorem dmaMemcpy_large {state : DmaState} {dest src num : Nat} (block : Bool)
    (large : DMA_MIN_XFER ≤ num) (forward : Forward dest src num) :
    ∃ after, dmaMemcpy state dest src num block = some after ∧
      (block → after.channel.transferCount = 0) ∧
        after.waitForFinish.memory = memmove state.waitForFinish.memory dest src num := by
  have some : num ≠ 0 := by
    unfold DMA_MIN_XFER at large
    omega
  have idle : state.waitForFinish.channel.transferCount = 0 := DmaState.waitForFinish_count rfl
  unfold dmaMemcpy
  rw [if_neg some, if_neg (by omega)]
  simp only [DmaState.waitIfBusy]
  generalize state.waitForFinish = state at *
  by_cases apart : (dest ^^^ src) &&& 3 ≠ 0
  · rw [if_pos apart]
    rw [← Nat.one_mul num] at forward
    obtain ⟨started, isStarted, copied⟩ := @DmaState.configured state .DMA_SIZE_8 dest src num
      (fun word => by cases word) forward
    have bytes : started.waitForFinish.memory = memmove state.memory dest src num :=
      copied.trans (congrArg _ (Nat.one_mul num))
    cases block with
    | true =>
        have ended : started.waitForFinish.channel.transferCount = 0 :=
          DmaState.waitForFinish_count rfl
        refine ⟨started.waitForFinish, congrArg _ isStarted, fun _ => ended, ?_⟩
        rw [DmaState.waitForFinish_idle ended, bytes]
    | false => exact ⟨started, congrArg _ isStarted, nofun, bytes⟩
  · rw [if_neg apart]
    obtain ⟨head, rest, rfl, copied, ready⟩ := @copyHead_spec num dest src state.memory forward
    rw [copied]
    dsimp only
    by_cases nothing : rest = 0
    · rw [if_pos nothing, nothing]
      exact ⟨_, rfl, fun _ => idle, DmaState.idle_memory idle _⟩
    · rw [if_neg nothing]
      have aligned := ready.resolve_left nothing
      have together := aligned_together (not_not.mp apart) aligned
      obtain ⟨after, isAfter, ended, moved⟩ :=
        @copyAligned_spec { state with memory := memmove state.memory dest src head } _ _ rest block
          idle ⟨aligned, together⟩ forward.rest
      refine ⟨after, isAfter, ended, ?_⟩
      rw [moved]
      exact move_move forward

theorem dmaMemcpy_small {state : DmaState} {dest src num : Nat} (block : Bool)
    (small : num < DMA_MIN_XFER) :
    dmaMemcpy state dest src num block =
      some { state with memory := memmove state.memory dest src num } := by
  unfold dmaMemcpy
  by_cases nothing : num = 0
  · rw [if_pos nothing, nothing, memmove, move_zero]
  · rw [if_neg nothing, if_pos small]

/-- `dma_memcpy` is `memmove`, at once if it is small and otherwise when its transfer is over,
whatever was copied before one waits for that. It starts no transfer of words that are not
aligned. -/
theorem dmaMemcpy_memmove (state : DmaState) (dest src num : Nat) (block : Bool)
    (apart : (dest + num ≤ src ∨ src + num ≤ dest) ∨ dest < src) :
    ∃ after, dmaMemcpy state dest src num block = some after ∧
      (num < DMA_MIN_XFER →
        after = { state with memory := memmove state.memory dest src num }) ∧
      (DMA_MIN_XFER ≤ num ∨ ¬ state.isBusy →
        (block → ¬ after.isBusy) ∧ ∀ ticks,
          (DmaState.tick^[ticks] after).waitForFinish.memory =
            memmove state.waitForFinish.memory dest src num) := by
  have forward : Forward dest src num := by
    unfold Forward
    omega
  simp only [DmaState.waitForFinish_ticks, forall_const, DmaState.isBusy, ne_eq,
    decide_not, Bool.not_eq_true', decide_eq_false_iff_not, not_not]
  by_cases small : num < DMA_MIN_XFER
  · refine ⟨_, dmaMemcpy_small block small, fun _ => rfl, ?_⟩
    rintro (large | idle)
    · omega
    · refine ⟨fun _ => idle, ?_⟩
      rw [DmaState.idle_memory idle, DmaState.waitForFinish_idle idle]
  · obtain ⟨after, isAfter, ended, moved⟩ :=
      @dmaMemcpy_large state _ _ _ block (by omega) forward
    exact ⟨after, isAfter, fun small' => absurd small' small, fun _ => ⟨ended, moved⟩⟩

/-- Every byte of the memory holds the low half of its address, and a transfer is under way. -/
def transferring : DmaState where
  memory := fun place => BitVec.ofNat 8 place
  channel := ⟨⟨.DMA_SIZE_32, true, true⟩, 400000, 300000, 2⟩

theorem dmaMemcpy_memmove_rows :
    ∃ after, dmaMemcpy transferring 2 5122 148480 true = some after ∧
      (148480 < DMA_MIN_XFER →
        after = { transferring with memory := memmove transferring.memory 2 5122 148480 }) ∧
      (DMA_MIN_XFER ≤ 148480 ∨ ¬ transferring.isBusy →
        (true → ¬ after.isBusy) ∧ ∀ ticks,
          (DmaState.tick^[ticks] after).waitForFinish.memory =
            memmove transferring.waitForFinish.memory 2 5122 148480) :=
  dmaMemcpy_memmove transferring 2 5122 148480 true (Or.inr (by decide))

/-! ## Scrolling -/

def VBUFFER_SIZE : Nat := 153600

/-- `scroll_up_graphics`, for a framebuffer at the address `fb`. -/
def DmaState.scrollUpGraphics (state : DmaState) (fb : Nat) : Option DmaState :=
  let bytesPerRow := BYTES_PER_ROW.toNat
  let bytesParaCopiar := VBUFFER_SIZE - bytesPerRow
  (dmaMemcpy state fb (fb + bytesPerRow) bytesParaCopiar true).map fun state =>
    { state with memory := fun place =>
        if fb + bytesParaCopiar ≤ place ∧ place < fb + bytesParaCopiar + bytesPerRow then 0
        else state.memory place }

/-- The framebuffer as the accesses of the screen see it. -/
def DmaState.frame (state : DmaState) (fb : Nat) : Frame := fun i => state.memory (fb + i).toNat

/-- Its accesses are those of the screen, and there are none outside the framebuffer. -/
theorem scrollUpGraphics_frame (state : DmaState) (fb : Nat) :
    ∃ after, state.scrollUpGraphics fb = some after ∧
      (∀ i : Int, 0 ≤ i → i < TXCOUNT →
        after.frame fb i = (state.waitForFinish.frame fb).accesses scrollUpGraphics i) ∧
      ∀ place, place < fb ∨ fb + VBUFFER_SIZE ≤ place →
        after.memory place = state.waitForFinish.memory place := by
  obtain ⟨copied, isCopied, ended, moved⟩ := @dmaMemcpy_large state fb (fb + 5120) 148480 true
    (by decide) (Or.inl (Nat.le_add_right _ _))
  rw [DmaState.waitForFinish_idle (ended rfl)] at moved
  have scrolled : state.scrollUpGraphics fb = some { copied with memory := fun place =>
      if fb + 148480 ≤ place ∧ place < fb + 148480 + 5120 then 0 else copied.memory place } :=
    congrArg (Option.map _) isCopied
  refine ⟨_, scrolled, ?_, ?_⟩
  · intro i low high
    obtain ⟨i, rfl⟩ := Int.eq_ofNat_of_zero_le low
    have inside : i < 153600 := Int.ofNat_lt.mp high
    have address : ∀ j : Nat, ((fb : Int) + (j : Int)).toNat = fb + j := fun j => by omega
    simp only [Frame.accesses, scrollUpGraphics, List.foldl_cons, List.foldl_nil, Frame.access,
      TXCOUNT, BYTES_PER_ROW, DmaState.frame, moved, memmove, address]
    by_cases upperPart : i < 148480
    · rw [if_neg (by omega), if_neg (by omega), if_pos (by omega), move_inside (by omega)]
      congr 1
      omega
    · rw [if_pos (by omega), if_pos (by omega)]
  · intro place outside
    unfold VBUFFER_SIZE at outside
    dsimp only
    rw [if_neg (by omega), moved, memmove, move_outside (by omega)]

end OrionBios.Graphics
