import Mathlib.Logic.Function.Iterate
import Mathlib.Data.List.FinRange
import Mathlib.Data.Nat.Notation
import OrionBios.PicoIde.Firmware

/-!
# The two DMA channels at a position

A channel stands at a position from 0 to 256 of its sector; at 256 it is idle and its
interrupt is pending. Driving a channel to rest only moves its position: a sending one
until its FIFO is full, a receiving one until its FIFO is empty, or to the end of the
sector.
-/

namespace OrionBios.PicoIde

/-- A channel that still has the words of its sector from `position` on to move. -/
def channel (buffer : Fin 2) (position : Nat) : Option Dma :=
  if small : position < 256 then some { buffer := buffer, next := ⟨position, small⟩ } else none

theorem channel_of_lt {position : Nat} (buffer : Fin 2) (small : position < 256) :
    channel buffer position = some { buffer := buffer, next := ⟨position, small⟩ } :=
  dif_pos small

theorem sectorWords_length (sector : Sector) : (sectorWords sector).length = 256 := by
  simp [sectorWords]

theorem sectorWords_drop {sector : Sector} {position : Nat} (small : position < 256) :
    (sectorWords sector).drop position =
      bswap (sector ⟨position, small⟩) :: (sectorWords sector).drop (position + 1) := by
  rw [List.drop_eq_getElem_cons (by rw [sectorWords_length]; exact small)]
  simp [sectorWords]

/-! ## Sending -/

/-- `DMA_B` at a position of `buffer`, with `tx` in the FIFO. -/
def sendAt (s : Firmware) (buffer : Fin 2) (position : Nat) (tx : List Word) : Firmware :=
  { s with dmaB := channel buffer position, ints0 := decide (position = 256), dataTx := tx }

theorem moveB_sendAt
    (s : Firmware) (buffer : Fin 2) {position : Nat} {tx : List Word}
    (small : position < 256) (room : tx.length < 4) :
    moveB (sendAt s buffer position tx) =
      sendAt s buffer (position + 1) (tx ++ [bswap (s.buf buffer ⟨position, small⟩)]) := by
  simp only [moveB, sendAt, channel_of_lt buffer small, if_pos room]
  by_cases last : position = 255
  · subst last
    rfl
  · have notLast : (⟨position, small⟩ : Fin 256) ≠ 255 := fun equal =>
      last (congrArg Fin.val equal)
    have next : (⟨position, small⟩ : Fin 256) + 1 = ⟨position + 1, by omega⟩ :=
      Fin.ext (Nat.mod_eq_of_lt (show position + 1 < 256 by omega))
    rw [if_neg notLast, next, channel_of_lt buffer (show position + 1 < 256 by omega)]
    simp only [decide_eq_false (show ¬ position = 256 by omega),
      decide_eq_false (show ¬ position + 1 = 256 by omega)]

theorem moveB_rest
    (s : Firmware) (buffer : Fin 2) {position : Nat} {tx : List Word} (bound : position ≤ 256)
    (full : 4 ≤ tx.length ∨ position = 256) :
    moveB (sendAt s buffer position tx) = sendAt s buffer position tx := by
  rcases Nat.lt_or_eq_of_le bound with small | rfl
  · have noRoom : ¬ tx.length < 4 := by omega
    simp only [moveB, sendAt, channel_of_lt buffer small, if_neg noRoom]
  · rfl

theorem iterate_moveB
    (s : Firmware) (buffer : Fin 2) (moves : Nat) {position : Nat} {tx : List Word}
    (bound : position ≤ 256) :
    moveB^[moves] (sendAt s buffer position tx) =
      sendAt s buffer (position + min moves (min (4 - tx.length) (256 - position)))
        (tx ++ ((sectorWords (s.buf buffer)).drop position).take
          (min moves (min (4 - tx.length) (256 - position)))) := by
  induction moves generalizing position tx with
  | zero => simp
  | succ moves inductionHypothesis =>
      rw [Function.iterate_succ_apply]
      by_cases moving : position < 256 ∧ tx.length < 4
      · obtain ⟨small, room⟩ := moving
        have count : min (moves + 1) (min (4 - tx.length) (256 - position)) =
            min moves (min (4 - (tx.length + 1)) (256 - (position + 1))) + 1 := by omega
        rw [moveB_sendAt s buffer small room, inductionHypothesis small, count,
          sectorWords_drop small, List.take_succ_cons, List.length_append, List.length_singleton,
          List.append_assoc, List.singleton_append]
        congr 1
        omega
      · have none : min (4 - tx.length) (256 - position) = 0 := by omega
        have full : 4 ≤ tx.length ∨ position = 256 := by omega
        rw [moveB_rest s buffer bound full, inductionHypothesis bound, none]
        simp

/-- `DMA_B` fills the FIFO with the next words of its sector. -/
theorem pumpB_sendAt
    (s : Firmware) (buffer : Fin 2) {position : Nat} {tx : List Word} (bound : position ≤ 256) :
    pumpB (sendAt s buffer position tx) =
      sendAt s buffer (position + min (4 - tx.length) (256 - position))
        (tx ++ ((sectorWords (s.buf buffer)).drop position).take
          (min (4 - tx.length) (256 - position))) := by
  have count : min 4 (min (4 - tx.length) (256 - position)) =
      min (4 - tx.length) (256 - position) := by omega
  rw [← count]
  exact iterate_moveB s buffer 4 bound

theorem pumpB_idle {s : Firmware} (idle : s.dmaB = none) : pumpB s = s := by
  have move : moveB s = s := by rw [moveB, idle]
  rw [pumpB, move, move, move, move]

theorem armDmaBFromBuffer_eq {s : Firmware} (buffer : Fin 2) (quiet : s.ints0 = false)
    (room : s.dataTx.length ≤ 4) :
    armDmaBFromBuffer buffer s =
      sendAt s buffer (4 - s.dataTx.length)
        (s.dataTx ++ (sectorWords (s.buf buffer)).take (4 - s.dataTx.length)) := by
  have start : ({ s with dmaB := some { buffer := buffer, next := 0 } } : Firmware) =
      sendAt s buffer 0 s.dataTx := by
    cases s
    cases quiet
    rfl
  have count : min (4 - s.dataTx.length) (256 - 0) = 4 - s.dataTx.length := by omega
  rw [armDmaBFromBuffer, start, pumpB_sendAt s buffer (Nat.zero_le _), count, Nat.zero_add,
    List.drop_zero]

theorem moveB_frame (s : Firmware) : ∃ dmaB ints0 more,
    moveB s = { s with dmaB := dmaB, ints0 := ints0, dataTx := s.dataTx ++ more } := by
  unfold moveB
  split
  · exact ⟨s.dmaB, s.ints0, [], by rw [List.append_nil]⟩
  · split
    · split
      · exact ⟨_, _, _, rfl⟩
      · exact ⟨_, _, _, rfl⟩
    · exact ⟨s.dmaB, s.ints0, [], by rw [List.append_nil]⟩

theorem pumpB_frame (s : Firmware) : ∃ dmaB ints0 more,
    pumpB s = { s with dmaB := dmaB, ints0 := ints0, dataTx := s.dataTx ++ more } := by
  obtain ⟨_, _, more₁, first⟩ := moveB_frame s
  obtain ⟨_, _, more₂, second⟩ := moveB_frame (moveB s)
  obtain ⟨_, _, more₃, third⟩ := moveB_frame (moveB (moveB s))
  obtain ⟨dmaB, ints0, more₄, fourth⟩ := moveB_frame (moveB (moveB (moveB s)))
  refine ⟨dmaB, ints0, more₁ ++ more₂ ++ more₃ ++ more₄, ?_⟩
  rw [pumpB, fourth, third, second, first]
  simp only [List.append_assoc]

/-! ## Receiving -/

/-- A sector whose first words are those that the 68k moved. -/
def received (words : List Word) (position : Nat) (sector : Sector) : Sector :=
  fun i => if i.val < position then bswap (words.getD i.val 0) else sector i

/-- `DMA_C` at a position of `buffer`, where `words` are those of its sector and behind. -/
def receiveAt (s : Firmware) (buffer : Fin 2) (position : Nat) (words : List Word) : Firmware :=
  { s with
    dmaC := channel buffer position
    ints1 := decide (position = 256)
    dataRx := words.drop position
    buf := Function.update s.buf buffer (received words position (s.buf buffer)) }

theorem received_zero (words : List Word) (sector : Sector) : received words 0 sector = sector := by
  funext i
  exact if_neg (Nat.not_lt_zero _)

theorem received_succ {words : List Word} {position : Nat} (sector : Sector)
    (small : position < 256) (more : position < words.length) :
    Function.update (received words position sector) ⟨position, small⟩ (bswap words[position]) =
      received words (position + 1) sector := by
  funext i
  by_cases here : i = ⟨position, small⟩
  · subst here
    simp [received, more]
  · have apart : i.val ≠ position := fun equal => here (Fin.ext equal)
    rw [Function.update_of_ne here]
    simp only [received, show i.val < position + 1 ↔ i.val < position by omega]

theorem received_append {words : List Word} {position : Nat} (word : Word) (sector : Sector)
    (enough : position ≤ words.length) :
    received (words ++ [word]) position sector = received words position sector := by
  funext i
  unfold received
  by_cases small : i.val < position
  · rw [if_pos small, if_pos small, List.getD_eq_getElem?_getD, List.getD_eq_getElem?_getD,
      List.getElem?_append_left (by omega)]
  · rw [if_neg small, if_neg small]

theorem received_received (words : List Word) (position : Nat) (sector : Sector) :
    received words position (received words position sector) = received words position sector := by
  funext i
  unfold received
  split <;> rfl

theorem moveC_receiveAt
    (s : Firmware) (buffer : Fin 2) {position : Nat} {words : List Word}
    (small : position < 256) (more : position < words.length) :
    moveC (receiveAt s buffer position words) = receiveAt s buffer (position + 1) words := by
  simp only [moveC, receiveAt, channel_of_lt buffer small, List.drop_eq_getElem_cons more,
    Function.update_self, Function.update_idem, received_succ _ small more]
  by_cases last : position = 255
  · subst last
    rfl
  · have notLast : (⟨position, small⟩ : Fin 256) ≠ 255 := fun equal =>
      last (congrArg Fin.val equal)
    have next : (⟨position, small⟩ : Fin 256) + 1 = ⟨position + 1, by omega⟩ :=
      Fin.ext (Nat.mod_eq_of_lt (show position + 1 < 256 by omega))
    rw [if_neg notLast, next, channel_of_lt buffer (show position + 1 < 256 by omega)]
    simp only [decide_eq_false (show ¬ position = 256 by omega),
      decide_eq_false (show ¬ position + 1 = 256 by omega)]

theorem moveC_rest
    (s : Firmware) (buffer : Fin 2) {position : Nat} {words : List Word} (bound : position ≤ 256)
    (empty : words.length ≤ position ∨ position = 256) :
    moveC (receiveAt s buffer position words) = receiveAt s buffer position words := by
  rcases Nat.lt_or_eq_of_le bound with small | rfl
  · have nothing : words.drop position = [] := List.drop_eq_nil_of_le (by omega)
    simp only [moveC, receiveAt, channel_of_lt buffer small, nothing]
  · rfl

theorem iterate_moveC
    (s : Firmware) (buffer : Fin 2) (moves : Nat) {position : Nat} {words : List Word}
    (bound : position ≤ 256) :
    moveC^[moves] (receiveAt s buffer position words) =
      receiveAt s buffer (position + min moves (min (words.length - position) (256 - position)))
        words := by
  induction moves generalizing position with
  | zero => simp
  | succ moves inductionHypothesis =>
      rw [Function.iterate_succ_apply]
      by_cases moving : position < 256 ∧ position < words.length
      · obtain ⟨small, more⟩ := moving
        rw [moveC_receiveAt s buffer small more, inductionHypothesis small]
        congr 1
        omega
      · have none : min (words.length - position) (256 - position) = 0 := by omega
        have empty : words.length ≤ position ∨ position = 256 := by omega
        rw [moveC_rest s buffer bound empty, inductionHypothesis bound, none]
        simp

/-- `DMA_C` empties the FIFO into its sector. -/
theorem pumpC_receiveAt
    (s : Firmware) (buffer : Fin 2) {position : Nat} {words : List Word} (bound : position ≤ 256)
    (room : words.length ≤ position + 4) :
    pumpC (receiveAt s buffer position words) =
      receiveAt s buffer (position + min (words.length - position) (256 - position)) words := by
  have count : min 4 (min (words.length - position) (256 - position)) =
      min (words.length - position) (256 - position) := by omega
  rw [← count]
  exact iterate_moveC s buffer 4 bound

theorem moveC_frame (s : Firmware) : ∃ dmaC ints1 rx buf,
    moveC s = { s with dmaC := dmaC, ints1 := ints1, dataRx := rx, buf := buf } := by
  unfold moveC
  split
  · split
    · exact ⟨_, _, _, _, rfl⟩
    · exact ⟨_, _, _, _, rfl⟩
  · exact ⟨_, _, _, _, rfl⟩

theorem pumpC_frame (s : Firmware) : ∃ dmaC ints1 rx buf,
    pumpC s = { s with dmaC := dmaC, ints1 := ints1, dataRx := rx, buf := buf } := by
  obtain ⟨_, _, _, _, first⟩ := moveC_frame s
  obtain ⟨_, _, _, _, second⟩ := moveC_frame (moveC s)
  obtain ⟨_, _, _, _, third⟩ := moveC_frame (moveC (moveC s))
  obtain ⟨dmaC, ints1, rx, buf, fourth⟩ := moveC_frame (moveC (moveC (moveC s)))
  refine ⟨dmaC, ints1, rx, buf, ?_⟩
  rw [pumpC, fourth, third, second, first]

theorem pumpC_idle {s : Firmware} (idle : s.dmaC = none) : pumpC s = s := by
  have move : moveC s = s := by rw [moveC, idle]
  rw [pumpC, move, move, move, move]

theorem armDmaCIntoBuffer_eq {s : Firmware} (buffer : Fin 2) (quiet : s.ints1 = false)
    (room : s.dataRx.length ≤ 4) :
    armDmaCIntoBuffer buffer s = receiveAt s buffer s.dataRx.length s.dataRx := by
  have start : ({ s with dmaC := some { buffer := buffer, next := 0 } } : Firmware) =
      receiveAt s buffer 0 s.dataRx := by
    rw [receiveAt, received_zero, Function.update_eq_self, List.drop_zero]
    cases s
    cases quiet
    rfl
  have count : min (s.dataRx.length - 0) (256 - 0) = s.dataRx.length := by omega
  rw [armDmaCIntoBuffer, start, pumpC_receiveAt s buffer (Nat.zero_le _) (by omega), count,
    Nat.zero_add]

end OrionBios.PicoIde
