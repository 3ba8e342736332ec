import OrionBios.Buffers.Ring
import Mathlib.Data.BitVec

/-!
# Socket 0 of the W5100

The receive memory is a ring of 2 KB between the read pointer the program sets and
the write pointer of the chip; the size register is their distance. The program's
view of it is a queue of bytes, and the lemmas here state each access on the queue.
-/

namespace OrionBios.Receiver

open Buffers

abbrev Byte := BitVec 8

def CR_OPEN : Byte := 0x01
def CR_LISTEN : Byte := 0x02
def CR_DISCON : Byte := 0x08

def SOCK_CLOSED : Byte := 0x00
def SOCK_INIT : Byte := 0x13
def SOCK_LISTEN : Byte := 0x14
def SOCK_ESTABLISHED : Byte := 0x17
def SOCK_CLOSE_WAIT : Byte := 0x1C

def S0_MASK : Nat := 0x07FF

structure Chip where
  rxMemory : Nat → Byte
  /-- The register `S0_RX_RD`. -/
  rxRd : BitVec 16
  /-- The chip's own write pointer. -/
  rxWr : BitVec 16
  /-- Everything `w5100_send_bytes` handed to the chip. -/
  sent : List Byte

def emptyChip : Chip where
  rxMemory := fun _ => 0
  rxRd := 0
  rxWr := 0
  sent := []

/-- The register `S0_RX_RSR`, as the double read of `w5100_get_rx_size` returns it. -/
def Chip.getRxSize (chip : Chip) : BitVec 16 := chip.rxWr - chip.rxRd

/-- Bytes arrive from the network, if the receive memory has room for them. -/
def Chip.deliver (chip : Chip) (bytes : List Byte) : Option Chip :=
  if chip.getRxSize.toNat + bytes.length ≤ 2048 then
    some { chip with
      rxMemory := ringWrite 2048 chip.rxMemory chip.rxWr.toNat bytes
      rxWr := chip.rxWr + BitVec.ofNat 16 bytes.length }
  else none

/-- The commands the receiver gives. Opening the socket empties its receive memory. -/
def Chip.command (chip : Chip) (command : Byte) : Chip :=
  if command = CR_OPEN then { chip with rxWr := chip.rxRd } else chip

/-- `w5100_recv_bytes`: the loop over the ring, the new read pointer and `CR_RECV`. -/
def Chip.recvBytes (chip : Chip) (len : BitVec 16) : List Byte × Chip :=
  ((List.range len.toNat).map fun i => chip.rxMemory ((chip.rxRd.toNat + i) &&& S0_MASK),
    { chip with rxRd := chip.rxRd + len })

def Chip.sendBytes (chip : Chip) (bytes : List Byte) : Chip :=
  { chip with sent := chip.sent ++ bytes }

/-! ## The receive queue -/

def Chip.queue (chip : Chip) : List Byte :=
  ringRead 2048 chip.rxMemory chip.rxRd.toNat chip.getRxSize.toNat

@[simp] theorem Chip.queue_length (chip : Chip) : chip.queue.length = chip.getRxSize.toNat := by
  simp [Chip.queue]

theorem ringRead_toNat_add (memory : Nat → Byte) (pointer offset : BitVec 16) (count : Nat) :
    ringRead 2048 memory (pointer + offset).toNat count =
      ringRead 2048 memory (pointer.toNat + offset.toNat) count := by
  rw [BitVec.toNat_add]
  exact ringRead_mod 2048 32 memory _ count

theorem Chip.deliver_eq_some {chip next : Chip} {bytes : List Byte}
    (delivered : chip.deliver bytes = some next) :
    next.queue = chip.queue ++ bytes ∧ next.queue.length ≤ 2048 ∧ next.sent = chip.sent := by
  unfold Chip.deliver at delivered
  split at delivered
  next fits =>
    cases delivered
    have size : (chip.rxWr + BitVec.ofNat 16 bytes.length - chip.rxRd).toNat =
        chip.getRxSize.toNat + bytes.length := by
      unfold Chip.getRxSize at fits ⊢
      rw [show chip.rxWr + BitVec.ofNat 16 bytes.length - chip.rxRd =
        chip.rxWr - chip.rxRd + BitVec.ofNat 16 bytes.length by
          rw [BitVec.sub_eq_add_neg, BitVec.sub_eq_add_neg, BitVec.add_assoc, BitVec.add_assoc,
            BitVec.add_comm (BitVec.ofNat 16 _)]]
      rw [BitVec.toNat_add, BitVec.toNat_ofNat]
      omega
    have pointer : chip.rxWr = chip.rxRd + chip.getRxSize := by
      rw [Chip.getRxSize, BitVec.add_comm, BitVec.sub_add_cancel]
    have start : chip.rxWr.toNat % 2048 = (chip.rxRd.toNat + chip.getRxSize.toNat) % 2048 := by
      conv_lhs => rw [pointer]
      rw [BitVec.toNat_add]
      exact Nat.mod_mul_right_mod _ 2048 32
    refine ⟨?_, ?_, rfl⟩
    · rw [Chip.queue, Chip.queue, Chip.getRxSize, size, ringWrite_congr _ start]
      exact ringRead_ringWrite chip.rxMemory bytes fits
    · rw [Chip.queue_length, Chip.getRxSize, size]
      exact fits
  next => cases delivered

@[simp] theorem Chip.queue_open (chip : Chip) : (chip.command CR_OPEN).queue = [] := by
  simp [Chip.queue, Chip.command, Chip.getRxSize]

@[simp] theorem Chip.queue_sendBytes (chip : Chip) (bytes : List Byte) :
    (chip.sendBytes bytes).queue = chip.queue := rfl

@[simp] theorem Chip.recvBytes_length (chip : Chip) (len : BitVec 16) :
    (chip.recvBytes len).1.length = len.toNat := by
  simp [Chip.recvBytes]

theorem Chip.recvBytes_queue {chip : Chip} {len : BitVec 16} (le : len.toNat ≤ chip.queue.length) :
    (chip.recvBytes len).1 = chip.queue.take len.toNat ∧
      (chip.recvBytes len).2.queue = chip.queue.drop len.toNat := by
  rw [Chip.queue_length] at le
  have size : ((chip.recvBytes len).2.getRxSize).toNat = chip.getRxSize.toNat - len.toNat := by
    simp only [Chip.recvBytes, Chip.getRxSize] at le ⊢
    rw [← BitVec.sub_sub]
    exact BitVec.toNat_sub_of_le le
  constructor
  · rw [Chip.queue, ringRead_take le, Chip.recvBytes]
    apply List.map_congr_left
    intro index _
    rw [S0_MASK, show 0x07FF = 2 ^ 11 - 1 by rfl, Nat.and_two_pow_sub_one_eq_mod]
  · rw [Chip.queue, size, Chip.queue, ringRead_drop le]
    exact ringRead_toNat_add chip.rxMemory chip.rxRd len _

end OrionBios.Receiver
