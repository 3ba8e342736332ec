import OrionBios.Crc.ShiftRegister
import Mathlib.Tactic.Ring

/-!
# The CRC-32 of the BIOS, the sender and the pico2W

Each program builds its table once with `crc32_init` and looks the bytes up in it. The BIOS
takes four bytes a round. The table and the bits that are shifted out play no part any more
once a program is seen as clocks of the shift register.
-/

namespace OrionBios.Crc

open Polynomial

abbrev Byte := BitVec 8
abbrev Word := BitVec 32

/-- `crc32_table`. -/
abbrev Table := Byte → Word

def CRC32_POLYNOMIAL : Word := 0xEDB88320

/-- The inner loop of `crc32_init`. -/
def crc32Entry (i : Word) : Word :=
  (fun c : Word => if c &&& 1 ≠ 0 then CRC32_POLYNOMIAL ^^^ (c >>> 1) else c >>> 1)^[8] i

def crc32Init (table : Table) : Table :=
  (List.range 256).foldl
    (fun table i => Function.update table (BitVec.ofNat 8 i) (crc32Entry (BitVec.ofNat 32 i)))
    table

/-- One byte in the loops of `crc32_update`. -/
def crc32Step (table : Table) (crc : Word) (byte : Byte) : Word :=
  table (((crc ^^^ byte.setWidth 32) &&& 0xFF).setWidth 8) ^^^ (crc >>> 8)

namespace Bios

/-- The BIOS's `crc32_update`: four bytes a round, then the rest. -/
def crc32Update (table : Table) (crc : Word) : List Byte → Word
  | first :: second :: third :: fourth :: buffer =>
      crc32Update table
        (crc32Step table (crc32Step table (crc32Step table (crc32Step table crc first) second)
          third) fourth) buffer
  | buffer => buffer.foldl (crc32Step table) crc

end Bios

namespace Sender

def crc32Update (table : Table) (crc : Word) (buffer : List Byte) : Word :=
  buffer.foldl (crc32Step table) crc

/-- `crc32_from_file`, over the blocks that `fread` returns. -/
def crc32FromFile (table : Table) (blocks : List (List Byte)) : Word :=
  blocks.foldl (fun crc block => block.foldl (crc32Step table) crc) 0xFFFFFFFF ^^^ 0xFFFFFFFF

end Sender

namespace Pico2W

def crc32Update (table : Table) (crc : Word) (buffer : List Byte) : Word :=
  buffer.foldl (crc32Step table) crc

end Pico2W

inductive Program where
  | bios | sender | pico2W
  deriving DecidableEq, Repr

namespace Program

def crc32Update : Program → Table → Word → List Byte → Word
  | bios => Bios.crc32Update
  | sender => Sender.crc32Update
  | pico2W => Pico2W.crc32Update

def crc32Calculate (p : Program) (table : Table) (buffer : List Byte) : Word :=
  p.crc32Update table 0xFFFFFFFF buffer ^^^ 0xFFFFFFFF

end Program

/-! ## The table -/

theorem crc32Entry_eq (i : Word) : crc32Entry i = (shift CRC32_POLYNOMIAL)^[8] i := by
  have step : (fun c : Word => if c &&& 1 ≠ 0 then CRC32_POLYNOMIAL ^^^ (c >>> 1) else c >>> 1) =
      shift CRC32_POLYNOMIAL := by
    funext c
    have low : c &&& 1 = (BitVec.ofBool (c.getLsbD 0)).setWidth 32 :=
      BitVec.and_one_eq_setWidth_ofBool_getLsbD
    unfold shift
    rw [low]
    cases c.getLsbD 0 <;> rfl
  unfold crc32Entry
  rw [step]

theorem initLoop_eq (table : Table) {rounds : Nat} (bound : rounds ≤ 256) (i : Byte) :
    (List.range rounds).foldl
        (fun table i => Function.update table (BitVec.ofNat 8 i) (crc32Entry (BitVec.ofNat 32 i)))
        table i =
      if i.toNat < rounds then crc32Entry (i.setWidth 32) else table i := by
  induction rounds with
  | zero => rfl
  | succ rounds inductionHypothesis =>
      rw [List.range_succ, List.foldl_append, List.foldl_cons, List.foldl_nil]
      by_cases own : i = BitVec.ofNat 8 rounds
      · have number : i.toNat = rounds := by
          rw [own, BitVec.toNat_ofNat]
          omega
        have same : i.setWidth 32 = BitVec.ofNat 32 rounds := by
          apply BitVec.eq_of_toNat_eq
          rw [BitVec.toNat_setWidth, BitVec.toNat_ofNat, number]
        rw [if_pos (by omega), same, own, Function.update_self]
      · have other : i.toNat ≠ rounds := fun number => own (by
          apply BitVec.eq_of_toNat_eq
          rw [BitVec.toNat_ofNat, number]
          omega)
        rw [Function.update_of_ne own, inductionHypothesis (by omega)]
        by_cases less : i.toNat < rounds
        · rw [if_pos less, if_pos (by omega)]
        · rw [if_neg less, if_neg (by omega)]

theorem crc32Init_eq (table : Table) (i : Byte) :
    crc32Init table i = (shift CRC32_POLYNOMIAL)^[8] (i.setWidth 32) := by
  unfold crc32Init
  rw [initLoop_eq table (Nat.le_refl 256), if_pos i.isLt, crc32Entry_eq]

theorem crc32Step_eq (table : Table) :
    crc32Step (crc32Init table) = clockByte CRC32_POLYNOMIAL := by
  funext crc byte
  have low : ((crc ^^^ byte.setWidth 32) &&& 0xFF).setWidth 8 =
      (crc ^^^ byte.setWidth 32).setWidth 8 := by
    apply BitVec.eq_of_getLsbD_eq
    intro i less
    rw [BitVec.getLsbD_setWidth, BitVec.getLsbD_setWidth, BitVec.getLsbD_and]
    have mask : (0xFF : Word).getLsbD i = true := by
      revert i
      decide
    rw [mask, Bool.and_true]
  have moved : (crc ^^^ byte.setWidth 32) >>> 8 = crc >>> 8 := by
    apply BitVec.eq_of_getLsbD_eq
    intro i less
    rw [BitVec.getLsbD_ushiftRight, BitVec.getLsbD_ushiftRight, BitVec.getLsbD_xor,
      BitVec.getLsbD_setWidth, BitVec.getLsbD_of_ge byte (8 + i) (Nat.le_add_right 8 i),
      Bool.and_false, Bool.xor_false]
  unfold crc32Step clockByte
  rw [shifts_byte, low, moved, crc32Init_eq]

/-! ## The updates -/

theorem Bios.crc32Update_eq (table : Table) (crc : Word) (buffer : List Byte) :
    Bios.crc32Update table crc buffer = buffer.foldl (crc32Step table) crc := by
  induction crc, buffer using Bios.crc32Update.induct table with
  | case1 crc first second third fourth buffer inductionHypothesis =>
      rw [Bios.crc32Update, inductionHypothesis]
      rfl
  | case2 crc buffer short =>
      rw [Bios.crc32Update]
      exact short

theorem Program.crc32Update_eq (p : Program) (table : Table) (crc : Word) (bytes : List Byte) :
    p.crc32Update (crc32Init table) crc bytes = bytes.foldl (clockByte CRC32_POLYNOMIAL) crc := by
  rw [← crc32Step_eq table]
  cases p with
  | bios => exact Bios.crc32Update_eq (crc32Init table) crc bytes
  | sender => rfl
  | pico2W => rfl

/-! ## The standard -/

noncomputable def generator : (ZMod 2)[X] :=
  X ^ 32 + X ^ 26 + X ^ 23 + X ^ 22 + X ^ 16 + X ^ 12 + X ^ 11 + X ^ 10 + X ^ 8 + X ^ 7 + X ^ 5 +
    X ^ 4 + X ^ 2 + X + 1

/-- The standard CRC-32: the complement of the remainder of the message behind 32 zeros, whose
first 32 bits are complemented. -/
def IsCrc32 (bytes : List Byte) (crc : Word) : Prop :=
  value (~~~crc) =
    (X ^ (8 * bytes.length) * value (BitVec.allOnes 32) + X ^ 32 * message bytes) %ₘ generator

theorem modulus_eq : modulus CRC32_POLYNOMIAL = generator := by
  unfold modulus value generator CRC32_POLYNOMIAL
  simp [Finset.sum_range_succ]
  ring

theorem isCrc32_iff (bytes : List Byte) (crc : Word) :
    IsCrc32 bytes crc ↔
      crc = bytes.foldl (clockByte CRC32_POLYNOMIAL) 0xFFFFFFFF ^^^ 0xFFFFFFFF := by
  unfold IsCrc32
  rw [← modulus_eq, clocked_remainder CRC32_POLYNOMIAL (by decide), value_injective.eq_iff]
  show ~~~crc = bytes.foldl _ 0xFFFFFFFF ↔ crc = bytes.foldl _ 0xFFFFFFFF ^^^ BitVec.allOnes 32
  rw [BitVec.xor_allOnes]
  constructor
  · intro equal
    rw [← equal, BitVec.not_not]
  · intro equal
    rw [equal, BitVec.not_not]

theorem Program.crc32Calculate_standard (p : Program) (table : Table) (bytes : List Byte)
    (final : Word) : IsCrc32 bytes final ↔ final = p.crc32Calculate (crc32Init table) bytes := by
  rw [Program.crc32Calculate, p.crc32Update_eq]
  exact isCrc32_iff bytes final

/-- `crc32_from_file` does not depend on the blocks. -/
theorem Sender.crc32FromFile_standard (table : Table) (blocks : List (List Byte)) :
    IsCrc32 blocks.flatten (Sender.crc32FromFile (crc32Init table) blocks) := by
  rw [isCrc32_iff, Sender.crc32FromFile, crc32Step_eq, List.foldl_flatten]

/-- Each program computes the bit-by-bit CRC, over any chunks and with any of the programs for
each of them, and its final value is the one of the standard. -/
theorem programs_agree (p : Program) (tables : Program → Table) (crc : Word) (bytes : List Byte)
    (chunks : List (Program × List Byte)) :
    p.crc32Update (crc32Init (tables p)) crc bytes =
        bytes.foldl (clockByte CRC32_POLYNOMIAL) crc ∧
      chunks.foldl (fun crc chunk =>
          chunk.1.crc32Update (crc32Init (tables chunk.1)) crc chunk.2) crc =
        p.crc32Update (crc32Init (tables p)) crc (chunks.map Prod.snd).flatten ∧
      ∀ final, IsCrc32 bytes final ↔ final = p.crc32Calculate (crc32Init (tables p)) bytes := by
  refine ⟨p.crc32Update_eq (tables p) crc bytes, ?_, p.crc32Calculate_standard (tables p) bytes⟩
  rw [p.crc32Update_eq, List.foldl_flatten, List.foldl_map]
  congr 1
  funext crc chunk
  exact chunk.1.crc32Update_eq (tables chunk.1) crc chunk.2

/-- The check value of the standard, of the digits one to nine. -/
example : Program.bios.crc32Calculate (crc32Init fun _ => 0)
    [0x31, 0x32, 0x33, 0x34, 0x35, 0x36, 0x37, 0x38, 0x39] = 0xCBF43926 := by
  decide +kernel

end OrionBios.Crc
