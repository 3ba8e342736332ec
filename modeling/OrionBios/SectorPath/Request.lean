import OrionBios.SectorPath.Board

/-!
# A request of the driver

The four registers that the driver writes put the sector's number together again, so that its
command orders that sector and no other.
-/

namespace OrionBios.SectorPath

open PicoIde

/-- A call of the driver, on a disk at rest. -/
structure Request where
  start : Firmware
  sd : Sd
  sector : BitVec 32
  writes : Bool
  /-- The words that it has for a write. -/
  data : Nat → Word

/-- The writes of `picoide_set_lba`. -/
def lbaWrites (sector : BitVec 32) : List Raw :=
  [rawOf IDE_REG_DEVICE_HEAD (Disks.driveHead sector),
    rawOf IDE_REG_LBA_HIGH (sector.extractLsb' 16 8),
    rawOf IDE_REG_LBA_MID (sector.extractLsb' 8 8),
    rawOf IDE_REG_LBA_LOW (sector.extractLsb' 0 8),
    rawOf IDE_REG_SECTOR_COUNT 1]

namespace Request

def inserted (r : Request) : Firmware := insertCard r.sd.card r.start

def taskfile (r : Request) : List Raw := lbaWrites r.sector

def command (r : Request) : Raw := rawOf IDE_REG_STATUS_CMD (commandOf r.writes)

def order (r : Request) : Order := orderOf (commandOf r.writes) (written r.taskfile r.inserted)

end Request

/-! ## Words on the bus -/

theorem rawAddr_rawOf (addr : BitVec 3) (data : Byte) : rawAddr (rawOf addr data) = addr := by
  apply BitVec.eq_of_getLsbD_eq
  intro i less
  interval_cases i <;> simp [rawAddr, rawOf]

theorem rawData_rawOf (addr : BitVec 3) (data : Byte) : rawData (rawOf addr data) = data := by
  apply BitVec.eq_of_getLsbD_eq
  intro i less
  interval_cases i <;> simp [rawData, rawOf]

theorem lbaWrites_registers (sector : BitVec 32) :
    ∀ raw ∈ lbaWrites sector, rawAddr raw ≠ IDE_REG_STATUS_CMD := by
  intro raw among
  simp only [lbaWrites, List.mem_cons, List.not_mem_nil, or_false] at among
  rcases among with rfl | rfl | rfl | rfl | rfl
  · rw [rawAddr_rawOf]
    decide
  · rw [rawAddr_rawOf]
    decide
  · rw [rawAddr_rawOf]
    decide
  · rw [rawAddr_rawOf]
    decide
  · rw [rawAddr_rawOf]
    decide

/-! ## The address in the registers -/

theorem written_lbaWrites (sector : BitVec 32) (s : Firmware) :
    written (lbaWrites sector) s =
      { s with
        regDeviceHead := Disks.driveHead sector
        regLbaHigh := sector.extractLsb' 16 8
        regLbaMid := sector.extractLsb' 8 8
        regLbaLow := sector.extractLsb' 0 8
        regSectorCount := 1 } := by
  simp only [written, lbaWrites, List.foldl_cons, List.foldl_nil, writeRegister, rawAddr_rawOf,
    rawData_rawOf]
  rfl

theorem address_recombined {sector : BitVec 32} (small : sector.toNat < 2 ^ 28) (s : Firmware) :
    currentLbaFromRegs (written (lbaWrites sector) s) = sector := by
  have upper : ∀ (i : Nat) (less : i < 32), 28 ≤ i → sector[i] = false := by
    intro i less behind
    rw [← BitVec.getLsbD_eq_getElem, ← BitVec.testBit_toNat]
    exact Nat.testBit_lt_two_pow
      (Nat.lt_of_lt_of_le small (Nat.pow_le_pow_right (by decide) behind))
  rw [written_lbaWrites, currentLbaFromRegs]
  apply BitVec.eq_of_getLsbD_eq
  intro i less
  interval_cases i <;> simp [Disks.driveHead, upper]

namespace Request

variable (r : Request)

theorem order_eq (small : r.sector.toNat < 2 ^ 28) :
    r.order = transfer r.writes r.sector.toNat 1 := by
  refine orderOf_transfer ?_ ?_
  · rw [taskfile, address_recombined small]
  · rw [taskfile, written_lbaWrites]

theorem order_count (small : r.sector.toNat < 2 ^ 28) : r.order.count = 1 := by
  rw [r.order_eq small]
  rfl

theorem order_kind : r.order.kind = orderKind r.writes := orderOf_command _ _

theorem order_lba (small : r.sector.toNat < 2 ^ 28) : r.order.lba 0 = r.sector := by
  rw [r.order_eq small]
  show BitVec.ofNat 32 r.sector.toNat + 0 = _
  rw [BitVec.ofNat_toNat, BitVec.setWidth_eq]
  exact BitVec.add_zero _

theorem order_ends (small : r.sector.toNat < 2 ^ 28) (unwrapped : Unwrapped r.sd r.sector) :
    EndsUnwrapped r.sd r.order := by
  intro i less _
  rw [r.order_count small] at less
  rw [Nat.lt_one_iff.mp less, r.order_lba small]
  exact unwrapped

theorem command_isCommand : rawAddr r.command = IDE_REG_STATUS_CMD := rawAddr_rawOf _ _

theorem command_code : rawData r.command = commandOf r.writes := rawData_rawOf _ _

end Request

end OrionBios.SectorPath
