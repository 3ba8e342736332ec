import OrionBios.Disks.Device

/-!
# The ATA driver

The driver of both devices, without the choice between them. The MIDE moves bytes and waits for
as long as it takes; the picoIDE moves words and gives up after a number of rounds.
-/

namespace OrionBios.Disks

open Machine

/-! ## MIDE -/

def ataWait : Program Device Unit := do
  let _ ← waitFor fun status => !busy status
  pure ()

def ataWaitForData : Program Device Unit := do
  let _ ← waitFor dataReady
  pure ()

/-- `go_8bits_mode` with `ide_bus_mode` as the driver starts with it. -/
def go8bitsMode : Program Device Unit := do
  writeRegister .FEATURE 0x01
  writeCommand ATA_CMD_SET_FEATURE
  ataWait

def driveHead (sector : BitVec 32) : Byte := 0xE0 ||| (sector.extractLsb' 24 8 &&& 0x0F)

def writeBytes : List Byte → Program Device Unit
  | [] => pure ()
  | byte :: rest => do
    ataWait
    writeDataByte byte
    writeBytes rest

def readBytes : Nat → Program Device (List Byte)
  | 0 => pure []
  | count + 1 => do
    let byte ← readDataByte
    ataWait
    let rest ← readBytes count
    pure (byte :: rest)

/-- `ata_read_sector` for the MIDE: the result and what it left in the buffer. -/
def mideReadSector (sector : BitVec 32) : Program Device (Nat × List Byte) := do
  writeRegister .DRIVE_HEAD (driveHead sector)
  go8bitsMode
  writeRegister .CYL_HIGH (sector.extractLsb' 16 8)
  writeRegister .CYL_LOW (sector.extractLsb' 8 8)
  writeRegister .SECTOR_NUM (sector.extractLsb' 0 8)
  writeRegister .SECTOR_COUNT 1
  writeCommand ATA_CMD_READ_SECTORS
  ataWait
  let status ← readStatus
  if error status then
    pure (0, [])
  else do
    ataWait
    ataWaitForData
    let bytes ← readBytes 512
    pure (512, bytes)

/-- `ata_write_sector` for the MIDE. -/
def mideWriteSector (sector : BitVec 32) (buffer : Sector) : Program Device Nat := do
  go8bitsMode
  writeRegister .DRIVE_HEAD (driveHead sector)
  writeRegister .CYL_HIGH (sector.extractLsb' 16 8)
  writeRegister .CYL_LOW (sector.extractLsb' 8 8)
  writeRegister .SECTOR_NUM (sector.extractLsb' 0 8)
  writeRegister .SECTOR_COUNT 1
  writeCommand ATA_CMD_WRITE_SECTORS
  ataWait
  let status ← readStatus
  if error status then
    pure 0
  else do
    ataWait
    ataWaitForData
    writeBytes buffer.val
    ataWait
    -- an error here is printed and nothing else
    let _ ← readStatus
    pure 512

/-! ## picoIDE -/

/-- The registers of the picoIDE, whatever answers behind them. -/
structure Port (State : Type) where
  writeRegister : Register → Byte → Program State Unit
  writeCommand : Byte → Program State Unit
  readStatus : Program State Byte
  readError : Program State Byte
  readData16 : Program State Word
  writeData16 : Word → Program State Unit

def PICOIDE_TIMEOUT_LOOPS : Nat := 2000000

section picoIDE

variable {State : Type} (port : Port State)

/-- The rounds of `picoide_wait_drq`. -/
def picoideWaitDrqLoop : Nat → Program State Nat
  | 0 => pure 0
  | rounds + 1 => do
    let status ← port.readStatus
    if busy status then picoideWaitDrqLoop rounds
    else if error status then pure 0
    else if dataReady status then pure 1
    else picoideWaitDrqLoop rounds

def picoideWaitDrq : Program State Nat := picoideWaitDrqLoop port PICOIDE_TIMEOUT_LOOPS

/-- The rounds of `picoide_wait_idle`. -/
def picoideWaitIdleLoop : Nat → Program State Nat
  | 0 => pure 0
  | rounds + 1 => do
    let status ← port.readStatus
    if busy status || dataReady status then picoideWaitIdleLoop rounds
    else pure (if error status then 0 else 1)

def picoideWaitIdle : Program State Nat := picoideWaitIdleLoop port PICOIDE_TIMEOUT_LOOPS

def picoideSetLba (sector : BitVec 32) : Program State Unit := do
  port.writeRegister .DRIVE_HEAD (driveHead sector)
  port.writeRegister .CYL_HIGH (sector.extractLsb' 16 8)
  port.writeRegister .CYL_LOW (sector.extractLsb' 8 8)
  port.writeRegister .SECTOR_NUM (sector.extractLsb' 0 8)
  port.writeRegister .SECTOR_COUNT 1

/-- What the driver reads again to print an error. -/
def picoideReport : Program State Unit := do
  let _ ← port.readStatus
  let _ ← port.readError
  pure ()

def readWords : Nat → Program State (List Word)
  | 0 => pure []
  | count + 1 => do
    let word ← port.readData16
    let rest ← readWords count
    pure (word :: rest)

def writeWords : List Word → Program State Unit
  | [] => pure ()
  | word :: rest => do
    port.writeData16 word
    writeWords rest

/-- `picoide_read_sector`: the result and the words that it left in `dst`. -/
def picoideReadSector (sector : BitVec 32) : Program State (Nat × List Word) := do
  picoideSetLba port sector
  port.writeCommand ATA_CMD_READ_SECTORS
  let ready ← picoideWaitDrq port
  if ready = 0 then do
    picoideReport port
    pure (0, [])
  else do
    let dst ← readWords port 256
    let idle ← picoideWaitIdle port
    if idle = 0 then do
      picoideReport port
      pure (0, dst)
    else
      pure (512, dst)

/-- `picoide_write_sector` for the words `src`. -/
def picoideWriteSector (sector : BitVec 32) (src : List Word) : Program State Nat := do
  picoideSetLba port sector
  port.writeCommand ATA_CMD_WRITE_SECTORS
  let ready ← picoideWaitDrq port
  if ready = 0 then do
    picoideReport port
    pure 0
  else do
    writeWords port src
    let idle ← picoideWaitIdle port
    if idle = 0 then do
      picoideReport port
      pure 0
    else
      pure 512

/-- `picoide_identify`: the words that it read, when the device has them. The rest of the
function prints the capacity. -/
def picoideIdentify : Program State (Option (List Word)) := do
  port.writeRegister .DRIVE_HEAD 0xE0
  port.writeCommand ATA_CMD_IDENTIFY
  let ready ← picoideWaitDrq port
  if ready = 0 then
    pure none
  else do
    let id ← readWords port 256
    let idle ← picoideWaitIdle port
    pure (if idle = 0 then none else some id)

end picoIDE

def devicePort : Port Device where
  writeRegister := writeRegister
  writeCommand := writeCommand
  readStatus := readStatus
  readError := pure 0
  readData16 := readDataWord
  writeData16 := writeDataWord

/-! ## Detection -/

/-- `has_master_disk`: a register that keeps what is written to it. -/
def hasMasterDisk : Program Device Bool := do
  writeRegister .SECTOR_COUNT 0x55
  let first ← readSectorCount
  if first ≠ 0x55 then
    pure false
  else do
    writeRegister .SECTOR_COUNT 0xAA
    let second ← readSectorCount
    pure (decide (second = 0xAA))

def picoideDetect : Program Device Bool := do
  let there ← hasMasterDisk
  if !there then
    pure false
  else do
    let status ← readStatus
    if status = 0xFF then
      pure false
    else if dataReady status then do
      -- a transfer was left pending: read sector 0 to get rid of it
      let _ ← picoideReadSector devicePort 0
      let status ← readStatus
      pure (!busy status)
    else
      pure (!busy status)

def mideDetectLoop : Nat → Program Device Bool
  | 0 => pure false
  | rounds + 1 => do
    let status ← readStatus
    if busy status then mideDetectLoop rounds else pure (dataReady status)

def mideDetect : Program Device Bool := do
  let there ← hasMasterDisk
  if !there then
    pure false
  else do
    writeCommand ATA_CMD_IDENTIFY
    mideDetectLoop 1000

/-! ## The driver for the picoIDE alone -/

inductive AtaStatus where
  | ATA_OK | ATA_ERR_TIMEOUT_BSY | ATA_ERR_TIMEOUT_DRQ | ATA_ERR_DEVICE | ATA_ERR_BAD_ARG
  deriving DecidableEq

def ATA_TIMEOUT_LOOPS : Nat := 1000000

/-- `ata_wait_clear` for the busy bit, the only one it is called with. -/
def ataWaitClearLoop : Nat → Program Device Bool
  | 0 => pure false
  | rounds + 1 => do
    let status ← readStatus
    if busy status then ataWaitClearLoop rounds else pure true

def ataWaitClear : Program Device Bool := ataWaitClearLoop ATA_TIMEOUT_LOOPS

def ataWaitDrqLoop : Nat → Program Device AtaStatus
  | 0 => pure .ATA_ERR_TIMEOUT_DRQ
  | rounds + 1 => do
    let status ← readStatus
    if error status then pure .ATA_ERR_DEVICE
    else if dataReady status then pure .ATA_OK
    else ataWaitDrqLoop rounds

def ataWaitDrq : Program Device AtaStatus := do
  let clear ← ataWaitClear
  if clear then ataWaitDrqLoop ATA_TIMEOUT_LOOPS else pure .ATA_ERR_TIMEOUT_BSY

def ata400nsDelay : Program Device Unit := do
  let _ ← readStatus
  let _ ← readStatus
  let _ ← readStatus
  let _ ← readStatus
  pure ()

def ataSelectDrive (drive : Byte) (lba : BitVec 32) : Program Device Unit := do
  writeRegister .DRIVE_HEAD (driveHead lba ||| ((drive &&& 1) <<< 4))
  ata400nsDelay

/-- The words of a buffer, the first byte in the upper half. -/
def wordsOf : List Byte → List Word
  | first :: second :: rest => (first ++ second) :: wordsOf rest
  | _ => []

/-- The sectors of `ata_write_sectors`, one after the other. -/
def ataWriteSectorsLoop : List Sector → Program Device AtaStatus
  | [] => do
    let clear ← ataWaitClear
    pure (if clear then .ATA_OK else .ATA_ERR_TIMEOUT_BSY)
  | sector :: rest => do
    let ready ← ataWaitDrq
    if ready ≠ .ATA_OK then
      pure ready
    else do
      writeWords devicePort (wordsOf sector.val)
      ataWriteSectorsLoop rest

/-- `ata_write_sectors`; its count is the number of sectors in the buffer. -/
def ataWriteSectors (drive : Byte) (lba : BitVec 32) (buffer : List Sector) :
    Program Device AtaStatus :=
  if buffer.length = 0 ∨ 0x0FFFFFFF < lba.toNat then
    pure .ATA_ERR_BAD_ARG
  else do
    ataSelectDrive drive lba
    let clear ← ataWaitClear
    if !clear then
      pure .ATA_ERR_TIMEOUT_BSY
    else do
      writeRegister .SECTOR_COUNT (BitVec.ofNat 8 buffer.length)
      writeRegister .SECTOR_NUM (lba.extractLsb' 0 8)
      writeRegister .CYL_LOW (lba.extractLsb' 8 8)
      writeRegister .CYL_HIGH (lba.extractLsb' 16 8)
      writeCommand ATA_CMD_WRITE_SECTORS
      ataWriteSectorsLoop buffer

end OrionBios.Disks
