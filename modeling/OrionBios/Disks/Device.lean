import OrionBios.Machine.Program

/-!
# The device on the bus

A device is what its registers say. It shows the statuses of a script, one for each time the
status register is read, and does what they announce: it asks for data, takes them, and accepts
or refuses a sector.
-/

namespace OrionBios.Disks

open Machine

abbrev Byte := BitVec 8

abbrev Word := BitVec 16

/-- The sector address in the registers. -/
abbrev Lba := BitVec 28

abbrev Sector := { bytes : List Byte // bytes.length = 512 }

/-! ## Statuses -/

def ATA_ST_BUSY : Byte := 0x80

def ATA_ST_DATA_READY : Byte := 0x08

def ATA_ST_ERROR : Byte := 0x01

def busy (status : Byte) : Bool := status &&& ATA_ST_BUSY != 0

def dataReady (status : Byte) : Bool := status &&& ATA_ST_DATA_READY != 0

def error (status : Byte) : Bool := status &&& ATA_ST_ERROR != 0

/-! ## Registers -/

inductive Register where
  | FEATURE | SECTOR_COUNT | SECTOR_NUM | CYL_LOW | CYL_HIGH | DRIVE_HEAD
  deriving DecidableEq

structure TaskFile where
  feature : Byte
  sectorCount : Byte
  sectorNum : Byte
  cylLow : Byte
  cylHigh : Byte
  driveHead : Byte
  deriving DecidableEq

namespace TaskFile

def set (t : TaskFile) (value : Byte) : Register → TaskFile
  | .FEATURE => { t with feature := value }
  | .SECTOR_COUNT => { t with sectorCount := value }
  | .SECTOR_NUM => { t with sectorNum := value }
  | .CYL_LOW => { t with cylLow := value }
  | .CYL_HIGH => { t with cylHigh := value }
  | .DRIVE_HEAD => { t with driveHead := value }

def lba (t : TaskFile) : Lba := t.driveHead.truncate 4 ++ t.cylHigh ++ t.cylLow ++ t.sectorNum

/-- A count of 0 stands for 256 sectors. -/
def sectors (t : TaskFile) : Nat := if t.sectorCount = 0 then 256 else t.sectorCount.toNat

end TaskFile

/-! ## Commands -/

inductive Operation where
  | read | write | identify | other
  deriving DecidableEq

def ATA_CMD_READ_SECTORS : Byte := 0x20

def ATA_CMD_WRITE_SECTORS : Byte := 0x30

def ATA_CMD_IDENTIFY : Byte := 0xEC

def ATA_CMD_SET_FEATURE : Byte := 0xEF

def operationOf (command : Byte) : Operation :=
  if command = ATA_CMD_READ_SECTORS then .read
  else if command = ATA_CMD_WRITE_SECTORS then .write
  else if command = ATA_CMD_IDENTIFY then .identify
  else .other

/-- A command that moves sectors. -/
structure Order where
  operation : Operation
  lba : Lba
  sectors : Nat
  deriving DecidableEq

inductive Phase where
  | idle
  | asked
  | moving (bytes : List Byte)
  | complete (sector : Sector)
  | accepted
  | failed
  deriving DecidableEq

structure Device where
  /-- Without a device the registers do not keep what is written to them. -/
  present : Bool
  taskFile : TaskFile
  phase : Phase
  /-- The command in progress, at the sector that it has come to. -/
  order : Order
  /-- The orders to read or write so far, the last first. -/
  orders : List Order
  /-- The sectors accepted so far, the last first. -/
  saved : List (Lba × Sector)
  /-- What the medium holds where nothing was saved. -/
  medium : Lba → Sector
  identity : Sector
  script : List Byte

namespace Device

def contents (d : Device) (lba : Lba) : Sector :=
  ((d.saved.find? fun entry => entry.1 = lba).map Prod.snd).getD (d.medium lba)

/-- The data of the sector that the command delivers. -/
def source (d : Device) : Sector :=
  match d.order.operation with
  | .identify => d.identity
  | _ => d.contents d.order.lba

def save (d : Device) (sector : Sector) : Device :=
  match d.order.operation with
  | .write => { d with saved := (d.order.lba, sector) :: d.saved }
  | _ => d

def retract (d : Device) : Device :=
  match d.order.operation with
  | .write => { d with saved := d.saved.tail }
  | _ => d

/-- What the device has done when it shows a status. While it is busy the other bits mean
nothing. -/
def told (status : Byte) (d : Device) : Device :=
  if busy status then d
  else
    match d.phase with
    | .idle | .failed => d
    | .asked =>
      if error status then { d with phase := .failed }
      else if dataReady status then { d with phase := .moving [] }
      else d
    | .moving _ => if error status then { d with phase := .failed } else d
    | .complete sector =>
      if d.order.sectors = 1 then
        -- the last sector of the command ends without a request for more
        if dataReady status then d
        else if error status then { d with phase := .failed }
        else { d.save sector with phase := .accepted }
      else if error status then { d with phase := .failed }
      else if dataReady status then
        { d.save sector with
          phase := .moving []
          order := { d.order with lba := d.order.lba + 1, sectors := d.order.sectors - 1 } }
      else d
    | .accepted => if error status then { d.retract with phase := .failed } else d

/-- One byte more of the sector has gone over the bus. -/
def moved (byte : Byte) (bytes : List Byte) (d : Device) : Device :=
  if full : (bytes ++ [byte]).length = 512 then { d with phase := .complete ⟨bytes ++ [byte], full⟩ }
  else { d with phase := .moving (bytes ++ [byte]) }

/-- A byte on the bus that the device did not ask for is lost. -/
def take (byte : Byte) (d : Device) : Device :=
  match d.phase, d.order.operation with
  | .moving bytes, .write => d.moved byte bytes
  | _, _ => d

/-- A byte that the device did not offer is an empty bus. -/
def give (d : Device) : Byte × Device :=
  match d.phase, d.order.operation with
  | .moving _, .write => (0xFF, d)
  | .moving bytes, _ =>
    (d.source.val.getD bytes.length 0, d.moved (d.source.val.getD bytes.length 0) bytes)
  | _, _ => (0xFF, d)

def begin (command : Byte) (d : Device) : Device :=
  match operationOf command with
  | .read =>
    { d with
      phase := .asked
      order := ⟨.read, d.taskFile.lba, d.taskFile.sectors⟩
      orders := ⟨.read, d.taskFile.lba, d.taskFile.sectors⟩ :: d.orders }
  | .write =>
    { d with
      phase := .asked
      order := ⟨.write, d.taskFile.lba, d.taskFile.sectors⟩
      orders := ⟨.write, d.taskFile.lba, d.taskFile.sectors⟩ :: d.orders }
  | .identify => { d with phase := .asked, order := ⟨.identify, 0, 1⟩ }
  | .other => { d with phase := .idle, order := ⟨.other, 0, 0⟩ }

end Device

/-! ## Accesses of the bus -/

def writeRegister (register : Register) (value : Byte) : Program Device Unit := fun d =>
  (some (), { d with taskFile := d.taskFile.set value register })

def readSectorCount : Program Device Byte := fun d =>
  (some (if d.present then d.taskFile.sectorCount else 0xFF), d)

def writeCommand (command : Byte) : Program Device Unit := fun d => (some (), d.begin command)

def readStatus : Program Device Byte := fun d =>
  match d.script with
  | [] => (none, d)
  | status :: rest => (some status, ({ d with script := rest }).told status)

def writeDataByte (byte : Byte) : Program Device Unit := fun d => (some (), d.take byte)

def readDataByte : Program Device Byte := fun d => (some d.give.1, d.give.2)

/-- A word on the bus carries the first byte in its upper half. -/
def writeDataWord (word : Word) : Program Device Unit := do
  writeDataByte (word.extractLsb' 8 8)
  writeDataByte (word.extractLsb' 0 8)

def readDataWord : Program Device Word := do
  let first ← readDataByte
  let second ← readDataByte
  pure (first ++ second)

/-! ## Waiting loops -/

/-- Read the status until one of them ends the loop. -/
def waitLoop (stop : Byte → Bool) : List Byte → Device → Option Byte × Device
  | [], d => (none, { d with script := [] })
  | status :: rest, d =>
    if stop status then (some status, ({ d with script := rest }).told status)
    else waitLoop stop rest (({ d with script := rest }).told status)

def waitFor (stop : Byte → Bool) : Program Device Byte := fun d => waitLoop stop d.script d

end OrionBios.Disks
