import OrionBios.Disks.Driver
import Mathlib.Algebra.GroupWithZero.Nat
import Mathlib.Logic.Function.Basic

/-!
# Two disks behind one driver

Every call selects its device first: the selection is the variable that the register macros
start from. The partition table is read through a fixed piece of memory.
-/

namespace OrionBios.Disks

open Machine

inductive Dev where
  | ATA_DEV_MIDE | ATA_DEV_PICOIDE
  deriving DecidableEq

def ATA_BASE_MIDE : BitVec 32 := 0x00FF4400

def ATA_BASE_PICOIDE : BitVec 32 := 0x00FF4000

structure Partition where
  base : BitVec 32
  size : BitVec 32
  fstype : Byte
  flags : Byte
  deriving DecidableEq

scoped instance partitionsNonzero : NeZero 4 := ⟨by decide⟩

structure System where
  ataDev : Dev
  ataBase : BitVec 32
  drives : Dev → Fin 4 → Partition
  /-- The 512 bytes at 0xA2000. -/
  scratch : Sector
  mide : Device
  picoide : Device

namespace System

/-- The device whose registers start at `ata_base`. -/
def device (s : System) : Device := if s.ataBase = ATA_BASE_PICOIDE then s.picoide else s.mide

def putDevice (d : Device) (s : System) : System :=
  if s.ataBase = ATA_BASE_PICOIDE then { s with picoide := d } else { s with mide := d }

end System

def onDevice {Value : Type} (program : Program Device Value) : Program System Value :=
  Program.within System.device System.putDevice program

/-! ## Sectors -/

def ataSelectDevice (dev : Dev) : Program System Unit := fun s =>
  match dev with
  | .ATA_DEV_MIDE => (some (), { s with ataDev := dev, ataBase := ATA_BASE_MIDE })
  | .ATA_DEV_PICOIDE => (some (), { s with ataDev := dev, ataBase := ATA_BASE_PICOIDE })

def ataDev : Program System Dev := fun s => (some s.ataDev, s)

def bytesOf (words : List Word) : List Byte :=
  words.flatMap fun word => [word.extractLsb' 8 8, word.extractLsb' 0 8]

def ataReadSector (sector : BitVec 32) : Program System (Nat × List Byte) := do
  let dev ← ataDev
  match dev with
  | .ATA_DEV_PICOIDE => do
    let (result, words) ← onDevice (picoideReadSector devicePort sector)
    pure (result, bytesOf words)
  | .ATA_DEV_MIDE => onDevice (mideReadSector sector)

def ataWriteSector (sector : BitVec 32) (buffer : Sector) : Program System Nat := do
  let dev ← ataDev
  match dev with
  | .ATA_DEV_PICOIDE => onDevice (picoideWriteSector devicePort sector (wordsOf buffer.val))
  | .ATA_DEV_MIDE => onDevice (mideWriteSector sector buffer)

def ataDetect : Program System Bool := do
  let dev ← ataDev
  match dev with
  | .ATA_DEV_PICOIDE => onDevice picoideDetect
  | .ATA_DEV_MIDE => onDevice mideDetect

/-! ## The partition table -/

/-- `le32toh` of the four bytes at an offset. -/
def le32 (buffer : Sector) (offset : Nat) : BitVec 32 :=
  buffer.val.getD (offset + 3) 0 ++ buffer.val.getD (offset + 2) 0 ++
    buffer.val.getD (offset + 1) 0 ++ buffer.val.getD offset 0

/-- `read_partition_table`: the four entries at 0x1BE. -/
def readPartitionTable (buffer : Sector) (i : Fin 4) : Partition where
  base := le32 buffer (0x1BE + 16 * i + 8)
  size := le32 buffer (0x1BE + 16 * i + 12)
  fstype := buffer.val.getD (0x1BE + 16 * i + 4) 0
  flags := buffer.val.getD (0x1BE + 16 * i) 0

def setParts (parts : Fin 4 → Partition) : Program System Unit := fun s =>
  (some (), { s with drives := Function.update s.drives s.ataDev parts })

def clearParts : Program System Unit := fun s =>
  (some (), { s with
    drives := Function.update s.drives s.ataDev fun i =>
      { s.drives s.ataDev i with base := 0, size := 0 } })

/-- What a read leaves in the memory behind its buffer. -/
def overwritten (buffer : Sector) (bytes : List Byte) : Sector :=
  ⟨(bytes ++ buffer.val.drop bytes.length).take 512, by
    have := buffer.property
    simp only [List.length_take, List.length_append, List.length_drop]
    omega⟩

def storeScratch (bytes : List Byte) : Program System Unit := fun s =>
  (some (), { s with scratch := overwritten s.scratch bytes })

def scratch : Program System Sector := fun s => (some s.scratch, s)

/-- `ata_init`: the result of the read of sector 0 is not looked at. -/
def ataInit : Program System Bool := do
  clearParts
  let there ← ataDetect
  if !there then
    pure false
  else do
    let dev ← ataDev
    match dev with
    | .ATA_DEV_PICOIDE => do
      let _ ← onDevice (picoideIdentify devicePort)
      pure ()
    | .ATA_DEV_MIDE => pure ()
    let (_, bytes) ← ataReadSector 0
    storeScratch bytes
    let buffer ← scratch
    setParts (readPartitionTable buffer)
    pure true

/-! ## The interface of the file system -/

def RES_OK : Nat := 0

def RES_ERROR : Nat := 1

def RES_PARERR : Nat := 4

def STA_NOINIT : Nat := 1

/-- `pdrv_ata_dev` for the drives that are enabled: both are. -/
def pdrvAtaDev (pdrv : Byte) : Option Dev :=
  if pdrv = 0 then some .ATA_DEV_MIDE else if pdrv = 1 then some .ATA_DEV_PICOIDE else none

def diskStatus (pdrv : Byte) : Program System Nat :=
  match pdrvAtaDev pdrv with
  | none => pure STA_NOINIT
  | some dev => do
    ataSelectDevice dev
    let there ← ataDetect
    pure (if there then 0 else 1)

def diskInitialize (pdrv : Byte) : Program System Nat :=
  match pdrvAtaDev pdrv with
  | none => pure STA_NOINIT
  | some dev => do
    ataSelectDevice dev
    let started ← ataInit
    pure (if started then 0 else 1)

/-- `drives[dev].parts[0].base`. -/
def partitionBase (dev : Dev) : Program System (BitVec 32) := fun s =>
  (some (s.drives dev 0).base, s)

/-- The sectors from the `i`-th on, `left` of them: the result and what is in the buffer. -/
def diskReadLoop (physicalSector i : BitVec 32) : Nat → Program System (Nat × List (List Byte))
  | 0 => pure (RES_OK, [])
  | left + 1 => do
    let (result, bytes) ← ataReadSector (physicalSector + i)
    if result = 0 then
      pure (RES_ERROR, [bytes])
    else do
      let (result, rest) ← diskReadLoop physicalSector (i + 1) left
      pure (result, bytes :: rest)

def diskRead (pdrv : Byte) (sector count : BitVec 32) : Program System (Nat × List (List Byte)) :=
  match pdrvAtaDev pdrv with
  | none => pure (RES_PARERR, [])
  | some dev => do
    ataSelectDevice dev
    let base ← partitionBase dev
    diskReadLoop (base + sector) 0 count.toNat

def diskWriteLoop (physicalSector i : BitVec 32) : List Sector → Program System Nat
  | [] => pure RES_OK
  | buffer :: rest => do
    let result ← ataWriteSector (physicalSector + i) buffer
    if result = 0 then
      pure RES_ERROR
    else
      diskWriteLoop physicalSector (i + 1) rest

/-- `disk_write`; its count is the number of sectors in the buffer. -/
def diskWrite (pdrv : Byte) (sector : BitVec 32) (buff : List Sector) : Program System Nat :=
  match pdrvAtaDev pdrv with
  | none => pure RES_PARERR
  | some dev => do
    ataSelectDevice dev
    let base ← partitionBase dev
    diskWriteLoop (base + sector) 0 buff

end OrionBios.Disks
