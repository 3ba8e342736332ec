import OrionBios.Disks.Driver
import Mathlib.Logic.Function.Basic

/-!
# The two bus modes of the IDE driver

A drive that never fails moves a byte with every access while its 8-bit feature is on, and a word
else, the first byte in the lower half. The driver reads and writes sectors over it in either
mode.
-/

namespace OrionBios.BusModes

open Machine
open Disks (Byte Lba Sector Register TaskFile ATA_ST_BUSY ATA_ST_DATA_READY
  ATA_CMD_READ_SECTORS ATA_CMD_WRITE_SECTORS ATA_CMD_SET_FEATURE busy dataReady error driveHead)

/-- What the processor does at the data register, which has an odd address. -/
structure Bus where
  /-- What a byte access puts on the upper data lines. -/
  upper : Byte → Byte
  /-- Whether a word access at an odd address is carried out, or is an address error. -/
  oddWords : Bool

/-! ## The drive -/

inductive Phase where
  | idle
  | sending (left : List Byte)
  | receiving (lba : Lba) (taken : List Byte)

structure Drive where
  taskFile : TaskFile
  eightBit : Bool
  phase : Phase
  medium : Lba → Sector
  /-- For how many more readings the status says busy, and for how many after each access. -/
  pause : Nat
  pauses : Nat → Nat

namespace Drive

def rest (d : Drive) : Drive :=
  { d with pause := d.pauses 0, pauses := fun access => d.pauses (access + 1) }

/-- The bytes that one access moves. -/
def unit (d : Drive) : Nat := if d.eightBit then 1 else 2

def give (d : Drive) : List Byte × Drive :=
  match d.phase with
  | .sending left =>
    (left.take d.unit,
      { d with
        phase := if left.drop d.unit = [] then .idle else .sending (left.drop d.unit) }.rest)
  | _ => ([], d)

def take (word : Disks.Word) (d : Drive) : Drive :=
  match d.phase with
  | .receiving lba taken =>
    let bytes := taken ++ [word.extractLsb' 0 8, word.extractLsb' 8 8].take d.unit
    if full : bytes.length = 512 then
      { d with phase := .idle, medium := Function.update d.medium lba ⟨bytes, full⟩ }.rest
    else { d with phase := .receiving lba bytes }.rest
  | _ => d

/-- The features are 8-bit transfers on and off. -/
def begin (command : Byte) (d : Drive) : Drive :=
  if command = ATA_CMD_SET_FEATURE then
    { d with
      phase := .idle
      eightBit :=
        if d.taskFile.feature = 0x01 then true
        else if d.taskFile.feature = 0x81 then false
        else d.eightBit }.rest
  else if command = ATA_CMD_READ_SECTORS then
    { d with phase := .sending (d.medium d.taskFile.lba).val }.rest
  else if command = ATA_CMD_WRITE_SECTORS then
    { d with phase := .receiving d.taskFile.lba [] }.rest
  else { d with phase := .idle }.rest

/-- Ready, and asking for data while some are left to move. -/
def status (d : Drive) : Byte :=
  if d.pause ≠ 0 then ATA_ST_BUSY
  else
    match d.phase with
    | .idle => 0x40
    | _ => 0x40 ||| ATA_ST_DATA_READY

end Drive

/-! ## Accesses -/

def writeRegister (register : Register) (value : Byte) : Program Drive Unit := fun d =>
  (some (), { d with taskFile := d.taskFile.set value register })

def writeCommand (command : Byte) : Program Drive Unit := fun d => (some (), d.begin command)

def readStatus : Program Drive Byte := fun d => (some d.status, { d with pause := d.pause - 1 })

def readData : Program Drive Disks.Word := fun d =>
  (some (d.give.1.getD 1 0xFF ++ d.give.1.getD 0 0xFF), d.give.2)

/-- `*ATA_REG_DATA_BYTE` -/
def readDataByte : Program Drive Byte := do
  let word ← readData
  pure (word.extractLsb' 0 8)

def writeDataByte (bus : Bus) (byte : Byte) : Program Drive Unit := fun d =>
  (some (), d.take (bus.upper byte ++ byte))

/-- `*ATA_REG_DATA` -/
def readDataWord (bus : Bus) : Program Drive Disks.Word := fun d =>
  if bus.oddWords then readData d else (none, d)

def waitLoop (stop : Byte → Bool) : Nat → Program Drive Unit
  | 0 => fun d => (none, d)
  | rounds + 1 => do
    let status ← readStatus
    if stop status then pure () else waitLoop stop rounds

/-- The status stays as it is once the drive is no longer busy. -/
def waitFor (stop : Byte → Bool) : Program Drive Unit := fun d => waitLoop stop (d.pause + 1) d

/-! ## The driver -/

/-- The values that `set_ide_bus_mode` lets through. -/
abbrev IdeBusMode := { mode : Byte // mode = 0 ∨ mode = 1 }

def setIdeBusMode (mode : Byte) (ideBusMode : IdeBusMode) : IdeBusMode :=
  if known : mode = 0 ∨ mode = 1 then ⟨mode, known⟩ else ideBusMode

def ataWait : Program Drive Unit := waitFor fun status => !busy status

def ataWaitForData : Program Drive Unit := waitFor dataReady

/-- `go_8bits_mode` -/
def go8bitsMode (mode : IdeBusMode) : Program Drive Unit := do
  if mode.val = 0 then do
    writeRegister .FEATURE 0x01
    writeCommand ATA_CMD_SET_FEATURE
    ataWait
  if mode.val = 1 then do
    writeRegister .FEATURE 0x81
    writeCommand ATA_CMD_SET_FEATURE
    ataWait

def readBytes : Nat → Program Drive (List Byte)
  | 0 => pure []
  | count + 1 => do
    let byte ← readDataByte
    ataWait
    let rest ← readBytes count
    pure (byte :: rest)

/-- The two bytes of a word in the buffer, the upper one first. -/
def stored (word : Disks.Word) : List Byte := [word.extractLsb' 8 8, word.extractLsb' 0 8]

/-- Every word is turned by eight bits in the buffer. -/
def readWords (bus : Bus) : Nat → Program Drive (List Byte)
  | 0 => pure []
  | count + 1 => do
    let word ← readDataWord bus
    ataWait
    let rest ← readWords bus count
    pure (stored (word.rotateLeft 8) ++ rest)

/-- `ata_read_sector`: the result and the buffer. -/
def ataReadSector (bus : Bus) (mode : IdeBusMode) (sector : BitVec 32) :
    Program Drive (Nat × List Byte) := do
  writeRegister .DRIVE_HEAD (driveHead sector)
  go8bitsMode mode
  writeRegister .CYL_HIGH (sector.extractLsb' 16 8)
  writeRegister .CYL_LOW (sector.extractLsb' 8 8)
  writeRegister .SECTOR_NUM (sector.extractLsb' 0 8)
  writeRegister .SECTOR_COUNT 1
  writeCommand ATA_CMD_READ_SECTORS
  ataWait
  let status ← readStatus
  if error status then
    pure (0, [])
  else do
    ataWait
    ataWaitForData
    let buffer ← if mode.val = 0 then readBytes 512 else readWords bus 256
    pure (512, buffer)

def writeBytes (bus : Bus) : List Byte → Program Drive Unit
  | [] => pure ()
  | byte :: rest => do
    ataWait
    writeDataByte bus byte
    writeBytes bus rest

/-- `ata_write_sector` writes bytes in either mode. -/
def ataWriteSector (bus : Bus) (mode : IdeBusMode) (sector : BitVec 32) (buffer : Sector) :
    Program Drive Nat := do
  go8bitsMode mode
  writeRegister .DRIVE_HEAD (driveHead sector)
  writeRegister .CYL_HIGH (sector.extractLsb' 16 8)
  writeRegister .CYL_LOW (sector.extractLsb' 8 8)
  writeRegister .SECTOR_NUM (sector.extractLsb' 0 8)
  writeRegister .SECTOR_COUNT 1
  writeCommand ATA_CMD_WRITE_SECTORS
  ataWait
  let status ← readStatus
  if error status then
    pure 0
  else do
    ataWait
    ataWaitForData
    writeBytes bus buffer.val
    ataWait
    -- an error here is printed and nothing else
    let _ ← readStatus
    pure 512

/-- A sector is written in one mode and read in the same or the other. -/
def writeThenRead (bus : Bus) (written read : IdeBusMode) (sector : BitVec 32) (buffer : Sector) :
    Program Drive (Nat × List Byte) := do
  let _ ← ataWriteSector bus written sector buffer
  ataReadSector bus read sector

end OrionBios.BusModes
