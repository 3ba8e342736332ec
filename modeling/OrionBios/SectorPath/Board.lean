import OrionBios.Disks.Driver
import OrionBios.Machine.Memory
import OrionBios.Machine.Scheduled
import OrionBios.PicoIde.InPlace

/-!
# The driver of the 68k in front of the disk

The driver's accesses go to the firmware, whose handlers and core 1 take their turns between
them. A write of a register waits for its handler, a read for its answer, and the data register
for a word or for room.
-/

namespace OrionBios.SectorPath

open Machine (Address Memory Program Scheduled await store8)
open PicoIde Transition

/-! ## The disk and its card -/

structure Board where
  disk : Recorded
  sd : Sd
  /-- What the read handler has put on the bus. -/
  answer : Byte

namespace Board

abbrev firmware (b : Board) : Firmware := b.disk.bus.firmware

abbrev ledger (b : Board) : Ledger := b.disk.ledger

abbrev access (b : Board) : Option Access := b.disk.bus.access

/-- The board as a session whose 68k stands at `host`. -/
abbrev session (b : Board) (host : Host) : Session := { disk := b.disk, host := host }

abbrev onCard (b : Board) : OnCard := { session := b.session .poll, sd := b.sd }

def take (b : Board) (label : Label) : Option Board :=
  (recordedStep b.disk label).map fun disk => { b with disk := disk }

end Board

/-- A turn beside those of the 68k. -/
inductive DiskTurn where
  | writeIsr
  | readIsr
  | dmaBIsr
  | dmaCIsr
  | core1 (answer : Answer)

def diskStep (b : Board) : DiskTurn → Option Board
  | .writeIsr => b.take .writeIsr
  | .readIsr =>
    match b.access with
    | some (.read raw) =>
      (b.take .readIsr).map fun c => { c with answer := (readRegister raw b.firmware).1 }
    | _ => none
  | .dmaBIsr => b.take (.event .dmaBIsr)
  | .dmaCIsr => b.take (.event .dmaCIsr)
  | .core1 answer =>
    -- no card takes an address behind its end
    if LawfulTurn b.onCard (.core1 answer) then
      let (firmware, sd) := core1OnCard answer b.firmware b.sd
      let ok := driverReturns answer b.firmware b.sd
      some { b with
        disk :=
          { bus := { b.disk.bus with firmware := firmware }
            ledger := recordCore1 b.firmware b.ledger ok }
        sd := sd }
    else none

def restingBoard (start : Firmware) (sd : Sd) : Board where
  disk := initialRecorded (insertCard sd.card start)
  sd := sd
  answer := 0

/-! ## Accesses of the 68k -/

def beginAccess (access : Access) (b : Board) : Option (Unit × Board) :=
  (b.take (.access access)).map fun c => ((), c)

/-- The cycle ends when the handler has served it. -/
def endAccess (b : Board) : Option (Byte × Board) :=
  match b.access with
  | none => some (b.answer, b)
  | some _ => none

def takeWord (b : Board) : Option (Word × Board) :=
  match b.firmware.dataTx with
  | [] => none
  | word :: _ => (b.take (.event .readData)).map fun c => (word, c)

def giveWord (word : Word) (b : Board) : Option (Unit × Board) :=
  (b.take (.event (.writeData word))).map fun c => ((), c)

def accessRegister (access : Access) : Program (Scheduled Board DiskTurn) Byte := do
  await diskStep (beginAccess access)
  await diskStep endAccess

def registerNumber : Disks.Register → BitVec 3
  | .FEATURE => IDE_REG_ERROR_FEATURES
  | .SECTOR_COUNT => IDE_REG_SECTOR_COUNT
  | .SECTOR_NUM => IDE_REG_LBA_LOW
  | .CYL_LOW => IDE_REG_LBA_MID
  | .CYL_HIGH => IDE_REG_LBA_HIGH
  | .DRIVE_HEAD => IDE_REG_DEVICE_HEAD

def writeRaw (raw : Raw) : Program (Scheduled Board DiskTurn) Unit := do
  let _ ← accessRegister (.write raw)
  pure ()

def port : Disks.Port (Scheduled Board DiskTurn) where
  writeRegister register value := writeRaw (rawOf (registerNumber register) value)
  writeCommand command := writeRaw (rawOf IDE_REG_STATUS_CMD command)
  readStatus := accessRegister (.read statusRaw)
  readError := accessRegister (.read (rawOf IDE_REG_ERROR_FEATURES 0))
  readData16 := await diskStep takeWord
  writeData16 word := await diskStep (giveWord word)

/-! ## Memory of the 68k -/

/-- Words as the 68k keeps them, the upper byte at the even address. -/
def storeWords : List Word → Address → Memory → Memory
  | [], _, memory => memory
  | word :: rest, address, memory =>
    storeWords rest (address + 2)
      (store8 (store8 memory address (highByte word)) (address + 1) (lowByte word))

def loadWords (memory : Memory) (address : Address) : List Word :=
  (List.range 256).map fun i =>
    memory (address + BitVec.ofNat 32 (2 * i)) ++ memory (address + BitVec.ofNat 32 (2 * i + 1))

/-- `memcpy` from `source` of one array to `destination` of another. -/
def memcpy (destination source : Address) (count : Nat) (sources memory : Memory) : Memory :=
  fun other =>
    if (other - destination).toNat < count then sources (source + (other - destination))
    else memory other

structure Computer where
  memory : Memory
  /-- `picoide_bounce`, from its own address 0 on: no buffer of a caller lies in it. -/
  bounce : Memory
  board : Scheduled Board DiskTurn

section Driver

variable {Value : Type}

def onBoard (program : Program (Scheduled Board DiskTurn) Value) : Program Computer Value :=
  Program.within Computer.board (fun board c => { c with board := board }) program

def inMemory (change : Computer → Computer) : Program Computer Unit := fun c => (some (), change c)

def valueOf (value : Computer → Value) : Program Computer Value := fun c => (some (value c), c)

end Driver

def isOdd (buffer : Address) : Bool := buffer &&& 1 != 0

/-- `picoide_read_sector` with its buffer. -/
def picoideReadSector (sector : BitVec 32) (buffer : Address) : Program Computer Nat := do
  let (result, words) ← onBoard (Disks.picoideReadSector port sector)
  if isOdd buffer then do
    inMemory fun c => { c with bounce := storeWords words 0 c.bounce }
    if result = 512 then do
      inMemory fun c => { c with memory := memcpy buffer 0 512 c.bounce c.memory }
      pure result
    else
      pure result
  else do
    inMemory fun c => { c with memory := storeWords words buffer c.memory }
    pure result

/-- `picoide_write_sector` with its buffer. -/
def picoideWriteSector (sector : BitVec 32) (buffer : Address) : Program Computer Nat := do
  if isOdd buffer then do
    inMemory fun c => { c with bounce := memcpy 0 buffer 512 c.memory c.bounce }
    let src ← valueOf fun c => loadWords c.bounce 0
    onBoard (Disks.picoideWriteSector port sector src)
  else do
    let src ← valueOf fun c => loadWords c.memory buffer
    onBoard (Disks.picoideWriteSector port sector src)

end OrionBios.SectorPath
