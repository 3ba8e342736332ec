import OrionBios.PicoIde.Identify

/-!
# The firmware of the emulated IDE disk

The state holds the firmware's variables, its two DMA channels, the two FIFOs of the
data state machine, and the position of core 1 in `ide_interface_task`. The DMA
channels move a word whenever their FIFO allows it, so they are driven to rest after
every step that can set them going. What the card answers is part of the step.
-/

namespace OrionBios.PicoIde

def IDE_STATUS_BSY : Byte := 0x80
def IDE_STATUS_DRDY : Byte := 0x40
def IDE_STATUS_DRQ : Byte := 0x08
def IDE_STATUS_ERR : Byte := 0x01

def IDE_REG_ERROR_FEATURES : BitVec 3 := 1
def IDE_REG_SECTOR_COUNT : BitVec 3 := 2
def IDE_REG_LBA_LOW : BitVec 3 := 3
def IDE_REG_LBA_MID : BitVec 3 := 4
def IDE_REG_LBA_HIGH : BitVec 3 := 5
def IDE_REG_DEVICE_HEAD : BitVec 3 := 6
def IDE_REG_STATUS_CMD : BitVec 3 := 7

def IDE_CMD_READ_SECTORS : Byte := 0x20
def IDE_CMD_WRITE_SECTORS : Byte := 0x30
def IDE_CMD_IDENTIFY : Byte := 0xEC
def IDE_CMD_DIAGNOSTIC : Byte := 0x90
def IDE_CMD_INIT_PARAMS : Byte := 0x91
def IDE_CMD_SET_FEATURES : Byte := 0xEF
def IDE_CMD_FLUSH_CACHE : Byte := 0xE7

inductive Dir where
  | none | read | write
  deriving DecidableEq, Repr

/-- A busy DMA channel: its staging buffer and the next of the 256 words to move. -/
structure Dma where
  buffer : Fin 2
  next : Fin 256
  deriving DecidableEq, Repr

/-- Where core 1 stands: at one of the two tests, or inside a call of the SD driver. -/
inductive Core1 where
  | testFetch
  | fetching (buffer : Fin 2) (lba : BitVec 32)
  | testFlush
  | flushing (buffer : Fin 2) (lba : BitVec 32)
  deriving DecidableEq, Repr

structure Firmware where
  regErrorFeatures : Byte
  regSectorCount : Byte
  regLbaLow : Byte
  regLbaMid : Byte
  regLbaHigh : Byte
  regDeviceHead : Byte
  regStatus : Byte
  dir : Dir
  lba : BitVec 32
  remainingSectors : BitVec 16
  activeBuf : Fin 2
  buf : Fin 2 → Sector
  bufReady : Fin 2 → Bool
  needFetch : Bool
  fetchBuf : Fin 2
  fetchLba : BitVec 32
  needFlush : Bool
  flushBuf : Fin 2
  flushLba : BitVec 32
  sdSectors : BitVec 32
  dmaB : Option Dma
  dmaC : Option Dma
  /-- The pending interrupt of `DMA_B`, and below that of `DMA_C`. -/
  ints0 : Bool
  ints1 : Bool
  dataTx : List Word
  dataRx : List Word
  core1 : Core1
  card : BitVec 32 → Sector

/-! ## Status helpers -/

def setBusy (s : Firmware) : Firmware :=
  { s with regStatus := (s.regStatus ||| IDE_STATUS_BSY) &&& ~~~IDE_STATUS_DRQ }

def setDrq (s : Firmware) : Firmware :=
  { s with regStatus := (s.regStatus ||| IDE_STATUS_DRQ) &&& ~~~IDE_STATUS_BSY }

def setReadyIdle (s : Firmware) : Firmware := { s with regStatus := IDE_STATUS_DRDY }

def resetDataPath (s : Firmware) : Firmware :=
  { s with dmaB := none, dmaC := none, ints0 := false, ints1 := false, dataTx := [], dataRx := [] }

/-! ## The DMA channels -/

/-- `DMA_B` moves one word from its buffer to the TX FIFO, which holds four. -/
def moveB (s : Firmware) : Firmware :=
  match s.dmaB with
  | none => s
  | some dma =>
    if s.dataTx.length < 4 then
      let s := { s with dataTx := s.dataTx ++ [bswap (s.buf dma.buffer dma.next)] }
      if dma.next = 255 then { s with dmaB := none, ints0 := true }
      else { s with dmaB := some { dma with next := dma.next + 1 } }
    else s

/-- `DMA_C` moves one word from the RX FIFO to its buffer. -/
def moveC (s : Firmware) : Firmware :=
  match s.dmaC, s.dataRx with
  | some dma, word :: rest =>
    let sector := Function.update (s.buf dma.buffer) dma.next (bswap word)
    let s := { s with dataRx := rest, buf := Function.update s.buf dma.buffer sector }
    if dma.next = 255 then { s with dmaC := none, ints1 := true }
    else { s with dmaC := some { dma with next := dma.next + 1 } }
  | _, _ => s

/-- A FIFO holds four words, so four moves bring a channel to rest. -/
def pumpB (s : Firmware) : Firmware := moveB (moveB (moveB (moveB s)))

def pumpC (s : Firmware) : Firmware := moveC (moveC (moveC (moveC s)))

def armDmaBFromBuffer (buffer : Fin 2) (s : Firmware) : Firmware :=
  pumpB { s with dmaB := some { buffer := buffer, next := 0 } }

def armDmaCIntoBuffer (buffer : Fin 2) (s : Firmware) : Firmware :=
  pumpC { s with dmaC := some { buffer := buffer, next := 0 } }

/-! ## Commands -/

def currentLbaFromRegs (s : Firmware) : BitVec 32 :=
  (s.regDeviceHead &&& 0x0F).zeroExtend 32 <<< 24 ||| s.regLbaHigh.zeroExtend 32 <<< 16 |||
    s.regLbaMid.zeroExtend 32 <<< 8 ||| s.regLbaLow.zeroExtend 32

def sectorCountFromReg (s : Firmware) : BitVec 16 :=
  if s.regSectorCount = 0 then 256 else s.regSectorCount.zeroExtend 16

def beginReadSequence (s : Firmware) : Firmware :=
  let s := resetDataPath s
  let s := { s with
    dir := .read
    lba := currentLbaFromRegs s
    remainingSectors := sectorCountFromReg s
    activeBuf := 0
    bufReady := fun _ => false }
  let s := setBusy s
  { s with fetchBuf := 0, fetchLba := s.lba, needFetch := true }

def beginWriteSequence (s : Firmware) : Firmware :=
  let s := resetDataPath s
  let s := { s with
    dir := .write
    lba := currentLbaFromRegs s
    remainingSectors := sectorCountFromReg s
    activeBuf := 0
    bufReady := fun _ => false }
  setDrq (armDmaCIntoBuffer 0 s)

/-- The answer to a command that is refused. -/
def abortCommand (s : Firmware) : Firmware :=
  { s with regErrorFeatures := 0x04, regStatus := IDE_STATUS_DRDY ||| IDE_STATUS_ERR }

def beginIdentify (s : Firmware) : Firmware :=
  if s.sdSectors = 0 then abortCommand s
  else
    let s := setBusy (resetDataPath s)
    let s := { s with
      dir := .read
      remainingSectors := 1
      activeBuf := 0
      buf := Function.update s.buf 0 (buildIdentify s.sdSectors)
      bufReady := Function.update (fun _ => false) 0 true }
    setDrq (armDmaBFromBuffer 0 s)

/-- A command that needs no data: it leaves its code in the error register. -/
def finishAtOnce (error : Byte) (s : Firmware) : Firmware :=
  setReadyIdle { resetDataPath s with dir := .none, regErrorFeatures := error }

/-- The commands answered as done: there is nothing to do for them. -/
def isNop (cmd : Byte) : Bool :=
  cmd = IDE_CMD_INIT_PARAMS ∨ cmd = IDE_CMD_SET_FEATURES ∨ cmd = IDE_CMD_FLUSH_CACHE ∨
    (0x10 ≤ cmd ∧ cmd ≤ 0x1F) ∨ cmd = 0xE0 ∨ cmd = 0xE1 ∨ cmd = 0xE2

def dispatchCommand (cmd : Byte) (s : Firmware) : Firmware :=
  let s := { s with regErrorFeatures := 0x00, regStatus := IDE_STATUS_DRDY ||| IDE_STATUS_BSY }
  if cmd = IDE_CMD_READ_SECTORS then beginReadSequence s
  else if cmd = IDE_CMD_WRITE_SECTORS then beginWriteSequence s
  else if cmd = IDE_CMD_IDENTIFY then beginIdentify s
  else if cmd = IDE_CMD_DIAGNOSTIC then finishAtOnce 0x01 s
  else if isNop cmd then finishAtOnce 0x00 s
  else abortCommand s

/-! ## Register accesses -/

/-- The 22 captured pins: the data in the low byte, the register in bits 16 to 18. -/
abbrev Raw := BitVec 32

def rawData (raw : Raw) : Byte := raw.truncate 8

def rawAddr (raw : Raw) : BitVec 3 := (raw >>> 16).truncate 3

/-- The body of the loop of `pio_taskfile_write_irq_handler`. -/
def writeRegister (raw : Raw) (s : Firmware) : Firmware :=
  let data := rawData raw
  if rawAddr raw = IDE_REG_ERROR_FEATURES then { s with regErrorFeatures := data }
  else if rawAddr raw = IDE_REG_SECTOR_COUNT then { s with regSectorCount := data }
  else if rawAddr raw = IDE_REG_LBA_LOW then { s with regLbaLow := data }
  else if rawAddr raw = IDE_REG_LBA_MID then { s with regLbaMid := data }
  else if rawAddr raw = IDE_REG_LBA_HIGH then { s with regLbaHigh := data }
  else if rawAddr raw = IDE_REG_DEVICE_HEAD then { s with regDeviceHead := data }
  else if rawAddr raw = IDE_REG_STATUS_CMD then dispatchCommand data s
  else s

def registerValue (addr : BitVec 3) (s : Firmware) : Byte :=
  if addr = IDE_REG_ERROR_FEATURES then s.regErrorFeatures
  else if addr = IDE_REG_SECTOR_COUNT then s.regSectorCount
  else if addr = IDE_REG_LBA_LOW then s.regLbaLow
  else if addr = IDE_REG_LBA_MID then s.regLbaMid
  else if addr = IDE_REG_LBA_HIGH then s.regLbaHigh
  else if addr = IDE_REG_DEVICE_HEAD then s.regDeviceHead
  else if addr = IDE_REG_STATUS_CMD then s.regStatus
  else 0xFF

/-- The correction before a status read: a sector that `DMA_C` has received entirely
already shows as busy. -/
def statusPatch (s : Firmware) : Firmware :=
  if s.dir = .write ∧ s.regStatus &&& IDE_STATUS_DRQ ≠ 0 ∧ s.dmaC = none then setBusy s else s

/-- The body of the loop of `pio_taskfile_read_irq_handler`. -/
def readRegister (raw : Raw) (s : Firmware) : Byte × Firmware :=
  let s := if rawAddr raw = IDE_REG_STATUS_CMD then statusPatch s else s
  (registerValue (rawAddr raw) s, s)

/-! ## Interrupts of the DMA channels -/

def dmaBIrqHandler (s : Firmware) : Firmware :=
  let s := { s with
    ints0 := false
    bufReady := Function.update s.bufReady s.activeBuf false
    lba := s.lba + 1
    remainingSectors := s.remainingSectors - 1 }
  if s.remainingSectors = 0 then { setReadyIdle s with dir := .none }
  else
    let s := setBusy { s with activeBuf := s.activeBuf + 1 }
    { s with fetchBuf := s.activeBuf, fetchLba := s.lba, needFetch := true }

def dmaCIrqHandler (s : Firmware) : Firmware :=
  let s := setBusy { s with ints1 := false }
  { s with
    bufReady := Function.update s.bufReady 0 true
    flushBuf := 0
    flushLba := s.lba
    needFlush := true }

/-! ## Core 1 -/

/-- The end of the fetch branch, when the SD read has returned. -/
def fetchReturned (buffer : Fin 2) (lba : BitVec 32) (ok : Bool) (s : Firmware) : Firmware :=
  if ok then
    let s := { s with
      buf := Function.update s.buf buffer (s.card lba)
      bufReady := Function.update s.bufReady buffer true }
    if s.dir = .read ∧ s.activeBuf = buffer ∧ s.regStatus &&& IDE_STATUS_BSY ≠ 0 then
      setDrq (armDmaBFromBuffer buffer s)
    else s
  else { abortCommand s with dir := .none }

/-- The end of the flush branch, when the SD write has returned. -/
def flushReturned (buffer : Fin 2) (lba : BitVec 32) (ok : Bool) (s : Firmware) : Firmware :=
  if ok then
    let s := { s with
      card := Function.update s.card lba (s.buf buffer)
      bufReady := Function.update s.bufReady buffer false
      remainingSectors := s.remainingSectors - 1 }
    if s.remainingSectors = 0 then { setReadyIdle s with dir := .none }
    else setDrq (armDmaCIntoBuffer 0 { s with lba := lba + 1 })
  else
    let s := { s with bufReady := Function.update s.bufReady buffer false }
    { abortCommand s with dir := .none }

/-- One half of a branch of `ide_interface_task`, with the answer of the card. -/
def core1Step (ok : Bool) (s : Firmware) : Firmware :=
  match s.core1 with
  | .testFetch =>
    if s.needFetch then { s with needFetch := false, core1 := .fetching s.fetchBuf s.fetchLba }
    else { s with core1 := .testFlush }
  | .fetching buffer lba => { fetchReturned buffer lba ok s with core1 := .testFlush }
  | .testFlush =>
    if s.needFlush then { s with needFlush := false, core1 := .flushing s.flushBuf s.flushLba }
    else { s with core1 := .testFetch }
  | .flushing buffer lba => { flushReturned buffer lba ok s with core1 := .testFetch }

/-! ## Steps beside the register accesses -/

inductive Event where
  /-- The host takes a word from the data register. -/
  | readData
  | writeData (word : Word)
  | dmaBIsr
  | dmaCIsr
  | core1 (ok : Bool)
  deriving DecidableEq, Repr

def eventStep (s : Firmware) : Event → Option Firmware
  | .readData =>
    match s.dataTx with
    | [] => none
    | _ :: rest => some (pumpB { s with dataTx := rest })
  | .writeData word =>
    if s.dataRx.length < 4 then some (pumpC { s with dataRx := s.dataRx ++ [word] }) else none
  | .dmaBIsr => if s.ints0 then some (dmaBIrqHandler s) else none
  | .dmaCIsr => if s.ints1 then some (dmaCIrqHandler s) else none
  | .core1 ok => some (core1Step ok s)

/-- The firmware after `ide_interface_init`. -/
def initialFirmware (sdSectors : BitVec 32) (card : BitVec 32 → Sector) (buf : Fin 2 → Sector) :
    Firmware where
  regErrorFeatures := 0
  regSectorCount := 0
  regLbaLow := 0
  regLbaMid := 0
  regLbaHigh := 0
  regDeviceHead := 0
  regStatus := IDE_STATUS_DRDY
  dir := .none
  lba := 0
  remainingSectors := 0
  activeBuf := 0
  buf := buf
  bufReady := fun _ => false
  needFetch := false
  fetchBuf := 0
  fetchLba := 0
  needFlush := false
  flushBuf := 0
  flushLba := 0
  sdSectors := sdSectors
  dmaB := none
  dmaC := none
  ints0 := false
  ints1 := false
  dataTx := []
  dataRx := []
  core1 := .testFetch
  card := card

end OrionBios.PicoIde
