import OrionBios.PicoIde.Firmware

/-!
# The SD driver and the card behind it

A card stores numbered blocks of 512 bytes and takes their address from the frame of a
command: the number of the block, or on a standard-capacity card the position of its first
byte. One answer holds all that the card sends back during one command.
-/

namespace OrionBios.PicoIde

def CMD9 : Byte := 9
def CMD17 : Byte := 17
def CMD24 : Byte := 24

abbrev Block := Fin 512 → Byte

structure SdCard where
  isSdhc : Bool
  sectors : Nat
  /-- A standard-capacity card has no bytes behind its last address. -/
  reachable : isSdhc = false → sectors ≤ 2 ^ 23
  block : Nat → Block

/-- What the card sends back during one command. -/
structure Answer where
  r1 : Byte
  /-- The data token comes in time. -/
  token : Bool
  /-- The data response to a block. -/
  response : Byte
  /-- The card has programmed the block in time. -/
  ready : Bool
  deriving DecidableEq

structure Sd where
  /-- `g_sd_ready`, and below it `g_sd_is_sdhc`. -/
  ready : Bool
  isSdhc : Bool
  card : SdCard
  agrees : isSdhc = card.isSdhc
  /-- The frames of the commands sent so far, and the blocks that the card read or wrote. -/
  sent : List (List Byte)
  touched : List Nat

/-! ## The card -/

def frameArg (frame : List Byte) : BitVec 32 :=
  frame.getD 1 0 ++ frame.getD 2 0 ++ frame.getD 3 0 ++ frame.getD 4 0

/-- The block that an address names. -/
def SdCard.named (card : SdCard) (arg : BitVec 32) : Option Nat :=
  if card.isSdhc then some arg.toNat
  else if arg.toNat % 512 = 0 then some (arg.toNat / 512)
  else none

/-- A card takes a read or a write only at an address within its capacity. -/
def SdCard.Lawful (card : SdCard) (frame : List Byte) (answer : Answer) : Prop :=
  answer.r1 = 0 → ∃ number < card.sectors, card.named (frameArg frame) = some number

def SdCard.store (card : SdCard) (number : Nat) (block : Block) : SdCard :=
  { card with block := Function.update card.block number block }

/-! ## The driver -/

/-- The frame of `sd_send_command`. -/
def sdFrame (cmd : Byte) (arg : BitVec 32) (crc : Byte) : List Byte :=
  [0x40 ||| cmd, (arg >>> 24).truncate 8, (arg >>> 16).truncate 8, (arg >>> 8).truncate 8,
    arg.truncate 8, crc]

def sdSendCommand (cmd : Byte) (arg : BitVec 32) (crc : Byte) (sd : Sd) : Sd :=
  { sd with sent := sd.sent ++ [sdFrame cmd arg crc] }

def blockAddress (isSdhc : Bool) (lba : BitVec 32) : BitVec 32 :=
  if isSdhc then lba else lba * 512

def yourSdDriverReadBlock (lba : BitVec 32) (answer : Answer) (sd : Sd) : Option Block × Sd :=
  if !sd.ready then (none, sd)
  else
    let arg := blockAddress sd.isSdhc lba
    let sd := sdSendCommand CMD17 arg 0x01 sd
    if answer.r1 ≠ 0 then (none, sd)
    else if !answer.token then (none, sd)
    else
      match sd.card.named (frameArg (sdFrame CMD17 arg 0x01)) with
      | some number =>
        (some (sd.card.block number), { sd with touched := sd.touched ++ [number] })
      | none => (none, sd)

def yourSdDriverWriteBlock (lba : BitVec 32) (src : Block) (answer : Answer) (sd : Sd) :
    Bool × Sd :=
  if !sd.ready then (false, sd)
  else
    let arg := blockAddress sd.isSdhc lba
    let sd := sdSendCommand CMD24 arg 0x01 sd
    if answer.r1 ≠ 0 then (false, sd)
    else if answer.response &&& 0x1F ≠ 0x05 then (false, sd)
    else
      match sd.card.named (frameArg (sdFrame CMD24 arg 0x01)) with
      | some number =>
        (answer.ready,
          { sd with card := sd.card.store number src, touched := sd.touched ++ [number] })
      | none => (false, sd)

/-! ## The card's capacity -/

abbrev Csd := Fin 16 → Byte

scoped instance csdNonzero : NeZero 16 := ⟨by decide⟩

def csdToSectors (csd : Csd) : BitVec 32 :=
  let ver := csd 0 >>> 6
  if ver = 1 then
    let cSize : BitVec 32 := (csd 7 &&& 0x3F).zeroExtend 32 <<< 16 |||
      (csd 8).zeroExtend 32 <<< 8 ||| (csd 9).zeroExtend 32
    (cSize + 1) * 1024
  else if ver = 0 then
    let readBlLen : BitVec 32 := (csd 5).zeroExtend 32 &&& 0x0F
    let cSize : BitVec 32 := (csd 6 &&& 0x03).zeroExtend 32 <<< 10 |||
      (csd 7).zeroExtend 32 <<< 2 ||| (csd 8 >>> 6).zeroExtend 32
    let mult : BitVec 32 := (csd 9 &&& 0x03).zeroExtend 32 <<< 1 ||| (csd 10 >>> 7).zeroExtend 32
    let bytes : BitVec 64 := (cSize + 1).zeroExtend 64 <<< (mult + 2).toNat
    let bytes := bytes <<< readBlLen.toNat
    (bytes / 512).truncate 32
  else 0

/-- `sd_read_sector_count`: 0 unless the card sends its CSD. -/
def sdReadSectorCount (csd : Csd) (answer : Answer) (sd : Sd) : BitVec 32 × Sd :=
  let sd := sdSendCommand CMD9 0 0x01 sd
  if answer.r1 ≠ 0 then (0, sd)
  else if answer.token then (csdToSectors csd, sd)
  else (0, sd)

/-! ## Core 1 with the card -/

/-- The 512 bytes of a staging buffer. -/
def blockOfSector (sector : Sector) : Block := fun i =>
  let word := sector ⟨i.val / 2, by omega⟩
  if i.val % 2 = 0 then lowByte word else highByte word

def sectorOfBlock (block : Block) : Sector := fun i =>
  block ⟨2 * i.val + 1, by omega⟩ ++ block ⟨2 * i.val, by omega⟩

/-- A half of a branch of `ide_interface_task`, with the driver called on the card. -/
def core1OnCard (answer : Answer) (s : Firmware) (sd : Sd) : Firmware × Sd :=
  match s.core1 with
  | .fetching _ lba =>
    match yourSdDriverReadBlock lba answer sd with
    | (some block, sd) =>
      (core1Step true { s with card := Function.update s.card lba (sectorOfBlock block) }, sd)
    | (none, sd) => (core1Step false s, sd)
  | .flushing buffer lba =>
    match yourSdDriverWriteBlock lba (blockOfSector (s.buf buffer)) answer sd with
    | (ok, sd) => (core1Step ok s, sd)
  | .testFetch | .testFlush => (core1Step true s, sd)

end OrionBios.PicoIde
