import Mathlib.Logic.Function.Basic
import OrionBios.TwoWire.Master

/-!
# The clock and the memory

The driver of the DS3231 and of the AT24C32 on one bus, and the two chips as their registers and
cells answer to whole bytes.
-/

namespace OrionBios.TwoWire

open Machine (Program)

/-! ## The chips -/

/-- The DS3231. -/
structure Clock where
  present : Bool
  registers : Byte → Byte
  /-- What is read, so that the time does not change in the middle of a transfer. -/
  buffer : Byte → Byte
  pointer : Byte
  /-- The first byte that is written names a register. -/
  pointed : Bool

namespace Clock

/-- Behind the last register comes the first one. -/
def next (pointer : Byte) : Byte := if pointer = 0x12 then 0 else pointer + 1

def chip : Chip Clock where
  address := 0x68
  answers := present
  begins k := { k with buffer := k.registers }
  addressed reading k := if reading then k else { k with pointed := false }
  receive byte k :=
    if k.pointed then
      (true, { k with
        registers := Function.update k.registers k.pointer byte
        pointer := next k.pointer })
    else (true, { k with pointer := byte, pointed := true })
  send k :=
    (k.buffer k.pointer, { k with
      pointer := next k.pointer
      buffer := if next k.pointer = 0 then k.registers else k.buffer })
  ends k := k

end Clock

/-- How many bytes of the address the memory has. -/
inductive Addressed where
  | none
  | high
  | whole
  deriving DecidableEq, Repr

/-- The AT24C32. -/
structure Eeprom where
  present : Bool
  cells : BitVec 12 → Byte
  /-- The cells are being written, and the chip does not answer. -/
  busy : Bool
  address : BitVec 12
  addressed : Addressed
  /-- The bytes that the cells get when the transfer stops. -/
  page : List (BitVec 12 × Byte)

namespace Eeprom

/-- The address stays in its page of 32 bytes. -/
def nextInPage (address : BitVec 12) : BitVec 12 :=
  address.extractLsb' 5 7 ++ (address.extractLsb' 0 5 + 1)

def store (cells : BitVec 12 → Byte) (page : List (BitVec 12 × Byte)) : BitVec 12 → Byte :=
  page.foldl (fun cells write => Function.update cells write.1 write.2) cells

def chip : Chip Eeprom where
  address := 0x50
  answers m := m.present && !m.busy
  begins m := { m with page := [] }
  addressed reading m := if reading then m else { m with addressed := .none }
  receive byte m :=
    match m.addressed with
    | .none =>
      (true, { m with
        address := byte.extractLsb' 0 4 ++ m.address.extractLsb' 0 8
        addressed := .high })
    | .high =>
      (true, { m with address := m.address.extractLsb' 8 4 ++ byte, addressed := .whole })
    | .whole =>
      (true, { m with
        page := m.page ++ [(m.address, byte)]
        address := nextInPage m.address })
  send m := (m.cells m.address, { m with address := m.address + 1 })
  ends m :=
    if m.page = [] then m
    else { m with cells := store m.cells m.page, busy := true, page := [] }

end Eeprom

/-! ## The driver -/

def DS3231_ADDR : Byte := 0x68

def EEPROM_ADDR : Byte := 0x50

def bcd2bin (val : Byte) : Byte := (val >>> 4) * 10 + (val &&& 0x0F)

def bin2bcd (val : Byte) : Byte := ((val / 10) <<< 4) ||| (val % 10)

structure RtcTime where
  sec : Byte
  min : Byte
  hour : Byte
  mday : Byte
  mon : Byte
  year : Byte
  deriving DecidableEq, Repr

section Driver

variable {State : Type} (p : Party State)

/-- `ds3231_read_time`: its code, and what `t` points at then. -/
def ds3231ReadTime (t : Option RtcTime) : Program (Bus State) (Byte × Option RtcTime) :=
  match t with
  | none => pure (1, none)
  | some t => do
    i2cStart p
    let nack ← i2cWriteByte p (DS3231_ADDR <<< 1 ||| 0)
    if nack ≠ 0 then do
      i2cStop p
      pure (1, some t)
    else do
      let _ ← i2cWriteByte p 0x00
      i2cStart p
      let _ ← i2cWriteByte p (DS3231_ADDR <<< 1 ||| 1)
      let sec ← i2cReadByte p 1
      let min ← i2cReadByte p 1
      let hour ← i2cReadByte p 1
      -- the day of the week
      let _ ← i2cReadByte p 1
      let mday ← i2cReadByte p 1
      let mon ← i2cReadByte p 1
      let year ← i2cReadByte p 0
      i2cStop p
      pure (0, some
        { sec := bcd2bin (sec &&& 0x7F)
          min := bcd2bin min
          hour := bcd2bin (hour &&& 0x3F)
          mday := bcd2bin mday
          mon := bcd2bin (mon &&& 0x1F)
          year := bcd2bin year })

def ds3231SetTime (t : Option RtcTime) : Program (Bus State) Unit :=
  match t with
  | none => pure ()
  | some t => do
    i2cStart p
    let nack ← i2cWriteByte p (DS3231_ADDR <<< 1 ||| 0)
    if nack ≠ 0 then i2cStop p
    else do
      let _ ← i2cWriteByte p 0x00
      let _ ← i2cWriteByte p (bin2bcd t.sec)
      let _ ← i2cWriteByte p (bin2bcd t.min)
      let _ ← i2cWriteByte p (bin2bcd t.hour)
      let _ ← i2cWriteByte p 0x01
      let _ ← i2cWriteByte p (bin2bcd t.mday)
      let _ ← i2cWriteByte p (bin2bcd t.mon)
      let _ ← i2cWriteByte p (bin2bcd t.year)
      i2cStop p

def eepromWriteByte (addr : BitVec 16) (data : Byte) : Program (Bus State) Unit := do
  i2cStart p
  let nack ← i2cWriteByte p (EEPROM_ADDR <<< 1 ||| 0)
  if nack ≠ 0 then i2cStop p
  else do
    let _ ← i2cWriteByte p (addr.extractLsb' 8 8)
    let _ ← i2cWriteByte p (addr.extractLsb' 0 8)
    let _ ← i2cWriteByte p data
    i2cStop p

def eepromReadByte (addr : BitVec 16) : Program (Bus State) Byte := do
  i2cStart p
  let nack ← i2cWriteByte p (EEPROM_ADDR <<< 1 ||| 0)
  if nack ≠ 0 then do
    i2cStop p
    pure 0xFF
  else do
    let _ ← i2cWriteByte p (addr.extractLsb' 8 8)
    let _ ← i2cWriteByte p (addr.extractLsb' 0 8)
    i2cStart p
    let _ ← i2cWriteByte p (EEPROM_ADDR <<< 1 ||| 1)
    let val ← i2cReadByte p 0
    i2cStop p
    pure val

def ds3231Probe : Program (Bus State) Byte := do
  i2cStart p
  let ack ← i2cWriteByte p (DS3231_ADDR <<< 1 ||| 0)
  i2cStop p
  pure (if ack = 0 then 1 else 0)

def rtcInit : Program (Bus State) Byte := do
  sclHigh p
  sdaHigh p
  let found ← ds3231Probe p
  if found = 0 then pure 0
  else do
    i2cStart p
    let nack ← i2cWriteByte p (DS3231_ADDR <<< 1 ||| 0)
    if nack = 0 then do
      let _ ← i2cWriteByte p 0x0E
      let _ ← i2cWriteByte p 0x00
      i2cStop p
      pure 1
    else do
      i2cStop p
      pure 1

end Driver

end OrionBios.TwoWire
