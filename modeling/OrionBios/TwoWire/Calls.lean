import OrionBios.TwoWire.Clock

/-!
# The calls of the driver

What each call of the driver does with the two chips, when it finds the bus at rest. It leaves the
bus at rest for the next one.
-/

namespace OrionBios.TwoWire

open Machine (Program)

/-- The two chips on the wires. -/
abbrev devices : Party (Engine Clock × Engine Eeprom) := Clock.chip.party.both Eeprom.chip.party

variable {opr inputs : Byte} {k : Clock} {m : Eeprom}

/-! ## Bytes of the memory -/

/-- The place of a byte of the memory, from the address that the driver has for it. -/
def placeOf (addr : BitVec 16) : BitVec 12 := addr.setWidth 12

theorem place_recombined (addr : BitVec 16) (old : BitVec 12) :
    ((addr.extractLsb' 8 8).extractLsb' 0 4 ++ old.extractLsb' 0 8).extractLsb' 8 4 ++
      addr.extractLsb' 0 8 = placeOf addr := by
  unfold placeOf
  apply BitVec.eq_of_getLsbD_eq
  intro i less
  rw [BitVec.getLsbD_append]
  split
  · simp_all
  · rw [BitVec.getLsbD_extractLsb', BitVec.getLsbD_append]
    simp only [BitVec.getLsbD_extractLsb', BitVec.getLsbD_setWidth]
    grind

/-- The memory with an address for what comes next. -/
def Eeprom.pointedAt (m : Eeprom) (addr : BitVec 16) : Eeprom :=
  { m with page := [], address := placeOf addr, addressed := .whole }

theorem eeprom_addressed (opr inputs : Byte) (m : Eeprom) (addr : BitVec 16) (k : Clock)
    (level : Bool) :
    ∃ m' : Eeprom,
      i2cWriteByte devices (addr.extractLsb' 8 8)
          (wires opr inputs false level
            (⟨.off, k⟩, Eeprom.chip.named false (Eeprom.chip.begins m))) =
        (some 0, wires opr inputs false true (⟨.off, k⟩, ⟨.receiving true [], m'⟩)) ∧
      i2cWriteByte devices (addr.extractLsb' 0 8)
          (wires opr inputs false true (⟨.off, k⟩, ⟨.receiving true [], m'⟩)) =
        (some 0, wires opr inputs false true
          (⟨.off, k⟩, ⟨.receiving true [], m.pointedAt addr⟩)) := by
  let m1 : Eeprom := { m with page := [], addressed := .none }
  let m2 : Eeprom := (Eeprom.chip.receive (addr.extractLsb' 8 8) m1).2
  have high : i2cWriteByte devices (addr.extractLsb' 8 8)
      (wires opr inputs false level (⟨.off, k⟩, ⟨.receiving true [], m1⟩)) =
        (some 0, wires opr inputs false true (⟨.off, k⟩, ⟨.receiving true [], m2⟩)) :=
    (speaks_right k).write _ rfl
  have low : i2cWriteByte devices (addr.extractLsb' 0 8)
      (wires opr inputs false true (⟨.off, k⟩, ⟨.receiving true [], m2⟩)) =
        (some 0, wires opr inputs false true (⟨.off, k⟩,
          ⟨.receiving true [], (Eeprom.chip.receive (addr.extractLsb' 0 8) m2).2⟩)) :=
    (speaks_right k).write _ rfl
  have pointed : (Eeprom.chip.receive (addr.extractLsb' 0 8) m2).2 = m.pointedAt addr := by
    unfold Eeprom.pointedAt
    rw [← place_recombined addr m.address]
    rfl
  rw [pointed] at low
  exact ⟨m2, high, low⟩

theorem eeprom_name (reading : Bool) :
    EEPROM_ADDR <<< 1 ||| (if reading then 1 else 0) = addressByte Eeprom.chip.address reading := by
  cases reading <;> decide

theorem clock_name (reading : Bool) :
    DS3231_ADDR <<< 1 ||| (if reading then 1 else 0) = addressByte Clock.chip.address reading := by
  cases reading <;> decide

theorem addresses_differ : Clock.chip.address ≠ Eeprom.chip.address := by
  decide

theorem eeprom_named (answers : Eeprom.chip.answers m = true) (reading : Bool) :
    i2cWriteByte devices (EEPROM_ADDR <<< 1 ||| (if reading then 1 else 0))
        (called opr inputs k (Eeprom.chip.begins m)) =
      (some 0, wires opr inputs false true
        (⟨.off, k⟩, Eeprom.chip.named reading (Eeprom.chip.begins m))) := by
  rw [eeprom_name]
  exact address_right reading answers addresses_differ

theorem eeprom_silent (silent : Eeprom.chip.answers m = false) :
    i2cWriteByte devices (EEPROM_ADDR <<< 1 ||| 0) (called opr inputs k (Eeprom.chip.begins m)) =
      (some 1, wires opr inputs false true (⟨.off, k⟩, ⟨.off, Eeprom.chip.begins m⟩)) := by
  rw [show EEPROM_ADDR <<< 1 ||| 0 = addressByte Eeprom.chip.address false from eeprom_name false]
  exact address_nobody false (.inr (Ne.symm addresses_differ)) (.inl silent)

/-- The memory behind a write of one byte. -/
def Eeprom.written (m : Eeprom) (addr : BitVec 16) (data : Byte) : Eeprom :=
  { m with
    cells := Function.update m.cells (placeOf addr) data
    busy := true
    address := Eeprom.nextInPage (placeOf addr)
    addressed := .whole
    page := [] }

theorem eepromWriteByte_answered (answers : Eeprom.chip.answers m = true) (addr : BitVec 16)
    (data : Byte) :
    eepromWriteByte devices addr data (resting opr inputs k m) =
      (some (), resting opr inputs (Clock.chip.begins k) (m.written addr data)) := by
  obtain ⟨m', high, low⟩ := eeprom_addressed opr inputs m addr (Clock.chip.begins k) true
  have named : i2cWriteByte devices (EEPROM_ADDR <<< 1 ||| 0)
      (called opr inputs (Clock.chip.begins k) (Eeprom.chip.begins m)) =
        (some 0, wires opr inputs false true (⟨.off, Clock.chip.begins k⟩,
          Eeprom.chip.named false (Eeprom.chip.begins m))) := eeprom_named answers false
  let m3 : Eeprom := (Eeprom.chip.receive data (m.pointedAt addr)).2
  have stored : i2cWriteByte devices data (wires opr inputs false true
      (⟨.off, Clock.chip.begins k⟩, ⟨.receiving true [], m.pointedAt addr⟩)) =
        (some 0, wires opr inputs false true
          (⟨.off, Clock.chip.begins k⟩, ⟨.receiving true [], m3⟩)) :=
    (speaks_right _).write data rfl
  have stopped : i2cStop devices (wires opr inputs false true
      (⟨.off, Clock.chip.begins k⟩, ⟨.receiving true [], m3⟩)) =
        (some (), resting opr inputs (Clock.chip.begins k) (m.written addr data)) :=
    stop_passive trivial trivial
  rw [eepromWriteByte, Program.bind_of_returns start_resting, Program.bind_of_returns named,
    if_neg (by decide), Program.bind_of_returns high, Program.bind_of_returns low,
    Program.bind_of_returns stored]
  exact stopped

theorem eepromWriteByte_silent (silent : Eeprom.chip.answers m = false) (addr : BitVec 16)
    (data : Byte) :
    eepromWriteByte devices addr data (resting opr inputs k m) =
      (some (), resting opr inputs (Clock.chip.begins k) (Eeprom.chip.begins m)) := by
  rw [eepromWriteByte, Program.bind_of_returns start_resting,
    Program.bind_of_returns (eeprom_silent silent), if_pos (by decide)]
  exact stop_passive trivial trivial

/-- The memory behind a read of one byte. -/
def Eeprom.read (m : Eeprom) (addr : BitVec 16) : Eeprom :=
  { m with page := [], address := placeOf addr + 1, addressed := .whole }

theorem eepromReadByte_answered (answers : Eeprom.chip.answers m = true) (addr : BitVec 16) :
    eepromReadByte devices addr (resting opr inputs k m) =
      (some (m.cells (placeOf addr)),
        resting opr inputs (Clock.chip.begins k) (m.read addr)) := by
  obtain ⟨m', high, low⟩ := eeprom_addressed opr inputs m addr (Clock.chip.begins k) true
  have named : i2cWriteByte devices (EEPROM_ADDR <<< 1 ||| 0)
      (called opr inputs (Clock.chip.begins k) (Eeprom.chip.begins m)) =
        (some 0, wires opr inputs false true (⟨.off, Clock.chip.begins k⟩,
          Eeprom.chip.named false (Eeprom.chip.begins m))) := eeprom_named answers false
  have again : i2cStart devices (wires opr inputs false true
      (⟨.off, Clock.chip.begins k⟩, ⟨.receiving true [], m.pointedAt addr⟩)) =
        (some (), called opr inputs (Clock.chip.begins k)
          (Eeprom.chip.begins (m.pointedAt addr))) := start_again trivial trivial
  have reading : i2cWriteByte devices (EEPROM_ADDR <<< 1 ||| 1)
      (called opr inputs (Clock.chip.begins k) (Eeprom.chip.begins (m.pointedAt addr))) =
        (some 0, wires opr inputs false true
          (⟨.off, Clock.chip.begins k⟩, Eeprom.chip.sendNext (m.pointedAt addr))) :=
    eeprom_named (m := m.pointedAt addr) answers true
  have read : i2cReadByte devices 0 (wires opr inputs false true
      (⟨.off, Clock.chip.begins k⟩, Eeprom.chip.sendNext (m.pointedAt addr))) =
        (some (m.cells (placeOf addr)), wires opr inputs false true
          (⟨.off, Clock.chip.begins k⟩, ⟨.off, m.read addr⟩)) :=
    (speaks_right _).readLast
  have stopped : i2cStop devices (wires opr inputs false true
      (⟨.off, Clock.chip.begins k⟩, ⟨.off, m.read addr⟩)) =
        (some (), resting opr inputs (Clock.chip.begins k) (m.read addr)) :=
    stop_passive trivial trivial
  rw [eepromReadByte, Program.bind_of_returns start_resting, Program.bind_of_returns named,
    if_neg (by decide), Program.bind_of_returns high, Program.bind_of_returns low,
    Program.bind_of_returns again, Program.bind_of_returns reading, Program.bind_of_returns read,
    Program.bind_of_returns stopped]
  rfl

theorem eepromReadByte_silent (silent : Eeprom.chip.answers m = false) (addr : BitVec 16) :
    eepromReadByte devices addr (resting opr inputs k m) =
      (some 0xFF, resting opr inputs (Clock.chip.begins k) (Eeprom.chip.begins m)) := by
  have stopped : i2cStop devices (wires opr inputs false true
      (⟨.off, Clock.chip.begins k⟩, ⟨.off, Eeprom.chip.begins m⟩)) =
        (some (), resting opr inputs (Clock.chip.begins k) (Eeprom.chip.begins m)) :=
    stop_passive trivial trivial
  rw [eepromReadByte, Program.bind_of_returns start_resting,
    Program.bind_of_returns (eeprom_silent silent), if_pos (by decide),
    Program.bind_of_returns stopped]
  rfl

/-! ## The clock -/

theorem clock_named (present : k.present = true) (reading : Bool) :
    i2cWriteByte devices (DS3231_ADDR <<< 1 ||| (if reading then 1 else 0))
        (called opr inputs (Clock.chip.begins k) m) =
      (some 0, wires opr inputs false true
        (Clock.chip.named reading (Clock.chip.begins k), ⟨.off, m⟩)) := by
  rw [clock_name]
  exact address_left reading present addresses_differ

theorem clock_silent (absent : k.present = false) :
    i2cWriteByte devices (DS3231_ADDR <<< 1 ||| 0) (called opr inputs (Clock.chip.begins k) m) =
      (some 1, wires opr inputs false true (⟨.off, Clock.chip.begins k⟩, ⟨.off, m⟩)) := by
  rw [show DS3231_ADDR <<< 1 ||| 0 = addressByte Clock.chip.address false from clock_name false]
  exact address_nobody false (.inl absent) (.inr addresses_differ)

theorem clock_pointed (opr inputs : Byte) (m : Eeprom) (present : k.present = true)
    (register : Byte) :
    i2cWriteByte devices (DS3231_ADDR <<< 1 ||| 0) (called opr inputs (Clock.chip.begins k) m) =
        (some 0, wires opr inputs false true
          (⟨.receiving true [], { Clock.chip.begins k with pointed := false }⟩, ⟨.off, m⟩)) ∧
      i2cWriteByte devices register (wires opr inputs false true
          (⟨.receiving true [], { Clock.chip.begins k with pointed := false }⟩, ⟨.off, m⟩)) =
        (some 0, wires opr inputs false true
          (⟨.receiving true [], { k with
            buffer := k.registers
            pointer := register
            pointed := true }⟩, ⟨.off, m⟩)) :=
  ⟨clock_named present false, (speaks_left m).write register rfl⟩

theorem clock_register (present : Bool) (registers buffer : Byte → Byte) (pointer byte : Byte) :
    i2cWriteByte devices byte (wires opr inputs false true
        (⟨.receiving true [], ⟨present, registers, buffer, pointer, true⟩⟩, ⟨.off, m⟩)) =
      (some 0, wires opr inputs false true
        (⟨.receiving true [], ⟨present, Function.update registers pointer byte, buffer,
          Clock.next pointer, true⟩⟩, ⟨.off, m⟩)) :=
  (speaks_left m).write byte rfl

def timeSet (t : RtcTime) (registers : Byte → Byte) : Byte → Byte :=
  let registers := Function.update registers 0 (bin2bcd t.sec)
  let registers := Function.update registers 1 (bin2bcd t.min)
  let registers := Function.update registers 2 (bin2bcd t.hour)
  let registers := Function.update registers 3 0x01
  let registers := Function.update registers 4 (bin2bcd t.mday)
  let registers := Function.update registers 5 (bin2bcd t.mon)
  Function.update registers 6 (bin2bcd t.year)

theorem ds3231SetTime_present (present : k.present = true) (t : RtcTime) :
    ds3231SetTime devices (some t) (resting opr inputs k m) =
      (some (), resting opr inputs
        ⟨k.present, timeSet t k.registers, k.registers, 7, true⟩ (Eeprom.chip.begins m)) := by
  obtain ⟨named, pointed⟩ := clock_pointed opr inputs (Eeprom.chip.begins m) present 0x00
  have stopped : i2cStop devices (wires opr inputs false true
      (⟨.receiving true [], ⟨k.present, timeSet t k.registers, k.registers, 7, true⟩⟩,
        ⟨.off, Eeprom.chip.begins m⟩)) =
        (some (), resting opr inputs
          ⟨k.present, timeSet t k.registers, k.registers, 7, true⟩ (Eeprom.chip.begins m)) :=
    stop_passive trivial trivial
  rw [ds3231SetTime, Program.bind_of_returns start_resting, Program.bind_of_returns named,
    if_neg (by decide),
    Program.bind_of_returns pointed, Program.bind_of_returns (clock_register _ _ _ _ _),
    Program.bind_of_returns (clock_register _ _ _ _ _),
    Program.bind_of_returns (clock_register _ _ _ _ _),
    Program.bind_of_returns (clock_register _ _ _ _ _),
    Program.bind_of_returns (clock_register _ _ _ _ _),
    Program.bind_of_returns (clock_register _ _ _ _ _),
    Program.bind_of_returns (clock_register _ _ _ _ _)]
  exact stopped

theorem ds3231SetTime_absent (absent : k.present = false) (t : RtcTime) :
    ds3231SetTime devices (some t) (resting opr inputs k m) =
      (some (), resting opr inputs (Clock.chip.begins k) (Eeprom.chip.begins m)) := by
  rw [ds3231SetTime, Program.bind_of_returns start_resting,
    Program.bind_of_returns (clock_silent absent), if_pos (by decide)]
  exact stop_passive trivial trivial

theorem clock_read (present : Bool) (registers : Byte → Byte) (pointer : Byte) :
    i2cReadByte devices 1 (wires opr inputs false true
        (Clock.chip.sendNext ⟨present, registers, registers, pointer, true⟩, ⟨.off, m⟩)) =
      (some (registers pointer), wires opr inputs false true
        (Clock.chip.sendNext ⟨present, registers, registers, Clock.next pointer, true⟩,
          ⟨.off, m⟩)) := by
  let k' : Clock := ⟨present, registers, registers, pointer, true⟩
  have read : i2cReadByte devices 1 (wires opr inputs false true
      (Clock.chip.sendNext k', ⟨.off, m⟩)) =
        (some (Clock.chip.send k').1, wires opr inputs false true
          (Clock.chip.sendNext (Clock.chip.send k').2, ⟨.off, m⟩)) :=
    (speaks_left m).read (by decide)
  have sent : Clock.chip.send k' =
      (registers pointer, ⟨present, registers, registers, Clock.next pointer, true⟩) := by
    unfold k' Clock.chip
    dsimp only
    rw [ite_self]
  rw [sent] at read
  exact read

theorem clock_readLast (present : Bool) (registers : Byte → Byte) (pointer : Byte) :
    i2cReadByte devices 0 (wires opr inputs false true
        (Clock.chip.sendNext ⟨present, registers, registers, pointer, true⟩, ⟨.off, m⟩)) =
      (some (registers pointer), wires opr inputs false true
        (⟨.off, ⟨present, registers, registers, Clock.next pointer, true⟩⟩, ⟨.off, m⟩)) := by
  let k' : Clock := ⟨present, registers, registers, pointer, true⟩
  have read : i2cReadByte devices 0 (wires opr inputs false true
      (Clock.chip.sendNext k', ⟨.off, m⟩)) =
        (some (Clock.chip.send k').1, wires opr inputs false true
          (⟨.off, (Clock.chip.send k').2⟩, ⟨.off, m⟩)) :=
    (speaks_left m).readLast
  have sent : Clock.chip.send k' =
      (registers pointer, ⟨present, registers, registers, Clock.next pointer, true⟩) := by
    unfold k' Clock.chip
    dsimp only
    rw [ite_self]
  rw [sent] at read
  exact read

def timeOf (registers : Byte → Byte) : RtcTime where
  sec := bcd2bin (registers 0 &&& 0x7F)
  min := bcd2bin (registers 1)
  hour := bcd2bin (registers 2 &&& 0x3F)
  mday := bcd2bin (registers 4)
  mon := bcd2bin (registers 5 &&& 0x1F)
  year := bcd2bin (registers 6)

theorem ds3231ReadTime_present (present : k.present = true) (t : RtcTime) :
    ds3231ReadTime devices (some t) (resting opr inputs k m) =
      (some (0, some (timeOf k.registers)), resting opr inputs
        ⟨k.present, k.registers, k.registers, 7, true⟩ (Eeprom.chip.begins m)) := by
  obtain ⟨named, pointed⟩ := clock_pointed opr inputs (Eeprom.chip.begins m) present 0x00
  let k' : Clock := ⟨k.present, k.registers, k.registers, 0, true⟩
  have again : i2cStart devices (wires opr inputs false true
      (⟨.receiving true [], k'⟩, ⟨.off, Eeprom.chip.begins m⟩)) =
        (some (), called opr inputs (Clock.chip.begins k') (Eeprom.chip.begins m)) :=
    start_again trivial trivial
  have reading : i2cWriteByte devices (DS3231_ADDR <<< 1 ||| 1)
      (called opr inputs (Clock.chip.begins k') (Eeprom.chip.begins m)) =
        (some 0, wires opr inputs false true
          (Clock.chip.sendNext k', ⟨.off, Eeprom.chip.begins m⟩)) :=
    clock_named (k := k') present true
  have stopped : i2cStop devices (wires opr inputs false true
      (⟨.off, ⟨k.present, k.registers, k.registers, 7, true⟩⟩, ⟨.off, Eeprom.chip.begins m⟩)) =
        (some (), resting opr inputs
          ⟨k.present, k.registers, k.registers, 7, true⟩ (Eeprom.chip.begins m)) :=
    stop_passive trivial trivial
  rw [ds3231ReadTime, Program.bind_of_returns start_resting, Program.bind_of_returns named,
    if_neg (by decide), Program.bind_of_returns pointed, Program.bind_of_returns again,
    Program.bind_of_returns reading, Program.bind_of_returns (clock_read _ _ _),
    Program.bind_of_returns (clock_read _ _ _), Program.bind_of_returns (clock_read _ _ _),
    Program.bind_of_returns (clock_read _ _ _), Program.bind_of_returns (clock_read _ _ _),
    Program.bind_of_returns (clock_read _ _ _), Program.bind_of_returns (clock_readLast _ _ _)]
  exact Program.bind_of_returns stopped

theorem ds3231ReadTime_absent (absent : k.present = false) (t : RtcTime) :
    ds3231ReadTime devices (some t) (resting opr inputs k m) =
      (some (1, some t), resting opr inputs (Clock.chip.begins k) (Eeprom.chip.begins m)) := by
  have stopped : i2cStop devices (wires opr inputs false true
      (⟨.off, Clock.chip.begins k⟩, ⟨.off, Eeprom.chip.begins m⟩)) =
        (some (), resting opr inputs (Clock.chip.begins k) (Eeprom.chip.begins m)) :=
    stop_passive trivial trivial
  rw [ds3231ReadTime, Program.bind_of_returns start_resting,
    Program.bind_of_returns (clock_silent absent), if_pos (by decide)]
  exact Program.bind_of_returns stopped

def found (k : Clock) : Byte := if k.present then 1 else 0

theorem ds3231Probe_resting :
    ds3231Probe devices (resting opr inputs k m) =
      (some (found k), resting opr inputs
        (if k.present then { Clock.chip.begins k with pointed := false } else Clock.chip.begins k)
        (Eeprom.chip.begins m)) := by
  unfold found
  cases present : k.present with
  | true =>
      obtain ⟨named, _⟩ := clock_pointed opr inputs (Eeprom.chip.begins m) present 0x00
      have stopped : i2cStop devices (wires opr inputs false true
          (⟨.receiving true [], { Clock.chip.begins k with pointed := false }⟩,
            ⟨.off, Eeprom.chip.begins m⟩)) =
            (some (), resting opr inputs { Clock.chip.begins k with pointed := false }
              (Eeprom.chip.begins m)) := stop_passive trivial trivial
      rw [ds3231Probe, Program.bind_of_returns start_resting, Program.bind_of_returns named]
      exact Program.bind_of_returns stopped
  | false =>
      have stopped : i2cStop devices (wires opr inputs false true
          (⟨.off, Clock.chip.begins k⟩, ⟨.off, Eeprom.chip.begins m⟩)) =
            (some (), resting opr inputs (Clock.chip.begins k) (Eeprom.chip.begins m)) :=
        stop_passive trivial trivial
      rw [ds3231Probe, Program.bind_of_returns start_resting,
        Program.bind_of_returns (clock_silent present)]
      exact Program.bind_of_returns stopped

/-- The clock behind `rtc_init`: its oscillator runs from the battery. -/
theorem rtcInit_present (present : k.present = true) :
    rtcInit devices (resting opr inputs k m) =
      (some 1, resting opr inputs
        ⟨k.present, Function.update k.registers 0x0E 0x00, k.registers, 0x0F, true⟩
        (Eeprom.chip.begins m)) := by
  let k1 : Clock := { Clock.chip.begins k with pointed := false }
  have probed : ds3231Probe devices (resting opr inputs k m) =
      (some 1, resting opr inputs k1 (Eeprom.chip.begins m)) := by
    rw [ds3231Probe_resting, found, if_pos present, if_pos present]
  obtain ⟨named, pointed⟩ := clock_pointed (k := k1) opr inputs (Eeprom.chip.begins m) present
    0x0E
  have stopped : i2cStop devices (wires opr inputs false true
      (⟨.receiving true [], ⟨k.present, Function.update k.registers 0x0E 0x00, k.registers, 0x0F,
        true⟩⟩, ⟨.off, Eeprom.chip.begins m⟩)) =
        (some (), resting opr inputs
          ⟨k.present, Function.update k.registers 0x0E 0x00, k.registers, 0x0F, true⟩
          (Eeprom.chip.begins m)) := stop_passive trivial trivial
  have started : i2cStart devices (resting opr inputs k1 (Eeprom.chip.begins m)) =
      (some (), called opr inputs (Clock.chip.begins k1) (Eeprom.chip.begins m)) := start_resting
  have high : sclHigh devices (resting opr inputs k m) = (some (), resting opr inputs k m) :=
    sclHigh_high
  have released : sdaHigh devices (resting opr inputs k m) = (some (), resting opr inputs k m) :=
    sdaHigh_still
  rw [rtcInit, Program.bind_of_returns high, Program.bind_of_returns released,
    Program.bind_of_returns probed, if_neg (by decide), Program.bind_of_returns started,
    Program.bind_of_returns named, if_pos rfl, Program.bind_of_returns pointed,
    Program.bind_of_returns (clock_register _ _ _ _ _)]
  exact Program.bind_of_returns stopped

theorem rtcInit_absent (absent : k.present = false) :
    rtcInit devices (resting opr inputs k m) =
      (some 0, resting opr inputs (Clock.chip.begins k) (Eeprom.chip.begins m)) := by
  have silent : ¬ k.present = true := by
    rw [absent]
    exact Bool.false_ne_true
  have probed : ds3231Probe devices (resting opr inputs k m) =
      (some 0, resting opr inputs (Clock.chip.begins k) (Eeprom.chip.begins m)) := by
    rw [ds3231Probe_resting, found, if_neg silent, if_neg silent]
  have high : sclHigh devices (resting opr inputs k m) = (some (), resting opr inputs k m) :=
    sclHigh_high
  have released : sdaHigh devices (resting opr inputs k m) = (some (), resting opr inputs k m) :=
    sdaHigh_still
  rw [rtcInit, Program.bind_of_returns high, Program.bind_of_returns released,
    Program.bind_of_returns probed, if_pos rfl]
  rfl

end OrionBios.TwoWire
