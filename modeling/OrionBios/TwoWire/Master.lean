import OrionBios.Machine.Program
import OrionBios.TwoWire.Parties

/-!
# The bus in the hands of the 68k

The driver moves the wires through two bits of the DUART's output port, and looks at the data wire
through one of its input port. It changes the data wire while the clock is low, so that no party
takes a bit for a condition.
-/

namespace OrionBios.TwoWire

open Machine (Program)

universe u

variable {State : Type}

def SCL_BIT : Byte := 0x20

def SDA_OUT_BIT : Byte := 0x80

def SDA_IN_BIT : Byte := 0x01

/-- The DUART with the parties on its wires. -/
structure Bus (State : Type) where
  /-- The output port register. The pins are its complement. -/
  opr : Byte
  /-- The pins of the input port beside the data wire. -/
  inputs : Byte
  party : State

def sclPin (opr : Byte) : Bool := opr &&& SCL_BIT == 0

def sdaPin (opr : Byte) : Bool := opr &&& SDA_OUT_BIT == 0

section Driver

variable (p : Party State)

/-- The level of the data wire. -/
def Bus.sda (b : Bus State) : Bool := sdaPin b.opr && p.drives b.party

/-- The output port changes, and the parties see what that does to the wires. -/
def Bus.output (opr : Byte) (b : Bus State) : Bus State :=
  let next : Bus State := { b with opr := opr }
  match sclPin b.opr, sclPin opr with
  | false, false => next
  | false, true => { next with party := p.rise (next.sda p) b.party }
  | true, false => { next with party := p.fall b.party }
  | true, true =>
    match b.sda p, next.sda p with
    | true, false => { next with party := p.start b.party }
    | false, true => { next with party := p.stop b.party }
    | _, _ => next

/-- A write to `DUART_SOPR`. -/
def writeSopr (bits : Byte) : Program (Bus State) Unit := fun b =>
  (some (), b.output p (b.opr ||| bits))

/-- A write to `DUART_ROPR`. -/
def writeRopr (bits : Byte) : Program (Bus State) Unit := fun b =>
  (some (), b.output p (b.opr &&& ~~~bits))

def readIpr : Program (Bus State) Byte := fun b =>
  (some (if b.sda p then b.inputs ||| SDA_IN_BIT else b.inputs &&& ~~~SDA_IN_BIT), b)

def sclHigh : Program (Bus State) Unit := writeRopr p SCL_BIT

def sclLow : Program (Bus State) Unit := writeSopr p SCL_BIT

def sdaHigh : Program (Bus State) Unit := writeRopr p SDA_OUT_BIT

def sdaLow : Program (Bus State) Unit := writeSopr p SDA_OUT_BIT

def sdaRead : Program (Bus State) Byte := do
  let ipr ← readIpr p
  pure (if ipr &&& SDA_IN_BIT ≠ 0 then 1 else 0)

def i2cStart : Program (Bus State) Unit := do
  sdaHigh p
  sclHigh p
  sdaLow p
  sclLow p

def i2cStop : Program (Bus State) Unit := do
  sdaLow p
  sclHigh p
  sdaHigh p

/-- The rounds of `i2c_write_byte`. -/
def writeBits : Nat → Byte → Program (Bus State) Unit
  | 0, _ => pure ()
  | rounds + 1, data => do
    let drive := if data &&& 0x80 ≠ 0 then sdaHigh p else sdaLow p
    drive
    sclHigh p
    sclLow p
    writeBits rounds (data <<< 1)

def i2cWriteByte (data : Byte) : Program (Bus State) Byte := do
  writeBits p 8 data
  sdaHigh p
  sclHigh p
  let ack ← sdaRead p
  sclLow p
  pure ack

/-- The rounds of `i2c_read_byte`. -/
def readBits : Nat → Byte → Program (Bus State) Byte
  | 0, data => pure data
  | rounds + 1, data => do
    sclHigh p
    let bit ← sdaRead p
    sclLow p
    readBits rounds (data <<< 1 ||| if bit ≠ 0 then 1 else 0)

def i2cReadByte (ack : Byte) : Program (Bus State) Byte := do
  sdaHigh p
  let data ← readBits p 8 0
  let drive := if ack ≠ 0 then sdaLow p else sdaHigh p
  drive
  sclHigh p
  sclLow p
  sdaHigh p
  pure data

end Driver

/-! ## The output port -/

/-- The output port with the two wires at their levels. -/
def withWires (opr : Byte) (clock data : Bool) : Byte :=
  (opr &&& ~~~(SCL_BIT ||| SDA_OUT_BIT)) ||| (if clock then 0 else SCL_BIT) |||
    if data then 0 else SDA_OUT_BIT

/-- The bus with the wires at their levels, whatever the other pins are. -/
def wires (opr inputs : Byte) (clock data : Bool) (s : State) : Bus State where
  opr := withWires opr clock data
  inputs := inputs
  party := s

variable {p : Party State} {opr inputs : Byte} {clock data : Bool} {s : State}

theorem sclPin_withWires : sclPin (withWires opr clock data) = clock := by
  cases clock <;> cases data <;> revert opr <;> decide

theorem sdaPin_withWires : sdaPin (withWires opr clock data) = data := by
  cases clock <;> cases data <;> revert opr <;> decide

theorem set_scl : withWires opr clock data ||| SCL_BIT = withWires opr false data := by
  cases clock <;> cases data <;> revert opr <;> decide

theorem reset_scl : withWires opr clock data &&& ~~~SCL_BIT = withWires opr true data := by
  cases clock <;> cases data <;> revert opr <;> decide

theorem set_sda : withWires opr clock data ||| SDA_OUT_BIT = withWires opr clock false := by
  cases clock <;> cases data <;> revert opr <;> decide

theorem reset_sda : withWires opr clock data &&& ~~~SDA_OUT_BIT = withWires opr clock true := by
  cases clock <;> cases data <;> revert opr <;> decide

/-! ## Single wires -/

theorem sda_wires : (wires opr inputs clock data s).sda p = (data && p.drives s) := by
  unfold Bus.sda wires
  rw [sdaPin_withWires]

theorem sclHigh_low : sclHigh p (wires opr inputs false data s) =
    (some (), wires opr inputs true data (p.rise (data && p.drives s) s)) := by
  have raised : (wires opr inputs false data s).opr &&& ~~~SCL_BIT = withWires opr true data :=
    reset_scl
  unfold sclHigh writeRopr Bus.output
  rw [raised, show sclPin (wires opr inputs false data s).opr = false from sclPin_withWires,
    sclPin_withWires]
  dsimp only
  rw [show ({ wires opr inputs false data s with
      opr := withWires opr true data } : Bus State).sda p = (data && p.drives s) from sda_wires]
  rfl

theorem sclHigh_high : sclHigh p (wires opr inputs true data s) =
    (some (), wires opr inputs true data s) := by
  have raised : (wires opr inputs true data s).opr &&& ~~~SCL_BIT = withWires opr true data :=
    reset_scl
  unfold sclHigh writeRopr Bus.output
  rw [raised, show sclPin (wires opr inputs true data s).opr = true from sclPin_withWires,
    sclPin_withWires]
  dsimp only
  rw [show ({ wires opr inputs true data s with
      opr := withWires opr true data } : Bus State).sda p =
    (wires opr inputs true data s).sda p from rfl]
  cases (wires opr inputs true data s).sda p <;> rfl

theorem sclLow_high : sclLow p (wires opr inputs true data s) =
    (some (), wires opr inputs false data (p.fall s)) := by
  have lowered : (wires opr inputs true data s).opr ||| SCL_BIT = withWires opr false data :=
    set_scl
  unfold sclLow writeSopr Bus.output
  rw [lowered, show sclPin (wires opr inputs true data s).opr = true from sclPin_withWires,
    sclPin_withWires]
  rfl

theorem sdaHigh_low : sdaHigh p (wires opr inputs false data s) =
    (some (), wires opr inputs false true s) := by
  have released : (wires opr inputs false data s).opr &&& ~~~SDA_OUT_BIT =
      withWires opr false true := reset_sda
  unfold sdaHigh writeRopr Bus.output
  rw [released, show sclPin (wires opr inputs false data s).opr = false from sclPin_withWires,
    sclPin_withWires]
  rfl

theorem sdaLow_low : sdaLow p (wires opr inputs false data s) =
    (some (), wires opr inputs false false s) := by
  have pulled : (wires opr inputs false data s).opr ||| SDA_OUT_BIT = withWires opr false false :=
    set_sda
  unfold sdaLow writeSopr Bus.output
  rw [pulled, show sclPin (wires opr inputs false data s).opr = false from sclPin_withWires,
    sclPin_withWires]
  rfl

theorem sdaLow_high (free : p.drives s = true) : sdaLow p (wires opr inputs true true s) =
    (some (), wires opr inputs true false (p.start s)) := by
  have pulled : (wires opr inputs true true s).opr ||| SDA_OUT_BIT = withWires opr true false :=
    set_sda
  unfold sdaLow writeSopr Bus.output
  rw [pulled, show sclPin (wires opr inputs true true s).opr = true from sclPin_withWires,
    sclPin_withWires]
  dsimp only
  rw [sda_wires, free,
    show ({ wires opr inputs true true s with opr := withWires opr true false } : Bus State).sda p =
      (false && p.drives s) from sda_wires]
  rfl

theorem sdaHigh_high (free : p.drives s = true) : sdaHigh p (wires opr inputs true false s) =
    (some (), wires opr inputs true true (p.stop s)) := by
  have released : (wires opr inputs true false s).opr &&& ~~~SDA_OUT_BIT =
      withWires opr true true := reset_sda
  unfold sdaHigh writeRopr Bus.output
  rw [released, show sclPin (wires opr inputs true false s).opr = true from sclPin_withWires,
    sclPin_withWires]
  dsimp only
  rw [sda_wires, show ({ wires opr inputs true false s with
      opr := withWires opr true true } : Bus State).sda p =
    (true && p.drives s) from sda_wires, free]
  rfl

theorem sdaHigh_still : sdaHigh p (wires opr inputs true true s) =
    (some (), wires opr inputs true true s) := by
  have released : (wires opr inputs true true s).opr &&& ~~~SDA_OUT_BIT = withWires opr true true :=
    reset_sda
  unfold sdaHigh writeRopr Bus.output
  rw [released, show sclPin (wires opr inputs true true s).opr = true from sclPin_withWires,
    sclPin_withWires]
  dsimp only
  rw [show ({ wires opr inputs true true s with
      opr := withWires opr true true } : Bus State).sda p =
    (wires opr inputs true true s).sda p from rfl]
  cases (wires opr inputs true true s).sda p <;> rfl

theorem sdaRead_wires : sdaRead p (wires opr inputs clock data s) =
    (some (if data && p.drives s then 1 else 0), wires opr inputs clock data s) := by
  have set : ∀ pins : Byte, (pins ||| SDA_IN_BIT) &&& SDA_IN_BIT ≠ 0 := by decide
  have reset : ∀ pins : Byte, (pins &&& ~~~SDA_IN_BIT) &&& SDA_IN_BIT = 0 := by decide
  have read : readIpr p (wires opr inputs clock data s) =
      (some (if data && p.drives s then inputs ||| SDA_IN_BIT else inputs &&& ~~~SDA_IN_BIT),
        wires opr inputs clock data s) := by
    unfold readIpr
    rw [sda_wires]
    rfl
  unfold sdaRead
  rw [Program.bind_of_returns read]
  cases data && p.drives s with
  | true =>
      rw [if_pos rfl, if_pos (set inputs), if_pos rfl]
      rfl
  | false =>
      rw [if_neg Bool.false_ne_true, if_neg (not_not.mpr (reset inputs)),
        if_neg Bool.false_ne_true]
      rfl

/-! ## Bytes -/

def topBits : Nat → Byte → List Bool
  | 0, _ => []
  | rounds + 1, data => data.getLsbD 7 :: topBits rounds (data <<< 1)

theorem topBits_eight (data : Byte) : topBits 8 data = bitsOf data := by
  simp [topBits, bitsOf, List.range, List.range.loop]

theorem topBit (data : Byte) : data &&& 0x80 ≠ 0 ↔ data.getLsbD 7 = true := by
  revert data
  decide

theorem writeBits_wires (rounds : Nat) (data : Byte) (level : Bool) :
    ∃ level', writeBits p rounds data (wires opr inputs false level s) =
      (some (), wires opr inputs false level' (p.cycles (topBits rounds data) s)) := by
  induction rounds generalizing data level s with
  | zero => exact ⟨level, rfl⟩
  | succ rounds inductionHypothesis =>
      have set : (if data &&& 0x80 ≠ 0 then sdaHigh p else sdaLow p)
          (wires opr inputs false level s) =
            (some (), wires opr inputs false (data.getLsbD 7) s) := by
        by_cases one : data &&& 0x80 ≠ 0
        · rw [if_pos one, (topBit data).mp one]
          exact sdaHigh_low
        · rw [if_neg one, Bool.eq_false_of_not_eq_true (mt (topBit data).mpr one)]
          exact sdaLow_low
      obtain ⟨level', rest⟩ := inductionHypothesis (data <<< 1) (data.getLsbD 7)
        (s := p.cycle (data.getLsbD 7) s)
      refine ⟨level', ?_⟩
      rw [writeBits, Program.bind_of_returns set, Program.bind_of_returns sclHigh_low,
        Program.bind_of_returns sclLow_high]
      exact rest

/-- What `i2c_write_byte` does: a period of the clock for each bit, and one for the answer. -/
theorem i2cWriteByte_wires (data : Byte) (level : Bool) :
    i2cWriteByte p data (wires opr inputs false level s) =
      (some (if (p.sample (p.cycles (bitsOf data) s)).1 then 1 else 0),
        wires opr inputs false true (p.sample (p.cycles (bitsOf data) s)).2) := by
  have bits : ∃ level', writeBits p 8 data (wires opr inputs false level s) =
      (some (), wires opr inputs false level' (p.cycles (topBits 8 data) s)) :=
    writeBits_wires 8 data level
  obtain ⟨level', sent⟩ := bits
  rw [topBits_eight] at sent
  rw [i2cWriteByte, Program.bind_of_returns sent, Program.bind_of_returns sdaHigh_low,
    Program.bind_of_returns sclHigh_low, Program.bind_of_returns sdaRead_wires,
    Program.bind_of_returns sclLow_high]
  rfl

theorem readBits_wires (rounds : Nat) (data : Byte) :
    readBits p rounds data (wires opr inputs false true s) =
      (some ((p.samples rounds s).1.foldl
          (fun (byte : Byte) bit => byte <<< 1 ||| if bit then 1 else 0) data),
        wires opr inputs false true (p.samples rounds s).2) := by
  induction rounds generalizing data s with
  | zero => rfl
  | succ rounds inductionHypothesis =>
      have bit : ∀ level : Bool,
          (if (if level then (1 : Byte) else 0) ≠ 0 then (1 : Byte) else 0) =
            if level then 1 else 0 := by decide
      rw [readBits, Program.bind_of_returns sclHigh_low, Program.bind_of_returns sdaRead_wires,
        Program.bind_of_returns sclLow_high, bit, inductionHypothesis]
      rfl

/-- What `i2c_read_byte` does: a period for each bit, and one in which it answers. -/
theorem i2cReadByte_wires (ack : Byte) (level : Bool) :
    i2cReadByte p ack (wires opr inputs false level s) =
      (some (byteOf (p.samples 8 s).1),
        wires opr inputs false true (p.cycle (ack == 0) (p.samples 8 s).2)) := by
  have answer : (if ack ≠ 0 then sdaLow p else sdaHigh p)
      (wires opr inputs false true (p.samples 8 s).2) =
        (some (), wires opr inputs false (ack == 0) (p.samples 8 s).2) := by
    by_cases more : ack ≠ 0
    · rw [if_pos more, beq_false_of_ne more]
      exact sdaLow_low
    · rw [if_neg more, not_not.mp more]
      exact sdaHigh_low
  rw [i2cReadByte, Program.bind_of_returns sdaHigh_low,
    Program.bind_of_returns (readBits_wires 8 0), Program.bind_of_returns answer,
    Program.bind_of_returns sclHigh_low, Program.bind_of_returns sclLow_high,
    Program.bind_of_returns sdaHigh_low]
  rfl

/-! ## Conditions -/

theorem i2cStart_rest (free : p.drives s = true) :
    i2cStart p (wires opr inputs true true s) =
      (some (), wires opr inputs false false (p.fall (p.start s))) := by
  rw [i2cStart, Program.bind_of_returns sdaHigh_still, Program.bind_of_returns sclHigh_high,
    Program.bind_of_returns (sdaLow_high free)]
  exact sclLow_high

theorem i2cStart_again (level : Bool) (free : p.drives s = true)
    (free' : p.drives (p.rise true s) = true) :
    i2cStart p (wires opr inputs false level s) =
      (some (), wires opr inputs false false (p.fall (p.start (p.rise true s)))) := by
  have raised : sclHigh p (wires opr inputs false true s) =
      (some (), wires opr inputs true true (p.rise (true && p.drives s) s)) := sclHigh_low
  rw [free] at raised
  rw [i2cStart, Program.bind_of_returns sdaHigh_low, Program.bind_of_returns raised]
  exact (Program.bind_of_returns (sdaLow_high free')).trans sclLow_high

theorem i2cStop_wires (level : Bool) (free : p.drives (p.rise false s) = true) :
    i2cStop p (wires opr inputs false level s) =
      (some (), wires opr inputs true true (p.stop (p.rise false s))) := by
  rw [i2cStop, Program.bind_of_returns sdaLow_low, Program.bind_of_returns sclHigh_low]
  exact sdaHigh_high free

/-! ## Transfers with one of two chips

The master names a chip with the first byte of a transfer. That chip has the wires then, and the
other one stays out until the transfer stops or starts again. -/

open Machine (Program)

variable {First Second Whole Alone : Type} {c : Chip First} {e : Chip Second} {opr inputs : Byte}
  {level : Bool}

/-! ## The chip that has been named -/

/-- The whole does on the wires what one chip does. -/
structure Speaks (p : Party Whole) (embed : Engine Alone → Whole) (c : Chip Alone) : Prop where
  cycle : ∀ bit engine, p.cycle bit (embed engine) = embed (c.party.cycle bit engine)
  cycles : ∀ bits engine, p.cycles bits (embed engine) = embed (c.party.cycles bits engine)
  sample : ∀ engine,
    p.sample (embed engine) = ((c.party.sample engine).1, embed (c.party.sample engine).2)
  samples : ∀ count engine, p.samples count (embed engine) =
    ((c.party.samples count engine).1, embed (c.party.samples count engine).2)

theorem speaks_left (t : Second) :
    Speaks (c.party.both e.party) (fun engine => (engine, ⟨.off, t⟩)) c where
  cycle bit _ := cycle_out_right bit out_off
  cycles bits _ := cycles_out_right bits out_off
  sample _ := sample_out_right out_off
  samples count _ := samples_out_right count out_off

theorem speaks_right (s : First) :
    Speaks (c.party.both e.party) (fun engine => (⟨.off, s⟩, engine)) e where
  cycle bit _ := cycle_out_left bit out_off
  cycles bits _ := cycles_out_left bits out_off
  sample _ := sample_out_left out_off
  samples count _ := samples_out_left count out_off

section Named

variable {p : Party Whole} {embed : Engine Alone → Whole} {a : Chip Alone} {s : Alone}

/-- The chip takes a byte, and goes on to take bytes if it acknowledges this one. -/
theorem Speaks.write (speaks : Speaks p embed a) (byte : Byte)
    (taken : (a.receive byte s).1 = true) :
    i2cWriteByte p byte (wires opr inputs false level (embed ⟨.receiving true [], s⟩)) =
      (some 0, wires opr inputs false true
        (embed ⟨.receiving true [], (a.receive byte s).2⟩)) := by
  rw [i2cWriteByte_wires, speaks.cycles, (cycles_byte true byte).1, speaks.sample, Chip.take,
    if_pos rfl, taken]
  rfl

/-- The chip gives a byte, and puts the next one on the wire when the master acknowledges this
one. -/
theorem Speaks.read (speaks : Speaks p embed a) {ack : Byte} (more : ack ≠ 0) :
    i2cReadByte p ack (wires opr inputs false level (embed (a.sendNext s))) =
      (some (a.send s).1, wires opr inputs false true (embed (a.sendNext (a.send s).2))) := by
  rw [i2cReadByte_wires, speaks.samples, samples_sendNext, byteOf_bitsOf, speaks.cycle,
    beq_false_of_ne more]
  rfl

theorem Speaks.readLast (speaks : Speaks p embed a) :
    i2cReadByte p 0 (wires opr inputs false level (embed (a.sendNext s))) =
      (some (a.send s).1, wires opr inputs false true (embed ⟨.off, (a.send s).2⟩)) := by
  rw [i2cReadByte_wires, speaks.samples, samples_sendNext, byteOf_bitsOf, speaks.cycle]
  rfl

end Named

/-! ## Conditions and addresses -/

variable {s : First} {t : Second}

/-- The bus between two transfers. -/
def resting (opr inputs : Byte) (s : First) (t : Second) : Bus (Engine First × Engine Second) :=
  wires opr inputs true true (⟨.off, s⟩, ⟨.off, t⟩)

/-- Both chips wait for an address. -/
def called (opr inputs : Byte) (s : First) (t : Second) : Bus (Engine First × Engine Second) :=
  wires opr inputs false false (⟨.receiving false [], s⟩, ⟨.receiving false [], t⟩)

theorem start_resting : i2cStart (c.party.both e.party) (resting opr inputs s t) =
    (some (), called opr inputs (c.begins s) (e.begins t)) :=
  i2cStart_rest rfl

/-- In these modes a chip leaves the data wire alone. -/
def Mode.Passive : Mode → Prop
  | .off | .receiving _ _ => True
  | _ => False

theorem drives_passive {State : Type} (chip : Chip State) {engine : Engine State}
    (passive : engine.mode.Passive) (bit : Bool) :
    chip.party.drives engine = true ∧ chip.party.drives (chip.party.rise bit engine) = true := by
  obtain ⟨mode, state⟩ := engine
  cases mode with
  | off => exact ⟨rfl, rfl⟩
  | receiving named bits => exact ⟨rfl, rfl⟩
  | _ => exact absurd passive id

theorem rise_chip {State : Type} (chip : Chip State) (engine : Engine State) (bit : Bool) :
    (chip.party.rise bit engine).chip = engine.chip := by
  obtain ⟨mode, state⟩ := engine
  cases mode <;> rfl

theorem start_again {one : Engine First} {two : Engine Second} (passive : one.mode.Passive)
    (passive' : two.mode.Passive) :
    i2cStart (c.party.both e.party) (wires opr inputs false level (one, two)) =
      (some (), called opr inputs (c.begins one.chip) (e.begins two.chip)) := by
  obtain ⟨free, free'⟩ := drives_passive c passive true
  obtain ⟨also, also'⟩ := drives_passive e passive' true
  rw [i2cStart_again level (Bool.and_eq_true_iff.mpr ⟨free, also⟩)
    (Bool.and_eq_true_iff.mpr ⟨free', also'⟩)]
  have begun : (c.party.both e.party).start ((c.party.both e.party).rise true (one, two)) =
      (⟨.receiving false [], c.begins one.chip⟩, ⟨.receiving false [], e.begins two.chip⟩) := by
    rw [← rise_chip c one true, ← rise_chip e two true]
    rfl
  rw [begun]
  rfl

theorem stop_passive {one : Engine First} {two : Engine Second} (passive : one.mode.Passive)
    (passive' : two.mode.Passive) :
    i2cStop (c.party.both e.party) (wires opr inputs false level (one, two)) =
      (some (), resting opr inputs (c.ends one.chip) (e.ends two.chip)) := by
  obtain ⟨_, free⟩ := drives_passive c passive false
  obtain ⟨_, also⟩ := drives_passive e passive' false
  rw [i2cStop_wires level (Bool.and_eq_true_iff.mpr ⟨free, also⟩)]
  have ended : (c.party.both e.party).stop ((c.party.both e.party).rise false (one, two)) =
      (⟨.off, c.ends one.chip⟩, ⟨.off, e.ends two.chip⟩) := by
    rw [← rise_chip c one false, ← rise_chip e two false]
    rfl
  rw [ended]
  rfl

def Chip.named {State : Type} (chip : Chip State) (reading : Bool) (state : State) :
    Engine State :=
  if reading then chip.sendNext (chip.addressed true state)
  else ⟨.receiving true [], chip.addressed false state⟩

theorem write_called (byte : Byte) :
    i2cWriteByte (c.party.both e.party) byte (called opr inputs s t) =
      (some (if (c.party.both e.party).drives (c.take false byte s, e.take false byte t) then 1
          else 0),
        wires opr inputs false true
          (c.fall (c.take false byte s), e.fall (e.take false byte t))) := by
  have still : ∀ {State : Type} (chip : Chip State) (state : State) (bit : Bool),
      chip.party.rise bit (chip.take false byte state) = chip.take false byte state := by
    intro State chip state bit
    unfold Chip.take
    rw [if_neg Bool.false_ne_true]
    split <;> rfl
  obtain ⟨shifted, free⟩ := cycles_byte (c := c) (s := s) false byte
  obtain ⟨shifted', free'⟩ := cycles_byte (c := e) (s := t) false byte
  have settled : ∀ bit, (c.party.both e.party).rise bit (c.take false byte s, e.take false byte t) =
      (c.take false byte s, e.take false byte t) :=
    fun bit => Prod.ext (still c s bit) (still e t bit)
  unfold called
  rw [i2cWriteByte_wires, cycles_both _ free free', shifted, shifted', Party.sample, settled]
  rfl

def addressByte (address : BitVec 7) (reading : Bool) : Byte :=
  address.setWidth 8 <<< 1 ||| if reading then 1 else 0

theorem take_named {State : Type} {chip : Chip State} {state : State} (reading : Bool)
    (answers : chip.answers state = true) :
    chip.take false (addressByte chip.address reading) state =
      ⟨.acknowledging reading, chip.addressed reading state⟩ := by
  have name : ∀ address : BitVec 7, ∀ reading : Bool,
      (addressByte address reading).extractLsb' 1 7 = address ∧
        (addressByte address reading).getLsbD 0 = reading := by decide
  obtain ⟨same, direction⟩ := name chip.address reading
  rw [Chip.take, if_neg Bool.false_ne_true, if_pos ⟨same, answers⟩, direction]

theorem take_other {State : Type} {chip : Chip State} {state : State} {address : BitVec 7}
    (reading : Bool) (silent : chip.answers state = false ∨ address ≠ chip.address) :
    chip.take false (addressByte address reading) state = ⟨.off, state⟩ := by
  have name : ∀ address : BitVec 7, ∀ reading : Bool,
      (addressByte address reading).extractLsb' 1 7 = address := by decide
  rw [Chip.take, if_neg Bool.false_ne_true, if_neg]
  rintro ⟨same, answers⟩
  rw [name] at same
  rcases silent with deaf | other
  · exact Bool.false_ne_true (deaf.symm.trans answers)
  · exact other same

theorem fall_acknowledging {State : Type} {chip : Chip State} (reading : Bool) (state : State) :
    chip.fall ⟨.acknowledging reading, chip.addressed reading state⟩ =
      chip.named reading state := by
  cases reading <;> rfl

/-- The first chip is named. -/
theorem address_left (reading : Bool) (answers : c.answers s = true)
    (different : c.address ≠ e.address) :
    i2cWriteByte (c.party.both e.party) (addressByte c.address reading)
        (called opr inputs s t) =
      (some 0, wires opr inputs false true (c.named reading s, ⟨.off, t⟩)) := by
  rw [write_called, take_named reading answers, take_other reading (.inr different),
    fall_acknowledging]
  rfl

theorem address_right (reading : Bool) (answers : e.answers t = true)
    (different : c.address ≠ e.address) :
    i2cWriteByte (c.party.both e.party) (addressByte e.address reading)
        (called opr inputs s t) =
      (some 0, wires opr inputs false true (⟨.off, s⟩, e.named reading t)) := by
  rw [write_called, take_named reading answers, take_other reading (.inr (Ne.symm different)),
    fall_acknowledging]
  rfl

theorem address_nobody {address : BitVec 7} (reading : Bool)
    (silent : c.answers s = false ∨ address ≠ c.address)
    (silent' : e.answers t = false ∨ address ≠ e.address) :
    i2cWriteByte (c.party.both e.party) (addressByte address reading) (called opr inputs s t) =
      (some 1, wires opr inputs false true (⟨.off, s⟩, ⟨.off, t⟩)) := by
  rw [write_called, take_other reading silent, take_other reading silent']
  rfl

end OrionBios.TwoWire
