import OrionBios.TwoWire.Calls

/-!
# Runs of calls on the two chips

For the callers of the driver the chips are a few registers and an array of bytes. So they are in
every run of calls, with the clock going on and the memory writing its cells in between.
-/

namespace OrionBios.TwoWire

open Machine (Program)

/-! ## What the callers know of the chips -/

structure Devices where
  clockPresent : Bool
  registers : Byte → Byte
  eepromPresent : Bool
  cells : BitVec 12 → Byte
  busy : Bool

inductive Call where
  | readTime (t : Option RtcTime)
  | setTime (t : Option RtcTime)
  | readByte (addr : BitVec 16)
  | writeByte (addr : BitVec 16) (data : Byte)
  | probe
  | init

inductive Answer where
  | nothing
  | time (code : Byte) (t : Option RtcTime)
  | byte (value : Byte)

namespace Devices

variable (d : Devices)

/-- The memory is there, and not at work. -/
def eepromAnswers : Bool := d.eepromPresent && !d.busy

def call : Call → Answer × Devices
  | .readTime none => (.time 1 none, d)
  | .readTime (some t) =>
    (if d.clockPresent then .time 0 (some (timeOf d.registers)) else .time 1 (some t), d)
  | .setTime none => (.nothing, d)
  | .setTime (some t) =>
    (.nothing, if d.clockPresent then { d with registers := timeSet t d.registers } else d)
  | .readByte addr => (.byte (if d.eepromAnswers then d.cells (placeOf addr) else 0xFF), d)
  | .writeByte addr data =>
    (.nothing,
      if d.eepromAnswers then
        { d with cells := Function.update d.cells (placeOf addr) data, busy := true }
      else d)
  | .probe => (.byte (if d.clockPresent then 1 else 0), d)
  | .init =>
    (.byte (if d.clockPresent then 1 else 0),
      if d.clockPresent then { d with registers := Function.update d.registers 0x0E 0x00 } else d)

end Devices

/-! ## Events -/

inductive Event where
  | call (request : Call)
  /-- The memory has written its cells. -/
  | settled
  /-- The clock goes on. -/
  | tick (registers : Byte → Byte)

def Devices.step (d : Devices) : Event → List Answer × Devices
  | .call request => ([(d.call request).1], (d.call request).2)
  | .settled => ([], { d with busy := false })
  | .tick registers => ([], { d with registers := registers })

def Devices.run (d : Devices) : List Event → List Answer × Devices
  | [] => ([], d)
  | event :: rest =>
    ((d.step event).1 ++ ((d.step event).2.run rest).1, ((d.step event).2.run rest).2)

abbrev DeviceBus := Bus (Engine Clock × Engine Eeprom)

def Call.program : Call → Program DeviceBus Answer
  | .readTime t => do
    let (code, t) ← ds3231ReadTime devices t
    pure (.time code t)
  | .setTime t => do
    ds3231SetTime devices t
    pure .nothing
  | .readByte addr => do
    let value ← eepromReadByte devices addr
    pure (.byte value)
  | .writeByte addr data => do
    eepromWriteByte devices addr data
    pure .nothing
  | .probe => do
    let value ← ds3231Probe devices
    pure (.byte value)
  | .init => do
    let value ← rtcInit devices
    pure (.byte value)

def changed (clock : Clock → Clock) (eeprom : Eeprom → Eeprom) : Program DeviceBus Unit := fun b =>
  (some (), { b with
    party := (⟨b.party.1.mode, clock b.party.1.chip⟩, ⟨b.party.2.mode, eeprom b.party.2.chip⟩) })

def Event.program : Event → Program DeviceBus (List Answer)
  | .call request => do
    let answer ← request.program
    pure [answer]
  | .settled => do
    changed id fun m => { m with busy := false }
    pure []
  | .tick registers => do
    changed (fun k => { k with registers := registers }) id
    pure []

def runEvents : List Event → Program DeviceBus (List Answer)
  | [] => pure []
  | event :: rest => do
    let answers ← event.program
    let others ← runEvents rest
    pure (answers ++ others)

/-! ## The refinement -/

def devicesOf (k : Clock) (m : Eeprom) : Devices where
  clockPresent := k.present
  registers := k.registers
  eepromPresent := m.present
  cells := m.cells
  busy := m.busy

/-- The bus is at rest, and the chips are as the callers know them. -/
def Rests (opr inputs : Byte) (d : Devices) (b : DeviceBus) : Prop :=
  ∃ k m, b = resting opr inputs k m ∧ devicesOf k m = d

variable {opr inputs : Byte} {k : Clock} {m : Eeprom}

theorem rests (k : Clock) (m : Eeprom) :
    Rests opr inputs (devicesOf k m) (resting opr inputs k m) :=
  ⟨k, m, rfl, rfl⟩

/-- A call gives its answer, and leaves the chips and the bus in that way. -/
def Serves (opr inputs : Byte) (request : Call) (k : Clock) (m : Eeprom) : Prop :=
  ∃ b, request.program (resting opr inputs k m) = (some ((devicesOf k m).call request).1, b) ∧
    Rests opr inputs ((devicesOf k m).call request).2 b

theorem serves_of_chips {request : Call} (k' : Clock) (m' : Eeprom) (answer : Answer)
    (returned : request.program (resting opr inputs k m) =
      (some answer, resting opr inputs k' m'))
    (known : (devicesOf k m).call request = (answer, devicesOf k' m')) :
    Serves opr inputs request k m := by
  unfold Serves
  rw [known]
  exact ⟨_, returned, rests k' m'⟩

theorem readTime_serves (t : RtcTime) : Serves opr inputs (.readTime (some t)) k m := by
  cases present : k.present with
  | true =>
      have returned : Call.program (.readTime (some t)) (resting opr inputs k m) =
          (some (.time 0 (some (timeOf k.registers))), resting opr inputs
            ⟨k.present, k.registers, k.registers, 7, true⟩ (Eeprom.chip.begins m)) := by
        rw [Call.program, Program.bind_of_returns (ds3231ReadTime_present present t)]
        rfl
      refine serves_of_chips _ _ _ returned ?_
      rw [Devices.call, devicesOf, if_pos present]
      rfl
  | false =>
      have returned : Call.program (.readTime (some t)) (resting opr inputs k m) =
          (some (.time 1 (some t)),
            resting opr inputs (Clock.chip.begins k) (Eeprom.chip.begins m)) := by
        rw [Call.program, Program.bind_of_returns (ds3231ReadTime_absent present t)]
        rfl
      refine serves_of_chips _ _ _ returned ?_
      rw [Devices.call, devicesOf, if_neg (Bool.eq_false_iff.mp present)]
      rfl

theorem setTime_serves (t : RtcTime) : Serves opr inputs (.setTime (some t)) k m := by
  cases present : k.present with
  | true =>
      have returned : Call.program (.setTime (some t)) (resting opr inputs k m) =
          (some .nothing, resting opr inputs
            ⟨k.present, timeSet t k.registers, k.registers, 7, true⟩ (Eeprom.chip.begins m)) := by
        rw [Call.program, Program.bind_of_returns (ds3231SetTime_present present t)]
        rfl
      refine serves_of_chips _ _ _ returned ?_
      rw [Devices.call, devicesOf, if_pos present]
      rfl
  | false =>
      have returned : Call.program (.setTime (some t)) (resting opr inputs k m) =
          (some .nothing, resting opr inputs (Clock.chip.begins k) (Eeprom.chip.begins m)) := by
        rw [Call.program, Program.bind_of_returns (ds3231SetTime_absent present t)]
        rfl
      refine serves_of_chips _ _ _ returned ?_
      rw [Devices.call, devicesOf, if_neg (Bool.eq_false_iff.mp present)]
      rfl

theorem answers_devicesOf : (devicesOf k m).eepromAnswers = Eeprom.chip.answers m := rfl

theorem readByte_serves (addr : BitVec 16) : Serves opr inputs (.readByte addr) k m := by
  cases answers : Eeprom.chip.answers m with
  | true =>
      have returned : Call.program (.readByte addr) (resting opr inputs k m) =
          (some (.byte (m.cells (placeOf addr))),
            resting opr inputs (Clock.chip.begins k) (m.read addr)) := by
        rw [Call.program, Program.bind_of_returns (eepromReadByte_answered answers addr)]
        rfl
      refine serves_of_chips _ _ _ returned ?_
      rw [Devices.call, answers_devicesOf, if_pos answers]
      rfl
  | false =>
      have returned : Call.program (.readByte addr) (resting opr inputs k m) =
          (some (.byte 0xFF),
            resting opr inputs (Clock.chip.begins k) (Eeprom.chip.begins m)) := by
        rw [Call.program, Program.bind_of_returns (eepromReadByte_silent answers addr)]
        rfl
      refine serves_of_chips _ _ _ returned ?_
      rw [Devices.call, answers_devicesOf, if_neg (Bool.eq_false_iff.mp answers)]
      rfl

theorem writeByte_serves (addr : BitVec 16) (data : Byte) :
    Serves opr inputs (.writeByte addr data) k m := by
  cases answers : Eeprom.chip.answers m with
  | true =>
      have returned : Call.program (.writeByte addr data) (resting opr inputs k m) =
          (some .nothing,
            resting opr inputs (Clock.chip.begins k) (m.written addr data)) := by
        rw [Call.program, Program.bind_of_returns (eepromWriteByte_answered answers addr data)]
        rfl
      refine serves_of_chips _ _ _ returned ?_
      rw [Devices.call, answers_devicesOf, if_pos answers]
      rfl
  | false =>
      have returned : Call.program (.writeByte addr data) (resting opr inputs k m) =
          (some .nothing, resting opr inputs (Clock.chip.begins k) (Eeprom.chip.begins m)) := by
        rw [Call.program, Program.bind_of_returns (eepromWriteByte_silent answers addr data)]
        rfl
      refine serves_of_chips _ _ _ returned ?_
      rw [Devices.call, answers_devicesOf, if_neg (Bool.eq_false_iff.mp answers)]
      rfl

theorem probe_serves : Serves opr inputs .probe k m := by
  have returned : Call.program .probe (resting opr inputs k m) =
      (some (.byte (found k)), resting opr inputs
        (if k.present then { Clock.chip.begins k with pointed := false } else Clock.chip.begins k)
        (Eeprom.chip.begins m)) := by
    rw [Call.program, Program.bind_of_returns ds3231Probe_resting]
    rfl
  refine serves_of_chips _ _ _ returned ?_
  cases present : k.present with
  | true =>
      rw [if_pos rfl, Devices.call, devicesOf, found]
      rfl
  | false =>
      rw [if_neg Bool.false_ne_true, Devices.call, devicesOf, found]
      rfl

theorem init_serves : Serves opr inputs .init k m := by
  cases present : k.present with
  | true =>
      have returned : Call.program .init (resting opr inputs k m) =
          (some (.byte 1), resting opr inputs
            ⟨k.present, Function.update k.registers 0x0E 0x00, k.registers, 0x0F, true⟩
            (Eeprom.chip.begins m)) := by
        rw [Call.program, Program.bind_of_returns (rtcInit_present present)]
        rfl
      refine serves_of_chips _ _ _ returned ?_
      rw [Devices.call, devicesOf, if_pos present, if_pos present]
      rfl
  | false =>
      have returned : Call.program .init (resting opr inputs k m) =
          (some (.byte 0), resting opr inputs (Clock.chip.begins k) (Eeprom.chip.begins m)) := by
        rw [Call.program, Program.bind_of_returns (rtcInit_absent present)]
        rfl
      refine serves_of_chips _ _ _ returned ?_
      rw [Devices.call, devicesOf, if_neg (Bool.eq_false_iff.mp present),
        if_neg (Bool.eq_false_iff.mp present)]
      rfl

theorem call_serves (opr inputs : Byte) (k : Clock) (m : Eeprom) (request : Call) :
    Serves opr inputs request k m := by
  cases request with
  | readTime t =>
      cases t with
      | none => exact ⟨_, rfl, rests k m⟩
      | some t => exact readTime_serves t
  | setTime t =>
      cases t with
      | none => exact ⟨_, rfl, rests k m⟩
      | some t => exact setTime_serves t
  | readByte addr => exact readByte_serves addr
  | writeByte addr data => exact writeByte_serves addr data
  | probe => exact probe_serves
  | init => exact init_serves

/-! ## Runs -/

theorem event_rests (event : Event) {d : Devices} {b : DeviceBus} (at_rest : Rests opr inputs d b) :
    ∃ b', event.program b = (some (d.step event).1, b') ∧
      Rests opr inputs (d.step event).2 b' := by
  obtain ⟨k, m, rfl, rfl⟩ := at_rest
  cases event with
  | call request =>
      obtain ⟨b', returned, at_rest⟩ := call_serves opr inputs k m request
      refine ⟨b', ?_, at_rest⟩
      rw [Event.program, Program.bind_of_returns returned]
      rfl
  | settled => exact ⟨_, rfl, rests k { m with busy := false }⟩
  | tick registers => exact ⟨_, rfl, rests { k with registers := registers } m⟩

theorem events_rest (events : List Event) {d : Devices} {b : DeviceBus}
    (at_rest : Rests opr inputs d b) :
    ∃ b', runEvents events b = (some (d.run events).1, b') ∧
      Rests opr inputs (d.run events).2 b' := by
  induction events generalizing d b with
  | nil => exact ⟨b, rfl, at_rest⟩
  | cons event rest inductionHypothesis =>
      obtain ⟨b', returned, at_rest'⟩ := event_rests event at_rest
      obtain ⟨b'', others, at_rest''⟩ := inductionHypothesis at_rest'
      refine ⟨b'', ?_, at_rest''⟩
      rw [runEvents, Program.bind_of_returns returned, Program.bind_of_returns others]
      rfl

/-- In every run the driver gives the answers that the registers and the bytes of the chips say,
whatever happens in between its calls, and the bus is at rest at the end. -/
theorem run_devices (events : List Event) (opr inputs : Byte) (k : Clock) (m : Eeprom) :
    ∃ k' m', runEvents events (resting opr inputs k m) =
        (some ((devicesOf k m).run events).1, resting opr inputs k' m') ∧
      devicesOf k' m' = ((devicesOf k m).run events).2 := by
  obtain ⟨b', returned, k', m', rfl, known⟩ := events_rest events (rests k m)
  exact ⟨k', m', returned, known⟩

/-! ## The time -/

theorem bcd_byte (val : Byte) : bcd2bin (bin2bcd val) = val ↔ val < 160 := by
  revert val
  decide

theorem bcd_sec (val : Byte) : bcd2bin (bin2bcd val &&& 0x7F) = val ↔ val < 80 := by
  revert val
  decide

theorem bcd_hour (val : Byte) : bcd2bin (bin2bcd val &&& 0x3F) = val ↔ val < 40 := by
  revert val
  decide

theorem bcd_mon (val : Byte) : bcd2bin (bin2bcd val &&& 0x1F) = val ↔ val < 20 := by
  revert val
  decide

/-- The times that the registers can show. -/
def RtcTime.Shown (t : RtcTime) : Prop :=
  t.sec < 80 ∧ t.min < 160 ∧ t.hour < 40 ∧ t.mday < 160 ∧ t.mon < 20 ∧ t.year < 160

theorem timeOf_timeSet (t : RtcTime) (registers : Byte → Byte) :
    timeOf (timeSet t registers) =
      { sec := bcd2bin (bin2bcd t.sec &&& 0x7F)
        min := bcd2bin (bin2bcd t.min)
        hour := bcd2bin (bin2bcd t.hour &&& 0x3F)
        mday := bcd2bin (bin2bcd t.mday)
        mon := bcd2bin (bin2bcd t.mon &&& 0x1F)
        year := bcd2bin (bin2bcd t.year) } := rfl

theorem timeOf_timeSet_iff (t : RtcTime) (registers : Byte → Byte) :
    timeOf (timeSet t registers) = t ↔ t.Shown := by
  rw [timeOf_timeSet, RtcTime.Shown, ← bcd_sec, ← bcd_byte t.min, ← bcd_hour, ← bcd_byte t.mday,
    ← bcd_mon, ← bcd_byte t.year]
  constructor
  · intro same
    exact ⟨congrArg RtcTime.sec same, congrArg RtcTime.min same, congrArg RtcTime.hour same,
      congrArg RtcTime.mday same, congrArg RtcTime.mon same, congrArg RtcTime.year same⟩
  · rintro ⟨sec, min, hour, mday, mon, year⟩
    rw [sec, min, hour, mday, mon, year]

/-- The clock does not go on, and nobody sets it. -/
def Event.KeepsTime : Event → Prop
  | .tick _ => False
  | .call (.setTime (some _)) => False
  | _ => True

theorem step_keepsTime {event : Event} (d : Devices) (keeps : event.KeepsTime) :
    (d.step event).2.clockPresent = d.clockPresent ∧
      timeOf (d.step event).2.registers = timeOf d.registers := by
  cases event with
  | settled => exact ⟨rfl, rfl⟩
  | tick registers => exact keeps.elim
  | call request =>
      cases request with
      | readTime t => cases t <;> exact ⟨rfl, rfl⟩
      | setTime t =>
          cases t with
          | none => exact ⟨rfl, rfl⟩
          | some t => exact keeps.elim
      | readByte addr => exact ⟨rfl, rfl⟩
      | writeByte addr data =>
          rw [Devices.step, Devices.call]
          split <;> exact ⟨rfl, rfl⟩
      | probe => exact ⟨rfl, rfl⟩
      | init =>
          rw [Devices.step, Devices.call]
          split <;> exact ⟨rfl, rfl⟩

theorem run_keepsTime (events : List Event) (d : Devices)
    (keeps : ∀ event ∈ events, event.KeepsTime) :
    (d.run events).2.clockPresent = d.clockPresent ∧
      timeOf (d.run events).2.registers = timeOf d.registers := by
  induction events generalizing d with
  | nil => exact ⟨rfl, rfl⟩
  | cons event rest inductionHypothesis =>
      have first := step_keepsTime d (keeps event List.mem_cons_self)
      have others := inductionHypothesis (d.step event).2 fun event mem =>
        keeps event (List.mem_cons_of_mem _ mem)
      exact ⟨others.1.trans first.1, others.2.trans first.2⟩

theorem run_append (events more : List Event) (d : Devices) :
    d.run (events ++ more) =
      ((d.run events).1 ++ ((d.run events).2.run more).1, ((d.run events).2.run more).2) := by
  induction events generalizing d with
  | nil => rfl
  | cons event rest inductionHypothesis =>
      rw [List.cons_append, Devices.run, inductionHypothesis, Devices.run, List.append_assoc]

/-- A time that is set is read back if and only if the registers have room for each of its fields;
whatever is done to the memory in between. -/
theorem time_round_trip (t old : RtcTime) (events : List Event) (opr inputs : Byte) (k : Clock)
    (m : Eeprom) (present : k.present = true) (keeps : ∀ event ∈ events, event.KeepsTime) :
    ∃ answers t' k' m',
      runEvents (.call (.setTime (some t)) :: (events ++ [.call (.readTime (some old))]))
          (resting opr inputs k m) =
        (some (answers ++ [.time 0 (some t')]), resting opr inputs k' m') ∧
      (t' = t ↔ t.Shown) := by
  obtain ⟨k', m', returned, _⟩ := run_devices
    (.call (.setTime (some t)) :: (events ++ [.call (.readTime (some old))])) opr inputs k m
  let d : Devices := { devicesOf k m with registers := timeSet t k.registers }
  have set : (devicesOf k m).step (.call (.setTime (some t))) = ([.nothing], d) := by
    rw [Devices.step, Devices.call, devicesOf, if_pos present]
    rfl
  obtain ⟨there, shown⟩ := run_keepsTime events d keeps
  have read : ((d.run events).2.run [.call (.readTime (some old))]).1 =
      [.time 0 (some (timeOf (timeSet t k.registers)))] := by
    rw [Devices.run, Devices.step, Devices.call, if_pos (there.trans present), shown]
    rfl
  rw [Devices.run, set, run_append, read] at returned
  exact ⟨.nothing :: (d.run events).1, _, k', m', returned, timeOf_timeSet_iff t k.registers⟩

/-- A clock with an evening of December set, while the memory gets a byte. -/
theorem time_round_trip_evening :
    ∃ answers t' k' m',
      runEvents [.call (.setTime (some ⟨59, 30, 23, 31, 12, 99⟩)),
          .call (.writeByte 0x0123 0xAB), .settled, .call (.readTime (some ⟨0, 0, 0, 0, 0, 0⟩))]
          (resting 0 0xFF ⟨true, fun _ => 0, fun _ => 0, 0, false⟩
            ⟨true, fun _ => 0xFF, false, 0, .none, []⟩) =
        (some (answers ++ [.time 0 (some t')]), resting 0 0xFF k' m') ∧
      (t' = ⟨59, 30, 23, 31, 12, 99⟩ ↔ RtcTime.Shown ⟨59, 30, 23, 31, 12, 99⟩) :=
  time_round_trip ⟨59, 30, 23, 31, 12, 99⟩ ⟨0, 0, 0, 0, 0, 0⟩
    [.call (.writeByte 0x0123 0xAB), .settled] 0 0xFF ⟨true, fun _ => 0, fun _ => 0, 0, false⟩
    ⟨true, fun _ => 0xFF, false, 0, .none, []⟩ rfl (by
      intro event mem
      rcases List.mem_cons.mp mem with rfl | mem
      · trivial
      · rw [List.mem_singleton.mp mem]
        trivial)

end OrionBios.TwoWire
