import OrionBios.PicoIde.Addressing

/-!
# A session on a card

The session of the 68k with the SD driver and its card in place of an arbitrary answer to core 1.
While every call reaches its own sector, each run is a run of the session model.
-/

namespace OrionBios.PicoIde

open Transition

structure OnCard where
  session : Session
  sd : Sd

inductive CardTurn where
  | host
  | writeIsr
  | readIsr
  | dmaBIsr
  | dmaCIsr
  | core1 (answer : Answer)

def driverReturns (answer : Answer) (s : Firmware) (sd : Sd) : Bool :=
  match s.core1 with
  | .fetching _ lba => (yourSdDriverReadBlock lba answer sd).1.isSome
  | .flushing buffer lba => (yourSdDriverWriteBlock lba (blockOfSector (s.buf buffer)) answer sd).1
  | .testFetch | .testFlush => true

/-- A turn as the session model has it. -/
def CardTurn.turn (s : OnCard) : CardTurn → Turn
  | .host => .host
  | .writeIsr => .writeIsr
  | .readIsr => .readIsr
  | .dmaBIsr => .dmaBIsr
  | .dmaCIsr => .dmaCIsr
  | .core1 answer => .core1 (driverReturns answer s.session.firmware s.sd)

def cardStep (writes : Bool) (data : Nat → Word) (s : OnCard) (turn : CardTurn) : Option OnCard :=
  match turn with
  | .core1 answer =>
    let (firmware, sd) := core1OnCard answer s.session.firmware s.sd
    let ok := driverReturns answer s.session.firmware s.sd
    let disk : Recorded :=
      { bus := { s.session.disk.bus with firmware := firmware }
        ledger := recordCore1 s.session.firmware s.session.ledger ok }
    some { session := { s.session with disk := disk }, sd := sd }
  | turn => (sessionStep writes data s.session (turn.turn s)).map fun session =>
      { s with session := session }

/-- The frame of the call that core 1 is in. -/
def frameOf (s : OnCard) : Option (List Byte) :=
  match s.session.firmware.core1 with
  | .fetching _ lba => some (callFrame false s.sd lba)
  | .flushing _ lba => some (callFrame true s.sd lba)
  | .testFetch | .testFlush => none

/-- The card answers a call as cards do. -/
def LawfulTurn (s : OnCard) : CardTurn → Prop
  | .core1 answer => ∀ frame ∈ frameOf s, s.sd.card.Lawful frame answer
  | _ => True

instance decidableLawful (card : SdCard) (frame : List Byte) (answer : Answer) :
    Decidable (card.Lawful frame answer) :=
  inferInstanceAs (Decidable (answer.r1 = 0 →
    ∃ number < card.sectors, card.named (frameArg frame) = some number))

instance decidableLawfulTurn (s : OnCard) (turn : CardTurn) : Decidable (LawfulTurn s turn) :=
  match turn with
  | .core1 answer => inferInstanceAs (Decidable (∀ frame ∈ frameOf s, s.sd.card.Lawful frame answer))
  | .host | .writeIsr | .readIsr | .dmaBIsr | .dmaCIsr => isTrue trivial

/-- The firmware in front of the card. -/
def insertCard (card : SdCard) (s : Firmware) : Firmware :=
  { s with card := fun lba => sectorOfBlock (card.block lba.toNat) }

def initialOnCard (start : Firmware) (sd : Sd) (taskfile : List Raw) (command : Raw) : OnCard where
  session := initialSession (insertCard sd.card start) taskfile command
  sd := sd

/-! ## The calls of a session -/

/-- How far the calls of the SD driver are. -/
inductive CallStage (writes : Bool) (order : Order) (s : Session) : Prop where
  | between (n : Nat) (le : n ≤ order.count) (begun : s.ledger.begun = (List.range n).map order.lba)
      (free : s.firmware.core1.call = none) (sound : s.ledger.failures = [])
  | calling (k : Nat) (less : k < order.count)
      (begun : s.ledger.begun = (List.range (k + 1)).map order.lba)
      (calls : Calls writes s.firmware (order.lba k)) (sound : s.ledger.failures = [])
  | failed (k : Nat) (less : k < order.count)
      (begun : s.ledger.begun = (List.range (k + 1)).map order.lba)
      (free : s.firmware.core1.call = none) (failures : s.ledger.failures = [order.lba k])
      (error : s.firmware.regStatus = errorStatus)

variable {start : Firmware} {taskfile : List Raw} {command : Raw} {writes : Bool}
  {data : Nat → Word} {order : Order} {card : BitVec 32 → Sector}

theorem InPhase.stage {s : Session} {phase : Phase} (inPhase : InPhase s.firmware s.ledger phase)
    (kind : s.ledger.order.kind = orderKind writes) : CallStage writes s.ledger.order s := by
  have calls : ∀ n, s.ledger.order.calls n = (List.range n).map s.ledger.order.lba := by
    intro n
    cases writes <;> rw [Order.calls, kind] <;> rfl
  have begun := inPhase.begun
  rw [calls] at begun
  have failures := inPhase.failures
  have call := (workOf_eq.mp inPhase.work).2.2.1
  cases phase with
  | rest =>
      have none : s.ledger.order.kind = .none := inPhase.suits
      rw [none] at kind
      cases writes <;> cases kind
  | done => exact .between _ (Nat.le_refl _) begun call failures
  | failed k => exact .failed k inPhase.suits.2 begun call failures inPhase.shows
  | fetchWanted k | receiving k position | flushWanted k =>
      exact .between k (Nat.le_of_lt (inPhase.counted k rfl).more) begun call failures
  | sending k position => exact .between (k + 1) (inPhase.counted k rfl).more begun call failures
  | fetching k =>
      have counted := inPhase.counted k rfl
      have at1 := core1_of_read call
      have reads : s.ledger.order.kind = .read := inPhase.suits
      rw [counted.lba_eq] at at1
      cases writes with
      | false => exact .calling k counted.more begun ⟨_, at1⟩ failures
      | true =>
          rw [reads] at kind
          cases kind
  | flushing k =>
      have counted := inPhase.counted k rfl
      have at1 := core1_of_write call
      have writing : s.ledger.order.kind = .write := inPhase.suits
      rw [counted.lba_eq] at at1
      cases writes with
      | false =>
          rw [writing] at kind
          cases kind
      | true => exact .calling k counted.more begun ⟨_, at1⟩ failures

/-- A session before its command, or while the command is served. -/
def Underway (start : Firmware) (taskfile : List Raw) (command : Raw) (writes : Bool)
    (data : Nat → Word) (s : Session) : Prop :=
  (∃ left, Preparing start taskfile command left s) ∨
    Serving (orderOf (commandOf writes) (written taskfile start)) start.card writes data s

theorem Underway.step {s t : Session} {turn : Turn}
    (registers : ∀ raw ∈ taskfile, rawAddr raw ≠ IDE_REG_STATUS_CMD)
    (isCommand : rawAddr command = IDE_REG_STATUS_CMD) (code : rawData command = commandOf writes)
    (underway : Underway start taskfile command writes data s)
    (taken : sessionStep writes data s turn = some t) :
    Underway start taskfile command writes data t := by
  rcases underway with ⟨left, preparing⟩ | serving
  · rcases preparing.step registers isCommand code taken with ⟨left', preparing', _⟩ | ⟨serving, _⟩
    · exact .inl ⟨left', preparing'⟩
    · exact .inr serving
  · exact .inr (serving.step taken)

theorem Underway.stage {s : Session} (underway : Underway start taskfile command writes data s) :
    CallStage writes (orderOf (commandOf writes) (written taskfile start)) s := by
  rcases underway with ⟨left, preparing⟩ | serving
  · obtain ⟨finished, rest, taken, _⟩ := preparing
    refine .between 0 (Nat.zero_le _) ?_ (workOf_eq.mp taken.idle.work).2.2.1 ?_
    · rw [taken.ledger]
      rfl
    · rw [taken.ledger]
      rfl
  · obtain ⟨phase, inPhase⟩ := serving.phase
    have stage := inPhase.stage (by
      rw [serving.order_eq, orderOf_command])
    rw [serving.order_eq] at stage
    exact stage

/-! ## Steps beside core 1 -/

theorem keptOf_busStep {s t : Bus} {label : Label} (other : ∀ ok, label ≠ .event (.core1 ok))
    (taken : busStep s label = some t) : KeptOf s.firmware t.firmware := by
  cases label with
  | access access =>
      simp only [busStep] at taken
      split at taken
      · cases taken
        exact ⟨rfl, rfl⟩
      · cases taken
  | writeIsr =>
      simp only [busStep] at taken
      split at taken
      · cases taken
        exact keptOf_writeRegister _ _
      · cases taken
  | readIsr =>
      simp only [busStep] at taken
      split at taken
      · cases taken
        exact keptOf_readRegister _ _
      · cases taken
  | event event =>
      obtain ⟨firmware, enabled, rfl⟩ := Option.map_eq_some_iff.mp taken
      refine keptOf_event (fun ok same => ?_) enabled
      rw [same] at other
      exact other ok rfl

theorem record_frame {s : Bus} {l : Ledger} {label : Label} (other : ∀ ok, label ≠ .event (.core1 ok)) :
    (record s l label).begun = l.begun ∧ (record s l label).failures = l.failures ∨
      (record s l label).begun = [] ∧ (record s l label).failures = [] ∧
        ∃ raw, s.access = some (.write raw) := by
  cases label with
  | access access | readIsr => exact .inl ⟨rfl, rfl⟩
  | writeIsr =>
      simp only [record]
      split
      case h_1 raw waiting =>
        unfold recordWrite
        split
        · exact .inr ⟨rfl, rfl, raw, waiting⟩
        · exact .inl ⟨rfl, rfl⟩
      case h_2 => exact .inl ⟨rfl, rfl⟩
  | event event =>
      cases event with
      | core1 ok => exact absurd rfl (other ok)
      | readData | writeData | dmaBIsr | dmaCIsr => exact .inl ⟨rfl, rfl⟩

theorem sessionStep_recorded {s t : Session} {turn : Turn} (other : ∀ ok, turn ≠ .core1 ok)
    (taken : sessionStep writes data s turn = some t) :
    ∃ label, (∀ ok, label ≠ .event (.core1 ok)) ∧ recordedStep s.disk label = some t.disk := by
  have asked : askStatus s = some t →
      ∃ label, (∀ ok, label ≠ .event (.core1 ok)) ∧ recordedStep s.disk label = some t.disk := by
    intro asked
    obtain ⟨disk, recorded, rfl⟩ := Option.map_eq_some_iff.mp asked
    exact ⟨_, fun _ => Label.noConfusion, recorded⟩
  cases turn with
  | host =>
      simp only [sessionStep, hostStep] at taken
      split at taken
      case h_1 | h_2 | h_3 => exact asked taken
      case h_4 =>
        obtain ⟨disk, recorded, rfl⟩ := Option.map_eq_some_iff.mp taken
        exact ⟨_, fun _ => Label.noConfusion, recorded⟩
      case h_5 =>
        obtain ⟨disk, recorded, rfl⟩ := Option.map_eq_some_iff.mp taken
        refine ⟨_, fun ok same => ?_, recorded⟩
        unfold moveWord at same
        split at same <;> cases same
  | writeIsr =>
      obtain ⟨disk, recorded, rfl⟩ := Option.map_eq_some_iff.mp taken
      exact ⟨_, fun _ => Label.noConfusion, recorded⟩
  | readIsr =>
      simp only [sessionStep] at taken
      split at taken
      · obtain ⟨disk, recorded, rfl⟩ := Option.map_eq_some_iff.mp taken
        exact ⟨_, fun _ => Label.noConfusion, recorded⟩
      · cases taken
  | dmaBIsr | dmaCIsr =>
      obtain ⟨disk, recorded, rfl⟩ := Option.map_eq_some_iff.mp taken
      exact ⟨_, by simp, recorded⟩
  | core1 ok => exact absurd rfl (other ok)

theorem Underway.others {s t : Session} {turn : Turn}
    (underway : Underway start taskfile command writes data s) (other : ∀ ok, turn ≠ .core1 ok)
    (taken : sessionStep writes data s turn = some t) :
    KeptOf s.firmware t.firmware ∧ t.ledger.begun = s.ledger.begun ∧
      t.ledger.failures = s.ledger.failures := by
  obtain ⟨label, others, recorded⟩ := sessionStep_recorded other taken
  obtain ⟨stepped, ledger⟩ := recordedStep_eq_some.mp recorded
  refine ⟨keptOf_busStep others stepped, ?_⟩
  rw [Session.ledger, ledger]
  rcases record_frame (s := s.disk.bus) (l := s.disk.ledger) others with
    same | ⟨begun, failures, raw, waiting⟩
  · exact same
  · rw [begun, failures]
    rcases underway with ⟨left, preparing⟩ | serving
    · rw [preparing.fresh.1]
      exact ⟨rfl, rfl⟩
    · rcases serving.access with none | reading
      · rw [show s.disk.bus.access = _ from none] at waiting
        cases waiting
      · rw [show s.disk.bus.access = _ from reading] at waiting
        cases waiting

end OrionBios.PicoIde
