import OrionBios.PicoIde.Commands

/-!
# A 68k that drives the disk

The program of the 68k: it writes the taskfile and the command, and then polls the
status and moves 256 words each time it sees BSY clear and DRQ set. Its steps, the four
interrupt handlers and the halves of core 1 come in any order.
-/

namespace OrionBios.PicoIde

open Transition

inductive Host where
  /-- Register writes; the last one is the command. -/
  | setup (writes : List Raw)
  | poll
  /-- Words of the current sector still to be moved. -/
  | move (left : Nat)
  deriving DecidableEq, Repr

structure Session where
  disk : Recorded
  host : Host

namespace Session

abbrev firmware (s : Session) : Firmware := s.disk.bus.firmware

abbrev ledger (s : Session) : Ledger := s.disk.ledger

abbrev access (s : Session) : Option Access := s.disk.bus.access

end Session

inductive Turn where
  /-- The next action of the 68k's program. -/
  | host
  | writeIsr
  | readIsr
  | dmaBIsr
  | dmaCIsr
  | core1 (ok : Bool)
  deriving DecidableEq, Repr

def statusRaw : Raw := IDE_REG_STATUS_CMD.zeroExtend 32 <<< 16

def askStatus (s : Session) : Option Session :=
  (recordedStep s.disk (.access (.read statusRaw))).map fun disk => { disk := disk, host := .poll }

/-- One word through the data register; `data` are the words the 68k has for a write. -/
def moveWord (writes : Bool) (data : Nat → Word) (s : Session) : Event :=
  if writes then .writeData (data s.ledger.given.length) else .readData

def hostStep (writes : Bool) (data : Nat → Word) (s : Session) : Option Session :=
  match s.host with
  | .setup [] | .poll | .move 0 => askStatus s
  | .setup (raw :: rest) =>
    (recordedStep s.disk (.access (.write raw))).map fun disk =>
      { disk := disk, host := if rest = [] then .poll else .setup rest }
  | .move (left + 1) =>
    (recordedStep s.disk (.event (moveWord writes data s))).map fun disk =>
      { disk := disk, host := if left = 0 then .poll else .move left }

/-- What the 68k does with a status value. -/
def seeStatus (value : Byte) : Host :=
  if value &&& IDE_STATUS_BSY = 0 ∧ value &&& IDE_STATUS_DRQ ≠ 0 then .move 256 else .poll

def sessionStep (writes : Bool) (data : Nat → Word) (s : Session) : Turn → Option Session
  | .host => hostStep writes data s
  | .writeIsr => (recordedStep s.disk .writeIsr).map fun disk => { s with disk := disk }
  | .readIsr =>
    match s.access with
    | some (.read raw) =>
      (recordedStep s.disk .readIsr).map fun disk =>
        { disk := disk, host := seeStatus (readRegister raw s.firmware).1 }
    | _ => none
  | .dmaBIsr => (recordedStep s.disk (.event .dmaBIsr)).map fun disk => { s with disk := disk }
  | .dmaCIsr => (recordedStep s.disk (.event .dmaCIsr)).map fun disk => { s with disk := disk }
  | .core1 ok => (recordedStep s.disk (.event (.core1 ok))).map fun disk => { s with disk := disk }

def initialSession (firmware : Firmware) (taskfile : List Raw) (command : Raw) : Session where
  disk := initialRecorded firmware
  host := .setup (taskfile ++ [command])

def written (taskfile : List Raw) (firmware : Firmware) : Firmware :=
  taskfile.foldl (fun s raw => writeRegister raw s) firmware

/-- Nothing is pending, and the status shows it. -/
structure Idle (s : Firmware) : Prop where
  work : workOf s = noWork
  dir : s.dir = .none
  status : s.regStatus = IDE_STATUS_DRDY ∨ s.regStatus = errorStatus

/-! ## Before the command -/

variable {writes : Bool} {data : Nat → Word} {start : Firmware} {taskfile : List Raw} {command : Raw}

/-- The firmware has taken the writes `finished`, and core 1 has turned. -/
structure Taken (start : Firmware) (finished : List Raw) (s : Session) : Prop where
  idle : InPhase s.firmware s.ledger .rest
  same : ∃ core1, s.firmware = { written finished start with core1 := core1 }
  ledger : s.ledger = openLedger noOrder start.card

/-- Some of the writes are still to come, or the last one begun waits for its handler; `left`
counts the actions until the command is taken. -/
def Preparing (start : Firmware) (taskfile : List Raw) (command : Raw) (left : Nat) (s : Session) :
    Prop :=
  ∃ finished rest, Taken start finished s ∧
    (s.access = none ∧ s.host = .setup rest ∧ rest ≠ [] ∧
        finished ++ rest = taskfile ++ [command] ∧ left = 2 * rest.length ∨
      ∃ raw, s.access = some (.write raw) ∧ finished ++ raw :: rest = taskfile ++ [command] ∧
        (s.host = if rest = [] then .poll else .setup rest) ∧ left = 2 * rest.length + 1)

theorem preparing_initial (idle : Idle start) :
    ∃ left, Preparing start taskfile command left (initialSession start taskfile command) := by
  refine ⟨_, [], taskfile ++ [command], ?_, .inl ⟨rfl, rfl, by simp, rfl, rfl⟩⟩
  exact
    { idle := inPhase_rest start.card rfl idle.work idle.dir idle.status rfl
      same := ⟨start.core1, rfl⟩
      ledger := rfl }

theorem writeRegister_core1 {raw : Raw} (register : rawAddr raw ≠ IDE_REG_STATUS_CMD)
    (s : Firmware) (core1 : Core1) :
    writeRegister raw { s with core1 := core1 } = { writeRegister raw s with core1 := core1 } := by
  simp only [writeRegister, if_neg register]
  split
  · rfl
  split
  · rfl
  split
  · rfl
  split
  · rfl
  split
  · rfl
  split
  · rfl
  · rfl

theorem Phase.rest_of_noOrder {s : Firmware} {l : Ledger} {phase : Phase}
    (inPhase : InPhase s l phase) (kind : l.order.kind = .none) : phase = .rest := by
  have suits := inPhase.suits
  cases phase with
  | rest => rfl
  | done => exact absurd kind suits
  | failed k => rcases suits.1 with other | other <;> rw [kind] at other <;> cases other
  | sending k position => exact absurd kind suits.not_none
  | fetchWanted k | fetching k | receiving k position | flushWanted k | flushing k =>
      have other := kind.symm.trans suits
      cases other

theorem Taken.write {finished : List Raw} {s : Session} {raw : Raw} {host : Host}
    (taken : Taken start finished s) (register : rawAddr raw ≠ IDE_REG_STATUS_CMD) :
    Taken start (finished ++ [raw])
      { disk :=
          { bus := { firmware := writeRegister raw s.firmware, access := none }
            ledger := s.ledger }
        host := host } := by
  obtain ⟨core1, same⟩ := taken.same
  obtain ⟨phase, inPhase⟩ := taken.idle.writeRegister fun command => absurd command register
  have ledger : recordWrite raw s.firmware s.ledger = s.ledger := if_neg register
  rw [ledger] at inPhase
  have kind : s.ledger.order.kind = .none := by
    rw [taken.ledger]
    rfl
  exact
    { idle := by
        cases Phase.rest_of_noOrder inPhase kind
        exact inPhase
      same := by
        refine ⟨core1, ?_⟩
        show writeRegister raw s.firmware = _
        rw [same, writeRegister_core1 register, written, written, List.foldl_append]
        rfl
      ledger := taken.ledger }

theorem Taken.turn {finished : List Raw} {s : Session} (taken : Taken start finished s) (ok : Bool) :
    Taken start finished
      { s with
        disk :=
          { bus := { s.disk.bus with firmware := core1Step ok s.firmware }
            ledger := recordCore1 s.firmware s.ledger ok } } := by
  obtain ⟨fetch, flush, call, _⟩ := workOf_eq.mp taken.idle.work
  obtain ⟨core1, same⟩ := taken.same
  have unfetched : ¬ s.firmware.needFetch = true := by
    rw [fetch]
    exact Bool.noConfusion
  have unflushed : ¬ s.firmware.needFlush = true := by
    rw [flush]
    exact Bool.noConfusion
  rcases core1_of_none call with at1 | at1
  · have step : core1Step ok s.firmware = { s.firmware with core1 := .testFlush } := by
      simp only [core1Step, at1, if_neg unfetched]
    have ledger : recordCore1 s.firmware s.ledger ok = s.ledger := by
      simp only [recordCore1, at1, if_neg unfetched]
    rw [step, ledger]
    exact ⟨taken.idle.turn call rfl, ⟨_, by rw [same]⟩, taken.ledger⟩
  · have step : core1Step ok s.firmware = { s.firmware with core1 := .testFetch } := by
      simp only [core1Step, at1, if_neg unflushed]
    have ledger : recordCore1 s.firmware s.ledger ok = s.ledger := by
      simp only [recordCore1, at1, if_neg unflushed]
    rw [step, ledger]
    exact ⟨taken.idle.turn call rfl, ⟨_, by rw [same]⟩, taken.ledger⟩

/-! ## While the command is served -/

/-- The words still to be moved before the next status read. -/
def Host.left : Host → Nat
  | .move left => left
  | _ => 0

def movedWords (writes : Bool) (l : Ledger) : Nat :=
  if writes then l.given.length else l.taken.length

structure Serving (order : Order) (card : BitVec 32 → Sector) (writes : Bool) (data : Nat → Word)
    (s : Session) : Prop where
  order_eq : s.ledger.order = order
  card_eq : s.ledger.card = card
  phase : ∃ phase, InPhase s.firmware s.ledger phase
  host : s.host = .poll ∨ ∃ left, s.host = .move (left + 1) ∧ s.access = none
  access : s.access = none ∨ s.access = some (.read statusRaw)
  /-- The 68k moves whole sectors. -/
  aligned : ∃ sectors, movedWords writes s.ledger + s.host.left = 256 * sectors
  given : s.ledger.given = (List.range s.ledger.given.length).map data

variable {order : Order} {card : BitVec 32 → Sector}

theorem Serving.kind_eq {s : Session} (serving : Serving order card writes data s) :
    s.ledger.order.kind = order.kind :=
  congrArg Order.kind serving.order_eq

theorem recordCore1_frame (s : Firmware) (l : Ledger) (ok : Bool) : ∃ begun failures,
    recordCore1 s l ok = { l with begun := begun, failures := failures } := by
  unfold recordCore1
  split
  · split <;> exact ⟨_, _, rfl⟩
  · split <;> exact ⟨_, _, rfl⟩
  · split <;> exact ⟨_, _, rfl⟩
  · split <;> exact ⟨_, _, rfl⟩

/-- A handler of a channel, or core 1. -/
def Event.isOwn : Event → Bool
  | .dmaBIsr | .dmaCIsr | .core1 _ => true
  | _ => false

theorem recordEvent_frame {event : Event} (own : event.isOwn = true) (s : Firmware) (l : Ledger) :
    ∃ begun failures,
      recordEvent s l event = { l with begun := begun, failures := failures } := by
  cases event with
  | dmaBIsr | dmaCIsr => exact ⟨_, _, rfl⟩
  | core1 ok => exact recordCore1_frame s l ok
  | readData | writeData => cases own

theorem Serving.own {s : Session} {event : Event} {next : Recorded}
    (serving : Serving order card writes data s) (own : event.isOwn = true)
    (taken : recordedStep s.disk (.event event) = some next) :
    Serving order card writes data { s with disk := next } := by
  obtain ⟨phase, inPhase⟩ := serving.phase
  obtain ⟨stepped, ledger⟩ := recordedStep_eq_some.mp taken
  obtain ⟨firmware, enabled, bus⟩ := Option.map_eq_some_iff.mp stepped
  obtain ⟨phase', after⟩ := inPhase.event enabled
  obtain ⟨begun, failures, frame⟩ := recordEvent_frame own s.firmware s.ledger
  have same : next.ledger = { s.ledger with begun := begun, failures := failures } :=
    ledger.trans frame
  have access : next.bus.access = s.access := by rw [← bus]
  exact
    { order_eq := by rw [Session.ledger, same]; exact serving.order_eq
      card_eq := by rw [Session.ledger, same]; exact serving.card_eq
      phase := by
        refine ⟨phase', ?_⟩
        rw [Session.firmware, ← bus, Session.ledger, ledger]
        exact after
      host := by rw [Session.access, access]; exact serving.host
      access := by rw [Session.access, access]; exact serving.access
      aligned := by
        obtain ⟨sectors, aligned⟩ := serving.aligned
        refine ⟨sectors, ?_⟩
        rw [Session.ledger, same]
        exact aligned
      given := by rw [Session.ledger, same]; exact serving.given }

theorem Serving.readIsr {s t : Session} (serving : Serving order card writes data s)
    (taken : sessionStep writes data s .readIsr = some t) : Serving order card writes data t := by
  obtain ⟨phase, inPhase⟩ := serving.phase
  simp only [sessionStep] at taken
  rcases serving.access with none | waiting
  · rw [none] at taken
    cases taken
  · rw [waiting] at taken
    obtain ⟨next, recorded, rfl⟩ := Option.map_eq_some_iff.mp taken
    obtain ⟨stepped, ledger⟩ := recordedStep_eq_some.mp recorded
    have same : next.ledger = s.ledger := ledger
    simp only [busStep, show s.disk.bus.access = _ from waiting, Option.some.injEq] at stepped
    have polled : s.host = .poll := serving.host.resolve_right (by
      rintro ⟨_, _, free⟩
      rw [waiting] at free
      cases free)
    exact
      { order_eq := by rw [Session.ledger, same]; exact serving.order_eq
        card_eq := by rw [Session.ledger, same]; exact serving.card_eq
        phase := by
          refine ⟨phase, ?_⟩
          rw [Session.firmware, ← stepped, Session.ledger, same]
          exact inPhase.readRegister statusRaw
        host := by
          rw [seeStatus, Session.access, ← stepped]
          split
          · exact .inr ⟨255, rfl, rfl⟩
          · exact .inl rfl
        access := by
          rw [Session.access, ← stepped]
          exact .inl rfl
        aligned := by
          obtain ⟨sectors, aligned⟩ := serving.aligned
          rw [polled] at aligned
          have aligned : movedWords writes s.ledger = 256 * sectors := aligned
          rw [seeStatus, Session.ledger, same]
          split
          · exact ⟨sectors + 1, by rw [Host.left, aligned, Nat.mul_succ]⟩
          · exact ⟨sectors, aligned⟩
        given := by rw [Session.ledger, same]; exact serving.given }

theorem Serving.askStatus {s t : Session} (serving : Serving order card writes data s)
    (nothing : s.host.left = 0) (taken : askStatus s = some t) :
    Serving order card writes data t := by
  obtain ⟨phase, inPhase⟩ := serving.phase
  obtain ⟨next, recorded, rfl⟩ := Option.map_eq_some_iff.mp taken
  obtain ⟨stepped, ledger⟩ := recordedStep_eq_some.mp recorded
  have same : next.ledger = s.ledger := ledger
  simp only [busStep] at stepped
  split at stepped
  · have bus := Option.some.inj stepped
    exact
      { order_eq := by rw [Session.ledger, same]; exact serving.order_eq
        card_eq := by rw [Session.ledger, same]; exact serving.card_eq
        phase := by
          refine ⟨phase, ?_⟩
          rw [Session.firmware, ← bus, Session.ledger, same]
          exact inPhase
        host := .inl rfl
        access := by
          rw [Session.access, ← bus]
          exact .inr rfl
        aligned := by
          obtain ⟨sectors, aligned⟩ := serving.aligned
          rw [nothing] at aligned
          refine ⟨sectors, ?_⟩
          rw [Session.ledger, same]
          exact aligned
        given := by rw [Session.ledger, same]; exact serving.given }
  · cases stepped

theorem movedWords_moveWord {s : Session} {next : Firmware}
    (enabled : eventStep s.firmware (moveWord writes data s) = some next) :
    movedWords writes (recordEvent s.firmware s.ledger (moveWord writes data s)) =
      movedWords writes s.ledger + 1 := by
  cases writes with
  | true => simp [moveWord, recordEvent, movedWords]
  | false =>
      cases tx : s.firmware.dataTx with
      | nil =>
          simp only [moveWord, eventStep, tx] at enabled
          cases enabled
      | cons word rest => simp [moveWord, recordEvent, movedWords, tx]

theorem recordEvent_moveWord (s : Session) :
    ∃ taken given, recordEvent s.firmware s.ledger (moveWord writes data s) =
        { s.ledger with taken := taken, given := given } ∧
      (s.ledger.given = (List.range s.ledger.given.length).map data →
        given = (List.range given.length).map data) := by
  cases writes with
  | true =>
      refine ⟨_, s.ledger.given ++ [data s.ledger.given.length], rfl, fun given => ?_⟩
      rw [List.length_append, List.length_singleton, List.range_succ, List.map_append, ← given]
      rfl
  | false => exact ⟨_, _, rfl, fun given => given⟩

theorem Serving.moveWord {s : Session} {left : Nat} {next : Recorded}
    (serving : Serving order card writes data s) (moving : s.host = .move (left + 1))
    (taken : recordedStep s.disk (.event (moveWord writes data s)) = some next) :
    Serving order card writes data
      { disk := next, host := if left = 0 then .poll else .move left } := by
  obtain ⟨phase, inPhase⟩ := serving.phase
  obtain ⟨stepped, ledger⟩ := recordedStep_eq_some.mp taken
  obtain ⟨firmware, enabled, bus⟩ := Option.map_eq_some_iff.mp stepped
  obtain ⟨phase', after⟩ := inPhase.event enabled
  have free : s.access = none := by
    rcases serving.host with polled | ⟨_, _, free⟩
    · rw [polled] at moving
      cases moving
    · exact free
  have moved := movedWords_moveWord enabled
  obtain ⟨takenWords, given, frame, counted⟩ := recordEvent_moveWord s
  have access : next.bus.access = none := by
    rw [← bus]
    exact free
  have same : next.ledger = { s.ledger with taken := takenWords, given := given } :=
    ledger.trans frame
  exact
    { order_eq := by rw [Session.ledger, same]; exact serving.order_eq
      card_eq := by rw [Session.ledger, same]; exact serving.card_eq
      phase := by
        refine ⟨phase', ?_⟩
        rw [Session.firmware, ← bus, Session.ledger, ledger]
        exact after
      host := by
        match left with
        | 0 => exact .inl rfl
        | left + 1 => exact .inr ⟨left, rfl, access⟩
      access := .inl access
      aligned := by
        obtain ⟨sectors, aligned⟩ := serving.aligned
        refine ⟨sectors, ?_⟩
        rw [moving] at aligned
        have total : movedWords writes s.ledger + (left + 1) = 256 * sectors := aligned
        have now : movedWords writes next.ledger = movedWords writes s.ledger + 1 := by
          rw [ledger]
          exact moved
        show movedWords writes next.ledger + Host.left (if left = 0 then .poll else .move left) = _
        rw [now]
        split
        · next last =>
            rw [last] at total
            exact total
        · rw [Host.left]
          omega
      given := by
        rw [Session.ledger, same]
        exact counted serving.given }

theorem Serving.step {s t : Session} {turn : Turn} (serving : Serving order card writes data s)
    (taken : sessionStep writes data s turn = some t) : Serving order card writes data t := by
  cases turn with
  | host =>
      simp only [sessionStep, hostStep] at taken
      split at taken
      case h_1 host => exact serving.askStatus (by rw [host]; rfl) taken
      case h_2 host => exact serving.askStatus (by rw [host]; rfl) taken
      case h_3 host => exact serving.askStatus (by rw [host]; rfl) taken
      case h_4 raw rest host =>
          rcases serving.host with polled | ⟨_, moving, _⟩
          · rw [host] at polled
            cases polled
          · rw [host] at moving
            cases moving
      case h_5 left host =>
          obtain ⟨next, recorded, rfl⟩ := Option.map_eq_some_iff.mp taken
          exact serving.moveWord host recorded
  | writeIsr =>
      obtain ⟨next, recorded, rfl⟩ := Option.map_eq_some_iff.mp taken
      obtain ⟨stepped, _⟩ := recordedStep_eq_some.mp recorded
      rcases serving.access with none | waiting
      · simp only [busStep, show s.disk.bus.access = _ from none] at stepped
        cases stepped
      · simp only [busStep, show s.disk.bus.access = _ from waiting] at stepped
        cases stepped
  | readIsr => exact serving.readIsr taken
  | dmaBIsr | dmaCIsr =>
      obtain ⟨next, recorded, rfl⟩ := Option.map_eq_some_iff.mp taken
      exact serving.own rfl recorded
  | core1 ok =>
      simp only [sessionStep] at taken
      obtain ⟨next, recorded, rfl⟩ := Option.map_eq_some_iff.mp taken
      exact serving.own rfl recorded

/-! ## The command is taken -/

def commandOf (writes : Bool) : Byte :=
  if writes then IDE_CMD_WRITE_SECTORS else IDE_CMD_READ_SECTORS

theorem orderOf_command_kind (writes : Bool) (s : Firmware) :
    (orderOf (commandOf writes) s).kind = if writes then .write else .read := by
  cases writes <;> rfl

theorem orderOf_command_core1 (writes : Bool) (s : Firmware) (core1 : Core1) :
    orderOf (commandOf writes) { s with core1 := core1 } = orderOf (commandOf writes) s := by
  cases writes <;> rfl

theorem Taken.clear {finished : List Raw} {s : Session} (taken : Taken start finished s)
    (writes : Bool) : Clear s.firmware (commandOf writes) := by
  obtain ⟨fetch, flush, call, _⟩ := workOf_eq.mp taken.idle.work
  refine ⟨.inl fetch, flush, call, .inl ?_⟩
  rw [orderOf_command_kind]
  cases writes <;> exact Kind.noConfusion

theorem Taken.accept {s : Session} {next : Recorded} (taken : Taken start taskfile s)
    (waiting : s.access = some (.write command)) (isCommand : rawAddr command = IDE_REG_STATUS_CMD)
    (code : rawData command = commandOf writes) (polls : s.host = .poll)
    (recorded : recordedStep s.disk .writeIsr = some next) :
    Serving (orderOf (commandOf writes) (written taskfile start)) start.card writes data
      { s with disk := next } ∧
        s.host = .poll ∧ next.ledger.taken = [] ∧ next.ledger.failures = [] := by
  obtain ⟨core1, same⟩ := taken.same
  obtain ⟨stepped, ledger⟩ := recordedStep_eq_some.mp recorded
  simp only [busStep, show s.disk.bus.access = _ from waiting, Option.some.injEq] at stepped
  simp only [record, show s.disk.bus.access = _ from waiting, recordWrite, if_pos isCommand, code]
    at ledger
  obtain ⟨phase, inPhase⟩ := taken.idle.dispatch (taken.clear writes)
  have order : orderOf (commandOf writes) s.firmware =
      orderOf (commandOf writes) (written taskfile start) := by
    rw [same, orderOf_command_core1]
  have card : s.firmware.card = start.card := by
    have idleCard := taken.idle.card (by rw [taken.ledger]; exact Kind.noConfusion)
    rw [idleCard, taken.ledger]
    rfl
  refine ⟨?_, polls, by rw [ledger]; rfl, by rw [ledger]; rfl⟩
  exact
    { order_eq := by rw [Session.ledger, ledger]; exact order
      card_eq := by rw [Session.ledger, ledger]; exact card
      phase := by
        refine ⟨phase, ?_⟩
        rw [Session.firmware, ← stepped, Session.ledger, ledger]
        show InPhase (writeRegister command s.firmware) _ _
        rw [writeRegister_command isCommand, code]
        exact inPhase
      host := .inl polls
      access := by
        rw [Session.access, ← stepped]
        exact .inl rfl
      aligned := by
        refine ⟨0, ?_⟩
        rw [Session.ledger, ledger, polls]
        cases writes <;> rfl
      given := by
        rw [Session.ledger, ledger]
        rfl }

theorem mem_of_append_cons_eq {α : Type} {front rest list : List α} {item last : α}
    (equal : front ++ item :: rest = list ++ [last]) (more : rest ≠ []) : item ∈ list := by
  have fronts := congrArg List.dropLast equal
  rw [List.dropLast_concat, List.dropLast_append_of_ne_nil (List.cons_ne_nil _ _),
    List.dropLast_cons_of_ne_nil more] at fronts
  rw [← fronts]
  exact List.mem_append_right _ List.mem_cons_self

theorem Preparing.host {s t : Session} {left : Nat}
    (preparing : Preparing start taskfile command left s)
    (taken : sessionStep writes data s .host = some t) :
    ∃ left' < left, Preparing start taskfile command left' t := by
  obtain ⟨finished, rest, idle, stage⟩ := preparing
  rcases stage with ⟨free, host, more, all, rfl⟩ | ⟨raw, waiting, all, host, rfl⟩
  · cases rest with
    | nil => exact absurd rfl more
    | cons raw rest =>
        simp only [sessionStep, hostStep, host] at taken
        obtain ⟨next, recorded, rfl⟩ := Option.map_eq_some_iff.mp taken
        obtain ⟨stepped, ledger⟩ := recordedStep_eq_some.mp recorded
        simp only [busStep, show s.disk.bus.access = _ from free, Option.some.injEq] at stepped
        have same : next.ledger = s.ledger := ledger
        refine ⟨_, ?_, ⟨finished, rest, ?_, .inr ⟨raw, ?_, all, rfl, rfl⟩⟩⟩
        · rw [List.length_cons]
          exact Nat.lt_succ_self _
        · obtain ⟨core1, firmware⟩ := idle.same
          exact
            { idle := by
                rw [Session.firmware, ← stepped, Session.ledger, same]
                exact idle.idle
              same := ⟨core1, by rw [Session.firmware, ← stepped]; exact firmware⟩
              ledger := same.trans idle.ledger }
        · rw [Session.access, ← stepped]
  · exfalso
    have busy : ∀ access, recordedStep s.disk (.access access) = none := by
      intro access
      rw [recordedStep, busStep, show s.disk.bus.access = _ from waiting]
      rfl
    simp only [sessionStep, hostStep, host] at taken
    cases rest with
    | nil =>
        simp only [if_true, askStatus, busy, Option.map_none] at taken
        cases taken
    | cons first rest =>
        simp only [if_neg (List.cons_ne_nil first rest), busy, Option.map_none] at taken
        cases taken

theorem Preparing.writeIsr {s t : Session} {left : Nat}
    (preparing : Preparing start taskfile command left s)
    (registers : ∀ raw ∈ taskfile, rawAddr raw ≠ IDE_REG_STATUS_CMD)
    (isCommand : rawAddr command = IDE_REG_STATUS_CMD) (code : rawData command = commandOf writes)
    (taken : sessionStep writes data s .writeIsr = some t) :
    (∃ left' < left, Preparing start taskfile command left' t) ∨
      Serving (orderOf (commandOf writes) (written taskfile start)) start.card writes data t ∧
        t.host = .poll ∧ t.ledger.taken = [] ∧ t.ledger.failures = [] := by
  obtain ⟨finished, rest, idle, stage⟩ := preparing
  obtain ⟨next, recorded, rfl⟩ := Option.map_eq_some_iff.mp taken
  rcases stage with ⟨free, _⟩ | ⟨raw, waiting, all, host, rfl⟩
  · obtain ⟨stepped, _⟩ := recordedStep_eq_some.mp recorded
    simp only [busStep, show s.disk.bus.access = _ from free] at stepped
    cases stepped
  · by_cases last : rest = []
    · subst last
      obtain ⟨rfl, single⟩ := List.append_inj' all rfl
      cases single
      exact .inr (idle.accept waiting isCommand code host recorded)
    · refine .inl ?_
      have register := registers raw (mem_of_append_cons_eq all last)
      have wrote : Taken start (finished ++ [raw])
          { disk :=
              { bus := { firmware := writeRegister raw s.firmware, access := none }
                ledger := s.ledger }
            host := s.host } := idle.write register
      obtain ⟨stepped, ledger⟩ := recordedStep_eq_some.mp recorded
      simp only [busStep, show s.disk.bus.access = _ from waiting, Option.some.injEq] at stepped
      simp only [record, show s.disk.bus.access = _ from waiting, recordWrite, if_neg register]
        at ledger
      have disk : next =
          { bus := { firmware := writeRegister raw s.firmware, access := none }
            ledger := s.ledger } := by
        cases next
        simp only at stepped ledger
        rw [← stepped, ledger]
      rw [disk]
      refine ⟨_, Nat.lt_succ_self _, ⟨finished ++ [raw], rest, wrote,
        .inl ⟨rfl, ?_, last, ?_, rfl⟩⟩⟩
      · rw [host, if_neg last]
      · rw [← all, List.append_assoc]
        rfl

theorem Preparing.step {s t : Session} {turn : Turn} {left : Nat}
    (preparing : Preparing start taskfile command left s)
    (registers : ∀ raw ∈ taskfile, rawAddr raw ≠ IDE_REG_STATUS_CMD)
    (isCommand : rawAddr command = IDE_REG_STATUS_CMD) (code : rawData command = commandOf writes)
    (taken : sessionStep writes data s turn = some t) :
    (∃ left', Preparing start taskfile command left' t ∧
        (turn = .host ∨ turn = .writeIsr → left' < left)) ∨
      Serving (orderOf (commandOf writes) (written taskfile start)) start.card writes data t ∧
        t.host = .poll ∧ t.ledger.taken = [] ∧ t.ledger.failures = [] := by
  cases turn with
  | host =>
      obtain ⟨left', less, after⟩ := preparing.host taken
      exact .inl ⟨left', after, fun _ => less⟩
  | writeIsr =>
      rcases preparing.writeIsr registers isCommand code taken with ⟨left', less, after⟩ | accepted
      · exact .inl ⟨left', after, fun _ => less⟩
      · exact .inr accepted
  | readIsr =>
      obtain ⟨_, _, _, ⟨free, _⟩ | ⟨_, waiting, _⟩⟩ := preparing
      · simp only [sessionStep, free] at taken
        cases taken
      · simp only [sessionStep, waiting] at taken
        cases taken
  | dmaBIsr =>
      obtain ⟨_, _, idle, _⟩ := preparing
      obtain ⟨next, recorded, rfl⟩ := Option.map_eq_some_iff.mp taken
      obtain ⟨stepped, _⟩ := recordedStep_eq_some.mp recorded
      have ints0 : s.disk.bus.firmware.ints0 = false := (workOf_eq.mp idle.idle.work).2.2.2.2.2.1
      simp [busStep, eventStep, ints0] at stepped
  | dmaCIsr =>
      obtain ⟨_, _, idle, _⟩ := preparing
      obtain ⟨next, recorded, rfl⟩ := Option.map_eq_some_iff.mp taken
      obtain ⟨stepped, _⟩ := recordedStep_eq_some.mp recorded
      have ints1 : s.disk.bus.firmware.ints1 = false := (workOf_eq.mp idle.idle.work).2.2.2.2.2.2
      simp [busStep, eventStep, ints1] at stepped
  | core1 ok =>
      obtain ⟨finished, rest, idle, stage⟩ := preparing
      simp only [sessionStep] at taken
      obtain ⟨next, recorded, rfl⟩ := Option.map_eq_some_iff.mp taken
      cases recorded
      refine .inl ⟨left, ⟨finished, rest, idle.turn ok, stage⟩, fun other => ?_⟩
      rcases other with other | other <;> cases other

theorem Preparing.enabled {s : Session} {left : Nat}
    (preparing : Preparing start taskfile command left s) (writes : Bool) (data : Nat → Word) :
    ∃ turn, (turn = .host ∨ turn = .writeIsr) ∧ (sessionStep writes data s turn).isSome := by
  obtain ⟨finished, rest, _, ⟨free, host, more, _, _⟩ | ⟨raw, waiting, _, _, _⟩⟩ := preparing
  · match rest with
    | [] => exact absurd rfl more
    | raw :: rest =>
        refine ⟨.host, .inl rfl, ?_⟩
        simp only [sessionStep, hostStep, host, recordedStep, busStep,
          show s.disk.bus.access = none from free, Option.map_some, Option.isSome_some]
  · refine ⟨.writeIsr, .inr rfl, ?_⟩
    simp only [sessionStep, recordedStep, busStep, show s.disk.bus.access = _ from waiting,
      Option.map_some, Option.isSome_some]

end OrionBios.PicoIde
