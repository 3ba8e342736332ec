import OrionBios.SectorPath.Store

/-!
# Runs of calls come to their end

Some order of the turns brings a read of the driver to its end as well, and so every run of calls
on sectors of the card.
-/

namespace OrionBios.SectorPath

open Machine (Address Memory Program Scheduled Attains attains_await attains_pure await)
open PicoIde Transition

variable {r : Request} {b c : Board}

/-! ## The command of a read -/

def readCommanded (r : Request) : Board :=
  wrote (rawOf IDE_REG_STATUS_CMD IDE_CMD_READ_SECTORS) (registersSet r)

theorem readCommanded_disk (r : Request) :
    (readCommanded r).ledger =
        openLedger (orderOf IDE_CMD_READ_SECTORS (written r.taskfile r.inserted))
          (written r.taskfile r.inserted).card ∧
      (readCommanded r).firmware =
        beginReadSequence (accepted (written r.taskfile r.inserted)) := by
  have isCommand : rawAddr (rawOf IDE_REG_STATUS_CMD IDE_CMD_READ_SECTORS) = IDE_REG_STATUS_CMD :=
    rawAddr_rawOf _ _
  have code : rawData (rawOf IDE_REG_STATUS_CMD IDE_CMD_READ_SECTORS) = IDE_CMD_READ_SECTORS :=
    rawData_rawOf _ _
  unfold readCommanded wrote
  simp only [writeRegister_command isCommand, recordWrite, if_pos isCommand, code]
  exact ⟨rfl, rfl⟩

theorem inPhase_readCommanded (idle : Idle r.start) :
    InPhase (readCommanded r).firmware (readCommanded r).ledger (.fetchWanted 0) := by
  obtain ⟨_, flush, call, _⟩ := workOf_eq.mp idle.work
  have same := written_lbaWrites r.sector r.inserted
  obtain ⟨ledger, firmware⟩ := readCommanded_disk r
  rw [ledger, firmware]
  exact inPhase_read (written r.taskfile r.inserted)
    (by rw [Request.taskfile, same]; exact flush) (by rw [Request.taskfile, same]; exact call)

/-! ## The turns in front of the first word -/

/-- What the turns of a read leave alone until its block is there. -/
structure Unread (b c : Board) : Prop where
  access : c.access = b.access
  sd : c.sd = b.sd
  order : c.ledger.order = b.ledger.order
  card : c.firmware.card = b.firmware.card
  taken : c.ledger.taken = b.ledger.taken

theorem Unread.trans {d : Board} (first : Unread b c) (second : Unread c d) : Unread b d where
  access := second.access.trans first.access
  sd := second.sd.trans first.sd
  order := second.order.trans first.order
  card := second.card.trans first.card
  taken := second.taken.trans first.taken

theorem fetchTaken (inPhase : InPhase b.firmware b.ledger (.fetchWanted 0))
    (at1 : b.firmware.core1 = .testFetch) :
    ∃ c, diskStep b (.core1 servingAnswer) = some c ∧
      InPhase c.firmware c.ledger (.fetching 0) ∧ Unread b c := by
  obtain ⟨fetch, _, call, _⟩ := workOf_eq.mp inPhase.work
  have wanted : b.firmware.needFetch = true := fetch
  have step := diskStep_free (b := b) call
  simp only [core1Step, recordCore1, at1, if_pos wanted] at step
  exact ⟨_, step, inPhase.takeFetch, rfl, rfl, rfl, rfl, rfl⟩

theorem fetchReached (inPhase : InPhase b.firmware b.ledger (.fetchWanted 0)) :
    ∃ others c, exec diskStep b others = some c ∧
      InPhase c.firmware c.ledger (.fetching 0) ∧ Unread b c := by
  obtain ⟨_, flush, call, _⟩ := workOf_eq.mp inPhase.work
  have unwanted : ¬ b.firmware.needFlush = true := by
    rw [flush]
    exact Bool.noConfusion
  rcases core1_of_none call with at1 | at1
  · obtain ⟨c, taken, phase, unread⟩ := fetchTaken inPhase at1
    exact ⟨[_], c, exec_cons_eq_some.mpr ⟨c, taken, rfl⟩, phase, unread⟩
  · have step := diskStep_free (b := b) call
    simp only [core1Step, recordCore1, at1, if_neg unwanted] at step
    have turned : InPhase { b.firmware with core1 := .testFetch } b.ledger (.fetchWanted 0) :=
      inPhase.turn call rfl
    generalize middle : ({ b with
      disk :=
        { bus := { b.disk.bus with firmware := { b.firmware with core1 := .testFetch } }
          ledger := b.ledger } } : Board) = m at step
    have same : Unread b m := by
      rw [← middle]
      exact ⟨rfl, rfl, rfl, rfl, rfl⟩
    obtain ⟨c, taken, phase, unread⟩ := fetchTaken (b := m) (by rw [← middle]; exact turned)
      (by rw [← middle])
    exact ⟨[_, _], c, exec_cons_eq_some.mpr ⟨m, step, exec_cons_eq_some.mpr ⟨c, taken, rfl⟩⟩, phase,
      same.trans unread⟩

theorem readBlock_served {sd : Sd} (ready : sd.ready = true) (lba : BitVec 32) :
    yourSdDriverReadBlock lba servingAnswer sd =
      (some (sd.card.block (blockOf sd lba)), { sd with
        sent := sd.sent ++ [callFrame false sd lba]
        touched := sd.touched ++ [blockOf sd lba] }) := by
  have started : ¬ (!sd.ready) = true := by
    rw [ready]
    decide
  have named : sd.card.named (frameArg (sdFrame CMD17 (blockAddress sd.isSdhc lba) 0x01)) =
      some (blockOf sd lba) := named_callFrame false sd lba
  unfold yourSdDriverReadBlock
  rw [if_neg started, if_neg (by decide), if_neg (by decide)]
  simp only [sdSendCommand, named]
  rfl

theorem fetchEnded (inPhase : InPhase b.firmware b.ledger (.fetching 0))
    (ready : b.sd.ready = true) (inside : b.firmware.lba.toNat < b.sd.card.sectors)
    (coherent : b.firmware.card = fun lba => sectorOfBlock (b.sd.card.block lba.toNat)) :
    ∃ c position, diskStep b (.core1 servingAnswer) = some c ∧
      InPhase c.firmware c.ledger (.sending 0 position) ∧
      c.access = b.access ∧ c.ledger.order = b.ledger.order ∧ c.ledger.taken = b.ledger.taken := by
  have at1 : b.firmware.core1 = .fetching b.firmware.activeBuf b.firmware.lba :=
    core1_of_read (workOf_eq.mp inPhase.work).2.2.1
  have served := readBlock_served ready b.firmware.lba
  have named : blockOf b.sd b.firmware.lba = b.firmware.lba.toNat := blockOf_below inside
  have same : ∀ block,
      (yourSdDriverReadBlock b.firmware.lba servingAnswer b.sd).1 = some block →
        sectorOfBlock block = b.firmware.card b.firmware.lba := by
    intro block read
    rw [served, named] at read
    rw [coherent, ← Option.some.inj read]
  have lawful : LawfulTurn b.onCard (.core1 servingAnswer) := by
    intro frame among
    rw [frameOf, show b.onCard.session.firmware.core1 = _ from at1] at among
    cases among
    exact fun _ => ⟨_, named.symm ▸ inside, named_callFrame false b.sd b.firmware.lba⟩
  have returns : driverReturns servingAnswer b.firmware b.sd = true := by
    rw [driverReturns, at1]
    exact congrArg (fun outcome => outcome.1.isSome) served
  have step : diskStep b (.core1 servingAnswer) = some
      { b with
        disk :=
          { bus := { b.disk.bus with firmware := core1Step true b.firmware }
            ledger := recordCore1 b.firmware b.ledger true }
        sd := (yourSdDriverReadBlock b.firmware.lba servingAnswer b.sd).2 } := by
    rw [diskStep, if_pos lawful, core1OnCard_fetching at1 same, returns]
  simp only [core1Step, recordCore1, at1, if_true] at step
  exact ⟨_, _, step, inPhase.fetched, rfl, rfl, rfl⟩

/-- The turns in front of the first word of a read. -/
theorem attains_fetched (inPhase : InPhase b.firmware b.ledger (.fetchWanted 0))
    (ready : b.sd.ready = true) (inside : (b.ledger.order.lba 0).toNat < b.sd.card.sectors)
    (coherent : b.firmware.card = fun lba => sectorOfBlock (b.sd.card.block lba.toNat)) :
    ∃ others c position, exec diskStep b others = some c ∧
      InPhase c.firmware c.ledger (.sending 0 position) ∧
      c.access = b.access ∧ c.ledger.order = b.ledger.order ∧ c.ledger.taken = b.ledger.taken := by
  obtain ⟨others, m, ran, fetching, unread⟩ := fetchReached inPhase
  have lba : m.firmware.lba = b.ledger.order.lba 0 := by
    rw [(fetching.counted 0 rfl).lba_eq, unread.order]
  have onCard : m.firmware.lba.toNat < m.sd.card.sectors := by
    rw [lba, unread.sd]
    exact inside
  have same : m.firmware.card = fun lba => sectorOfBlock (m.sd.card.block lba.toNat) := by
    rw [unread.card, unread.sd]
    exact coherent
  obtain ⟨c, position, last, sending, access, order, taken⟩ :=
    fetchEnded fetching (by rw [unread.sd]; exact ready) onCard same
  refine ⟨others ++ [.core1 servingAnswer], c, position, ?_, sending, access.trans unread.access,
    order.trans unread.order, taken.trans unread.taken⟩
  rw [exec_append, ran]
  exact exec_cons_eq_some.mpr ⟨c, last, rfl⟩

/-! ## The words -/

/-- The words taken and those in the FIFO are as many as `DMA_B` has sent. -/
theorem words_sent {position : Nat} (inPhase : InPhase b.firmware b.ledger (.sending 0 position)) :
    b.ledger.taken.length + b.firmware.dataTx.length = position := by
  have words := congrArg List.length (inPhase.words inPhase.suits).1
  have bound := inPhase.holding.1
  rw [List.length_append] at words
  rw [words, Phase.sent, List.length_append, List.length_take, sectorWords_length,
    Nat.min_eq_left bound]
  exact Nat.zero_add position

theorem attains_readWord {position count : Nat}
    (inPhase : InPhase b.firmware b.ledger (.sending 0 position))
    (wanted : b.ledger.taken.length + (count + 1) = 256) :
    ∃ word c next, Attains port.readData16 b word c ∧
      InPhase c.firmware c.ledger (.sending 0 next) ∧
      c.ledger.taken.length + count = 256 ∧ c.access = b.access ∧
      c.ledger.order = b.ledger.order := by
  have sent := words_sent inPhase
  obtain ⟨_, _, full⟩ := inPhase.holding
  cases words : b.firmware.dataTx with
  | nil =>
      rw [words] at sent full
      exact absurd full (by rw [List.length_nil] at sent ⊢; omega)
  | cons word rest =>
      let served : Firmware := pumpB { b.firmware with dataTx := rest }
      have stepped : eventStep b.firmware .readData = some served := by
        rw [eventStep, words]
      let next : Board := { b with
        disk :=
          { bus := { b.disk.bus with firmware := served }
            ledger := recordEvent b.firmware b.ledger .readData } }
      have took : takeWord b = some (word, next) := by
        unfold takeWord Board.take recordedStep
        simp only [words, busStep, stepped]
        rfl
      obtain ⟨phase, moved, same⟩ := inPhase.readData stepped
      have sending : ∃ position', phase = .sending 0 position' := by
        rcases same with rfl | ⟨k, position', _, was, rfl⟩
        · exact ⟨position, rfl⟩
        · cases was
          exact ⟨_, rfl⟩
      obtain ⟨position', rfl⟩ := sending
      refine ⟨word, next, position', attains_await (exec_nil _) took, moved, ?_, rfl, rfl⟩
      show (b.ledger.taken ++ b.firmware.dataTx.take 1).length + count = 256
      rw [words, List.length_append]
      show b.ledger.taken.length + 1 + count = 256
      omega

theorem attains_readWords (count : Nat) {position : Nat}
    (inPhase : InPhase b.firmware b.ledger (.sending 0 position))
    (wanted : b.ledger.taken.length + count = 256) :
    ∃ words c, Attains (Disks.readWords port count) b words c ∧
      InPhase c.firmware c.ledger (.sending 0 256) ∧ c.access = b.access ∧
      c.ledger.order = b.ledger.order := by
  induction count generalizing b position with
  | zero =>
      have sent := words_sent inPhase
      have bound := inPhase.holding.1
      have all : position = 256 := by omega
      exact ⟨[], b, attains_pure _ _, all ▸ inPhase, rfl, rfl⟩
  | succ count inductionHypothesis =>
      obtain ⟨word, c, next, first, phase, left, access, order⟩ := attains_readWord inPhase wanted
      obtain ⟨rest, d, second, phase', access', order'⟩ := inductionHypothesis phase left
      exact ⟨word :: rest, d, first.bind (second.bind (attains_pure _ _)), phase',
        access'.trans access, order'.trans order⟩

theorem attains_sent (inPhase : InPhase b.firmware b.ledger (.sending 0 256))
    (one : b.ledger.order.count = 1) :
    ∃ c, exec diskStep b [.dmaBIsr] = some c ∧ InPhase c.firmware c.ledger .done ∧
      c.access = b.access := by
  have pending : b.firmware.ints0 = true := (workOf_eq.mp inPhase.work).2.2.2.2.2.1
  let next : Board := { b with
    disk :=
      { bus := { b.disk.bus with firmware := dmaBIrqHandler b.firmware }
        ledger := b.ledger } }
  have taken : diskStep b .dmaBIsr = some next := by
    unfold diskStep Board.take recordedStep
    simp only [busStep, eventStep, if_pos pending]
    rfl
  exact ⟨next, exec_cons_eq_some.mpr ⟨next, taken, rfl⟩, inPhase.sentLast one.symm, rfl⟩

/-! ## The driver -/

theorem attains_wordsReady {position : Nat} {others : List DiskTurn}
    (run : exec diskStep b others = some c)
    (inPhase : InPhase c.firmware c.ledger (.sending 0 position)) (free : c.access = none) :
    Attains (Disks.picoideWaitDrq port) b 1 (asked c) := by
  have after : InPhase (readRegister statusRaw c.firmware).2 c.ledger (.sending 0 position) :=
    inPhase.readRegister statusRaw
  have shown : (readRegister statusRaw c.firmware).1 = drqStatus := after.shows
  have status := attains_readStatus run free
  rw [shown] at status
  have loop : ∀ rounds, Attains (Disks.picoideWaitDrqLoop port (rounds + 1)) b 1 (asked c) := by
    intro rounds
    refine status.bind ?_
    rw [if_neg (by decide), if_neg (by decide), if_pos (by decide)]
    exact attains_pure _ _
  exact loop 1999999

/-- `picoide_read_sector` can return 512 wherever the sector is on the card. -/
theorem attains_readSector (idle : Idle r.start) (small : r.sector.toNat < 2 ^ 28)
    (reading : r.writes = false) (ready : r.sd.ready = true)
    (inside : r.sector.toNat < r.sd.card.sectors) :
    ∃ words c, Attains (Disks.picoideReadSector port r.sector) (restingBoard r.start r.sd)
      (512, words) c := by
  obtain ⟨ledger, firmware⟩ := readCommanded_disk r
  have order : (readCommanded r).ledger.order = r.order := by
    rw [ledger, Request.order, reading]
    rfl
  have lba : (readCommanded r).ledger.order.lba 0 = r.sector := by
    rw [order, r.order_lba small]
  have coherent : (readCommanded r).firmware.card =
      fun lba => sectorOfBlock ((readCommanded r).sd.card.block lba.toNat) := by
    rw [firmware, Request.taskfile, written_lbaWrites]
    rfl
  obtain ⟨others, b, position, ran, sending, free, order', taken⟩ :=
    attains_fetched (inPhase_readCommanded idle) ready (by rw [lba]; exact inside) coherent
  have nothing : (asked b).ledger.taken.length + 256 = 256 := by
    rw [asked_ledger, taken, ledger]
    rfl
  obtain ⟨words, c, read, phase, access, order''⟩ :=
    attains_readWords 256 (inPhase_asked sending) nothing
  have one : c.ledger.order.count = 1 := by
    rw [order'', asked_ledger, order', order, r.order_count small]
  obtain ⟨d, last, done, access'⟩ := attains_sent phase one
  have code : Disks.ATA_CMD_READ_SECTORS = IDE_CMD_READ_SECTORS := rfl
  have command : Attains (port.writeCommand Disks.ATA_CMD_READ_SECTORS) (registersSet r) ()
      (readCommanded r) := by
    rw [code]
    exact attains_writeRaw rfl _
  refine ⟨words, asked d, (attains_setLba r).bind (command.bind ?_)⟩
  refine (attains_wordsReady ran sending free).bind ?_
  rw [if_neg (by decide)]
  refine read.bind ((attains_waitIdle last done (access'.trans access)).bind ?_)
  rw [if_neg (by decide)]
  exact attains_pure _ _

/-! ## Calls on boards that are alike -/

theorem Alike.trans {d : Board} (first : Alike b c) (second : Alike c d) : Alike b d where
  firmware := by
    obtain ⟨card, same⟩ := first.firmware
    obtain ⟨card', same'⟩ := second.firmware
    refine ⟨card', ?_⟩
    rw [same', same]
    rfl
  access := second.access.trans first.access
  sd := second.sd.trans first.sd

theorem alike_restingBoard (rest : AtRest c) : Alike c (restingBoard c.firmware c.sd) where
  firmware := ⟨_, rfl⟩
  access := rest.free.symm
  sd := rfl

/-- The same turns bring a call to its end on every board that is like this one. -/
def Ends (call : SectorCall) (c : Board) (memory : Memory) (turns : List (Option DiskTurn))
    (last : Board) : Prop :=
  ∀ (before : Computer) later, Alike before.board.state c → before.memory = memory →
    before.board.turns = turns ++ later →
      ∃ after, call.program before = (some 512, after) ∧ after.board.turns = later ∧
        Alike after.board.state last

theorem write_ends (rest : AtRest c) (memory : Memory) {sector : BitVec 32} (buffer : Address)
    (small : sector.toNat < 2 ^ 28) (ready : c.sd.ready = true)
    (inside : sector.toNat < c.sd.card.sectors) :
    ∃ turns last, Ends (.write sector buffer) c memory turns last := by
  have named : blockOf c.sd sector < c.sd.card.sectors := (blockOf_below inside).symm ▸ inside
  obtain ⟨last, ⟨turns, ran⟩, _⟩ :=
    attains_writeSector (r := writeRequest c.firmware c.sd sector memory buffer) rest.idle small rfl
      ready named (loadWords memory buffer) (loadWords_length _ _)
  refine ⟨turns, last, ?_⟩
  rintro ⟨own, bounce, state, turns'⟩ later alike rfl rfl
  obtain ⟨_, board, again, rfl, alike'⟩ := (sameRun_writeSector sector _).returned
    (alike.trans (alike_restingBoard rest)) (ran later)
  obtain ⟨after, returns, same⟩ :
      ∃ after, picoideWriteSector sector buffer ⟨own, bounce, state, turns ++ later⟩ =
        (some 512, after) ∧ after.board = _ := returns_picoideWriteSector buffer again
  refine ⟨after, returns, ?_, ?_⟩
  · rw [same]
  · rw [same]
    exact alike'

theorem read_ends (rest : AtRest c) (memory : Memory) {sector : BitVec 32} (buffer : Address)
    (small : sector.toNat < 2 ^ 28) (ready : c.sd.ready = true)
    (inside : sector.toNat < c.sd.card.sectors) :
    ∃ turns last, Ends (.read sector buffer) c memory turns last := by
  obtain ⟨words, last, turns, ran⟩ :=
    attains_readSector (r := readRequest c.firmware c.sd sector) rest.idle small rfl ready inside
  refine ⟨turns, last, ?_⟩
  rintro ⟨own, bounce, state, turns'⟩ later alike rfl rfl
  obtain ⟨_, board, again, rfl, alike'⟩ := (sameRun_readSector sector).returned
    (alike.trans (alike_restingBoard rest)) (ran later)
  let before : Computer := ⟨own, bounce, state, turns ++ later⟩
  have first : onBoard (Disks.picoideReadSector port sector) before =
      (some (512, words), { before with board := ⟨board, later⟩ }) := returns_onBoard again
  have finished := finishRead_board buffer 512 words before ⟨board, later⟩
  rw [finishRead_value] at finished
  let after : Computer :=
    { (finishRead buffer 512 words before).2 with board := ⟨board, later⟩ }
  have returns : picoideReadSector sector buffer before = (some 512, after) := by
    rw [picoideReadSector_eq]
    exact Program.bind_returns.mpr ⟨_, _, first, finished⟩
  exact ⟨after, returns, rfl, alike'⟩

theorem call_ends (rest : AtRest c) (memory : Memory) {call : SectorCall}
    (small : call.sector.toNat < 2 ^ 28) (ready : c.sd.ready = true)
    (inside : call.sector.toNat < c.sd.card.sectors) :
    ∃ turns last, Ends call c memory turns last := by
  cases call with
  | read sector buffer => exact read_ends rest memory buffer small ready inside
  | write sector buffer => exact write_ends rest memory buffer small ready inside

/-! ## Runs -/

theorem unwrapped_of_onCard {sd : Sd} {sector : BitVec 32}
    (inside : sector.toNat < sd.card.sectors) : Unwrapped sd sector :=
  fun _ _ beyond => absurd inside (Nat.not_lt_of_le beyond)

theorem runCalls_end (calls : List SectorCall) (rest : AtRest c) (memory : Memory)
    (ready : c.sd.ready = true) (small : ∀ call ∈ calls, call.sector.toNat < 2 ^ 28)
    (inside : ∀ call ∈ calls, call.sector.toNat < c.sd.card.sectors) :
    ∃ turns, ∀ before : Computer, Alike before.board.state c → before.memory = memory →
      before.board.turns = turns → ∃ after, runCalls calls before = (some true, after) := by
  induction calls generalizing c memory with
  | nil => exact ⟨[], fun before _ _ _ => ⟨before, rfl⟩⟩
  | cons call others inductionHypothesis =>
      have own := small call List.mem_cons_self
      have onCard := inside call List.mem_cons_self
      obtain ⟨turns, last, ends⟩ := call_ends rest memory own ready onCard
      have served : ∀ (before : Computer) later, Alike before.board.state c →
          before.memory = memory → before.board.turns = turns ++ later →
            ∃ after, call.program before = (some 512, after) ∧ after.board.turns = later ∧
              Alike after.board.state last ∧ Served before call after := by
        intro before later alike same scheduled
        obtain ⟨after, returns, left, alike'⟩ := ends before later alike same scheduled
        have sd : before.sd = c.sd := alike.sd.symm
        have unwrapped : Unwrapped before.sd call.sector := unwrapped_of_onCard (sd ▸ onCard)
        exact ⟨after, returns, left, alike', call_served (alike.atRest rest) own unwrapped returns⟩
      -- the board that the rest of the run is scheduled for
      let sample : Computer := ⟨memory, memory, c, turns ++ []⟩
      obtain ⟨middle, _, _, alike, served'⟩ := served sample [] ⟨⟨_, rfl⟩, rfl, rfl⟩ rfl rfl
      obtain ⟨turns', ending⟩ := inductionHypothesis served'.rest middle.memory
        (served'.card.ready.trans ready)
        (fun other among => small other (List.mem_cons_of_mem call among))
        (fun other among => served'.card.sectors.symm ▸
          inside other (List.mem_cons_of_mem call among))
      refine ⟨turns ++ turns', fun before alike' same scheduled => ?_⟩
      obtain ⟨next, returns, left, alike'', served''⟩ := served before turns' alike' same scheduled
      have stores : storeOf next = storeOf middle := by
        rw [served''.store, served'.store]
        refine congrArg (fun s : Store => s.call call) ?_
        rw [storeOf, storeOf, same, show before.sd = c.sd from alike'.sd.symm]
        rfl
      obtain ⟨after, run⟩ := ending next (alike''.trans alike.symm)
        (congrArg Store.memory stores) left
      refine ⟨after, Program.bind_returns.mpr ⟨512, next, returns, ?_⟩⟩
      rw [if_pos rfl]
      exact run

/-- A run of calls that all return 512 is a run of the array of blocks, and leaves the disk at rest
for the next one. -/
theorem runCalls_store (calls : List SectorCall) (before after : Computer)
    (rest : AtRest before.board.state) (small : ∀ call ∈ calls, call.sector.toNat < 2 ^ 28)
    (unwrapped : ∀ call ∈ calls, Unwrapped before.sd call.sector)
    (returns : runCalls calls before = (some true, after)) :
    storeOf after = (storeOf before).run calls ∧
      (∀ call ∈ calls, call.sector.toNat < before.sd.card.sectors) ∧
        AtRest after.board.state := by
  have served := runCalls_served calls rest small unwrapped returns
  exact ⟨served.store, served.onCard, served.rest⟩

def smallComputer (turns : List (Option DiskTurn)) : Computer :=
  restingComputer idleFirmware smallCard (fun address => address.setWidth 8) (fun _ => 0) turns

/-- Block 3 is written from an odd address and read to another. -/
def copyingCalls : List SectorCall := [.write 3 0x1001, .read 3 0x2000]

theorem atRest_smallComputer (turns : List (Option DiskTurn)) :
    AtRest (smallComputer turns).board.state :=
  ⟨rfl, rfl, rfl, .inl rfl⟩

theorem copyingCalls_onCard {turns : List (Option DiskTurn)} :
    ∀ call ∈ copyingCalls, call.sector.toNat < (smallComputer turns).sd.card.sectors := by
  intro call among
  rcases List.mem_cons.mp among with rfl | among
  · show 3 < 8
    decide
  · rw [List.mem_singleton.mp among]
    show 3 < 8
    decide

theorem copyingCalls_small : ∀ call ∈ copyingCalls, call.sector.toNat < 2 ^ 28 := by
  decide

theorem runCalls_store_copying :
    ∃ turns after, runCalls copyingCalls (smallComputer turns) = (some true, after) ∧
      storeOf after = (storeOf (smallComputer turns)).run copyingCalls := by
  obtain ⟨turns, ending⟩ := runCalls_end copyingCalls (atRest_smallComputer [])
    (smallComputer []).memory rfl copyingCalls_small copyingCalls_onCard
  obtain ⟨after, run⟩ := ending (smallComputer turns) ⟨⟨_, rfl⟩, rfl, rfl⟩ rfl rfl
  have stored := runCalls_store copyingCalls (smallComputer turns) after
    (atRest_smallComputer turns) copyingCalls_small
    (fun call among => unwrapped_of_onCard (copyingCalls_onCard call among)) run
  exact ⟨turns, after, run, stored.1⟩

/-- From every disk at rest, some order of the turns brings a run of calls on sectors of the card
to its end, with 512 from every call. -/
theorem runCalls_completes (calls : List SectorCall) (before : Computer)
    (rest : AtRest before.board.state) (ready : before.sd.ready = true)
    (small : ∀ call ∈ calls, call.sector.toNat < 2 ^ 28)
    (inside : ∀ call ∈ calls, call.sector.toNat < before.sd.card.sectors) :
    ∃ turns after,
      runCalls calls { before with board := ⟨before.board.state, turns⟩ } = (some true, after) := by
  obtain ⟨turns, ending⟩ := runCalls_end calls rest before.memory ready small inside
  obtain ⟨after, run⟩ := ending { before with board := ⟨before.board.state, turns⟩ }
    ⟨⟨_, rfl⟩, rfl, rfl⟩ rfl rfl
  exact ⟨turns, after, run⟩

theorem runCalls_completes_copying :
    ∃ turns after, runCalls copyingCalls (smallComputer turns) = (some true, after) :=
  runCalls_completes copyingCalls (smallComputer []) (atRest_smallComputer []) rfl
    copyingCalls_small copyingCalls_onCard

end OrionBios.SectorPath
