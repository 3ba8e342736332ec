import OrionBios.SectorPath.Promise

/-!
# A write comes to its end

Some order of the turns brings a write of the driver to its end, whenever the address that the SD
driver makes of the sector names a block of the card. That block then holds the buffer.
-/

namespace OrionBios.SectorPath

open Machine (Address Memory Program Scheduled Attains attains_await attains_pure await)
open PicoIde Transition

variable {r : Request} {b c : Board}

/-! ## Accesses -/

def wrote (raw : Raw) (b : Board) : Board :=
  { b with
    disk :=
      { bus := { firmware := writeRegister raw b.firmware, access := none }
        ledger := recordWrite raw b.firmware b.ledger } }

theorem attains_writeRaw (free : b.access = none) (raw : Raw) :
    Attains (writeRaw raw) b () (wrote raw b) := by
  obtain ⟨⟨⟨firmware, access⟩, ledger⟩, sd, answer⟩ := b
  subst free
  have began : Attains (await diskStep (beginAccess (.write raw)))
      ⟨⟨⟨firmware, none⟩, ledger⟩, sd, answer⟩ ()
      ⟨⟨⟨firmware, some (.write raw)⟩, ledger⟩, sd, answer⟩ := attains_await (exec_nil _) rfl
  have served : exec diskStep ⟨⟨⟨firmware, some (.write raw)⟩, ledger⟩, sd, answer⟩
      [.writeIsr] = some (wrote raw ⟨⟨⟨firmware, none⟩, ledger⟩, sd, answer⟩) := rfl
  exact (began.bind (attains_await served rfl)).bind (attains_pure _ _)

def asked (b : Board) : Board :=
  { b with
    disk :=
      { bus := { firmware := (readRegister statusRaw b.firmware).2, access := none }
        ledger := b.ledger }
    answer := (readRegister statusRaw b.firmware).1 }

theorem asked_ledger (b : Board) : (asked b).ledger = b.ledger :=
  rfl

theorem inPhase_asked {phase : Phase} (inPhase : InPhase b.firmware b.ledger phase) :
    InPhase (asked b).firmware (asked b).ledger phase :=
  inPhase.readRegister statusRaw

theorem attains_readStatus {others : List DiskTurn} (run : exec diskStep b others = some c)
    (free : c.access = none) :
    Attains port.readStatus b (readRegister statusRaw c.firmware).1 (asked c) := by
  obtain ⟨⟨⟨firmware, access⟩, ledger⟩, sd, answer⟩ := c
  subst free
  have began : Attains (await diskStep (beginAccess (.read statusRaw))) b ()
      ⟨⟨⟨firmware, some (.read statusRaw)⟩, ledger⟩, sd, answer⟩ := attains_await run rfl
  have served : exec diskStep ⟨⟨⟨firmware, some (.read statusRaw)⟩, ledger⟩, sd, answer⟩
      [.readIsr] = some (asked ⟨⟨⟨firmware, none⟩, ledger⟩, sd, answer⟩) := rfl
  exact began.bind (attains_await served rfl)

/-! ## The command -/

def registersSet (r : Request) : Board :=
  { restingBoard r.start r.sd with
    disk :=
      { bus := { firmware := written r.taskfile r.inserted, access := none }
        ledger := openLedger noOrder r.inserted.card } }

theorem registerNumber_ne (register : Disks.Register) :
    registerNumber register ≠ IDE_REG_STATUS_CMD := by
  cases register <;> decide

theorem attains_writeRegister (free : b.access = none) (register : Disks.Register) (value : Byte) :
    Attains (port.writeRegister register value) b ()
      { b with
        disk :=
          { bus :=
              { firmware := writeRegister (rawOf (registerNumber register) value) b.firmware
                access := none }
            ledger := b.ledger } } := by
  have other : rawAddr (rawOf (registerNumber register) value) ≠ IDE_REG_STATUS_CMD := by
    rw [rawAddr_rawOf]
    exact registerNumber_ne register
  have attained := attains_writeRaw free (rawOf (registerNumber register) value)
  rw [wrote, recordWrite, if_neg other] at attained
  exact attained

theorem attains_setLba (r : Request) :
    Attains (Disks.picoideSetLba port r.sector) (restingBoard r.start r.sd) ()
      (registersSet r) := by
  refine (attains_writeRegister rfl _ _).bind ?_
  refine (attains_writeRegister rfl _ _).bind ?_
  refine (attains_writeRegister rfl _ _).bind ?_
  refine (attains_writeRegister rfl _ _).bind ?_
  exact attains_writeRegister rfl _ _

def commanded (r : Request) : Board :=
  wrote (rawOf IDE_REG_STATUS_CMD IDE_CMD_WRITE_SECTORS) (registersSet r)

theorem inPhase_commanded (idle : Idle r.start) :
    InPhase (commanded r).firmware (commanded r).ledger (.receiving 0 0) := by
  obtain ⟨fetch, flush, call, _⟩ := workOf_eq.mp idle.work
  have same := written_lbaWrites r.sector r.inserted
  have isCommand : rawAddr (rawOf IDE_REG_STATUS_CMD IDE_CMD_WRITE_SECTORS) = IDE_REG_STATUS_CMD :=
    rawAddr_rawOf _ _
  have code : rawData (rawOf IDE_REG_STATUS_CMD IDE_CMD_WRITE_SECTORS) = IDE_CMD_WRITE_SECTORS :=
    rawData_rawOf _ _
  have phase := inPhase_write (written r.taskfile r.inserted)
    (by rw [Request.taskfile, same]; exact fetch) (by rw [Request.taskfile, same]; exact flush)
    (by rw [Request.taskfile, same]; exact call)
  unfold commanded wrote
  simp only [writeRegister_command isCommand, recordWrite, if_pos isCommand, code]
  exact phase

/-! ## The words -/

theorem attains_writeWord {i : Nat} (word : Word)
    (inPhase : InPhase b.firmware b.ledger (.receiving 0 i)) (small : i < 256) :
    ∃ c, Attains (port.writeData16 word) b () c ∧
      InPhase c.firmware c.ledger (.receiving 0 (i + 1)) ∧ c.access = b.access ∧ c.sd = b.sd ∧
      c.ledger.order = b.ledger.order ∧ c.ledger.given = b.ledger.given ++ [word] := by
  have nothing : b.firmware.dataRx = [] :=
    inPhase.holding.2.2.resolve_left (Nat.ne_of_lt small)
  have room : b.firmware.dataRx.length < 4 := by
    rw [nothing]
    decide
  let next : Board := { b with
    disk :=
      { bus := { b.disk.bus with
          firmware := pumpC { b.firmware with dataRx := b.firmware.dataRx ++ [word] } }
        ledger := { b.ledger with given := b.ledger.given ++ [word] } } }
  have gave : giveWord word b = some ((), next) := by
    unfold giveWord Board.take recordedStep
    simp only [busStep, eventStep, if_pos room]
    rfl
  exact ⟨next, attains_await (exec_nil _) gave, inPhase.giveReceiving word small, rfl, rfl, rfl,
    rfl⟩

theorem attains_writeWords (words : List Word) {i : Nat}
    (inPhase : InPhase b.firmware b.ledger (.receiving 0 i)) (bound : i + words.length ≤ 256) :
    ∃ c, Attains (Disks.writeWords port words) b () c ∧
      InPhase c.firmware c.ledger (.receiving 0 (i + words.length)) ∧ c.access = b.access ∧
      c.sd = b.sd ∧ c.ledger.order = b.ledger.order ∧
      c.ledger.given = b.ledger.given ++ words := by
  induction words generalizing b i with
  | nil => exact ⟨b, attains_pure _ _, inPhase, rfl, rfl, rfl, (List.append_nil _).symm⟩
  | cons word rest inductionHypothesis =>
      rw [List.length_cons] at bound ⊢
      obtain ⟨c, first, phase, access, sd, order, given⟩ :=
        attains_writeWord word inPhase (by omega)
      obtain ⟨d, second, phase', access', sd', order', given'⟩ :=
        inductionHypothesis phase (by omega)
      refine ⟨d, first.bind second, ?_, access'.trans access, sd'.trans sd, order'.trans order, ?_⟩
      · rw [show i + (rest.length + 1) = i + 1 + rest.length by omega]
        exact phase'
      · rw [given', given, List.append_assoc]
        rfl

/-! ## The turns behind the last word -/

/-- What the turns of a write leave alone until its block is stored. -/
structure Unstored (b c : Board) : Prop where
  access : c.access = b.access
  sd : c.sd = b.sd
  order : c.ledger.order = b.ledger.order
  given : c.ledger.given = b.ledger.given

theorem Unstored.trans {d : Board} (first : Unstored b c) (second : Unstored c d) :
    Unstored b d where
  access := second.access.trans first.access
  sd := second.sd.trans first.sd
  order := second.order.trans first.order
  given := second.given.trans first.given

theorem diskStep_free (free : b.firmware.core1.call = none) :
    diskStep b (.core1 servingAnswer) =
      some { b with
        disk :=
          { bus := { b.disk.bus with firmware := core1Step true b.firmware }
            ledger := recordCore1 b.firmware b.ledger true } } := by
  have lawful : LawfulTurn b.onCard (.core1 servingAnswer) := by
    intro frame among
    rcases core1_of_none free with at1 | at1
    · rw [frameOf, show b.onCard.session.firmware.core1 = _ from at1] at among
      cases among
    · rw [frameOf, show b.onCard.session.firmware.core1 = _ from at1] at among
      cases among
  have returns : driverReturns servingAnswer b.firmware b.sd = true := by
    unfold driverReturns
    rcases core1_of_none free with at1 | at1
    · rw [at1]
    · rw [at1]
  rw [diskStep, if_pos lawful, core1OnCard_free free, returns]

theorem flushTaken (inPhase : InPhase b.firmware b.ledger (.flushWanted 0))
    (at1 : b.firmware.core1 = .testFlush) :
    ∃ c, diskStep b (.core1 servingAnswer) = some c ∧
      InPhase c.firmware c.ledger (.flushing 0) ∧ Unstored b c := by
  obtain ⟨_, flush, call, _⟩ := workOf_eq.mp inPhase.work
  have wanted : b.firmware.needFlush = true := flush
  have step := diskStep_free (b := b) call
  simp only [core1Step, recordCore1, at1, if_pos wanted] at step
  exact ⟨_, step, inPhase.takeFlush, rfl, rfl, rfl, rfl⟩

theorem flushReached (inPhase : InPhase b.firmware b.ledger (.flushWanted 0)) :
    ∃ others c, exec diskStep b others = some c ∧
      InPhase c.firmware c.ledger (.flushing 0) ∧ Unstored b c := by
  obtain ⟨fetch, _, call, _⟩ := workOf_eq.mp inPhase.work
  have unwanted : ¬ b.firmware.needFetch = true := by
    rw [fetch]
    exact Bool.noConfusion
  rcases core1_of_none call with at1 | at1
  · have step := diskStep_free (b := b) call
    simp only [core1Step, recordCore1, at1, if_neg unwanted] at step
    have turned : InPhase { b.firmware with core1 := .testFlush } b.ledger (.flushWanted 0) :=
      inPhase.turn call rfl
    generalize middle : ({ b with
      disk :=
        { bus := { b.disk.bus with firmware := { b.firmware with core1 := .testFlush } }
          ledger := b.ledger } } : Board) = m at step
    have same : Unstored b m := by
      rw [← middle]
      exact ⟨rfl, rfl, rfl, rfl⟩
    obtain ⟨c, taken, phase, unstored⟩ := flushTaken (b := m) (by rw [← middle]; exact turned)
      (by rw [← middle])
    exact ⟨[_, _], c, exec_cons_eq_some.mpr ⟨m, step, exec_cons_eq_some.mpr ⟨c, taken, rfl⟩⟩, phase,
      same.trans unstored⟩
  · obtain ⟨c, taken, phase, unstored⟩ := flushTaken inPhase at1
    exact ⟨[_], c, exec_cons_eq_some.mpr ⟨c, taken, rfl⟩, phase, unstored⟩

theorem writeBlock_served {sd : Sd} (ready : sd.ready = true) (lba : BitVec 32) (src : Block) :
    yourSdDriverWriteBlock lba src servingAnswer sd =
      (true, { sd with
        card := sd.card.store (blockOf sd lba) src
        sent := sd.sent ++ [callFrame true sd lba]
        touched := sd.touched ++ [blockOf sd lba] }) := by
  have started : ¬ (!sd.ready) = true := by
    rw [ready]
    decide
  have named : sd.card.named (frameArg (sdFrame CMD24 (blockAddress sd.isSdhc lba) 0x01)) =
      some (blockOf sd lba) := named_callFrame true sd lba
  unfold yourSdDriverWriteBlock
  rw [if_neg started, if_neg (by decide), if_neg (by decide)]
  simp only [sdSendCommand, named]
  rfl

theorem flushEnded (inPhase : InPhase b.firmware b.ledger (.flushing 0))
    (one : b.ledger.order.count = 1) (ready : b.sd.ready = true)
    (inside : blockOf b.sd (b.ledger.order.lba 0) < b.sd.card.sectors) :
    ∃ c, diskStep b (.core1 servingAnswer) = some c ∧ InPhase c.firmware c.ledger .done ∧
      c.access = b.access ∧
      c.sd.card.block (blockOf b.sd (b.ledger.order.lba 0)) =
        blockOfSector (sectorOf b.ledger.given 0) := by
  have counted := inPhase.counted 0 rfl
  have at1 : b.firmware.core1 = .flushing 0 b.firmware.lba :=
    core1_of_write (workOf_eq.mp inPhase.work).2.2.1
  have filled : PicoIde.Filled (b.firmware.buf 0) b.firmware.dataRx b.ledger.given 0 256 :=
    inPhase.holding
  rw [← counted.lba_eq] at inside ⊢
  have served := writeBlock_served ready b.firmware.lba (blockOfSector (b.firmware.buf 0))
  have lawful : LawfulTurn b.onCard (.core1 servingAnswer) := by
    intro frame among
    rw [frameOf, show b.onCard.session.firmware.core1 = _ from at1] at among
    cases among
    exact fun _ => ⟨_, inside, named_callFrame true b.sd b.firmware.lba⟩
  have returns : driverReturns servingAnswer b.firmware b.sd = true := by
    rw [driverReturns, at1]
    exact congrArg Prod.fst served
  have step : diskStep b (.core1 servingAnswer) = some
      { b with
        disk :=
          { bus := { b.disk.bus with firmware := core1Step true b.firmware }
            ledger := recordCore1 b.firmware b.ledger true }
        sd := (yourSdDriverWriteBlock b.firmware.lba (blockOfSector (b.firmware.buf 0))
          servingAnswer b.sd).2 } := by
    rw [diskStep, if_pos lawful, core1OnCard_flushing at1, returns]
  simp only [core1Step, recordCore1, at1, if_true, served] at step
  refine ⟨_, step, inPhase.flushedLast one.symm, rfl, ?_⟩
  rw [filled.sector_eq]
  exact Function.update_self _ _ _

theorem attains_stored (inPhase : InPhase b.firmware b.ledger (.receiving 0 256))
    (one : b.ledger.order.count = 1) (ready : b.sd.ready = true)
    (inside : blockOf b.sd (b.ledger.order.lba 0) < b.sd.card.sectors) :
    ∃ others c, exec diskStep b others = some c ∧ InPhase c.firmware c.ledger .done ∧
      c.access = b.access ∧
      c.sd.card.block (blockOf b.sd (b.ledger.order.lba 0)) =
        blockOfSector (sectorOf b.ledger.given 0) := by
  have pending : b.firmware.ints1 = true := (workOf_eq.mp inPhase.work).2.2.2.2.2.2
  let wanted : Board := { b with
    disk :=
      { bus := { b.disk.bus with firmware := dmaCIrqHandler b.firmware }
        ledger := b.ledger } }
  have first : diskStep b .dmaCIsr = some wanted := by
    unfold diskStep Board.take recordedStep
    simp only [busStep, eventStep, if_pos pending]
    rfl
  obtain ⟨others, m, ran, flushing, unstored⟩ := flushReached (b := wanted) inPhase.gotSector
  have order : m.ledger.order = b.ledger.order := unstored.order
  have sd : m.sd = b.sd := unstored.sd
  have given : m.ledger.given = b.ledger.given := unstored.given
  rw [← order, ← sd] at inside ⊢
  obtain ⟨c, last, done, access, stored⟩ := flushEnded flushing (by rw [order]; exact one)
    (by rw [sd]; exact ready) inside
  refine ⟨.dmaCIsr :: (others ++ [.core1 servingAnswer]), c, ?_, done,
    access.trans unstored.access, ?_⟩
  · refine exec_cons_eq_some.mpr ⟨wanted, first, ?_⟩
    rw [exec_append, ran]
    exact exec_cons_eq_some.mpr ⟨c, last, rfl⟩
  · rw [stored, given]

/-! ## The driver -/

theorem attains_waitDrq (inPhase : InPhase b.firmware b.ledger (.receiving 0 0))
    (free : b.access = none) : Attains (Disks.picoideWaitDrq port) b 1 (asked b) := by
  have after : InPhase (readRegister statusRaw b.firmware).2 b.ledger (.receiving 0 0) :=
    inPhase.readRegister statusRaw
  have shown : (readRegister statusRaw b.firmware).1 = drqStatus :=
    after.shows.resolve_right fun ⟨full, _⟩ => by cases full
  have status := attains_readStatus (exec_nil b) free
  rw [shown] at status
  have loop : ∀ rounds, Attains (Disks.picoideWaitDrqLoop port (rounds + 1)) b 1 (asked b) := by
    intro rounds
    refine status.bind ?_
    rw [if_neg (by decide), if_neg (by decide), if_pos (by decide)]
    exact attains_pure _ _
  exact loop 1999999

theorem attains_waitIdle {others : List DiskTurn} (run : exec diskStep b others = some c)
    (done : InPhase c.firmware c.ledger .done) (free : c.access = none) :
    Attains (Disks.picoideWaitIdle port) b 1 (asked c) := by
  have after : InPhase (readRegister statusRaw c.firmware).2 c.ledger .done :=
    done.readRegister statusRaw
  have shown : (readRegister statusRaw c.firmware).1 = IDE_STATUS_DRDY := after.shows
  have status := attains_readStatus run free
  rw [shown] at status
  have loop : ∀ rounds, Attains (Disks.picoideWaitIdleLoop port (rounds + 1)) b 1 (asked c) := by
    intro rounds
    refine status.bind ?_
    rw [if_neg (by decide), if_neg (by decide)]
    exact attains_pure _ _
  exact loop 1999999

theorem commanded_order (r : Request) :
    (commanded r).ledger.order = orderOf IDE_CMD_WRITE_SECTORS (written r.taskfile r.inserted) ∧
      (commanded r).ledger.given = [] := by
  have isCommand : rawAddr (rawOf IDE_REG_STATUS_CMD IDE_CMD_WRITE_SECTORS) = IDE_REG_STATUS_CMD :=
    rawAddr_rawOf _ _
  have code : rawData (rawOf IDE_REG_STATUS_CMD IDE_CMD_WRITE_SECTORS) = IDE_CMD_WRITE_SECTORS :=
    rawData_rawOf _ _
  unfold commanded wrote
  simp only [recordWrite, if_pos isCommand, code]
  exact ⟨rfl, rfl⟩

/-- `picoide_write_sector` can return 512 wherever the block is on the card. -/
theorem attains_writeSector (idle : Idle r.start) (small : r.sector.toNat < 2 ^ 28)
    (writing : r.writes = true) (ready : r.sd.ready = true)
    (inside : blockOf r.sd r.sector < r.sd.card.sectors) (src : List Word)
    (length : src.length = 256) :
    ∃ c, Attains (Disks.picoideWriteSector port r.sector src) (restingBoard r.start r.sd) 512 c ∧
      c.sd.card.block (blockOf r.sd r.sector) = blockOfSector (sectorOf src 0) := by
  have phase := inPhase_commanded idle
  obtain ⟨order, given⟩ := commanded_order r
  have own : orderOf IDE_CMD_WRITE_SECTORS (written r.taskfile r.inserted) = r.order := by
    rw [Request.order, writing]
    rfl
  obtain ⟨b, words, full, access, sd, order', given'⟩ :=
    attains_writeWords src (inPhase_asked phase) (by rw [length])
  rw [length] at full
  rw [asked_ledger] at order' given'
  have orderEq : b.ledger.order = r.order := (order'.trans order).trans own
  have givenEq : b.ledger.given = src := by
    rw [given', given]
    rfl
  have lba : b.ledger.order.lba 0 = r.sector := by
    rw [orderEq, r.order_lba small]
  have sdEq : b.sd = r.sd := sd
  rw [← sdEq, ← lba] at inside
  rw [← sdEq] at ready
  obtain ⟨others, c, run, done, free, stored⟩ :=
    attains_stored full (by rw [orderEq, r.order_count small]) ready inside
  rw [givenEq, sdEq, lba] at stored
  refine ⟨asked c, ?_, stored⟩
  have code : Disks.ATA_CMD_WRITE_SECTORS = IDE_CMD_WRITE_SECTORS := rfl
  have command : Attains (port.writeCommand Disks.ATA_CMD_WRITE_SECTORS) (registersSet r) ()
      (commanded r) := by
    rw [code]
    exact attains_writeRaw rfl _
  refine (attains_setLba r).bind (command.bind ?_)
  refine (attains_waitDrq phase rfl).bind ?_
  rw [if_neg (by decide)]
  refine words.bind ((attains_waitIdle run done (free.trans access)).bind ?_)
  rw [if_neg (by decide)]
  exact attains_pure _ _

/-! ## Through memory -/

theorem returns_onBoard {Value : Type} {program : Program (Scheduled Board DiskTurn) Value}
    {before : Computer} {value : Value} {board : Scheduled Board DiskTurn}
    (ran : program before.board = (some value, board)) :
    onBoard program before = (some value, { before with board := board }) :=
  congrArg (fun result => (result.1, ({ before with board := result.2 } : Computer))) ran

theorem returns_picoideWriteSector {sector : BitVec 32} (buffer : Address) {before : Computer}
    {result : Nat} {board : Scheduled Board DiskTurn}
    (ran : Disks.picoideWriteSector port sector (loadWords before.memory buffer) before.board =
      (some result, board)) :
    ∃ after, picoideWriteSector sector buffer before = (some result, after) ∧
      after.board = board := by
  unfold picoideWriteSector
  split
  · let bounced : Computer :=
      { before with bounce := memcpy 0 buffer 512 before.memory before.bounce }
    have words : loadWords bounced.bounce 0 = loadWords before.memory buffer :=
      loadWords_memcpy _ _ _
    rw [← words] at ran
    exact ⟨{ bounced with board := board }, Program.bind_returns.mpr ⟨(), bounced, rfl,
      Program.bind_returns.mpr ⟨_, bounced, rfl, returns_onBoard ran⟩⟩, rfl⟩
  · exact ⟨{ before with board := board },
      Program.bind_returns.mpr ⟨_, before, rfl, returns_onBoard ran⟩, rfl⟩

theorem blockOfSector_sectorOfBlock (block : Block) :
    blockOfSector (sectorOfBlock block) = block := by
  funext i
  unfold blockOfSector sectorOfBlock
  dsimp only
  rw [lowByte_append, highByte_append]
  split
  · next even =>
    refine congrArg block (Fin.ext ?_)
    show 2 * (i.val / 2) = i.val
    omega
  · next odd =>
    refine congrArg block (Fin.ext ?_)
    show 2 * (i.val / 2) + 1 = i.val
    omega

theorem sectorOf_loadWords (memory : Memory) (buffer : Address) :
    sectorOf (loadWords memory buffer) 0 = sectorOfBlock (blockAt memory buffer) := by
  funext i
  have inside : i.val < (loadWords memory buffer).length := by
    rw [loadWords_length]
    exact i.isLt
  have at1 := List.getElem?_eq_getElem inside
  have word := loadWords_getElem? memory buffer i.val _ at1
  rw [sectorOf, received, if_pos i.isLt, Nat.mul_zero, List.drop_zero, List.getD_eq_getElem?_getD,
    at1, Option.getD_some, word, bswap, lowByte_append, highByte_append]
  rfl

theorem write_completes (start : Firmware) (idle : Idle start) (sd : Sd) (sector : BitVec 32)
    (small : sector.toNat < 2 ^ 28) (ready : sd.ready = true)
    (inside : blockOf sd sector < sd.card.sectors) (memory bounce : Memory) (buffer : Address) :
    ∃ turns after, picoideWriteSector sector buffer (restingComputer start sd memory bounce turns) =
        (some 512, after) ∧
      after.sd.card.block (blockOf sd sector) = blockAt memory buffer := by
  let r : Request :=
    { start := start
      sd := sd
      sector := sector
      writes := true
      data := fun _ => 0 }
  obtain ⟨c, ⟨turns, ran⟩, stored⟩ := attains_writeSector (r := r) idle small rfl ready inside
    (loadWords memory buffer) (loadWords_length _ _)
  let before := restingComputer start sd memory bounce (turns ++ [])
  have own : Disks.picoideWriteSector port sector (loadWords before.memory buffer) before.board =
      (some 512, ⟨c, []⟩) := ran []
  obtain ⟨after, returns, board⟩ := returns_picoideWriteSector buffer own
  refine ⟨_, after, returns, ?_⟩
  rw [Computer.sd, board, stored, sectorOf_loadWords, blockOfSector_sectorOfBlock]

end OrionBios.SectorPath
