import OrionBios.Machine.Scheduled
import OrionBios.SectorPath.Asking

/-!
# What the driver cannot see

The ledger of the disk, the firmware's own picture of the card and the last answer on the bus are
there for the proofs. Boards that differ only in them behave alike.
-/

namespace OrionBios.SectorPath

open Machine (Lockstep Program Scheduled await lockstep_await lockstep_ite lockstep_pure
  rel_of_steps)
open PicoIde Transition

/-! ## The firmware in front of another card -/

def onto (card : BitVec 32 → Sector) (s : Firmware) : Firmware := { s with card := card }

variable (card : BitVec 32 → Sector) (s : Firmware)

theorem moveB_onto : moveB (onto card s) = onto card (moveB s) := by
  cases busy : s.dmaB with
  | none => simp only [moveB, onto, busy]
  | some dma =>
      simp only [moveB, onto, busy]
      split
      · split <;> rfl
      · rw [busy]

theorem moveC_onto : moveC (onto card s) = onto card (moveC s) := by
  cases busy : s.dmaC with
  | none => simp only [moveC, onto, busy]
  | some dma =>
      cases words : s.dataRx with
      | nil => simp only [moveC, onto, busy, words]
      | cons word rest =>
          simp only [moveC, onto, busy, words]
          split <;> rfl

theorem pumpB_onto : pumpB (onto card s) = onto card (pumpB s) := by
  simp only [pumpB, moveB_onto]

theorem pumpC_onto : pumpC (onto card s) = onto card (pumpC s) := by
  simp only [pumpC, moveC_onto]

theorem armDmaBFromBuffer_onto (buffer : Fin 2) :
    armDmaBFromBuffer buffer (onto card s) = onto card (armDmaBFromBuffer buffer s) :=
  pumpB_onto card { s with dmaB := some { buffer := buffer, next := 0 } }

theorem armDmaCIntoBuffer_onto (buffer : Fin 2) :
    armDmaCIntoBuffer buffer (onto card s) = onto card (armDmaCIntoBuffer buffer s) :=
  pumpC_onto card { s with dmaC := some { buffer := buffer, next := 0 } }

theorem setDrq_onto : setDrq (onto card s) = onto card (setDrq s) :=
  rfl

theorem beginWriteSequence_onto :
    beginWriteSequence (onto card s) = onto card (beginWriteSequence s) := by
  unfold beginWriteSequence
  rw [← setDrq_onto, ← armDmaCIntoBuffer_onto]
  rfl

theorem beginIdentify_onto : beginIdentify (onto card s) = onto card (beginIdentify s) := by
  unfold beginIdentify
  rw [show (onto card s).sdSectors = s.sdSectors from rfl]
  split
  · rfl
  · rw [← setDrq_onto, ← armDmaBFromBuffer_onto]
    rfl

theorem dispatchCommand_onto (cmd : Byte) :
    dispatchCommand cmd (onto card s) = onto card (dispatchCommand cmd s) := by
  let busy : Firmware :=
    { s with regErrorFeatures := 0x00, regStatus := IDE_STATUS_DRDY ||| IDE_STATUS_BSY }
  unfold dispatchCommand
  dsimp only
  split
  · rfl
  split
  · exact beginWriteSequence_onto card busy
  split
  · exact beginIdentify_onto card busy
  split
  · rfl
  split
  · rfl
  · rfl

theorem writeRegister_onto (raw : Raw) :
    writeRegister raw (onto card s) = onto card (writeRegister raw s) := by
  unfold writeRegister
  dsimp only
  split
  · rfl
  split
  · rfl
  split
  · rfl
  split
  · rfl
  split
  · rfl
  split
  · rfl
  split
  · exact dispatchCommand_onto card s _
  · rfl

theorem statusPatch_onto : statusPatch (onto card s) = onto card (statusPatch s) := by
  unfold statusPatch
  rw [show (onto card s).dir = s.dir from rfl, show (onto card s).regStatus = s.regStatus from rfl,
    show (onto card s).dmaC = s.dmaC from rfl]
  split <;> rfl

theorem readRegister_onto (raw : Raw) :
    readRegister raw (onto card s) =
      ((readRegister raw s).1, onto card (readRegister raw s).2) := by
  unfold readRegister
  dsimp only
  split
  · rw [statusPatch_onto]
    rfl
  · rfl

theorem dmaBIrqHandler_onto : dmaBIrqHandler (onto card s) = onto card (dmaBIrqHandler s) := by
  unfold dmaBIrqHandler
  rw [show (onto card s).remainingSectors = s.remainingSectors from rfl]
  dsimp only
  split <;> rfl

theorem dmaCIrqHandler_onto : dmaCIrqHandler (onto card s) = onto card (dmaCIrqHandler s) :=
  rfl

theorem fetchReturned_onto (buffer : Fin 2) (lba : BitVec 32) (ok : Bool)
    (same : card lba = s.card lba) :
    fetchReturned buffer lba ok (onto card s) = onto card (fetchReturned buffer lba ok s) := by
  cases ok with
  | true =>
      let filled : Firmware := { s with
        buf := Function.update s.buf buffer (s.card lba)
        bufReady := Function.update s.bufReady buffer true }
      have left : fetchReturned buffer lba true (onto card s) =
          if s.dir = .read ∧ s.activeBuf = buffer ∧ s.regStatus &&& IDE_STATUS_BSY ≠ 0 then
            setDrq (armDmaBFromBuffer buffer (onto card filled))
          else onto card filled := by
        unfold fetchReturned
        rw [show (onto card s).card lba = s.card lba from same]
        rfl
      have right : fetchReturned buffer lba true s =
          if s.dir = .read ∧ s.activeBuf = buffer ∧ s.regStatus &&& IDE_STATUS_BSY ≠ 0 then
            setDrq (armDmaBFromBuffer buffer filled)
          else filled := rfl
      rw [left, right, armDmaBFromBuffer_onto, setDrq_onto]
      split <;> rfl
  | false => rfl

theorem flushReturned_onto (buffer : Fin 2) (lba : BitVec 32) (ok : Bool) :
    ∃ card', flushReturned buffer lba ok (onto card s) =
      onto card' (flushReturned buffer lba ok s) := by
  cases ok with
  | true =>
      let written : Firmware := { s with
        card := Function.update s.card lba (s.buf buffer)
        bufReady := Function.update s.bufReady buffer false
        remainingSectors := s.remainingSectors - 1 }
      let card' := Function.update card lba (s.buf buffer)
      have left : flushReturned buffer lba true (onto card s) =
          if s.remainingSectors - 1 = 0 then onto card' { setReadyIdle written with dir := .none }
          else setDrq (armDmaCIntoBuffer 0 (onto card' { written with lba := lba + 1 })) := rfl
      have right : flushReturned buffer lba true s =
          if s.remainingSectors - 1 = 0 then { setReadyIdle written with dir := .none }
          else setDrq (armDmaCIntoBuffer 0 { written with lba := lba + 1 }) := rfl
      refine ⟨card', ?_⟩
      rw [left, right, armDmaCIntoBuffer_onto, setDrq_onto]
      split <;> rfl
  | false => exact ⟨card, rfl⟩

/-- A half of a branch of `ide_interface_task`; what a fetch hands on is the same in both. -/
theorem core1Step_onto (ok : Bool)
    (same : ∀ buffer lba, s.core1 = .fetching buffer lba → card lba = s.card lba) :
    ∃ card', core1Step ok (onto card s) = onto card' (core1Step ok s) := by
  have at1' : (onto card s).core1 = s.core1 := rfl
  unfold core1Step
  rw [at1']
  cases at1 : s.core1 with
  | testFetch =>
      refine ⟨card, ?_⟩
      rw [show (onto card s).needFetch = s.needFetch from rfl]
      dsimp only
      split <;> rfl
  | fetching buffer lba =>
      refine ⟨card, ?_⟩
      dsimp only
      rw [fetchReturned_onto card s buffer lba ok (same buffer lba at1)]
      rfl
  | testFlush =>
      refine ⟨card, ?_⟩
      rw [show (onto card s).needFlush = s.needFlush from rfl]
      dsimp only
      split <;> rfl
  | flushing buffer lba =>
      obtain ⟨card', returned⟩ := flushReturned_onto card s buffer lba ok
      refine ⟨card', ?_⟩
      dsimp only
      rw [returned]
      rfl

theorem core1OnCard_onto (answer : Answer) (sd : Sd) :
    ∃ card', core1OnCard answer (onto card s) sd =
      (onto card' (core1OnCard answer s sd).1, (core1OnCard answer s sd).2) := by
  have free (ok : Bool) (other : ∀ buffer lba, s.core1 ≠ .fetching buffer lba) :
      ∃ card', core1Step ok (onto card s) = onto card' (core1Step ok s) :=
    core1Step_onto card s ok fun buffer lba at1 => absurd at1 (other buffer lba)
  have at1' : (onto card s).core1 = s.core1 := rfl
  unfold core1OnCard
  rw [at1']
  cases at1 : s.core1 with
  | testFetch =>
      obtain ⟨card', turned⟩ := free true (by rw [at1]; exact fun _ _ => Core1.noConfusion)
      exact ⟨card', by dsimp only; rw [turned]⟩
  | fetching buffer lba =>
      dsimp only
      split
      · next block sd' read =>
        let fetched : Firmware := { s with
          core1 := .fetching buffer lba
          card := Function.update s.card lba (sectorOfBlock block) }
        let card' := Function.update card lba (sectorOfBlock block)
        have same : card' lba = fetched.card lba := by
          show Function.update card lba _ lba = Function.update s.card lba _ lba
          rw [Function.update_self, Function.update_self]
        obtain ⟨card'', turned⟩ := core1Step_onto card' fetched true fun buffer' lba' at2 => by
          cases at2
          exact same
        exact ⟨card'', Prod.ext turned rfl⟩
      · next sd' failed =>
        refine ⟨card, ?_⟩
        have returned : core1Step false (onto card s) = onto card (core1Step false s) := by
          unfold core1Step
          rw [at1', at1]
          rfl
        rw [returned]
  | testFlush =>
      obtain ⟨card', turned⟩ := free true (by rw [at1]; exact fun _ _ => Core1.noConfusion)
      exact ⟨card', by dsimp only; rw [turned]⟩
  | flushing buffer lba =>
      rw [show (onto card s).buf = s.buf from rfl]
      dsimp only
      obtain ⟨card', turned⟩ := free
        (yourSdDriverWriteBlock lba (blockOfSector (s.buf buffer)) answer sd).1
        (by rw [at1]; exact fun _ _ => Core1.noConfusion)
      exact ⟨card', Prod.ext turned rfl⟩

/-! ## Boards that behave alike -/

/-- Boards that differ in the ledger, in the firmware's picture of the card and in the last answer
at most. -/
structure Alike (b c : Board) : Prop where
  firmware : ∃ card, c.firmware = onto card b.firmware
  access : c.access = b.access
  sd : c.sd = b.sd

structure Answered (b c : Board) : Prop where
  reading : ∀ raw, b.access ≠ some (.write raw)
  answer : b.access = none → c.answer = b.answer

variable {b c : Board} {turn : DiskTurn}

theorem Alike.symm (alike : Alike b c) : Alike c b where
  firmware := by
    obtain ⟨card, same⟩ := alike.firmware
    refine ⟨b.firmware.card, ?_⟩
    rw [same]
    rfl
  access := alike.access.symm
  sd := alike.sd.symm

theorem diskStep_of_stepped (stepped : Stepped b turn c) : diskStep b turn = some c := by
  cases stepped with
  | writeIsr raw waiting =>
      simp only [diskStep, Board.take, recordedStep, busStep, record, waiting]
      rfl
  | readIsr raw waiting =>
      simp only [diskStep, Board.take, recordedStep, busStep, record, waiting]
      rfl
  | dmaBIsr pending =>
      simp only [diskStep, Board.take, recordedStep, busStep, eventStep, if_pos pending]
      rfl
  | dmaCIsr pending =>
      simp only [diskStep, Board.take, recordedStep, busStep, eventStep, if_pos pending]
      rfl
  | core1 answer lawful =>
      rw [diskStep, if_pos lawful]

theorem Alike.stepped {b' : Board} (alike : Alike b c) (stepped : Stepped b turn b') :
    ∃ c', Stepped c turn c' ∧ Alike b' c' ∧ (Answered b c → Answered b' c') := by
  obtain ⟨card, same⟩ := alike.firmware
  obtain ⟨⟨⟨firmware, access⟩, ledger⟩, sd, answer⟩ := c
  have sameAccess : access = b.access := alike.access
  have sameSd : sd = b.sd := alike.sd
  cases same
  subst sameAccess sameSd
  cases stepped with
  | writeIsr raw waiting =>
      refine ⟨_, .writeIsr raw waiting, ⟨⟨card, writeRegister_onto card _ raw⟩, rfl, rfl⟩, ?_⟩
      exact fun answered => absurd waiting (answered.reading raw)
  | readIsr raw waiting =>
      have value : (readRegister raw (onto card b.firmware)).1 =
          (readRegister raw b.firmware).1 := by
        rw [readRegister_onto]
      have left : (readRegister raw (onto card b.firmware)).2 =
          onto card (readRegister raw b.firmware).2 := by
        rw [readRegister_onto]
      exact ⟨_, .readIsr raw waiting, ⟨⟨card, left⟩, rfl, rfl⟩,
        fun _ => ⟨fun _ => (Option.some_ne_none _).symm, fun _ => value⟩⟩
  | dmaBIsr pending =>
      exact ⟨_, .dmaBIsr pending, ⟨⟨card, dmaBIrqHandler_onto card _⟩, rfl, rfl⟩,
        fun answered => ⟨answered.reading, answered.answer⟩⟩
  | dmaCIsr pending =>
      exact ⟨_, .dmaCIsr pending, ⟨⟨card, dmaCIrqHandler_onto card _⟩, rfl, rfl⟩,
        fun answered => ⟨answered.reading, answered.answer⟩⟩
  | core1 turned lawful =>
      obtain ⟨card', fetched⟩ := core1OnCard_onto card b.firmware turned b.sd
      have left : (core1OnCard turned (onto card b.firmware) b.sd).1 =
          onto card' (core1OnCard turned b.firmware b.sd).1 := by
        rw [fetched]
      have onCard : (core1OnCard turned (onto card b.firmware) b.sd).2 =
          (core1OnCard turned b.firmware b.sd).2 := by
        rw [fetched]
      exact ⟨_, .core1 turned lawful, ⟨⟨card', left⟩, rfl, onCard⟩,
        fun answered => ⟨answered.reading, answered.answer⟩⟩

theorem Alike.diskStep (alike : Alike b c) (turn : DiskTurn) :
    Option.Rel Alike (diskStep b turn) (diskStep c turn) := by
  refine rel_of_steps (fun b' taken => ?_) fun c' taken => ?_
  · obtain ⟨c', stepped, alike', _⟩ := alike.stepped (stepped_of_diskStep taken)
    exact ⟨c', diskStep_of_stepped stepped, alike'⟩
  · obtain ⟨b', stepped, _⟩ := alike.symm.stepped (stepped_of_diskStep taken)
    exact ⟨b', diskStep_of_stepped stepped⟩

theorem Alike.diskStepReading (both : Alike b c ∧ Answered b c) (turn : DiskTurn) :
    Option.Rel (fun b c => Alike b c ∧ Answered b c) (SectorPath.diskStep b turn)
      (SectorPath.diskStep c turn) := by
  refine rel_of_steps (fun b' taken => ?_) fun c' taken => ?_
  · obtain ⟨c', stepped, alike', answered⟩ := both.1.stepped (stepped_of_diskStep taken)
    exact ⟨c', diskStep_of_stepped stepped, alike', answered both.2⟩
  · obtain ⟨b', stepped, _⟩ := both.1.symm.stepped (stepped_of_diskStep taken)
    exact ⟨b', diskStep_of_stepped stepped⟩

/-! ## Accesses -/

/-- The result of a program, and that it leaves the boards alike. -/
abbrev SameRun {Value : Type} (program : Program (Scheduled Board DiskTurn) Value) : Prop :=
  Lockstep Alike program program Eq Alike

theorem readData_onto (card : BitVec 32 → Sector) (s : Firmware) :
    eventStep (onto card s) .readData = (eventStep s .readData).map (onto card) := by
  cases words : s.dataTx with
  | nil => simp only [eventStep, onto, words, Option.map_none]
  | cons word rest =>
      have left : eventStep (onto card s) .readData =
          some (pumpB (onto card { s with dataTx := rest })) := by
        simp only [eventStep, show (onto card s).dataTx = _ from words]
        rfl
      have right : eventStep s .readData = some (pumpB { s with dataTx := rest }) := by
        simp only [eventStep, words]
      rw [left, right, pumpB_onto]
      rfl

theorem writeData_onto (card : BitVec 32 → Sector) (s : Firmware) (word : Word) :
    eventStep (onto card s) (.writeData word) =
      (eventStep s (.writeData word)).map (onto card) := by
  have left : eventStep (onto card s) (.writeData word) =
      if s.dataRx.length < 4 then
        some (pumpC (onto card { s with dataRx := s.dataRx ++ [word] }))
      else none := rfl
  have right : eventStep s (.writeData word) =
      if s.dataRx.length < 4 then some (pumpC { s with dataRx := s.dataRx ++ [word] })
      else none := rfl
  rw [left, right, pumpC_onto]
  split <;> rfl

/-- An event of the data register, where the firmware does not look at its picture of the card. -/
theorem Alike.take (alike : Alike b c) {event : Event}
    (blind : ∀ card s, eventStep (onto card s) event = (eventStep s event).map (onto card)) :
    Option.Rel Alike (b.take (.event event)) (c.take (.event event)) := by
  obtain ⟨card, same⟩ := alike.firmware
  have seen : eventStep c.firmware event = (eventStep b.firmware event).map (onto card) := by
    rw [same]
    exact blind card b.firmware
  unfold Board.take recordedStep
  simp only [busStep]
  rw [seen]
  cases eventStep b.firmware event with
  | none => exact .none
  | some firmware => exact .some ⟨⟨card, rfl⟩, alike.access, alike.sd⟩

theorem sameRun_readData16 : SameRun port.readData16 := by
  refine lockstep_await (fun _ _ turn alike => alike.diskStep turn) fun b c alike => ?_
  have words : c.firmware.dataTx = b.firmware.dataTx := by
    obtain ⟨card, same⟩ := alike.firmware
    rw [same]
    rfl
  have taken := alike.take readData_onto
  unfold takeWord
  rw [words]
  cases b.firmware.dataTx with
  | nil => exact .none
  | cons word rest =>
      dsimp only
      generalize b.take (.event .readData) = next at taken
      generalize c.take (.event .readData) = next' at taken
      cases taken with
      | none => exact .none
      | some alike' => exact .some ⟨rfl, alike'⟩

theorem sameRun_writeData16 (word : Word) : SameRun (port.writeData16 word) := by
  refine lockstep_await (fun _ _ turn alike => alike.diskStep turn) fun b c alike => ?_
  have given := alike.take fun card s => writeData_onto card s word
  unfold giveWord
  generalize b.take (.event (.writeData word)) = next at given
  generalize c.take (.event (.writeData word)) = next' at given
  cases given with
  | none => exact .none
  | some alike' => exact .some ⟨rfl, alike'⟩

theorem lockstep_beginAccess (access : Access) :
    Lockstep Alike (await diskStep (beginAccess access)) (await diskStep (beginAccess access)) Eq
      fun b c => Alike b c ∧ b.access = some access := by
  refine lockstep_await (fun _ _ turn alike => alike.diskStep turn) fun b c alike => ?_
  unfold beginAccess Board.take recordedStep
  dsimp only [busStep]
  rw [show c.disk.bus.access = b.disk.bus.access from alike.access]
  cases b.disk.bus.access with
  | none => exact .some ⟨rfl, ⟨alike.firmware, rfl, alike.sd⟩, rfl⟩
  | some _ => exact .none

theorem endAccess_alike (alike : Alike b c) {values : Byte → Byte → Prop}
    (same : b.access = none → values b.answer c.answer) :
    Option.Rel (fun outcome outcome' => values outcome.1 outcome'.1 ∧ Alike outcome.2 outcome'.2)
      (endAccess b) (endAccess c) := by
  unfold endAccess
  rw [alike.access]
  cases free : b.access with
  | none => exact .some ⟨same free, alike⟩
  | some _ => exact .none

theorem sameRun_writeRaw (raw : Raw) : SameRun (writeRaw raw) := by
  have ended : Lockstep (fun b c => Alike b c ∧ b.access = some (.write raw))
      (await diskStep endAccess) (await diskStep endAccess) (fun _ _ => True) Alike := by
    have both : Lockstep Alike (await diskStep endAccess) (await diskStep endAccess)
        (fun _ _ => True) Alike :=
      lockstep_await (fun _ _ turn alike => alike.diskStep turn)
        fun b c alike => @endAccess_alike b c alike (fun _ _ => True) fun _ => trivial
    exact both.weaken (fun _ _ both => both.1) (fun _ _ => id) fun _ _ => id
  exact ((lockstep_beginAccess _).bind fun _ _ _ => ended).bind fun _ _ _ => lockstep_pure rfl

theorem sameRun_readRaw (raw : Raw) : SameRun (accessRegister (.read raw)) := by
  refine (lockstep_beginAccess _).bind fun _ _ _ => ?_
  have ended : Lockstep (fun b c => Alike b c ∧ Answered b c) (await diskStep endAccess)
      (await diskStep endAccess) Eq Alike :=
    lockstep_await (fun _ _ turn both => Alike.diskStepReading both turn)
      fun b c both => endAccess_alike both.1 fun free => (both.2.answer free).symm
  refine ended.weaken ?_ (fun _ _ => id) fun _ _ => id
  rintro b c ⟨alike, waiting⟩
  refine ⟨alike, fun other writing => ?_, fun free => ?_⟩
  · cases waiting.symm.trans writing
  · cases waiting.symm.trans free

/-! ## The driver -/

theorem sameRun_pure {Value : Type} (value : Value) :
    SameRun (pure value : Program (Scheduled Board DiskTurn) Value) :=
  lockstep_pure rfl

theorem SameRun.bind {Value Result : Type} {program : Program (Scheduled Board DiskTurn) Value}
    {next : Value → Program (Scheduled Board DiskTurn) Result} (first : SameRun program)
    (second : ∀ value, SameRun (next value)) : SameRun (program >>= next) :=
  Lockstep.bind first fun value value' same => by
    subst same
    exact second value

theorem SameRun.ite {Value : Type} {condition : Prop} [Decidable condition]
    {program other : Program (Scheduled Board DiskTurn) Value} (first : SameRun program)
    (second : SameRun other) : SameRun (if condition then program else other) :=
  lockstep_ite (fun _ => first) fun _ => second

theorem sameRun_waitDrqLoop (rounds : Nat) : SameRun (Disks.picoideWaitDrqLoop port rounds) := by
  induction rounds with
  | zero => exact sameRun_pure _
  | succ rounds inductionHypothesis =>
      refine SameRun.bind (sameRun_readRaw _) fun status => ?_
      refine SameRun.ite inductionHypothesis (SameRun.ite (sameRun_pure _) ?_)
      exact SameRun.ite (sameRun_pure _) inductionHypothesis

theorem sameRun_waitIdleLoop (rounds : Nat) : SameRun (Disks.picoideWaitIdleLoop port rounds) := by
  induction rounds with
  | zero => exact sameRun_pure _
  | succ rounds inductionHypothesis =>
      refine SameRun.bind (sameRun_readRaw _) fun status => ?_
      exact SameRun.ite inductionHypothesis (sameRun_pure _)

theorem sameRun_setLba (sector : BitVec 32) : SameRun (Disks.picoideSetLba port sector) := by
  refine SameRun.bind (sameRun_writeRaw _) fun _ => ?_
  refine SameRun.bind (sameRun_writeRaw _) fun _ => ?_
  refine SameRun.bind (sameRun_writeRaw _) fun _ => ?_
  refine SameRun.bind (sameRun_writeRaw _) fun _ => ?_
  exact sameRun_writeRaw _

theorem sameRun_report : SameRun (Disks.picoideReport port) := by
  refine SameRun.bind (sameRun_readRaw _) fun _ => ?_
  exact SameRun.bind (sameRun_readRaw _) fun _ => sameRun_pure _

theorem sameRun_readWords (count : Nat) : SameRun (Disks.readWords port count) := by
  induction count with
  | zero => exact sameRun_pure _
  | succ count inductionHypothesis =>
      refine SameRun.bind sameRun_readData16 fun word => ?_
      exact SameRun.bind inductionHypothesis fun rest => sameRun_pure _

theorem sameRun_writeWords (words : List Word) : SameRun (Disks.writeWords port words) := by
  induction words with
  | nil => exact sameRun_pure _
  | cons word rest inductionHypothesis =>
      exact SameRun.bind (sameRun_writeData16 word) fun _ => inductionHypothesis

theorem sameRun_readSector (sector : BitVec 32) :
    SameRun (Disks.picoideReadSector port sector) := by
  refine SameRun.bind (sameRun_setLba sector) fun _ => ?_
  refine SameRun.bind (sameRun_writeRaw _) fun _ => ?_
  refine SameRun.bind (sameRun_waitDrqLoop _) fun ready => ?_
  refine SameRun.ite (SameRun.bind sameRun_report fun _ => sameRun_pure _) ?_
  refine SameRun.bind (sameRun_readWords 256) fun dst => ?_
  refine SameRun.bind (sameRun_waitIdleLoop _) fun idle => ?_
  exact SameRun.ite (SameRun.bind sameRun_report fun _ => sameRun_pure _) (sameRun_pure _)

theorem sameRun_writeSector (sector : BitVec 32) (src : List Word) :
    SameRun (Disks.picoideWriteSector port sector src) := by
  refine SameRun.bind (sameRun_setLba sector) fun _ => ?_
  refine SameRun.bind (sameRun_writeRaw _) fun _ => ?_
  refine SameRun.bind (sameRun_waitDrqLoop _) fun ready => ?_
  refine SameRun.ite (SameRun.bind sameRun_report fun _ => sameRun_pure _) ?_
  refine SameRun.bind (sameRun_writeWords src) fun _ => ?_
  refine SameRun.bind (sameRun_waitIdleLoop _) fun idle => ?_
  exact SameRun.ite (SameRun.bind sameRun_report fun _ => sameRun_pure _) (sameRun_pure _)

end OrionBios.SectorPath
