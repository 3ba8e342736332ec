import OrionBios.PicoIde.Phases

/-!
# A command opens a phase

A command that arrives while core 1 owes nothing puts the firmware into the first phase
of its order. With the steps between commands this makes the phases an invariant of
every run whose commands arrive so.
-/

namespace OrionBios.PicoIde

open Transition

variable {s : Firmware} {l : Ledger} {phase : Phase} {cmd : Byte}

theorem inPhase_rest {order : Order} (card : BitVec 32 → Sector) (kind : order.kind = .none)
    (work : workOf s = noWork) (dir : s.dir = .none)
    (status : s.regStatus = IDE_STATUS_DRDY ∨ s.regStatus = errorStatus) (same : s.card = card) :
    InPhase s (openLedger order card) .rest where
  suits := kind
  work := work
  dir := dir
  shows := status
  counted _ here := by cases here
  holding := trivial
  words delivers := absurd kind delivers.not_none
  begun := by simp [openLedger, Order.calls, kind]
  failures := rfl
  card _ := same
  written write := by
    have none : order.kind = .write := write
    rw [kind] at none
    cases none

theorem InPhase.dir_of_noWork (inPhase : InPhase s l phase) (work : workOf s = noWork) :
    s.dir = .none := by
  have same := inPhase.work.symm.trans work
  rw [inPhase.dir]
  cases phase with
  | rest | done | failed => rfl
  | fetchWanted | fetching | flushWanted | flushing => cases same
  | sending k position =>
      rcases Nat.lt_or_eq_of_le inPhase.holding.1 with small | rfl
      · have dmaB := congrArg Work.dmaB same
        rw [Phase.work, channel_of_lt _ small] at dmaB
        cases dmaB
      · cases congrArg Work.ints0 same
  | receiving k position =>
      rcases Nat.lt_or_eq_of_le inPhase.holding.1 with small | rfl
      · have dmaC := congrArg Work.dmaC same
        rw [Phase.work, channel_of_lt _ small] at dmaC
        cases dmaC
      · cases congrArg Work.ints1 same

/-- The firmware of a command before its own branch runs. -/
def accepted (s : Firmware) : Firmware :=
  { s with regErrorFeatures := 0x00, regStatus := IDE_STATUS_DRDY ||| IDE_STATUS_BSY }

theorem inPhase_read (s : Firmware) (flush : s.needFlush = false) (call : s.core1.call = none) :
    InPhase (beginReadSequence (accepted s)) (openLedger (orderOf IDE_CMD_READ_SECTORS s) s.card)
      (.fetchWanted 0) where
  suits := rfl
  work := workOf_eq.mpr ⟨rfl, flush, call, rfl, rfl, rfl, rfl⟩
  dir := rfl
  shows := by
    show (busyStatus ||| IDE_STATUS_BSY) &&& ~~~IDE_STATUS_DRQ = busyStatus
    decide
  counted k here := by
    cases here
    exact ⟨Nat.add_zero _, sectorCountFromReg_pos s, (BitVec.add_zero _).symm⟩
  holding := ⟨rfl, rfl⟩
  words _ := ⟨rfl, Nat.zero_le _⟩
  begun := rfl
  failures := rfl
  card _ := rfl
  written write := by cases write

theorem filled_nothing (buffer : Sector) : Filled buffer [] [] 0 0 where
  buffer_eq := (received_zero _ _).symm
  fifo_eq := rfl
  enough := Nat.le_refl _
  room := Nat.zero_le _

theorem inPhase_write (s : Firmware) (fetch : s.needFetch = false) (flush : s.needFlush = false)
    (call : s.core1.call = none) :
    InPhase (beginWriteSequence (accepted s)) (openLedger (orderOf IDE_CMD_WRITE_SECTORS s) s.card)
      (.receiving 0 0) := by
  let waiting : Firmware := { resetDataPath (accepted s) with
    dir := .write
    lba := currentLbaFromRegs s
    remainingSectors := sectorCountFromReg s
    activeBuf := 0
    bufReady := fun _ => false }
  have armed := armDmaCIntoBuffer_eq (s := waiting) 0 rfl (Nat.zero_le _)
  have begun : beginWriteSequence (accepted s) = setDrq (receiveAt waiting 0 0 []) :=
    congrArg setDrq armed
  have status : (busyStatus ||| IDE_STATUS_DRQ) &&& ~~~IDE_STATUS_BSY = drqStatus := by decide
  rw [begun]
  exact
    { suits := rfl
      work := workOf_eq.mpr ⟨fetch, flush, call, rfl, rfl, rfl, rfl⟩
      dir := rfl
      shows := .inl status
      counted := fun k here => by
        cases here
        exact ⟨Nat.add_zero _, sectorCountFromReg_pos s, (BitVec.add_zero _).symm⟩
      holding := ⟨Nat.zero_le _, filled_nothing _, .inr rfl⟩
      words := fun delivers => absurd rfl delivers.not_write
      begun := rfl
      failures := rfl
      card := fun other => absurd rfl other
      written := fun _ => ⟨rfl, Nat.zero_le _⟩ }

theorem inPhase_identify (s : Firmware) (known : s.sdSectors ≠ 0) (fetch : s.needFetch = false)
    (flush : s.needFlush = false) (call : s.core1.call = none) :
    InPhase (beginIdentify (accepted s)) (openLedger (orderOf IDE_CMD_IDENTIFY s) s.card)
      (.sending 0 4) := by
  let composed : Firmware := { setBusy (resetDataPath (accepted s)) with
    dir := .read
    remainingSectors := 1
    activeBuf := 0
    buf := Function.update s.buf 0 (buildIdentify s.sdSectors)
    bufReady := Function.update (fun _ => false) 0 true }
  have armed := armDmaBFromBuffer_eq (s := composed) 0 rfl (Nat.zero_le _)
  have begun : beginIdentify (accepted s) = setDrq (armDmaBFromBuffer 0 composed) := if_neg known
  have block : composed.buf 0 = buildIdentify s.sdSectors :=
    Function.update_self 0 (buildIdentify s.sdSectors) s.buf
  have order : orderOf IDE_CMD_IDENTIFY s =
      { kind := .identify s.sdSectors, first := s.lba, count := 1 } := by
    rw [orderOf, if_neg (by decide), if_neg (by decide), if_pos ⟨rfl, known⟩]
  have delivers : (orderOf IDE_CMD_IDENTIFY s).Delivers := by
    rw [order]
    exact .inr ⟨⟨_, rfl⟩, rfl⟩
  have status : (((busyStatus ||| IDE_STATUS_BSY) &&& ~~~IDE_STATUS_DRQ) ||| IDE_STATUS_DRQ) &&&
      ~~~IDE_STATUS_BSY = drqStatus := by decide
  rw [begun, armed]
  exact
    { suits := delivers
      work := workOf_eq.mpr ⟨fetch, flush, call, rfl, rfl, rfl, rfl⟩
      dir := rfl
      shows := status
      counted := fun k here => by
        cases here
        rw [openLedger, order]
        exact ⟨rfl, Nat.one_pos, (BitVec.add_zero _).symm⟩
      holding := by
        refine ⟨by decide, ?_, .inr ?_⟩
        · rw [openLedger, order]
          exact block
        · simp [setDrq, sendAt, composed, resetDataPath, setBusy, sectorWords_length]
      words := fun _ => by
        simp only [setDrq, sendAt, openLedger, order, Phase.sent, Phase.moved, Order.sector, block]
        simp [composed, resetDataPath, setBusy, Order.words, sectorWords_length]
      begun := by
        rw [openLedger, order]
        rfl
      failures := rfl
      card := fun _ => rfl
      written := fun write => absurd write delivers.not_write }

theorem inPhase_finish (error : Byte) (s : Firmware) {order : Order} (kind : order.kind = .none)
    (fetch : s.needFetch = false) (flush : s.needFlush = false) (call : s.core1.call = none) :
    InPhase (finishAtOnce error (accepted s)) (openLedger order s.card) .rest :=
  inPhase_rest s.card kind (workOf_eq.mpr ⟨fetch, flush, call, rfl, rfl, rfl, rfl⟩) rfl (.inl rfl)
    rfl

theorem orderOf_none (read : cmd ≠ IDE_CMD_READ_SECTORS) (write : cmd ≠ IDE_CMD_WRITE_SECTORS)
    (identify : cmd ≠ IDE_CMD_IDENTIFY ∨ s.sdSectors = 0) : (orderOf cmd s).kind = .none := by
  have refused : ¬ (cmd = IDE_CMD_IDENTIFY ∧ s.sdSectors ≠ 0) := fun ⟨same, known⟩ =>
    identify.elim (fun other => other same) known
  rw [orderOf, if_neg read, if_neg write, if_neg refused]

theorem InPhase.refuse (inPhase : InPhase s l phase) (clear : Clear s cmd)
    (read : cmd ≠ IDE_CMD_READ_SECTORS) (diagnostic : cmd ≠ IDE_CMD_DIAGNOSTIC)
    (nop : ¬ isNop cmd = true) (kind : (orderOf cmd s).kind = .none) :
    InPhase (abortCommand (accepted s)) (openLedger (orderOf cmd s) s.card) .rest := by
  have fetch : s.needFetch = false := clear.fetch.resolve_right read
  obtain ⟨dmaB, dmaC, ints0, ints1, _⟩ :=
    ((clear.path.resolve_left (not_not.mpr kind)).resolve_left diagnostic).resolve_left nop
  have work : workOf s = noWork :=
    workOf_eq.mpr ⟨fetch, clear.flush, clear.call, dmaB, dmaC, ints0, ints1⟩
  exact inPhase_rest s.card kind work (inPhase.dir_of_noWork work) (.inr rfl) rfl

/-- The branches of `dispatch_command`: two refuse, and two answer at once. -/
theorem dispatch_cases (cmd : Byte) (s : Firmware) :
    cmd = IDE_CMD_READ_SECTORS ∧ dispatchCommand cmd s = beginReadSequence (accepted s) ∨
    cmd = IDE_CMD_WRITE_SECTORS ∧ dispatchCommand cmd s = beginWriteSequence (accepted s) ∨
    (cmd = IDE_CMD_IDENTIFY ∧ s.sdSectors ≠ 0) ∧
      dispatchCommand cmd s = beginIdentify (accepted s) ∨
    (cmd ≠ IDE_CMD_READ_SECTORS ∧ (orderOf cmd s).kind = .none) ∧
      ((cmd = IDE_CMD_DIAGNOSTIC ∨ isNop cmd = true) ∧
          (∃ error, dispatchCommand cmd s = finishAtOnce error (accepted s)) ∨
        ¬ (cmd = IDE_CMD_DIAGNOSTIC ∨ isNop cmd = true) ∧
          dispatchCommand cmd s = abortCommand (accepted s)) := by
  have dispatched : dispatchCommand cmd s =
      if cmd = IDE_CMD_READ_SECTORS then beginReadSequence (accepted s)
      else if cmd = IDE_CMD_WRITE_SECTORS then beginWriteSequence (accepted s)
      else if cmd = IDE_CMD_IDENTIFY then beginIdentify (accepted s)
      else if cmd = IDE_CMD_DIAGNOSTIC then finishAtOnce 0x01 (accepted s)
      else if isNop cmd then finishAtOnce 0x00 (accepted s)
      else abortCommand (accepted s) := rfl
  by_cases read : cmd = IDE_CMD_READ_SECTORS
  · exact .inl ⟨read, dispatched.trans (if_pos read)⟩
  rw [if_neg read] at dispatched
  by_cases write : cmd = IDE_CMD_WRITE_SECTORS
  · exact .inr (.inl ⟨write, dispatched.trans (if_pos write)⟩)
  rw [if_neg write] at dispatched
  by_cases identify : cmd = IDE_CMD_IDENTIFY
  · rw [if_pos identify] at dispatched
    by_cases known : s.sdSectors = 0
    · refine .inr (.inr (.inr ⟨⟨read, orderOf_none read write (.inr known)⟩, .inr ⟨?_, ?_⟩⟩))
      · rw [identify]
        decide
      · exact dispatched.trans (if_pos known)
    · exact .inr (.inr (.inl ⟨⟨identify, known⟩, dispatched⟩))
  rw [if_neg identify] at dispatched
  refine .inr (.inr (.inr ⟨⟨read, orderOf_none read write (.inl identify)⟩, ?_⟩))
  by_cases diagnostic : cmd = IDE_CMD_DIAGNOSTIC
  · exact .inl ⟨.inl diagnostic, _, dispatched.trans (if_pos diagnostic)⟩
  rw [if_neg diagnostic] at dispatched
  by_cases nop : isNop cmd = true
  · exact .inl ⟨.inr nop, _, dispatched.trans (if_pos nop)⟩
  · exact .inr ⟨not_or.mpr ⟨diagnostic, nop⟩, dispatched.trans (if_neg nop)⟩

theorem InPhase.dispatch (inPhase : InPhase s l phase) (clear : Clear s cmd) :
    ∃ phase', InPhase (dispatchCommand cmd s) (openLedger (orderOf cmd s) s.card) phase' := by
  have flush := clear.flush
  have call := clear.call
  rcases dispatch_cases cmd s with ⟨rfl, branch⟩ | ⟨rfl, branch⟩ | ⟨⟨rfl, known⟩, branch⟩ |
    ⟨⟨read, kind⟩, ⟨_, error, branch⟩ | ⟨notAtOnce, branch⟩⟩
  · rw [branch]
    exact ⟨_, inPhase_read s flush call⟩
  · rw [branch]
    exact ⟨_, inPhase_write s (clear.fetch.resolve_right (by decide)) flush call⟩
  · rw [branch]
    exact ⟨_, inPhase_identify s known (clear.fetch.resolve_right (by decide)) flush call⟩
  · rw [branch]
    exact ⟨_, inPhase_finish error s kind (clear.fetch.resolve_right read) flush call⟩
  · rw [branch]
    exact ⟨_, inPhase.refuse clear read (not_or.mp notAtOnce).1 (not_or.mp notAtOnce).2 kind⟩

/-! ## Register accesses -/

theorem writeRegister_command {raw : Raw} (command : rawAddr raw = IDE_REG_STATUS_CMD) :
    writeRegister raw s = dispatchCommand (rawData raw) s := by
  simp only [writeRegister, command]
  rfl

theorem InPhase.writeRegister {raw : Raw} (inPhase : InPhase s l phase)
    (clear : rawAddr raw = IDE_REG_STATUS_CMD → Clear s (rawData raw)) :
    ∃ phase', InPhase (writeRegister raw s) (recordWrite raw s l) phase' := by
  by_cases command : rawAddr raw = IDE_REG_STATUS_CMD
  · rw [writeRegister_command command, recordWrite, if_pos command]
    exact inPhase.dispatch (clear command)
  · simp only [PicoIde.writeRegister, recordWrite, if_neg command]
    refine ⟨phase, ?_⟩
    split
    · exact inPhase.withRegisters _ _ _ _ _ _
    split
    · exact inPhase.withRegisters _ _ _ _ _ _
    split
    · exact inPhase.withRegisters _ _ _ _ _ _
    split
    · exact inPhase.withRegisters _ _ _ _ _ _
    split
    · exact inPhase.withRegisters _ _ _ _ _ _
    split
    · exact inPhase.withRegisters _ _ _ _ _ _
    · exact inPhase

/-- A status read may set busy a sector that `DMA_C` has received. -/
theorem InPhase.statusPatch (inPhase : InPhase s l phase) : InPhase (statusPatch s) l phase := by
  unfold PicoIde.statusPatch
  by_cases stale : s.dir = .write ∧ s.regStatus &&& IDE_STATUS_DRQ ≠ 0 ∧ s.dmaC = none
  · obtain ⟨dir, drq, idle⟩ := stale
    rw [if_pos ⟨dir, drq, idle⟩]
    have busy : busyStatus &&& IDE_STATUS_DRQ = 0 := by decide
    have shows := inPhase.shows
    rw [inPhase.dir] at dir
    cases phase with
    | rest | done | failed | fetchWanted | fetching | sending => cases dir
    | flushWanted | flushing =>
        rw [show s.regStatus = busyStatus from shows] at drq
        exact absurd busy drq
    | receiving k position =>
        have dmaC : s.dmaC = channel 0 position := (workOf_eq.mp inPhase.work).2.2.2.2.1
        have last : position = 256 := by
          by_contra notLast
          rw [idle, channel_of_lt _ (Nat.lt_of_le_of_ne inPhase.holding.1 notLast)] at dmaC
          exact Option.some_ne_none _ dmaC.symm
        have waiting : s.regStatus = drqStatus := by
          refine shows.resolve_right fun ⟨_, already⟩ => drq ?_
          rw [already]
          exact busy
        have status : (drqStatus ||| IDE_STATUS_BSY) &&& ~~~IDE_STATUS_DRQ = busyStatus := by decide
        exact
          { inPhase with
            shows := by
              refine .inr ⟨last, ?_⟩
              rw [setBusy, waiting]
              exact status }
  · rw [if_neg stale]
    exact inPhase

/-- After the correction of a status read a write shows DRQ only while `DMA_C` is busy. -/
theorem statusPatch_fresh (dir : (statusPatch s).dir = .write)
    (drq : (statusPatch s).regStatus &&& IDE_STATUS_DRQ ≠ 0) : (statusPatch s).dmaC ≠ none := by
  unfold statusPatch at dir drq ⊢
  by_cases stale : s.dir = .write ∧ s.regStatus &&& IDE_STATUS_DRQ ≠ 0 ∧ s.dmaC = none
  · simp only [if_pos stale, setBusy] at drq
    have gone : ~~~IDE_STATUS_DRQ &&& IDE_STATUS_DRQ = 0 := by decide
    rw [BitVec.and_assoc, gone] at drq
    exact absurd BitVec.and_zero drq
  · simp only [if_neg stale] at dir drq ⊢
    exact fun idle => stale ⟨dir, drq, idle⟩

theorem InPhase.readRegister (inPhase : InPhase s l phase) (raw : Raw) :
    InPhase (readRegister raw s).2 l phase := by
  unfold PicoIde.readRegister
  by_cases status : rawAddr raw = IDE_REG_STATUS_CMD
  · rw [if_pos status]
    exact inPhase.statusPatch
  · rw [if_neg status]
    exact inPhase

/-! ## Runs -/

/-- Every command arrives while core 1 owes nothing to an earlier one. -/
def Undisturbed (s : Bus) : Label → Prop
  | .writeIsr =>
    match s.access with
    | some (.write raw) => rawAddr raw = IDE_REG_STATUS_CMD → Clear s.firmware (rawData raw)
    | _ => True
  | _ => True

instance (s : Bus) (label : Label) : Decidable (Undisturbed s label) := by
  unfold Undisturbed
  split
  · split
    · infer_instance
    · exact .isTrue trivial
  · exact .isTrue trivial

theorem InPhase.step {s t : Bus} {l : Ledger} {phase : Phase} {label : Label}
    (inPhase : InPhase s.firmware l phase) (undisturbed : Undisturbed s label)
    (taken : busStep s label = some t) :
    ∃ phase', InPhase t.firmware (record s l label) phase' := by
  cases label with
  | access access =>
      cases waiting : s.access with
      | none =>
          simp only [busStep, waiting, Option.some.injEq] at taken
          subst taken
          exact ⟨phase, inPhase⟩
      | some other =>
          simp only [busStep, waiting] at taken
          cases taken
  | writeIsr =>
      simp only [busStep] at taken
      simp only [Undisturbed] at undisturbed
      unfold record
      split at taken
      case h_1 raw waiting =>
          rw [waiting] at undisturbed
          cases taken
          exact inPhase.writeRegister undisturbed
      case h_2 => cases taken
  | readIsr =>
      simp only [busStep] at taken
      split at taken
      case h_1 raw waiting =>
          cases taken
          exact ⟨phase, inPhase.readRegister raw⟩
      case h_2 => cases taken
  | event event =>
      obtain ⟨next, stepped, rfl⟩ := Option.map_eq_some_iff.mp taken
      exact inPhase.event stepped

def initialRecorded (firmware : Firmware) : Recorded where
  bus := { firmware := firmware, access := none }
  ledger := openLedger noOrder firmware.card

/-- The recorded disk is in a phase of the current command. -/
def Proceeds (s : Recorded) : Prop := ∃ phase, InPhase s.bus.firmware s.ledger phase

theorem proceeds_step {s t : Recorded} {label : Label} (proceeds : Proceeds s)
    (undisturbed : Undisturbed s.bus label) (taken : recordedStep s label = some t) :
    Proceeds t := by
  obtain ⟨phase, inPhase⟩ := proceeds
  obtain ⟨stepped, ledger⟩ := recordedStep_eq_some.mp taken
  obtain ⟨phase', inPhase'⟩ := inPhase.step undisturbed stepped
  exact ⟨phase', ledger ▸ inPhase'⟩

theorem inPhase_initial (sdSectors : BitVec 32) (card : BitVec 32 → Sector) (buf : Fin 2 → Sector) :
    InPhase (initialFirmware sdSectors card buf) (openLedger noOrder card) .rest :=
  inPhase_rest card rfl rfl rfl (.inl rfl) rfl

end OrionBios.PicoIde
