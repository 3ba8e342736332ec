import OrionBios.PicoIde.Commands

/-!
# Work of an earlier command

The firmware does not mark for which command a request, a call of the SD driver or a
channel works. Here every piece of work is tagged with the command that ordered it, so
that a step done for an earlier command can be told from one done for the current.
-/

namespace OrionBios.PicoIde

open Transition

/-- For which command each piece of work is done. A channel's tag goes with its interrupt,
and each word in the TX FIFO has one. -/
structure Owners where
  fetch : Nat
  flush : Nat
  call : Nat
  dmaB : Nat
  dmaC : Nat
  tx : List Nat

structure Tagged where
  bus : Bus
  /-- The number of commands accepted so far, which is the tag of the current one. -/
  command : Nat
  owners : Owners

/-! ## How the tags follow the work -/

/-- The tags of the TX FIFO when words of `owner` have come behind those that were kept. -/
def tagTx (kept : List Nat) (owner : Nat) (after : Firmware) : List Nat :=
  kept ++ List.replicate (after.dataTx.length - kept.length) owner

/-- Whether an SD read that returns starts `DMA_B`. -/
def StartsDmaB (s : Firmware) (buffer : Fin 2) : Prop :=
  s.dir = .read ∧ s.activeBuf = buffer ∧ s.regStatus &&& IDE_STATUS_BSY ≠ 0

instance (s : Firmware) (buffer : Fin 2) : Decidable (StartsDmaB s buffer) :=
  inferInstanceAs (Decidable (_ ∧ _))

def ownCore1 (o : Owners) (s : Firmware) (ok : Bool) (after : Firmware) : Owners :=
  match s.core1 with
  | .testFetch => if s.needFetch then { o with call := o.fetch } else o
  | .testFlush => if s.needFlush then { o with call := o.flush } else o
  | .fetching buffer _ =>
    if ok ∧ StartsDmaB s buffer then { o with dmaB := o.call, tx := tagTx o.tx o.call after } else o
  | .flushing _ _ => if ok ∧ s.remainingSectors - 1 ≠ 0 then { o with dmaC := o.call } else o

def ownEvent (o : Owners) (s : Firmware) (event : Event) (after : Firmware) : Owners :=
  match event with
  | .readData => { o with tx := tagTx o.tx.tail o.dmaB after }
  | .writeData _ => o
  | .dmaBIsr => if s.remainingSectors - 1 = 0 then o else { o with fetch := o.dmaB }
  | .dmaCIsr => { o with flush := o.dmaC }
  | .core1 ok => ownCore1 o s ok after

def ownCommand (o : Owners) (s : Firmware) (cmd : Byte) (command : Nat) (after : Firmware) :
    Owners :=
  match (orderOf cmd s).kind with
  | .read => { o with fetch := command, tx := [] }
  | .write => { o with dmaC := command, tx := [] }
  | .identify _ => { o with dmaB := command, tx := tagTx [] command after }
  | .none => if cmd = IDE_CMD_DIAGNOSTIC ∨ isNop cmd then { o with tx := [] } else o

def ownWrite (s : Tagged) (raw : Raw) (after : Bus) : Tagged :=
  if rawAddr raw = IDE_REG_STATUS_CMD then
    { bus := after
      command := s.command + 1
      owners := ownCommand s.owners s.bus.firmware (rawData raw) (s.command + 1) after.firmware }
  else { s with bus := after }

def taggedStep (s : Tagged) (label : Label) : Option Tagged :=
  (busStep s.bus label).map fun after =>
    match label, s.bus.access with
    | .writeIsr, some (.write raw) => ownWrite s raw after
    | .event event, _ =>
      { s with bus := after, owners := ownEvent s.owners s.bus.firmware event after.firmware }
    | _, _ => { s with bus := after }

def initialTagged (firmware : Firmware) : Tagged where
  bus := { firmware := firmware, access := none }
  command := 0
  owners := { fetch := 0, flush := 0, call := 0, dmaB := 0, dmaC := 0, tx := [] }

/-! ## Isolation -/

/-- The command for which a step is done that is the completion of some work. -/
def workOwner (s : Tagged) : Event → Option Nat
  | .readData => none
  | .writeData _ => if s.bus.firmware.dmaC = none then none else some s.owners.dmaC
  | .dmaBIsr => some s.owners.dmaB
  | .dmaCIsr => some s.owners.dmaC
  | .core1 _ => if s.bus.firmware.core1.call = none then none else some s.owners.call

/-- The current command fills or sends the buffer, or has filled it for the card. -/
def InUse (s : Tagged) (buffer : Fin 2) : Prop :=
  let f := s.bus.firmware
  (s.owners.dmaB = s.command ∧ f.dmaB.map Dma.buffer = some buffer) ∨
    (s.owners.dmaC = s.command ∧ (f.dmaC.map Dma.buffer = some buffer ∨ f.ints1 ∧ buffer = 0)) ∨
    (s.owners.flush = s.command ∧ f.needFlush ∧ f.flushBuf = buffer) ∨
    (s.owners.call = s.command ∧
      ((∃ lba, f.core1 = .fetching buffer lba) ∨ ∃ lba, f.core1 = .flushing buffer lba))

structure IsolatedEvent (before : Tagged) (event : Event) (after : Tagged) : Prop where
  /-- A word that the 68k takes belongs to the current command. -/
  delivered : event = .readData →
    ∀ owner, before.owners.tx.head? = some owner → owner = before.command
  /-- Work of an earlier command changes nothing that the current one relies on. -/
  untouched : ∀ owner, workOwner before event = some owner → owner ≠ before.command →
    after.bus.firmware.regStatus = before.bus.firmware.regStatus ∧
      after.bus.firmware.regErrorFeatures = before.bus.firmware.regErrorFeatures ∧
      after.bus.firmware.remainingSectors = before.bus.firmware.remainingSectors ∧
      ∀ buffer, InUse before buffer →
        after.bus.firmware.buf buffer = before.bus.firmware.buf buffer
  /-- The sector counter never wraps below 0. -/
  counter : after.bus.firmware.remainingSectors.toNat ≤ before.bus.firmware.remainingSectors.toNat

def Isolated (before : Tagged) (label : Label) (after : Tagged) : Prop :=
  ∀ event, label = .event event → IsolatedEvent before event after

/-! ## All work belongs to the current command -/

structure OwnedBy (command : Nat) (f : Firmware) (o : Owners) : Prop where
  fetch : f.needFetch = true → o.fetch = command
  flush : f.needFlush = true → o.flush = command
  call : f.core1.call ≠ none → o.call = command
  dmaB : f.dmaB ≠ none ∨ f.ints0 = true → o.dmaB = command
  dmaC : f.dmaC ≠ none ∨ f.ints1 = true → o.dmaC = command
  tx : o.tx = List.replicate f.dataTx.length command

theorem tagTx_replicate {kept command owner : Nat} {after : Firmware}
    (fewer : kept ≤ after.dataTx.length) (same : kept < after.dataTx.length → owner = command) :
    tagTx (List.replicate kept command) owner after =
      List.replicate after.dataTx.length command := by
  unfold tagTx
  rw [List.length_replicate]
  rcases Nat.lt_or_eq_of_le fewer with more | equal
  · rw [same more, ← List.replicate_add, Nat.add_sub_cancel' fewer]
  · rw [equal, Nat.sub_self, List.replicate_zero, List.append_nil]

variable {f : Firmware} {o : Owners} {command : Nat} {l : Ledger} {phase : Phase}

/-! ### Events -/

theorem OwnedBy.readData {next : Firmware} (owned : OwnedBy command f o)
    (taken : eventStep f .readData = some next) :
    OwnedBy command next (ownEvent o f .readData next) := by
  match tx : f.dataTx with
  | [] =>
      rw [eventStep, tx] at taken
      cases taken
  | word :: rest =>
      simp only [eventStep, tx, Option.some.injEq] at taken
      have tags : o.tx.tail = List.replicate rest.length command := by
        rw [owned.tx, tx, List.length_cons, List.replicate_succ, List.tail_cons]
      unfold ownEvent
      rw [tags]
      by_cases idle : f.dmaB = none
      · rw [pumpB_idle (s := { f with dataTx := rest }) idle] at taken
        subst taken
        exact
          { fetch := owned.fetch
            flush := owned.flush
            call := owned.call
            dmaB := owned.dmaB
            dmaC := owned.dmaC
            tx := tagTx_replicate (Nat.le_refl _) fun more => absurd more (Nat.lt_irrefl _) }
      · obtain ⟨dmaB, ints0, more, frame⟩ := pumpB_frame { f with dataTx := rest }
        rw [frame] at taken
        subst taken
        have mine := owned.dmaB (.inl idle)
        exact
          { fetch := owned.fetch
            flush := owned.flush
            call := owned.call
            dmaB := fun _ => mine
            dmaC := owned.dmaC
            tx := tagTx_replicate (by simp) fun _ => mine }

theorem OwnedBy.writeData {next : Firmware} {word : Word} (owned : OwnedBy command f o)
    (taken : eventStep f (.writeData word) = some next) : OwnedBy command next o := by
  by_cases room : f.dataRx.length < 4
  · simp only [eventStep, if_pos room, Option.some.injEq] at taken
    by_cases idle : f.dmaC = none
    · rw [pumpC_idle (s := { f with dataRx := f.dataRx ++ [word] }) idle] at taken
      subst taken
      exact ⟨owned.fetch, owned.flush, owned.call, owned.dmaB, owned.dmaC, owned.tx⟩
    · obtain ⟨dmaC, ints1, rx, buf, frame⟩ := pumpC_frame { f with dataRx := f.dataRx ++ [word] }
      rw [frame] at taken
      subst taken
      exact ⟨owned.fetch, owned.flush, owned.call, owned.dmaB, fun _ => owned.dmaC (.inl idle),
        owned.tx⟩
  · rw [eventStep, if_neg room] at taken
    cases taken

theorem OwnedBy.dmaBIsr (owned : OwnedBy command f o) (pending : f.ints0 = true) :
    OwnedBy command (dmaBIrqHandler f) (ownEvent o f .dmaBIsr (dmaBIrqHandler f)) := by
  have mine := owned.dmaB (.inr pending)
  unfold ownEvent dmaBIrqHandler
  by_cases last : f.remainingSectors - 1 = 0
  · simp only [if_pos last]
    exact ⟨owned.fetch, owned.flush, owned.call, fun _ => mine, owned.dmaC, owned.tx⟩
  · simp only [if_neg last]
    exact ⟨fun _ => mine, owned.flush, owned.call, fun _ => mine, owned.dmaC, owned.tx⟩

theorem OwnedBy.dmaCIsr (owned : OwnedBy command f o) (pending : f.ints1 = true) :
    OwnedBy command (dmaCIrqHandler f) (ownEvent o f .dmaCIsr (dmaCIrqHandler f)) := by
  have mine := owned.dmaC (.inr pending)
  exact ⟨owned.fetch, fun _ => mine, owned.call, owned.dmaB, fun _ => mine, owned.tx⟩

theorem OwnedBy.fetched (owned : OwnedBy command f o) (inPhase : InPhase f l phase) (ok : Bool)
    {buffer : Fin 2} {lba : BitVec 32} (at1 : f.core1 = .fetching buffer lba) :
    OwnedBy command (core1Step ok f) (ownCore1 o f ok (core1Step ok f)) := by
  have mine : o.call = command := owned.call (by rw [at1]; exact Option.some_ne_none _)
  obtain ⟨rfl, rfl, k, rfl⟩ := inPhase.of_fetching at1
  obtain ⟨_, _, _, _, _, ints0, _⟩ := workOf_eq.mp inPhase.work
  have room := (inPhase.words (.inl inPhase.suits)).2
  have busy : f.regStatus = busyStatus := inPhase.shows
  cases ok with
  | true =>
      have starts : StartsDmaB f f.activeBuf := by
        refine ⟨inPhase.dir, rfl, ?_⟩
        rw [busy]
        decide
      have step : core1Step true f =
          { fetchReturned f.activeBuf f.lba true f with core1 := .testFlush } := by
        rw [core1Step, at1]
      have owners : ownCore1 o f true (core1Step true f) =
          { o with dmaB := o.call, tx := tagTx o.tx o.call (core1Step true f) } := by
        simp only [ownCore1, at1, starts, and_self, if_true]
      rw [owners, step, fetchReturned_ok f.lba inPhase.dir rfl busy ints0 room]
      exact
        { fetch := owned.fetch
          flush := owned.flush
          call := fun none => absurd rfl none
          dmaB := fun _ => mine
          dmaC := owned.dmaC
          tx := by
            rw [owned.tx]
            exact tagTx_replicate (by simp [sendAt]) fun _ => mine }
  | false =>
      have owners : ownCore1 o f false (core1Step false f) = o := by
        simp [ownCore1, at1]
      rw [owners, core1Step, at1]
      exact ⟨owned.fetch, owned.flush, fun none => absurd rfl none, owned.dmaB, owned.dmaC, owned.tx⟩

theorem OwnedBy.flushed (owned : OwnedBy command f o) (ok : Bool) {buffer : Fin 2}
    {lba : BitVec 32} (at1 : f.core1 = .flushing buffer lba) :
    OwnedBy command (core1Step ok f) (ownCore1 o f ok (core1Step ok f)) := by
  have mine : o.call = command := owned.call (by rw [at1]; exact Option.some_ne_none _)
  have step : core1Step ok f = { flushReturned buffer lba ok f with core1 := .testFetch } := by
    rw [core1Step, at1]
  by_cases more : ok = true ∧ f.remainingSectors - 1 ≠ 0
  · have owners : ownCore1 o f ok (core1Step ok f) = { o with dmaC := o.call } := by
      simp only [ownCore1, at1, if_pos more]
    obtain ⟨rfl, notLast⟩ := more
    obtain ⟨dmaC, ints1, rx, buf, frame⟩ := pumpC_frame { f with
      card := Function.update f.card lba (f.buf buffer)
      bufReady := Function.update f.bufReady buffer false
      remainingSectors := f.remainingSectors - 1
      lba := lba + 1
      dmaC := some { buffer := 0, next := 0 } }
    rw [owners, step]
    simp only [flushReturned, if_true, if_neg notLast, armDmaCIntoBuffer, frame, setDrq]
    exact ⟨owned.fetch, owned.flush, fun none => absurd rfl none, owned.dmaB, fun _ => mine,
      owned.tx⟩
  · have owners : ownCore1 o f ok (core1Step ok f) = o := by
      simp only [ownCore1, at1, if_neg more]
    rw [owners, step]
    cases ok with
    | true =>
        have last : f.remainingSectors - 1 = 0 := not_not.mp fun notLast => more ⟨rfl, notLast⟩
        simp only [flushReturned, if_true, if_pos last]
        exact ⟨owned.fetch, owned.flush, fun none => absurd rfl none, owned.dmaB, owned.dmaC,
          owned.tx⟩
    | false =>
        exact ⟨owned.fetch, owned.flush, fun none => absurd rfl none, owned.dmaB, owned.dmaC,
          owned.tx⟩

theorem OwnedBy.core1 (owned : OwnedBy command f o) (inPhase : InPhase f l phase) (ok : Bool) :
    OwnedBy command (core1Step ok f) (ownCore1 o f ok (core1Step ok f)) := by
  cases at1 : f.core1 with
  | testFetch =>
      simp only [core1Step, ownCore1, at1]
      by_cases wanted : f.needFetch = true
      · simp only [if_pos wanted]
        exact ⟨fun none => Bool.noConfusion none, owned.flush, fun _ => owned.fetch wanted,
          owned.dmaB, owned.dmaC, owned.tx⟩
      · simp only [if_neg wanted]
        exact ⟨owned.fetch, owned.flush, fun none => absurd rfl none, owned.dmaB, owned.dmaC,
          owned.tx⟩
  | testFlush =>
      simp only [core1Step, ownCore1, at1]
      by_cases wanted : f.needFlush = true
      · simp only [if_pos wanted]
        exact ⟨owned.fetch, fun none => Bool.noConfusion none, fun _ => owned.flush wanted,
          owned.dmaB, owned.dmaC, owned.tx⟩
      · simp only [if_neg wanted]
        exact ⟨owned.fetch, owned.flush, fun none => absurd rfl none, owned.dmaB, owned.dmaC,
          owned.tx⟩
  | fetching buffer lba => exact owned.fetched inPhase ok at1
  | flushing buffer lba => exact owned.flushed ok at1

theorem OwnedBy.event {event : Event} {next : Firmware} (owned : OwnedBy command f o)
    (inPhase : InPhase f l phase) (taken : eventStep f event = some next) :
    OwnedBy command next (ownEvent o f event next) := by
  cases event with
  | readData => exact owned.readData taken
  | writeData word => exact owned.writeData taken
  | dmaBIsr =>
      by_cases pending : f.ints0 = true
      · rw [eventStep, if_pos pending] at taken
        cases taken
        exact owned.dmaBIsr pending
      · rw [eventStep, if_neg pending] at taken
        cases taken
  | dmaCIsr =>
      by_cases pending : f.ints1 = true
      · rw [eventStep, if_pos pending] at taken
        cases taken
        exact owned.dmaCIsr pending
      · rw [eventStep, if_neg pending] at taken
        cases taken
  | core1 ok =>
      cases taken
      exact owned.core1 inPhase ok

/-! ### Commands -/

/-- A firmware that owes core 1 nothing and has its data path reset is owned by anyone. -/
theorem ownedBy_reset (error : Byte) (fetch : f.needFetch = false) (flush : f.needFlush = false)
    (call : f.core1.call = none) :
    OwnedBy command (finishAtOnce error (accepted f)) { o with tx := [] } where
  fetch wanted := Bool.noConfusion (fetch.symm.trans wanted)
  flush wanted := Bool.noConfusion (flush.symm.trans wanted)
  call running := absurd call running
  dmaB busy := busy.elim (absurd rfl) Bool.noConfusion
  dmaC busy := busy.elim (absurd rfl) Bool.noConfusion
  tx := rfl

theorem OwnedBy.dispatch {cmd : Byte} {earlier : Nat} (owned : OwnedBy earlier f o)
    (clear : Clear f cmd) :
    OwnedBy command (dispatchCommand cmd f)
      (ownCommand o f cmd command (dispatchCommand cmd f)) := by
  have flush : f.needFlush = true → o.flush = command := fun wanted =>
    Bool.noConfusion (clear.flush.symm.trans wanted)
  have call : f.core1.call ≠ none → o.call = command := fun running => absurd clear.call running
  rcases dispatch_cases cmd f with ⟨rfl, branch⟩ | ⟨rfl, branch⟩ | ⟨⟨rfl, known⟩, branch⟩ |
    ⟨⟨read, kind⟩, ⟨atOnce, error, branch⟩ | ⟨notAtOnce, branch⟩⟩
  · rw [branch]
    exact
      { fetch := fun _ => rfl
        flush := flush
        call := call
        dmaB := fun busy => busy.elim (absurd rfl) Bool.noConfusion
        dmaC := fun busy => busy.elim (absurd rfl) Bool.noConfusion
        tx := rfl }
  · have fetch := clear.fetch.resolve_right (by decide)
    obtain ⟨dmaC, ints1, rx, buf, frame⟩ := pumpC_frame { resetDataPath (accepted f) with
      dir := .write
      lba := currentLbaFromRegs f
      remainingSectors := sectorCountFromReg f
      activeBuf := 0
      bufReady := fun _ => false
      dmaC := some { buffer := 0, next := 0 } }
    have begun : beginWriteSequence (accepted f) = setDrq _ := congrArg setDrq frame
    rw [branch, begun]
    exact
      { fetch := fun wanted => Bool.noConfusion (fetch.symm.trans wanted)
        flush := flush
        call := call
        dmaB := fun busy => busy.elim (absurd rfl) Bool.noConfusion
        dmaC := fun _ => rfl
        tx := rfl }
  · have fetch := clear.fetch.resolve_right (by decide)
    have kind : (orderOf IDE_CMD_IDENTIFY f).kind = .identify f.sdSectors := by
      rw [orderOf, if_neg (by decide), if_neg (by decide), if_pos ⟨rfl, known⟩]
    obtain ⟨dmaB, ints0, more, frame⟩ := pumpB_frame { setBusy (resetDataPath (accepted f)) with
      dir := .read
      remainingSectors := 1
      activeBuf := 0
      buf := Function.update f.buf 0 (buildIdentify f.sdSectors)
      bufReady := Function.update (fun _ => false) 0 true
      dmaB := some { buffer := 0, next := 0 } }
    have begun : beginIdentify (accepted f) = setDrq _ :=
      (if_neg known).trans (congrArg setDrq frame)
    simp only [ownCommand, kind]
    rw [branch, begun]
    exact
      { fetch := fun wanted => Bool.noConfusion (fetch.symm.trans wanted)
        flush := flush
        call := call
        dmaB := fun _ => rfl
        dmaC := fun busy => busy.elim (absurd rfl) Bool.noConfusion
        tx := tagTx_replicate (Nat.zero_le _) fun _ => rfl }
  · simp only [ownCommand, kind, if_pos atOnce]
    rw [branch]
    exact ownedBy_reset error (clear.fetch.resolve_right read) clear.flush clear.call
  · have fetch := clear.fetch.resolve_right read
    obtain ⟨dmaB, dmaC, ints0, ints1, tx⟩ :=
      ((clear.path.resolve_left (not_not.mpr kind)).resolve_left
        (not_or.mp notAtOnce).1).resolve_left (not_or.mp notAtOnce).2
    simp only [ownCommand, kind, if_neg notAtOnce]
    rw [branch]
    exact
      { fetch := fun wanted => Bool.noConfusion (fetch.symm.trans wanted)
        flush := flush
        call := call
        dmaB := fun busy => busy.elim (absurd dmaB) fun set => Bool.noConfusion (ints0.symm.trans set)
        dmaC := fun busy => busy.elim (absurd dmaC) fun set => Bool.noConfusion (ints1.symm.trans set)
        tx := by
          show o.tx = List.replicate f.dataTx.length command
          rw [owned.tx, tx]
          rfl }

/-! ### Runs -/

structure Owned (s : Tagged) : Prop where
  phase : ∃ l phase, InPhase s.bus.firmware l phase
  owned : OwnedBy s.command s.bus.firmware s.owners

theorem OwnedBy.congr {f' : Firmware} (owned : OwnedBy command f o) (work : workOf f' = workOf f)
    (tx : f'.dataTx = f.dataTx) : OwnedBy command f' o where
  fetch wanted := owned.fetch ((congrArg Work.fetch work).symm.trans wanted)
  flush wanted := owned.flush ((congrArg Work.flush work).symm.trans wanted)
  call running := owned.call fun none => running ((congrArg Work.call work).trans none)
  dmaB busy := owned.dmaB (busy.imp (mt (congrArg Work.dmaB work).trans)
    (congrArg Work.ints0 work).symm.trans)
  dmaC busy := owned.dmaC (busy.imp (mt (congrArg Work.dmaC work).trans)
    (congrArg Work.ints1 work).symm.trans)
  tx := by rw [tx, owned.tx]

theorem workOf_readRegister (raw : Raw) (f : Firmware) :
    workOf (readRegister raw f).2 = workOf f ∧ (readRegister raw f).2.dataTx = f.dataTx := by
  unfold readRegister statusPatch
  split
  · split <;> exact ⟨rfl, rfl⟩
  · exact ⟨rfl, rfl⟩

theorem workOf_writeRegister {raw : Raw} (f : Firmware)
    (register : rawAddr raw ≠ IDE_REG_STATUS_CMD) :
    workOf (writeRegister raw f) = workOf f ∧ (writeRegister raw f).dataTx = f.dataTx := by
  simp only [writeRegister, if_neg register]
  split
  · exact ⟨rfl, rfl⟩
  split
  · exact ⟨rfl, rfl⟩
  split
  · exact ⟨rfl, rfl⟩
  split
  · exact ⟨rfl, rfl⟩
  split
  · exact ⟨rfl, rfl⟩
  split
  · exact ⟨rfl, rfl⟩
  · exact ⟨rfl, rfl⟩

theorem owned_step {s t : Tagged} {label : Label} (owned : Owned s)
    (undisturbed : Undisturbed s.bus label) (taken : taggedStep s label = some t) : Owned t := by
  obtain ⟨⟨l, phase, inPhase⟩, ownedBy⟩ := owned
  obtain ⟨after, stepped, rfl⟩ := Option.map_eq_some_iff.mp taken
  obtain ⟨phase', inPhase'⟩ := inPhase.step undisturbed stepped
  cases label with
  | access access =>
      refine ⟨⟨_, _, inPhase'⟩, ?_⟩
      simp only [busStep] at stepped
      split at stepped
      · cases stepped
        exact ownedBy
      · cases stepped
  | writeIsr =>
      rcases waiting : s.bus.access with _ | (_ | raw)
      case none | some.read =>
          simp only [busStep, waiting] at stepped
          cases stepped
      case some.write raw =>
          simp only [busStep, waiting, Option.some.injEq] at stepped
          simp only [Undisturbed, waiting] at undisturbed
          subst stepped
          show Owned (ownWrite s raw { firmware := writeRegister raw s.bus.firmware, access := none })
          unfold ownWrite
          by_cases command : rawAddr raw = IDE_REG_STATUS_CMD
          · rw [if_pos command]
            refine ⟨⟨_, _, inPhase'⟩, ?_⟩
            simp only [writeRegister_command command]
            exact ownedBy.dispatch (undisturbed command)
          · rw [if_neg command]
            obtain ⟨work, tx⟩ := workOf_writeRegister s.bus.firmware command
            exact ⟨⟨_, _, inPhase'⟩, ownedBy.congr work tx⟩
  | readIsr =>
      refine ⟨⟨_, _, inPhase'⟩, ?_⟩
      simp only [busStep] at stepped
      split at stepped
      case h_1 raw waiting =>
          cases stepped
          obtain ⟨work, tx⟩ := workOf_readRegister raw s.bus.firmware
          exact ownedBy.congr work tx
      case h_2 => cases stepped
  | event event =>
      obtain ⟨next, enabled, rfl⟩ := Option.map_eq_some_iff.mp stepped
      exact ⟨⟨_, _, inPhase'⟩, ownedBy.event inPhase enabled⟩

theorem InPhase.core1_remaining (inPhase : InPhase f l phase) (ok : Bool) :
    (core1Step ok f).remainingSectors.toNat ≤ f.remainingSectors.toNat := by
  unfold core1Step
  cases at1 : f.core1 with
  | testFetch | testFlush =>
      simp only
      split <;> exact Nat.le_refl _
  | fetching buffer lba =>
      obtain ⟨rfl, rfl, k, rfl⟩ := inPhase.of_fetching at1
      cases ok with
      | true =>
          obtain ⟨_, _, _, _, _, ints0, _⟩ := workOf_eq.mp inPhase.work
          have room := (inPhase.words (.inl inPhase.suits)).2
          have returned := fetchReturned_ok f.lba inPhase.dir rfl inPhase.shows ints0 room
          exact Nat.le_of_eq (congrArg (fun g => g.remainingSectors.toNat) returned)
      | false => exact Nat.le_refl _
  | flushing buffer lba =>
      obtain ⟨_, _, k, rfl⟩ := inPhase.of_flushing at1
      have counted := inPhase.counted k rfl
      have pred := counted.pred
      have remaining := counted.remaining_eq
      cases ok with
      | true =>
          obtain ⟨dmaC, ints1, rx, buf, frame⟩ := pumpC_frame { f with
            card := Function.update f.card lba (f.buf buffer)
            bufReady := Function.update f.bufReady buffer false
            remainingSectors := f.remainingSectors - 1
            lba := lba + 1
            dmaC := some { buffer := 0, next := 0 } }
          simp only [flushReturned, if_true, armDmaCIntoBuffer, frame]
          split
          · simp only [setReadyIdle]
            omega
          · simp only [setDrq]
            omega
      | false => exact Nat.le_refl _

theorem InPhase.event_remaining {event : Event} {next : Firmware} (inPhase : InPhase f l phase)
    (taken : eventStep f event = some next) :
    next.remainingSectors.toNat ≤ f.remainingSectors.toNat := by
  cases event with
  | readData =>
      simp only [eventStep] at taken
      split at taken
      · cases taken
      · obtain ⟨dmaB, ints0, more, frame⟩ := pumpB_frame { f with dataTx := _ }
        rw [frame] at taken
        cases taken
        exact Nat.le_refl _
  | writeData word =>
      simp only [eventStep] at taken
      split at taken
      · obtain ⟨dmaC, ints1, rx, buf, frame⟩ := pumpC_frame { f with dataRx := f.dataRx ++ [word] }
        rw [frame] at taken
        cases taken
        exact Nat.le_refl _
      · cases taken
  | dmaBIsr =>
      by_cases pending : f.ints0 = true
      · rw [eventStep, if_pos pending] at taken
        cases taken
        obtain ⟨k, rfl⟩ := inPhase.of_ints0 pending
        have counted := inPhase.counted k rfl
        have pred := counted.pred
        have remaining := counted.remaining_eq
        simp only [dmaBIrqHandler]
        split
        · simp only [setReadyIdle]
          omega
        · simp only [setBusy]
          omega
      · rw [eventStep, if_neg pending] at taken
        cases taken
  | dmaCIsr =>
      simp only [eventStep] at taken
      split at taken
      · cases taken
        exact Nat.le_refl _
      · cases taken
  | core1 ok =>
      cases taken
      exact inPhase.core1_remaining ok

theorem OwnedBy.workOwner {s : Tagged} {event : Event} {next : Firmware} {owner : Nat}
    (owned : OwnedBy s.command s.bus.firmware s.owners)
    (taken : eventStep s.bus.firmware event = some next) (work : workOwner s event = some owner) :
    owner = s.command := by
  cases event with
  | readData => cases work
  | writeData word =>
      simp only [PicoIde.workOwner] at work
      split at work
      · cases work
      · next busy =>
          cases work
          exact owned.dmaC (.inl busy)
  | dmaBIsr =>
      cases work
      simp only [eventStep] at taken
      split at taken
      · next pending => exact owned.dmaB (.inr pending)
      · cases taken
  | dmaCIsr =>
      cases work
      simp only [eventStep] at taken
      split at taken
      · next pending => exact owned.dmaC (.inr pending)
      · cases taken
  | core1 ok =>
      simp only [PicoIde.workOwner] at work
      split at work
      · cases work
      · next running =>
          cases work
          exact owned.call running

theorem isolated_step {s t : Tagged} {label : Label} (owned : Owned s)
    (taken : taggedStep s label = some t) : Isolated s label t := by
  rintro event rfl
  obtain ⟨⟨l, phase, inPhase⟩, ownedBy⟩ := owned
  obtain ⟨after, stepped, rfl⟩ := Option.map_eq_some_iff.mp taken
  obtain ⟨next, enabled, rfl⟩ := Option.map_eq_some_iff.mp stepped
  exact
    { delivered := fun _ owner first => by
        rw [ownedBy.tx] at first
        exact List.eq_of_mem_replicate (List.mem_of_head? first)
      untouched := fun owner work other => absurd (ownedBy.workOwner enabled work) other
      counter := inPhase.event_remaining enabled }

/-- In every run whose commands arrive while core 1 owes nothing to an earlier one, no work of
an earlier command reaches the current one. -/
theorem commands_isolated (sdSectors : BitVec 32) (card : BitVec 32 → Sector)
    (buf : Fin 2 → Sector) (labels : List Label)
    (undisturbed : Guarded taggedStep (fun s => Undisturbed s.bus)
      (initialTagged (initialFirmware sdSectors card buf)) labels) :
    EachStep taggedStep Isolated (initialTagged (initialFirmware sdSectors card buf)) labels := by
  refine eachStep_of_guarded Owned
    (fun _ _ _ owned undisturbed taken => owned_step owned undisturbed taken)
    (fun _ _ _ owned _ taken => isolated_step owned taken) ?_ undisturbed
  exact
    { phase := ⟨_, _, inPhase_initial sdSectors card buf⟩
      owned :=
        { fetch := fun wanted => Bool.noConfusion wanted
          flush := fun wanted => Bool.noConfusion wanted
          call := fun running => absurd rfl running
          dmaB := fun busy => busy.elim (absurd rfl) Bool.noConfusion
          dmaC := fun busy => busy.elim (absurd rfl) Bool.noConfusion
          tx := rfl } }

/-! ## A stale completion -/

/-- A read, the first half of its fetch, and then a diagnostic command. -/
def staleLabels : List Label :=
  [.access (.write (rawOf IDE_REG_STATUS_CMD IDE_CMD_READ_SECTORS)), .writeIsr, .event (.core1 true),
    .access (.write (rawOf IDE_REG_STATUS_CMD IDE_CMD_DIAGNOSTIC)), .writeIsr]

/-- The SD read of the first command fails and leaves its error to the second. -/
theorem stale_fetch_reports_error :
    ¬ ∀ (sdSectors : BitVec 32) (card : BitVec 32 → Sector) (buf : Fin 2 → Sector)
      (labels : List Label),
      EachStep taggedStep Isolated (initialTagged (initialFirmware sdSectors card buf)) labels := by
  intro always
  let start := initialTagged (initialFirmware 0 (fun _ _ => 0) fun _ _ => 0)
  have each := always 0 (fun _ _ => 0) (fun _ _ => 0) (staleLabels ++ [.event (.core1 false)])
  have stale : (exec taggedStep start staleLabels).any (fun s =>
      (taggedStep s (.event (.core1 false))).any fun t =>
        decide (workOwner s (.core1 false) = some 1 ∧ s.command = 2 ∧
          t.bus.firmware.regStatus ≠ s.bus.firmware.regStatus)) = true := by
    decide +kernel
  obtain ⟨s, run, last⟩ := Option.any_eq_true _ _ |>.mp stale
  obtain ⟨t, taken, changed⟩ := Option.any_eq_true _ _ |>.mp last
  obtain ⟨owner, command, status⟩ := of_decide_eq_true changed
  have isolated := ((eachStep_append each run) t taken).1 _ rfl
  have other : (1 : Nat) ≠ s.command := by
    rw [command]
    decide
  exact status (isolated.untouched 1 owner other).1

/-- A read whose sector is fetched, and then a diagnostic command in the middle of it. -/
theorem commands_isolated_aborted :
    EachStep taggedStep Isolated (initialTagged (initialFirmware 0 (fun _ _ => 0) fun _ _ => 0))
      [.access (.write (rawOf IDE_REG_STATUS_CMD IDE_CMD_READ_SECTORS)), .writeIsr,
        .event (.core1 true), .event (.core1 true), .event .readData,
        .access (.write (rawOf IDE_REG_STATUS_CMD IDE_CMD_DIAGNOSTIC)), .writeIsr] := by
  apply commands_isolated
  exact guarded_of_check (by decide +kernel)

end OrionBios.PicoIde
