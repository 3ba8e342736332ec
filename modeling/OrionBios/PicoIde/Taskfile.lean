import OrionBios.PicoIde.Firmware
import OrionBios.Transition.Runs

/-!
# Register accesses through the taskfile state machine

The PIO program and the two interrupt handlers, one instruction or loop test at a
time. The program pushes one word for each access of the 68k and raises flag 0 or
flag 1; either handler drains the one RX FIFO and clears its flag behind the loop.
-/

namespace OrionBios.PicoIde

open Transition

inductive Access where
  | write (raw : Raw)
  | read (raw : Raw)
  deriving DecidableEq, Repr

def Access.raw : Access → Raw
  | .write raw => raw
  | .read raw => raw

/-- Where the program `ide_taskfile` stands. -/
inductive Sm where
  | waitSel
  | push (access : Access)
  | irq (access : Access)
  /-- Stalled in `irq wait 0`. -/
  | waitFlag (raw : Raw)
  /-- Stalled in `pull`. -/
  | pull (raw : Raw)
  /-- `/DTACK` is asserted, until the 68k releases the strobe. -/
  | dtack
  deriving DecidableEq, Repr

/-- Where core 0 stands: outside the two handlers, at the test of a handler's loop, in
its body, or at the clear behind it. -/
inductive Core0 where
  | idle
  | writeTest
  | writeApply (raw : Raw)
  | writeClear
  | readTest
  | readApply (raw : Raw)
  | readPut (value : Byte)
  | readClear
  deriving DecidableEq, Repr

/-- What a handler did with a word: applied it as a write, or answered it as a read. -/
inductive Served where
  | applied (raw : Raw)
  | answered (raw : Raw) (value : Byte)
  deriving DecidableEq, Repr

def Served.access : Served → Access
  | .applied raw => .write raw
  | .answered raw _ => .read raw

def Served.value : Served → Option Byte
  | .applied _ => none
  | .answered _ value => some value

structure Taskfile where
  sm : Sm
  rxFifo : List Raw
  txFifo : List Byte
  flag0 : Bool
  flag1 : Bool
  core0 : Core0
  firmware : Firmware
  /-- The accesses the 68k began, the words the handlers served, and the values the 68k
  got back, each in order. -/
  issued : List Access
  served : List Served
  returned : List Byte

inductive TaskLabel where
  /-- The 68k asserts `/CS` and the strobe. -/
  | access (access : Access)
  | sm
  /-- The 68k releases the strobe. -/
  | release
  | enterWrite
  | enterRead
  | core0
  | event (event : Event)
  deriving DecidableEq, Repr

/-- One instruction of the PIO program; `none` while it stalls. -/
def smStep (s : Taskfile) : Option Taskfile :=
  match s.sm with
  | .waitSel => none
  | .push access =>
    if s.rxFifo.length < 4 then
      some { s with sm := .irq access, rxFifo := s.rxFifo ++ [access.raw] }
    else none
  | .irq (.write raw) => some { s with sm := .waitFlag raw, flag0 := true }
  | .irq (.read raw) => some { s with sm := .pull raw, flag1 := true }
  | .waitFlag _ => if s.flag0 then none else some { s with sm := .dtack }
  | .pull _ =>
    match s.txFifo with
    | [] => none
    | value :: rest =>
      some { s with sm := .dtack, txFifo := rest, returned := s.returned ++ [value] }
  | .dtack => none

/-- One step inside a handler. -/
def core0Step (s : Taskfile) : Option Taskfile :=
  match s.core0 with
  | .idle => none
  | .writeTest =>
    match s.rxFifo with
    | [] => some { s with core0 := .writeClear }
    | raw :: rest => some { s with core0 := .writeApply raw, rxFifo := rest }
  | .writeApply raw =>
    some { s with
      core0 := .writeTest
      firmware := writeRegister raw s.firmware
      served := s.served ++ [.applied raw] }
  | .writeClear => some { s with core0 := .idle, flag0 := false }
  | .readTest =>
    match s.rxFifo with
    | [] => some { s with core0 := .readClear }
    | raw :: rest => some { s with core0 := .readApply raw, rxFifo := rest }
  | .readApply raw =>
    let (value, firmware) := readRegister raw s.firmware
    some { s with
      core0 := .readPut value
      firmware := firmware
      served := s.served ++ [.answered raw value] }
  | .readPut value => some { s with core0 := .readTest, txFifo := (s.txFifo ++ [value]).take 4 }
  | .readClear => some { s with core0 := .idle, flag1 := false }

def taskStep (s : Taskfile) : TaskLabel → Option Taskfile
  | .access access =>
    if s.sm = .waitSel then some { s with sm := .push access, issued := s.issued ++ [access] }
    else none
  | .sm => smStep s
  | .release => if s.sm = .dtack then some { s with sm := .waitSel } else none
  | .enterWrite => if s.core0 = .idle ∧ s.flag0 then some { s with core0 := .writeTest } else none
  | .enterRead => if s.core0 = .idle ∧ s.flag1 then some { s with core0 := .readTest } else none
  | .core0 => core0Step s
  | .event event =>
    -- the DMA interrupts are taken on core 0, which does not nest them
    if (event = .dmaBIsr ∨ event = .dmaCIsr) ∧ s.core0 ≠ .idle then none
    else (eventStep s.firmware event).map fun firmware => { s with firmware := firmware }

def initialTaskfile (firmware : Firmware) : Taskfile where
  sm := .waitSel
  rxFifo := []
  txFifo := []
  flag0 := false
  flag1 := false
  core0 := .idle
  firmware := firmware
  issued := []
  served := []
  returned := []

/-! ## What every access needs -/

/-- A word is applied to the register it addresses, or answered with what that register
holds then. -/
def RegisterRule (before after : Taskfile) : Prop :=
  after.served = before.served ∨
    (∃ raw, after.served = before.served ++ [.applied raw] ∧
      after.firmware = writeRegister raw before.firmware) ∨
    ∃ raw value, after.served = before.served ++ [.answered raw value] ∧
      value = registerValue (rawAddr raw) after.firmware

/-- The 68k waits for a handler. -/
def Stalled (s : Taskfile) : Prop :=
  (∃ raw, s.sm = .waitFlag raw ∧ s.flag0 = true) ∨ ∃ raw, s.sm = .pull raw ∧ s.txFifo = []

def isCore0 : TaskLabel → Bool
  | .enterWrite | .enterRead | .core0 => true
  | _ => false

structure Orderly (s : Taskfile) : Prop where
  /-- The words served are the accesses begun, in order and of the same kind, up to the
  one that may still wait. -/
  once : ∃ waiting, waiting.length ≤ 1 ∧ s.issued = s.served.map Served.access ++ waiting
  /-- The values returned are those answered, up to the one on its way. -/
  answered : ∃ onTheWay, onTheWay.length ≤ 1 ∧
    s.served.filterMap Served.value = s.returned ++ onTheWay
  /-- Core 0 alone gets a waiting 68k going again. -/
  notLost : Stalled s → ∃ labels t, labels.all isCore0 ∧ exec taskStep s labels = some t ∧
    ¬Stalled t

def TaskfileRule (before : Taskfile) (_label : TaskLabel) (after : Taskfile) : Prop :=
  RegisterRule before after ∧ Orderly after

/-- No write is pushed while the read handler still tests the FIFO or is about to be
entered, and flag 1 is not raised between the last test and the clear behind it. -/
def unhurried (s : Taskfile) (label : TaskLabel) : Bool :=
  match label, s.sm with
  | .sm, .push (.write _) => s.core0 ≠ .readTest ∧ (s.flag1 = true → s.core0 = .readClear)
  | .sm, .irq (.read _) => ¬(s.core0 = .readClear ∧ s.rxFifo ≠ [])
  | _, _ => true

/-! ## The stages of an access -/

/-- Core 0 holds no word. -/
def Core0.quiet (core0 : Core0) : Prop := core0 = .idle ∨ core0 = .readTest ∨ core0 = .readClear

/-- How the state machine, the FIFOs, the flags and core 0 stand together; the last two
lists are the access still to be served and the value on its way back. -/
inductive Stage : Sm → List Raw → List Byte → Bool → Bool → Core0 → List Access → List Byte → Prop
  | waitSel {flag1 core0} (quiet : Core0.quiet core0) :
      Stage .waitSel [] [] false flag1 core0 [] []
  | dtack {flag1 core0} (quiet : Core0.quiet core0) : Stage .dtack [] [] false flag1 core0 [] []
  | begun {flag1 core0} (access : Access) (quiet : Core0.quiet core0) :
      Stage (.push access) [] [] false flag1 core0 [access] []
  | writePushed {flag1 core0} (raw : Raw)
      (away : core0 = .idle ∧ flag1 = false ∨ core0 = .readClear) :
      Stage (.irq (.write raw)) [raw] [] false flag1 core0 [.write raw] []
  | writeFlagged {flag1 core0} (raw : Raw) (away : core0 = .idle ∧ flag1 = false ∨
      core0 = .readClear ∨ core0 = .writeTest ∧ flag1 = false) :
      Stage (.waitFlag raw) [raw] [] true flag1 core0 [.write raw] []
  | writeTaken (raw : Raw) :
      Stage (.waitFlag raw) [] [] true false (.writeApply raw) [.write raw] []
  | writeApplied {core0} (raw : Raw) (ending : core0 = .writeTest ∨ core0 = .writeClear) :
      Stage (.waitFlag raw) [] [] true false core0 [] []
  | writeCleared (raw : Raw) : Stage (.waitFlag raw) [] [] false false .idle [] []
  | readPushed {flag1 core0} (raw : Raw) (quiet : Core0.quiet core0) :
      Stage (.irq (.read raw)) [raw] [] false flag1 core0 [.read raw] []
  | readFlagged {flag1 core0} (raw : Raw)
      (called : core0 = .idle ∧ flag1 = true ∨ core0 = .readTest) :
      Stage (.pull raw) [raw] [] false flag1 core0 [.read raw] []
  | readTaken {sm flag1} (raw : Raw) (waiting : sm = .irq (.read raw) ∨ sm = .pull raw) :
      Stage sm [] [] false flag1 (.readApply raw) [.read raw] []
  | readAnswered {sm flag1} (raw : Raw) (value : Byte)
      (waiting : sm = .irq (.read raw) ∨ sm = .pull raw) :
      Stage sm [] [] false flag1 (.readPut value) [] [value]
  | readPut {sm flag1 core0} (raw : Raw) (value : Byte)
      (waiting : sm = .irq (.read raw) ∨ sm = .pull raw) (quiet : Core0.quiet core0) :
      Stage sm [] [value] false flag1 core0 [] [value]

/-- The stage of a state, with the logs that go with it. -/
structure Staged (s : Taskfile) (waiting : List Access) (onTheWay : List Byte) : Prop where
  stage : Stage s.sm s.rxFifo s.txFifo s.flag0 s.flag1 s.core0 waiting onTheWay
  issued : s.issued = s.served.map Served.access ++ waiting
  answered : s.served.filterMap Served.value = s.returned ++ onTheWay

def Consistent (s : Taskfile) : Prop := ∃ waiting onTheWay, Staged s waiting onTheWay

theorem consistent_initial (firmware : Firmware) : Consistent (initialTaskfile firmware) :=
  ⟨[], [], .waitSel (.inl rfl), rfl, rfl⟩

theorem Staged.moved {s : Taskfile} {waiting : List Access} {onTheWay : List Byte}
    (staged : Staged s waiting onTheWay) {t : Taskfile}
    (stage : Stage t.sm t.rxFifo t.txFifo t.flag0 t.flag1 t.core0 waiting onTheWay)
    (issued : t.issued = s.issued) (served : t.served = s.served)
    (returned : t.returned = s.returned) : Consistent t := by
  refine ⟨waiting, onTheWay, stage, ?_, ?_⟩
  · rw [issued, served, staged.issued]
  · rw [served, returned, staged.answered]


/-! ## One lemma for each kind of step -/

theorem consistent_access {s t : Taskfile} {access : Access} (consistent : Consistent s)
    (taken : taskStep s (.access access) = some t) : Consistent t := by
  obtain ⟨waiting, onTheWay, stage, issued, answered⟩ := consistent
  simp only [taskStep] at taken
  split at taken
  next selected =>
    cases taken
    rw [selected] at stage
    generalize s.rxFifo = rx, s.txFifo = tx, s.flag0 = flag0, s.flag1 = flag1,
      s.core0 = core0 at stage
    cases stage with
    | waitSel quiet =>
        refine ⟨[access], [], .begun access quiet, ?_, answered⟩
        simp only [issued, List.append_nil]
    | readTaken raw place => rcases place with other | other <;> cases other
    | readAnswered raw value place => rcases place with other | other <;> cases other
    | readPut raw value place => rcases place with other | other <;> cases other
  next => cases taken

theorem consistent_release {s t : Taskfile} (consistent : Consistent s)
    (taken : taskStep s .release = some t) : Consistent t := by
  obtain ⟨waiting, onTheWay, staged⟩ := consistent
  simp only [taskStep] at taken
  split at taken
  next selected =>
    cases taken
    refine staged.moved ?_ rfl rfl rfl
    have stage := staged.stage
    rw [selected] at stage
    generalize s.rxFifo = rx, s.txFifo = tx, s.flag0 = flag0, s.flag1 = flag1,
      s.core0 = core0 at stage
    cases stage with
    | dtack quiet => exact .waitSel quiet
    | readTaken raw place => rcases place with other | other <;> cases other
    | readAnswered raw value place => rcases place with other | other <;> cases other
    | readPut raw value place => rcases place with other | other <;> cases other
  next => cases taken

theorem consistent_event {s t : Taskfile} {event : Event} (consistent : Consistent s)
    (taken : taskStep s (.event event) = some t) : Consistent t := by
  obtain ⟨waiting, onTheWay, staged⟩ := consistent
  simp only [taskStep] at taken
  split at taken
  next => cases taken
  next =>
    obtain ⟨firmware, _, rfl⟩ := Option.map_eq_some_iff.mp taken
    exact staged.moved staged.stage rfl rfl rfl

theorem consistent_sm {s t : Taskfile} (consistent : Consistent s) (calm : unhurried s .sm = true)
    (taken : taskStep s .sm = some t) : Consistent t := by
  obtain ⟨waiting, onTheWay, stage, issued, answered⟩ := consistent
  obtain ⟨sm, rx, tx, flag0, flag1, core0, firmware, begun, served, returned⟩ := s
  simp only [taskStep, smStep] at taken
  cases stage with
  | waitSel => cases taken
  | dtack => cases taken
  | begun access quiet =>
      cases taken
      cases access with
      | write raw =>
          obtain ⟨notTesting, flagged⟩ := of_decide_eq_true calm
          refine ⟨_, _, .writePushed raw ?_, issued, answered⟩
          rcases quiet with idle | testing | clearing
          · cases flag1 with
            | false => exact .inl ⟨idle, rfl⟩
            | true => exact .inr (flagged rfl)
          · exact absurd testing notTesting
          · exact .inr clearing
      | read raw => exact ⟨_, _, .readPushed raw quiet, issued, answered⟩
  | writePushed raw away =>
      cases taken
      refine ⟨_, _, .writeFlagged raw ?_, issued, answered⟩
      rcases away with idle | clearing
      · exact .inl idle
      · exact .inr (.inl clearing)
  | writeFlagged raw away => cases taken
  | writeTaken raw => cases taken
  | writeApplied raw ending => cases taken
  | writeCleared raw =>
      cases taken
      exact ⟨_, _, .dtack (.inl rfl), issued, answered⟩
  | readPushed raw quiet =>
      cases taken
      refine ⟨_, _, .readFlagged raw ?_, issued, answered⟩
      rcases quiet with idle | testing | clearing
      · exact .inl ⟨idle, rfl⟩
      · exact .inr testing
      · exact absurd ⟨clearing, List.cons_ne_nil _ _⟩ (of_decide_eq_true calm)
  | readFlagged raw called => cases taken
  | readTaken raw place =>
      rcases place with rfl | rfl
      · cases taken
        exact ⟨_, _, .readTaken raw (.inr rfl), issued, answered⟩
      · cases taken
  | readAnswered raw value place =>
      rcases place with rfl | rfl
      · cases taken
        exact ⟨_, _, .readAnswered raw value (.inr rfl), issued, answered⟩
      · cases taken
  | readPut raw value place quiet =>
      rcases place with rfl | rfl
      · cases taken
        exact ⟨_, _, .readPut raw value (.inr rfl) quiet, issued, answered⟩
      · cases taken
        refine ⟨_, _, .dtack quiet, issued, ?_⟩
        rw [List.append_nil]
        exact answered

theorem consistent_enterWrite {s t : Taskfile} (consistent : Consistent s)
    (taken : taskStep s .enterWrite = some t) : Consistent t := by
  obtain ⟨waiting, onTheWay, staged⟩ := consistent
  simp only [taskStep] at taken
  split at taken
  next idle =>
    cases taken
    refine staged.moved ?_ rfl rfl rfl
    have stage := staged.stage
    rw [idle.1, idle.2] at stage
    generalize s.sm = sm, s.rxFifo = rx, s.txFifo = tx, s.flag1 = flag1 at stage
    simp only [idle.2]
    cases stage with
    | writeFlagged raw away =>
        refine .writeFlagged raw (.inr (.inr ⟨rfl, ?_⟩))
        rcases away with ⟨_, cleared⟩ | clearing | ⟨testing, _⟩
        · exact cleared
        · cases clearing
        · cases testing
    | writeApplied raw ending => rcases ending with testing | clearing <;> contradiction
  next => cases taken

theorem consistent_enterRead {s t : Taskfile} (consistent : Consistent s)
    (taken : taskStep s .enterRead = some t) : Consistent t := by
  obtain ⟨waiting, onTheWay, staged⟩ := consistent
  have testing : Core0.quiet .readTest := .inr (.inl rfl)
  simp only [taskStep] at taken
  split at taken
  next idle =>
    cases taken
    refine staged.moved ?_ rfl rfl rfl
    have stage := staged.stage
    rw [idle.1, idle.2] at stage
    generalize s.sm = sm, s.rxFifo = rx, s.txFifo = tx, s.flag0 = flag0 at stage
    simp only [idle.2]
    cases stage with
    | waitSel => exact .waitSel testing
    | dtack => exact .dtack testing
    | begun access => exact .begun access testing
    | writePushed raw away => rcases away with ⟨_, cleared⟩ | clearing <;> contradiction
    | writeFlagged raw away =>
        rcases away with ⟨_, cleared⟩ | clearing | ⟨_, cleared⟩ <;> contradiction
    | readPushed raw => exact .readPushed raw testing
    | readFlagged raw => exact .readFlagged raw (.inr rfl)
    | readPut raw value place => exact .readPut raw value place testing
  next => cases taken

/-- A step inside a handler keeps the machine consistent, and what it serves it serves
with the register the word addresses. -/
theorem consistent_core0 {s t : Taskfile} (consistent : Consistent s)
    (taken : taskStep s .core0 = some t) : Consistent t ∧ RegisterRule s t := by
  obtain ⟨waiting, onTheWay, stage, issued, answered⟩ := consistent
  have testing : Core0.quiet .readTest := .inr (.inl rfl)
  have clearing : Core0.quiet .readClear := .inr (.inr rfl)
  have idle : Core0.quiet .idle := .inl rfl
  obtain ⟨sm, rx, tx, flag0, flag1, core0, firmware, begun, served, returned⟩ := s
  have stepped : core0Step ⟨sm, rx, tx, flag0, flag1, core0, firmware, begun, served, returned⟩ =
      some t := taken
  -- a step from a place where core 0 holds no word, with nothing in the RX FIFO
  have resting : ∀ (_ : core0.quiet) (_ : rx = []),
      (∀ core0 flag1, Core0.quiet core0 → Stage sm rx tx flag0 flag1 core0 waiting onTheWay) →
        Consistent t ∧ RegisterRule
          ⟨sm, rx, tx, flag0, flag1, core0, firmware, begun, served, returned⟩ t := by
    rintro (rfl | rfl | rfl) rfl stages
    · cases stepped
    · cases stepped
      exact ⟨⟨_, _, stages _ _ clearing, issued, answered⟩, .inl rfl⟩
    · cases stepped
      exact ⟨⟨_, _, stages _ _ idle, issued, answered⟩, .inl rfl⟩
  cases stage with
  | waitSel quiet => exact resting quiet rfl fun _ _ quiet => .waitSel quiet
  | dtack quiet => exact resting quiet rfl fun _ _ quiet => .dtack quiet
  | begun access quiet => exact resting quiet rfl fun _ _ quiet => .begun access quiet
  | writePushed raw away =>
      rcases away with ⟨rfl, _⟩ | rfl
      · cases stepped
      · cases stepped
        exact ⟨⟨_, _, .writePushed raw (.inl ⟨rfl, rfl⟩), issued, answered⟩, .inl rfl⟩
  | writeFlagged raw away =>
      rcases away with ⟨rfl, _⟩ | rfl | ⟨rfl, rfl⟩
      · cases stepped
      · cases stepped
        exact ⟨⟨_, _, .writeFlagged raw (.inl ⟨rfl, rfl⟩), issued, answered⟩, .inl rfl⟩
      · cases stepped
        exact ⟨⟨_, _, .writeTaken raw, issued, answered⟩, .inl rfl⟩
  | writeTaken raw =>
      cases stepped
      refine ⟨⟨[], [], .writeApplied raw (.inl rfl), ?_, ?_⟩, .inr (.inl ⟨raw, rfl, rfl⟩)⟩
      · simpa [Served.access] using issued
      · show (served ++ [Served.applied raw]).filterMap Served.value = returned ++ []
        have nothing : [Served.applied raw].filterMap Served.value = [] := rfl
        rw [List.filterMap_append, nothing, List.append_nil]
        exact answered
  | writeApplied raw ending =>
      rcases ending with rfl | rfl
      · cases stepped
        exact ⟨⟨_, _, .writeApplied raw (.inr rfl), issued, answered⟩, .inl rfl⟩
      · cases stepped
        exact ⟨⟨_, _, .writeCleared raw, issued, answered⟩, .inl rfl⟩
  | writeCleared raw => cases stepped
  | readPushed raw quiet =>
      rcases quiet with rfl | rfl | rfl
      · cases stepped
      · cases stepped
        exact ⟨⟨_, _, .readTaken raw (.inl rfl), issued, answered⟩, .inl rfl⟩
      · cases stepped
        exact ⟨⟨_, _, .readPushed raw idle, issued, answered⟩, .inl rfl⟩
  | readFlagged raw called =>
      rcases called with ⟨rfl, _⟩ | rfl
      · cases stepped
      · cases stepped
        exact ⟨⟨_, _, .readTaken raw (.inr rfl), issued, answered⟩, .inl rfl⟩
  | readTaken raw place =>
      cases stepped
      refine ⟨⟨[], [_], .readAnswered raw _ place, ?_, ?_⟩, .inr (.inr ⟨raw, _, rfl, rfl⟩)⟩
      · simpa [Served.access] using issued
      · simpa [Served.value] using answered
  | readAnswered raw value place =>
      cases stepped
      exact ⟨⟨_, _, .readPut raw value place testing, issued, answered⟩, .inl rfl⟩
  | readPut raw value place quiet =>
      exact resting quiet rfl fun _ _ quiet => .readPut raw value place quiet

theorem consistent_step {s t : Taskfile} {label : TaskLabel} (consistent : Consistent s)
    (calm : unhurried s label = true) (taken : taskStep s label = some t) :
    Consistent t ∧ RegisterRule s t := by
  cases label with
  | access access =>
      refine ⟨consistent_access consistent taken, .inl ?_⟩
      simp only [taskStep] at taken
      split at taken <;> cases taken
      rfl
  | sm =>
      refine ⟨consistent_sm consistent calm taken, .inl ?_⟩
      simp only [taskStep, smStep] at taken
      repeat' split at taken
      all_goals first | cases taken; rfl | cases taken
  | release =>
      refine ⟨consistent_release consistent taken, .inl ?_⟩
      simp only [taskStep] at taken
      split at taken <;> cases taken
      rfl
  | enterWrite =>
      refine ⟨consistent_enterWrite consistent taken, .inl ?_⟩
      simp only [taskStep] at taken
      split at taken <;> cases taken
      rfl
  | enterRead =>
      refine ⟨consistent_enterRead consistent taken, .inl ?_⟩
      simp only [taskStep] at taken
      split at taken <;> cases taken
      rfl
  | core0 => exact consistent_core0 consistent taken
  | event event =>
      refine ⟨consistent_event consistent taken, .inl ?_⟩
      simp only [taskStep] at taken
      split at taken
      · cases taken
      · obtain ⟨firmware, _, rfl⟩ := Option.map_eq_some_iff.mp taken
        rfl

/-! ## What consistency gives -/

/-- The steps of core 0 that finish a write or a read from each stage in which the 68k
waits for it. -/
theorem Consistent.notLost {s : Taskfile} (consistent : Consistent s) (stalled : Stalled s) :
    ∃ labels t, labels.all isCore0 ∧ exec taskStep s labels = some t ∧ ¬Stalled t := by
  obtain ⟨waiting, onTheWay, stage, _, _⟩ := consistent
  obtain ⟨sm, rx, tx, flag0, flag1, core0, firmware, begun, served, returned⟩ := s
  cases stage with
  | waitSel => rcases stalled with ⟨raw, here, _⟩ | ⟨raw, here, _⟩ <;> cases here
  | dtack => rcases stalled with ⟨raw, here, _⟩ | ⟨raw, here, _⟩ <;> cases here
  | begun => rcases stalled with ⟨raw, here, _⟩ | ⟨raw, here, _⟩ <;> cases here
  | writePushed => rcases stalled with ⟨raw, here, _⟩ | ⟨raw, here, _⟩ <;> cases here
  | writeFlagged raw away =>
      rcases away with ⟨rfl, rfl⟩ | rfl | ⟨rfl, rfl⟩
      · exact ⟨[.enterWrite, .core0, .core0, .core0, .core0], _, rfl, rfl, by simp [Stalled]⟩
      · exact ⟨[.core0, .enterWrite, .core0, .core0, .core0, .core0], _, rfl, rfl,
          by simp [Stalled]⟩
      · exact ⟨[.core0, .core0, .core0, .core0], _, rfl, rfl, by simp [Stalled]⟩
  | writeTaken raw => exact ⟨[.core0, .core0, .core0], _, rfl, rfl, by simp [Stalled]⟩
  | writeApplied raw ending =>
      rcases ending with rfl | rfl
      · exact ⟨[.core0, .core0], _, rfl, rfl, by simp [Stalled]⟩
      · exact ⟨[.core0], _, rfl, rfl, by simp [Stalled]⟩
  | writeCleared raw => exact ⟨[], _, rfl, rfl, by simp [Stalled]⟩
  | readPushed => rcases stalled with ⟨raw, here, _⟩ | ⟨raw, here, _⟩ <;> cases here
  | readFlagged raw called =>
      rcases called with ⟨rfl, rfl⟩ | rfl
      · exact ⟨[.enterRead, .core0, .core0, .core0], _, rfl, rfl, by simp [Stalled]⟩
      · exact ⟨[.core0, .core0, .core0], _, rfl, rfl, by simp [Stalled]⟩
  | readTaken raw place => exact ⟨[.core0, .core0], _, rfl, rfl, by simp [Stalled]⟩
  | readAnswered raw value place => exact ⟨[.core0], _, rfl, rfl, by simp [Stalled]⟩
  | readPut raw value place => exact ⟨[], _, rfl, rfl, by simp [Stalled]⟩

theorem Stage.lengths {sm : Sm} {rx : List Raw} {tx : List Byte} {flag0 flag1 : Bool}
    {core0 : Core0} {waiting : List Access} {onTheWay : List Byte}
    (stage : Stage sm rx tx flag0 flag1 core0 waiting onTheWay) :
    waiting.length ≤ 1 ∧ onTheWay.length ≤ 1 := by
  cases stage <;> simp

theorem Consistent.orderly {s : Taskfile} (consistent : Consistent s) : Orderly s := by
  refine ⟨?_, ?_, consistent.notLost⟩
  · obtain ⟨waiting, onTheWay, stage, issued, _⟩ := consistent
    exact ⟨waiting, stage.lengths.1, issued⟩
  · obtain ⟨waiting, onTheWay, stage, _, answered⟩ := consistent
    exact ⟨onTheWay, stage.lengths.2, answered⟩

/-! ## Whole runs -/

/-- In every unhurried run, whatever the accesses, the order of the steps and the other
events: every access is served once, in order and as what it is, and none is lost. -/
theorem unhurried_accesses_served (firmware : Firmware) (labels : List TaskLabel)
    (calm : Guarded taskStep (fun s label => unhurried s label = true)
      (initialTaskfile firmware) labels) :
    EachStep taskStep TaskfileRule (initialTaskfile firmware) labels :=
  eachStep_of_guarded Consistent
    (fun _ _ _ consistent guard taken => (consistent_step consistent guard taken).1)
    (fun _ _ _ consistent guard taken =>
      have after := consistent_step consistent guard taken
      ⟨after.2, after.1.orderly⟩)
    (consistent_initial firmware) calm

/-- The data `0x20` for the register at `addr`. -/
def rawFor (addr : BitVec 3) : Raw := addr.zeroExtend 32 <<< 16 ||| 0x20

/-- A status read, up to the moment its value is in the TX FIFO; then a write whose word
is pushed before the read handler tests the FIFO again. -/
def overtakingLabels : List TaskLabel :=
  [.access (.read (rawFor IDE_REG_STATUS_CMD)), .sm, .sm, .enterRead, .core0, .core0, .core0,
    .sm, .release, .access (.write (rawFor IDE_REG_STATUS_CMD)), .sm, .core0]

theorem overtaken_write_answered_as_read :
    ¬ ∀ (firmware : Firmware) (labels : List TaskLabel),
      EachStep taskStep TaskfileRule (initialTaskfile firmware) labels := by
  intro always
  let start := initialTaskfile (initialFirmware 0 (fun _ _ => 0) fun _ _ => 0)
  have each := always (initialFirmware 0 (fun _ _ => 0) fun _ _ => 0)
    (overtakingLabels ++ [.core0])
  have overtaken : (exec taskStep start overtakingLabels).any (fun s =>
      (taskStep s .core0).any fun t => decide (t.issued = [.read (rawFor IDE_REG_STATUS_CMD),
        .write (rawFor IDE_REG_STATUS_CMD)] ∧ t.served.map Served.access =
          [.read (rawFor IDE_REG_STATUS_CMD), .read (rawFor IDE_REG_STATUS_CMD)])) = true := by
    decide +kernel
  obtain ⟨s, run, last⟩ := Option.any_eq_true _ _ |>.mp overtaken
  obtain ⟨t, taken, logs⟩ := Option.any_eq_true _ _ |>.mp last
  obtain ⟨issued, served⟩ := of_decide_eq_true logs
  obtain ⟨waiting, _, once⟩ := ((eachStep_append each run) t taken).1.2.once
  rw [issued, served] at once
  simp at once

/-- A write and then a read, each finished before the next begins. -/
def calmLabels : List TaskLabel :=
  [.access (.write (rawFor IDE_REG_LBA_LOW)), .sm, .sm, .enterWrite, .core0, .core0, .core0, .core0,
    .sm, .release, .access (.read (rawFor IDE_REG_LBA_LOW)), .sm, .sm, .enterRead, .core0, .core0,
    .core0, .core0, .core0, .sm]

theorem unhurried_accesses_served_calm :
    EachStep taskStep TaskfileRule
      (initialTaskfile (initialFirmware 0 (fun _ _ => 0) fun _ _ => 0)) calmLabels := by
  apply unhurried_accesses_served
  exact guarded_of_check (by decide +kernel)

end OrionBios.PicoIde
