import OrionBios.Disks.PicoideWrite
import OrionBios.Disks.Selection

/-!
# Reading a sector

A device that asks for the sector and tells of no error gives its bytes in order.
-/

namespace OrionBios.Disks

open Machine Device

variable {d e : Device} {sector : BitVec 32} {bytes : List Byte} {rounds : Nat} {read : List Byte}

namespace Device

/-! ## Bytes from the device -/

theorem give_moving (kind : d.order.operation ≠ .write) :
    (d.withPhase (.moving bytes)).give =
      (d.source.val.getD bytes.length 0,
        d.withPhase (progress (bytes ++ [d.source.val.getD bytes.length 0]))) := by
  have order : (d.withPhase (.moving bytes)).order = d.order := rfl
  unfold give
  rw [order]
  cases operation : d.order.operation with
  | write => exact absurd operation kind
  | read => exact congrArg (Prod.mk _) moved_eq
  | identify => exact congrArg (Prod.mk _) moved_eq
  | other => exact congrArg (Prod.mk _) moved_eq

/-- Read a byte, then some statuses, for each of the waits. -/
def giveAll : List (List Byte) → Device → List Byte × Device
  | [], d => ([], d)
  | wait :: waits, d =>
    (d.give.1 :: (giveAll waits (d.give.2.toldAll wait)).1,
      (giveAll waits (d.give.2.toldAll wait)).2)

theorem give_withScript (script : List Byte) :
    (d.withScript script).give = (d.give.1, d.give.2.withScript script) := by
  obtain ⟨present, taskFile, phase, ⟨operation, lba, sectors⟩, orders, saved, medium, identity,
    own⟩ := d
  cases phase with
  | moving bytes =>
    cases operation with
    | write => rfl
    | read => exact congrArg (Prod.mk _) (moved_eq.trans (congrArg (withScript script) moved_eq.symm))
    | identify =>
      exact congrArg (Prod.mk _) (moved_eq.trans (congrArg (withScript script) moved_eq.symm))
    | other => exact congrArg (Prod.mk _) (moved_eq.trans (congrArg (withScript script) moved_eq.symm))
  | idle => rfl
  | asked => rfl
  | complete sector => rfl
  | accepted => rfl
  | failed => rfl

theorem giveAll_withScript (waits : List (List Byte)) (script : List Byte) :
    giveAll waits (d.withScript script) =
      ((giveAll waits d).1, (giveAll waits d).2.withScript script) := by
  induction waits generalizing d with
  | nil => rfl
  | cons wait waits inductionHypothesis =>
    unfold giveAll
    rw [give_withScript]
    show (_ :: (giveAll waits ((d.give.2.withScript script).toldAll wait)).1, _) = _
    rw [toldAll_withScript, inductionHypothesis]

theorem giveAll_moving {waits : List (List Byte)} (kind : d.order.operation ≠ .write)
    (less : bytes.length < 512) (all : bytes.length + waits.length = 512)
    (silent : ∀ status ∈ waits.dropLast.flatten, tellsError status = false) :
    (giveAll waits (d.withPhase (.moving bytes))).1 = d.source.val.drop bytes.length := by
  induction waits generalizing bytes with
  | nil => exact absurd all (by rw [List.length_nil]; omega)
  | cons wait waits inductionHypothesis =>
    have inside : bytes.length < d.source.val.length := by
      rw [d.source.property]
      exact less
    have byte : d.source.val.getD bytes.length 0 = d.source.val[bytes.length] :=
      by rw [List.getD_eq_getElem?_getD, List.getElem?_eq_getElem inside]; rfl
    have grown (byte : Byte) : (bytes ++ [byte]).length = bytes.length + 1 := List.length_append
    unfold giveAll
    rw [give_moving kind]
    show _ :: (giveAll waits _).1 = _
    rw [List.drop_eq_getElem_cons inside, byte]
    refine congrArg (List.cons _) ?_
    rw [List.length_cons] at all
    cases waits with
    | nil =>
      rw [List.length_nil] at all
      have done : bytes.length + 1 = d.source.val.length := by
        rw [d.source.property]
        omega
      rw [done, List.drop_length]
      rfl
    | cons next waits =>
      rw [List.length_cons] at all
      have quiet : wait.any tellsError = false := by
        refine List.any_eq_false.mpr fun status among => Bool.eq_false_iff.mp ?_
        refine silent status ?_
        rw [List.dropLast_cons_of_ne_nil (List.cons_ne_nil _ _), List.flatten_cons]
        exact List.mem_append_left _ among
      have later : ∀ status ∈ (next :: waits).dropLast.flatten, tellsError status = false := by
        intro status among
        refine silent status ?_
        rw [List.dropLast_cons_of_ne_nil (List.cons_ne_nil _ _), List.flatten_cons]
        exact List.mem_append_right _ among
      rw [progress_of_less (by rw [grown]; omega), toldAll_moving, quiet, if_neg Bool.false_ne_true,
        inductionHypothesis (by rw [grown]; omega) (by rw [grown, List.length_cons]; omega) later,
        grown]

end Device

/-! ## MIDE -/

theorem readBytes_returns {count : Nat} :
    readBytes count d = (some bytes, e) ↔
      ∃ (waits : List (List Byte)) (left : List Byte), d.script = waits.flatten ++ left ∧
        waits.length = count ∧ (∀ wait ∈ waits, IsWait notBusy wait) ∧
        bytes = (giveAll waits d).1 ∧ e = (giveAll waits d).2.withScript left := by
  induction count generalizing d bytes with
  | zero =>
    constructor
    · intro returns
      cases returns
      exact ⟨[], _, rfl, rfl, nofun, rfl, rfl⟩
    · rintro ⟨waits, left, script, none, -, rfl, same⟩
      cases List.length_eq_zero_iff.mp none
      have own : left = _ := script.symm
      rw [same, own]
      rfl
  | succ count inductionHypothesis =>
    have next : readBytes (count + 1) d =
        (ataWait >>= fun _ => readBytes count >>= fun rest => pure (d.give.1 :: rest)) d.give.2 := rfl
    rw [next]
    have script' : d.give.2.script = d.script := by
      have apart := congrArg (fun given => given.2.script) (give_withScript (d := d) d.script)
      exact apart
    constructor
    · intro returns
      obtain ⟨_, t, first, returns⟩ := Program.bind_returns.mp returns
      obtain ⟨wait, left, script, isWait, rfl⟩ := ataWait_returns.mp first
      obtain ⟨rest, u, second, returns⟩ := Program.bind_returns.mp returns
      cases returns
      obtain ⟨waits, left', script'', length, all, rfl, rfl⟩ := inductionHypothesis.mp second
      have own : left = waits.flatten ++ left' := script''
      rw [giveAll_withScript]
      refine ⟨wait :: waits, left', ?_, congrArg Nat.succ length, ?_, rfl, rfl⟩
      · rw [← script', script, own, List.flatten_cons, List.append_assoc]
      · intro other among
        rcases List.mem_cons.mp among with rfl | among
        · exact isWait
        · exact all other among
    · rintro ⟨waits, left, script, length, all, rfl, rfl⟩
      cases waits with
      | nil => exact absurd length nofun
      | cons wait waits =>
        rw [List.flatten_cons, List.append_assoc, ← script'] at script
        refine Program.bind_returns.mpr
          ⟨(), _, ataWait_returns.mpr ⟨wait, _, script, all wait List.mem_cons_self, rfl⟩, ?_⟩
        refine Program.bind_returns.mpr ⟨_, _, inductionHypothesis.mpr
          ⟨waits, left, rfl, Nat.succ.inj length,
            fun other among => all other (List.mem_cons_of_mem _ among), rfl, ?_⟩, ?_⟩
        · rw [giveAll_withScript]
          rfl
        · rw [giveAll_withScript]
          rfl

/-- What the card shows while a sector is read from it. -/
structure MideRead where
  feature : List Byte
  start : List Byte
  checked : Byte
  ready : List Byte
  request : List Byte
  /-- After each byte. -/
  waits : List (List Byte)

namespace MideRead

def answer (t : MideRead) : List Byte :=
  t.start ++ (t.checked :: (t.ready ++ (t.request ++ t.waits.flatten)))

def script (t : MideRead) : List Byte := t.feature ++ t.answer

/-- The statuses let the driver read the whole sector and report it. -/
structure Passes (t : MideRead) : Prop where
  start : IsWait notBusy t.start
  checked : error t.checked = false
  ready : IsWait notBusy t.ready
  request : IsWait dataReady t.request
  waits : ∀ wait ∈ t.waits, IsWait notBusy wait
  bytes : t.waits.length = 512

structure Sends (t : MideRead) : Prop extends Passes t where
  feature : IsWait notBusy t.feature

def asking (t : MideRead) : List Byte := t.start ++ t.checked :: (t.ready ++ t.request)

structure Good (t : MideRead) : Prop where
  silent : ∀ status ∈ t.asking ++ t.waits.dropLast.flatten, tellsError status = false
  asks : ∃ status ∈ t.asking, asksData status = true

def given (t : MideRead) (d : Device) : List Byte × Device := giveAll t.waits (d.toldAll t.asking)

end MideRead

/-- `ata_read_sector` from the wait after its command on. -/
def mideReceive : Program Device (Nat × List Byte) := do
  ataWait
  let status ← readStatus
  if error status then
    pure (0, [])
  else do
    ataWait
    ataWaitForData
    let bytes ← readBytes 512
    pure (512, bytes)

theorem mideReceive_returns :
    mideReceive d = (some (512, bytes), e) ↔
      ∃ (t : MideRead) (left : List Byte), d.script = t.answer ++ left ∧ t.Passes ∧
        bytes = (t.given d).1 ∧ e = (t.given d).2.withScript left := by
  constructor
  · intro returns
    obtain ⟨_, d₁, first, returns⟩ := Program.bind_returns.mp returns
    obtain ⟨start, s₁, script₁, waitStart, rfl⟩ := ataWait_returns.mp first
    obtain ⟨checked, d₂, second, returns⟩ := Program.bind_returns.mp returns
    obtain ⟨s₂, script₂, rfl⟩ := readStatus_returns.mp second
    cases clean : error checked with
    | true =>
      rw [if_pos clean] at returns
      cases returns
    | false =>
      rw [if_neg (Bool.eq_false_iff.mp clean)] at returns
      obtain ⟨_, d₃, third, returns⟩ := Program.bind_returns.mp returns
      obtain ⟨ready, s₃, script₃, waitReady, rfl⟩ := ataWait_returns.mp third
      obtain ⟨_, d₄, fourth, returns⟩ := Program.bind_returns.mp returns
      obtain ⟨request, s₄, script₄, waitRequest, rfl⟩ := ataWaitForData_returns.mp fourth
      obtain ⟨bytes', d₅, fifth, returns⟩ := Program.bind_returns.mp returns
      obtain ⟨waits, s₅, script₅, length, waitBytes, rfl, rfl⟩ := readBytes_returns.mp fifth
      cases returns
      have asked : (((((d.toldAll start).withScript s₁).told checked).withScript s₂ |>.toldAll
          ready).withScript s₃ |>.toldAll request).withScript s₄ =
            (d.toldAll (start ++ checked :: (ready ++ request))).withScript s₄ := by
        simp only [toldAll_withScript, told_withScript, withScript_withScript, toldAll_append,
          toldAll_cons]
      rw [asked, giveAll_withScript]
      refine ⟨⟨[], start, checked, ready, request, waits⟩, s₅, ?_, ?_, rfl, rfl⟩
      · have script₂' : s₁ = checked :: s₂ := script₂
        have script₃' : s₂ = ready ++ s₃ := script₃
        have script₄' : s₃ = request ++ s₄ := script₄
        have script₅' : s₄ = waits.flatten ++ s₅ := script₅
        rw [script₁, script₂', script₃', script₄', script₅']
        simp [MideRead.answer]
      · exact ⟨waitStart, clean, waitReady, waitRequest, waitBytes, length⟩
  · rintro ⟨t, left, script, passes, rfl, rfl⟩
    unfold MideRead.answer at script
    simp only [List.append_assoc, List.cons_append] at script
    have checked : ¬ error t.checked = true := Bool.eq_false_iff.mp passes.checked
    have asked : (((((d.toldAll t.start).withScript
        (t.checked :: (t.ready ++ (t.request ++ (t.waits.flatten ++ left))))).told t.checked).withScript
          (t.ready ++ (t.request ++ (t.waits.flatten ++ left))) |>.toldAll t.ready).withScript
            (t.request ++ (t.waits.flatten ++ left)) |>.toldAll t.request).withScript
              (t.waits.flatten ++ left) =
          (d.toldAll t.asking).withScript (t.waits.flatten ++ left) := by
      simp only [toldAll_withScript, told_withScript, withScript_withScript, toldAll_append,
        toldAll_cons, MideRead.asking]
    refine Program.bind_returns.mpr
      ⟨(), _, ataWait_returns.mpr ⟨t.start, _, script, passes.start, rfl⟩, ?_⟩
    refine Program.bind_returns.mpr ⟨t.checked, _, readStatus_returns.mpr ⟨_, rfl, rfl⟩, ?_⟩
    rw [if_neg checked]
    refine Program.bind_returns.mpr
      ⟨(), _, ataWait_returns.mpr ⟨t.ready, _, rfl, passes.ready, rfl⟩, ?_⟩
    refine Program.bind_returns.mpr
      ⟨(), _, ataWaitForData_returns.mpr ⟨t.request, _, rfl, passes.request, rfl⟩, ?_⟩
    rw [asked]
    refine Program.bind_returns.mpr ⟨_, _, readBytes_returns.mpr
      ⟨t.waits, left, rfl, passes.bytes, passes.waits, rfl, rfl⟩, ?_⟩
    rw [giveAll_withScript]
    rfl

theorem mideReceive_result {result : Nat} (returns : mideReceive d = (some (result, bytes), e)) :
    result = 0 ∨ result = 512 := by
  obtain ⟨_, t, -, returns⟩ := Program.bind_returns.mp returns
  obtain ⟨status, u, -, returns⟩ := Program.bind_returns.mp returns
  split at returns
  · cases returns
    exact .inl rfl
  · obtain ⟨_, _, -, returns⟩ := Program.bind_returns.mp returns
    obtain ⟨_, _, -, returns⟩ := Program.bind_returns.mp returns
    obtain ⟨_, _, -, returns⟩ := Program.bind_returns.mp returns
    cases returns
    exact .inr rfl

def Device.readAsked (sector : BitVec 32) (d : Device) : Device :=
  (d.withHead (driveHead sector)).eightBits.asked .read sector

theorem mideReadSector_eq (d : Device) :
    mideReadSector sector d =
      (go8bitsMode >>= fun _ (t : Device) =>
        mideReceive (Device.begin ATA_CMD_READ_SECTORS
          { t with
            taskFile :=
              { t.taskFile with
                sectorCount := 1
                sectorNum := sector.extractLsb' 0 8
                cylLow := sector.extractLsb' 8 8
                cylHigh := sector.extractLsb' 16 8 } })) (d.withHead (driveHead sector)) := rfl

/-- The driver reads after the statuses that put the card in the mode of 8 bits. -/
theorem mideReadSector_returns {result : Nat} :
    mideReadSector sector d = (some (result, bytes), e) ↔
      ∃ feature left, d.script = feature ++ left ∧ IsWait notBusy feature ∧
        mideReceive ((d.readAsked sector).withScript left) = (some (result, bytes), e) := by
  rw [mideReadSector_eq]
  refine Program.bind_returns.trans ?_
  have asked (left : List Byte) :
      Device.begin ATA_CMD_READ_SECTORS
          ((((d.withHead (driveHead sector)).eightBits).withScript left).addressed sector) =
        (d.readAsked sector).withScript left := begin_read _
  constructor
  · rintro ⟨_, t, first, returns⟩
    obtain ⟨feature, left, script, wait, rfl⟩ := go8bitsMode_returns.mp first
    refine ⟨feature, left, script, wait, ?_⟩
    rw [← asked]
    exact returns
  · rintro ⟨feature, left, script, wait, returns⟩
    rw [← asked] at returns
    exact ⟨(), _, go8bitsMode_returns.mpr ⟨feature, left, script, wait, rfl⟩, returns⟩

theorem mideReadSector_result {result : Nat}
    (returns : mideReadSector sector d = (some (result, bytes), e)) : result = 0 ∨ result = 512 := by
  obtain ⟨_, _, -, -, returns⟩ := mideReadSector_returns.mp returns
  exact mideReceive_result returns

theorem mideReadSector_given :
    mideReadSector sector d = (some (512, bytes), e) ↔
      ∃ (t : MideRead) (left : List Byte), d.script = t.script ++ left ∧ t.Sends ∧
        bytes = (t.given (d.readAsked sector)).1 ∧
        e = (t.given (d.readAsked sector)).2.withScript left := by
  rw [mideReadSector_returns]
  have apart (t : MideRead) (left : List Byte) :
      t.given ((d.readAsked sector).withScript left) =
        ((t.given (d.readAsked sector)).1, (t.given (d.readAsked sector)).2.withScript left) := by
    unfold MideRead.given
    rw [toldAll_withScript, giveAll_withScript]
  constructor
  · rintro ⟨feature, left, script, wait, returns⟩
    obtain ⟨t, left', script', passes, rfl, rfl⟩ := mideReceive_returns.mp returns
    have own : left = t.answer ++ left' := script'
    rw [apart]
    refine ⟨{ t with feature := feature }, left', ?_, { passes with feature := wait }, rfl, rfl⟩
    rw [script, own, ← List.append_assoc]
    rfl
  · rintro ⟨t, left, script, sends, rfl, rfl⟩
    unfold MideRead.script at script
    rw [List.append_assoc] at script
    refine ⟨t.feature, _, script, sends.feature, mideReceive_returns.mpr
      ⟨t, left, rfl, sends.toPasses, ?_⟩⟩
    rw [apart]
    exact ⟨rfl, rfl⟩

theorem given_contents (t : MideRead) (sends : t.Sends) (good : t.Good) :
    (t.given (d.readAsked sector)).1 = (d.contents (lbaOf sector)).val := by
  have silent : t.asking.any tellsError = false :=
    List.any_eq_false.mpr fun status among =>
      Bool.eq_false_iff.mp (good.silent status (List.mem_append_left _ among))
  have asks : t.asking.any asksData = true := List.any_eq_true.mpr good.asks
  have base : (((d.withHead (driveHead sector)).eightBits.addressed sector).ordered
      ⟨.read, lbaOf sector, 1⟩).order.operation ≠ .write := nofun
  have asked : (d.readAsked sector).toldAll t.asking =
      (((d.withHead (driveHead sector)).eightBits.addressed sector).ordered
        ⟨.read, lbaOf sector, 1⟩).withPhase (.moving []) := by
    unfold Device.readAsked Device.asked
    rw [toldAll_asked, silent, asks]
    rfl
  unfold MideRead.given
  have none : ([] : List Byte).length = 0 := rfl
  have bytes := sends.bytes
  rw [asked, giveAll_moving base (by omega) (by omega) fun status among =>
    good.silent status (List.mem_append_right _ among)]
  rfl

/-! ## picoIDE -/

theorem bytesOf_cons (first second : Byte) (words : List Word) :
    bytesOf ((first ++ second : Word) :: words) = first :: second :: bytesOf words := by
  have upper : (first ++ second : Word).extractLsb' 8 8 = first := BitVec.extractLsb'_append_eq_left
  have lower : (first ++ second : Word).extractLsb' 0 8 = second :=
    BitVec.extractLsb'_append_eq_right
  show (first ++ second : Word).extractLsb' 8 8 :: (first ++ second : Word).extractLsb' 0 8 ::
    bytesOf words = _
  rw [upper, lower]

theorem readWords_returns (count : Nat) (d : Device) :
    ∃ words, readWords devicePort count d =
        (some words, (giveAll (List.replicate (2 * count) []) d).2) ∧
      bytesOf words = (giveAll (List.replicate (2 * count) []) d).1 := by
  induction count generalizing d with
  | zero => exact ⟨[], rfl, rfl⟩
  | succ count inductionHypothesis =>
    obtain ⟨words, run, bytes⟩ := inductionHypothesis d.give.2.give.2
    have first : devicePort.readData16 d =
        (some (d.give.1 ++ d.give.2.give.1), d.give.2.give.2) := rfl
    refine ⟨(d.give.1 ++ d.give.2.give.1) :: words, ?_, ?_⟩
    · show (devicePort.readData16 >>= fun word => readWords devicePort count >>= fun rest =>
        pure (word :: rest)) d = _
      rw [Program.bind_of_returns first, Program.bind_of_returns run]
      rfl
    · rw [bytesOf_cons, bytes]
      rfl

/-- `picoide_read_sector` from the wait after its command on. -/
def picoideReceive : Program Device (Nat × List Word) := do
  let ready ← picoideWaitDrq devicePort
  if ready = 0 then do
    picoideReport devicePort
    pure (0, [])
  else do
    let dst ← readWords devicePort 256
    let idle ← picoideWaitIdle devicePort
    if idle = 0 then do
      picoideReport devicePort
      pure (0, dst)
    else
      pure (512, dst)

theorem picoideReadSector_eq (d : Device) :
    picoideReadSector devicePort sector d = picoideReceive (d.asked .read sector) := by
  rw [← begin_read]
  rfl

theorem giveAll_script (waits : List (List Byte)) : (giveAll waits d).2.script = d.script := by
  have apart := congrArg (fun given => given.2.script) (giveAll_withScript (d := d) waits d.script)
  exact apart

/-- How a read ends on a device that was given its command. -/
inductive ReadEnds (d : Device) : Nat → List Word → Prop
  | notAsked (read left : List Byte) (script : d.script = read ++ left)
      (drq : Polled drqOf 0 PICOIDE_TIMEOUT_LOOPS read 0) : ReadEnds d 0 []
  | notDone (read read' left : List Byte) (words : List Word)
      (script : d.script = read ++ (read' ++ left))
      (drq : Polled drqOf 0 PICOIDE_TIMEOUT_LOOPS read 1)
      (idle : Polled idleOf 0 PICOIDE_TIMEOUT_LOOPS read' 0) : ReadEnds d 0 words
  | done (read read' left : List Byte) (words : List Word)
      (script : d.script = read ++ (read' ++ left))
      (drq : Polled drqOf 0 PICOIDE_TIMEOUT_LOOPS read 1)
      (idle : Polled idleOf 0 PICOIDE_TIMEOUT_LOOPS read' 1)
      (bytes : bytesOf words = d.source.val) : ReadEnds d 512 words

theorem picoideReceive_ends {result : Nat} {words : List Word} (kind : d.order.operation ≠ .write)
    (returns : picoideReceive (d.withPhase .asked) = (some (result, words), e)) :
    ReadEnds (d.withPhase .asked) result words := by
  obtain ⟨ready, t, first, returns⟩ := Program.bind_returns.mp returns
  obtain ⟨read, left, script, drq, rfl⟩ := picoideWaitDrq_returns.mp first
  rcases drq_value drq with rfl | rfl
  · obtain ⟨_, u, -, returns⟩ := Program.bind_returns.mp returns
    cases returns
    exact .notAsked read left script drq
  · rw [if_neg Nat.one_ne_zero, toldAll_drq drq] at returns
    obtain ⟨dst, u, second, returns⟩ := Program.bind_returns.mp returns
    obtain ⟨words', run, bytes⟩ := readWords_returns 256 ((d.withPhase (.moving [])).withScript left)
    have run' := second.symm.trans run
    have same : dst = words' := Option.some.inj (Prod.mk.inj run').1
    have after : u.script = left := by
      rw [(Prod.mk.inj run').2, giveAll_script]
      rfl
    obtain ⟨idle, v, third, returns⟩ := Program.bind_returns.mp returns
    obtain ⟨read', left', script', polled, rfl⟩ := picoideWaitIdle_returns.mp third
    have whole : (d.withPhase .asked).script = read ++ (read' ++ left') := by
      rw [script, ← after, script']
    rcases idle_value polled with rfl | rfl
    · obtain ⟨_, w, -, returns⟩ := Program.bind_returns.mp returns
      cases returns
      exact .notDone read read' left' words whole drq polled
    · rw [if_neg Nat.one_ne_zero] at returns
      cases returns
      refine .done read read' left' words whole drq polled ?_
      have none : ([] : List Byte).length = 0 := rfl
      have moving : (giveAll (List.replicate (2 * 256) []) ((d.withScript left).withPhase (.moving []))).1 =
          (d.withScript left).source.val.drop ([] : List Byte).length := by
        refine giveAll_moving kind (by omega) (by rw [List.length_replicate]; omega) ?_
        intro status among
        obtain ⟨wait, isWait, inside⟩ := List.mem_flatten.mp among
        have empty := List.eq_of_mem_replicate ((List.dropLast_sublist _).subset isWait)
        rw [empty] at inside
        exact absurd inside List.not_mem_nil
      rw [same, bytes]
      exact moving

theorem picoideReadSector_ends {result : Nat} {words : List Word}
    (returns : picoideReadSector devicePort sector d = (some (result, words), e)) :
    ReadEnds (d.asked .read sector) result words := by
  rw [picoideReadSector_eq] at returns
  exact picoideReceive_ends (d := (d.addressed sector).ordered ⟨.read, lbaOf sector, 1⟩) nofun returns

theorem picoideReadSector_result {result : Nat} {words : List Word}
    (returns : picoideReadSector devicePort sector d = (some (result, words), e)) :
    result = 0 ∨ result = 512 := by
  cases picoideReadSector_ends returns with
  | notAsked => exact .inl rfl
  | notDone => exact .inl rfl
  | done => exact .inr rfl

theorem picoideReadSector_contents {words : List Word}
    (returns : picoideReadSector devicePort sector d = (some (512, words), e)) :
    bytesOf words = (d.contents (lbaOf sector)).val := by
  cases picoideReadSector_ends returns with
  | done read read' left words script drq idle bytes => exact bytes

end OrionBios.Disks
