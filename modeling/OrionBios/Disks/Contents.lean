import OrionBios.Disks.Confinement
import OrionBios.Disks.Steady

/-!
# What a request leaves on a disk

A sector that is written stays there; a write that fails leaves the sector as it was, unless the
device took the data and the driver did not wait for it.
-/

namespace OrionBios.Disks

open Machine Device

variable {d e : Device} {dev : Dev} {sector : BitVec 32} {buffer : Sector} {script : List Byte}

/-! ## Statuses that a write can rely on -/

/-- The driver does not give up a sector that the picoIDE still works on. -/
def Patient (script : List Byte) : Prop :=
  ∀ read read' left, script = read ++ (read' ++ left) →
    Polled drqOf 0 PICOIDE_TIMEOUT_LOOPS read 1 → read'.length = PICOIDE_TIMEOUT_LOOPS →
    ∃ status ∈ read', idleOf status ≠ none

def WriteSafe : Dev → List Byte → Prop
  | .ATA_DEV_MIDE => GoodSector
  | .ATA_DEV_PICOIDE => Patient

/-- The statuses of a sector that the driver reports as written. -/
def Written (dev : Dev) (shown : List Byte) : Prop :=
  match dev with
  | .ATA_DEV_MIDE => ∃ t : MideShown, shown = t.script ∧ t.Sends
  | .ATA_DEV_PICOIDE => ∃ read read', shown = read ++ read' ∧
      Polled drqOf 0 PICOIDE_TIMEOUT_LOOPS read 1 ∧ Polled idleOf 0 PICOIDE_TIMEOUT_LOOPS read' 1

/-! ## One sector -/

theorem writeOf_medium {result : Nat} (returns : writeOf dev sector buffer d = (some result, e)) :
    e.medium = d.medium := by
  cases dev with
  | ATA_DEV_MIDE =>
    have run : mideWriteSector sector buffer d = (some result, e) := returns
    rw [mideWriteSector_eq] at run
    obtain ⟨_, t, first, others⟩ := Program.bind_returns.mp run
    obtain ⟨read, left, -, -, rfl⟩ := go8bitsMode_returns.mp first
    have kept := (mideSend_frame buffer ((d.eightBits.withScript left).asked .write sector)).medium
    rw [others] at kept
    exact kept
  | ATA_DEV_PICOIDE =>
    have run : picoideWriteSector devicePort sector (wordsOf buffer.val) d = (some result, e) := returns
    rw [picoideWriteSector_eq] at run
    have kept := (picoideSend_frame (wordsOf buffer.val) (d.asked .write sector)).medium
    rw [run] at kept
    exact kept

theorem mideSend_fails (quiet : Quiet d) (returns : mideSend buffer d = (some 0, e)) : Kept d e := by
  obtain ⟨_, t, first, returns⟩ := Program.bind_returns.mp returns
  have waited := ataWait_steady d quiet
  rw [first] at waited
  obtain ⟨status, u, second, returns⟩ := Program.bind_returns.mp returns
  have looked := readStatus_steady t waited.quiet
  rw [second] at looked
  have there : Kept d u :=
    ⟨looked.quiet, looked.saved.trans waited.saved, looked.medium.trans waited.medium⟩
  split at returns
  · cases returns
    exact there
  · obtain ⟨_, _, -, returns⟩ := Program.bind_returns.mp returns
    obtain ⟨_, _, -, returns⟩ := Program.bind_returns.mp returns
    obtain ⟨_, _, -, returns⟩ := Program.bind_returns.mp returns
    obtain ⟨_, _, -, returns⟩ := Program.bind_returns.mp returns
    obtain ⟨_, _, -, returns⟩ := Program.bind_returns.mp returns
    cases returns

theorem mideWriteSector_fails (returns : mideWriteSector sector buffer d = (some 0, e)) :
    Kept d e := by
  rw [mideWriteSector_eq] at returns
  obtain ⟨_, t, first, returns⟩ := Program.bind_returns.mp returns
  obtain ⟨read, left, -, -, rfl⟩ := go8bitsMode_returns.mp first
  have quiet : Quiet ((d.eightBits.withScript left).asked .write sector) := fun _ => trivial
  have kept := mideSend_fails quiet returns
  exact ⟨kept.quiet, kept.saved, kept.medium⟩

theorem idleOf_zero {status : Byte} (found : idleOf status = some 0) :
    (busy status || dataReady status) = false ∧ error status = true := by
  unfold idleOf at found
  cases waits : busy status || dataReady status with
  | true =>
    rw [waits] at found
    exact absurd found nofun
  | false =>
    rw [waits] at found
    cases broken : error status with
    | true => exact ⟨rfl, rfl⟩
    | false =>
      rw [broken] at found
      exact absurd found nofun

/-- A device that `picoide_wait_idle` found in an error has dropped the sector. -/
theorem toldAll_idle_zero {read : List Byte} (write : d.order.operation = .write)
    (one : d.order.sectors = 1) (polled : Polled idleOf 0 PICOIDE_TIMEOUT_LOOPS read 0)
    (patient : read.length = PICOIDE_TIMEOUT_LOOPS → ∃ status ∈ read, idleOf status ≠ none) :
    (d.withPhase (.complete buffer)).toldAll read = d.withPhase .failed := by
  rcases polled with ⟨length, none, -⟩ | ⟨skipped, last, rfl, -, others, found⟩
  · obtain ⟨status, among, some⟩ := patient length
    exact absurd (none status among) some
  · have stays : (d.withPhase (.complete buffer)).toldAll skipped = d.withPhase (.complete buffer) := by
      refine toldAll_of_fixed fun status among => ?_
      rw [told_complete write one, if_pos (idleOf_none (others status among))]
    rw [toldAll_append, stays, toldAll_cons, told_complete write one, (idleOf_zero found).1,
      (idleOf_zero found).2]
    rfl

theorem toldAll_steady (statuses : List Byte) (quiet : Quiet d) : Kept d (d.toldAll statuses) := by
  induction statuses generalizing d with
  | nil => exact steady_refl d quiet
  | cons status rest inductionHypothesis =>
    have told := told_steady status quiet
    have others := inductionHypothesis told.quiet
    exact ⟨others.quiet, others.saved.trans told.saved, others.medium.trans told.medium⟩

theorem report_kept (quiet : Quiet d) (returns : picoideReport devicePort d = (some (), e)) :
    Kept d e := by
  have kept := picoideReport_steady d quiet
  rw [returns] at kept
  exact kept

theorem picoideWriteSector_fails (patient : Patient d.script)
    (returns : picoideWriteSector devicePort sector (wordsOf buffer.val) d = (some 0, e)) :
    Kept d e := by
  cases picoideWriteSector_ends returns with
  | notAsked read left script drq report =>
    have asked : Kept (d.asked .write sector) ((d.asked .write sector).toldAll read) :=
      toldAll_steady read fun _ => trivial
    have quiet : Quiet (((d.asked .write sector).toldAll read).withScript left) := asked.quiet
    have reported := report_kept quiet report
    exact ⟨reported.quiet, reported.saved.trans asked.saved, reported.medium.trans asked.medium⟩
  | notDone read read' left script drq idle report =>
    have failed : ((d.asked .write sector).withPhase (.complete buffer)).toldAll read' =
        (d.asked .write sector).withPhase .failed :=
      toldAll_idle_zero (d := d.asked .write sector) rfl rfl idle (patient read read' left script drq)
    rw [failed] at report
    have reported := report_kept (d := ((d.asked .write sector).withPhase .failed).withScript left)
      (fun _ => trivial) report
    exact ⟨reported.quiet, reported.saved, reported.medium⟩

/-- What a write of one sector does to the disk. -/
inductive Stored (dev : Dev) (sector : BitVec 32) (buffer : Sector) (d e : Device) : Nat → Prop
  | works (phase : e.phase = .accepted) (saved : e.saved = (lbaOf sector, buffer) :: d.saved)
      (medium : e.medium = d.medium) (shown : List Byte) (script : d.script = shown ++ e.script)
      (written : Written dev shown) : Stored dev sector buffer d e 512
  | fails (kept : Kept d e) : Stored dev sector buffer d e 0

theorem writeOf_stored {result : Nat} (safe : WriteSafe dev d.script)
    (returns : writeOf dev sector buffer d = (some result, e)) :
    Stored dev sector buffer d e result := by
  by_cases works : result = 0
  · rw [works] at returns ⊢
    cases dev with
    | ATA_DEV_MIDE => exact .fails (mideWriteSector_fails returns)
    | ATA_DEV_PICOIDE => exact .fails (picoideWriteSector_fails safe returns)
  · have honest : Honest dev sector buffer d := honest_iff.mpr fun mide => by
      rw [mide] at safe
      exact safe
    obtain ⟨phase, saved⟩ := honest result e returns works
    cases writeOf_result returns works
    have medium := writeOf_medium returns
    cases dev with
    | ATA_DEV_MIDE =>
      obtain ⟨t, left, script, sends, rfl⟩ := mideWriteSector_sent.mp returns
      exact .works phase saved medium t.script script ⟨t, rfl, sends⟩
    | ATA_DEV_PICOIDE =>
      cases picoideWriteSector_ends returns with
      | done read read' left script drq idle same =>
        refine .works phase saved medium (read ++ read') ?_ ⟨read, read', rfl, drq, idle⟩
        rw [same, List.append_assoc]
        exact script

/-- The statuses ahead let the MIDE's driver read no wrong byte. -/
def GoodRead (script : List Byte) : Prop :=
  ∀ (t : MideRead) (left : List Byte), script = t.script ++ left → t.Sends → t.Good

/-- The statuses of a sector that the MIDE's driver reads. -/
def ReadWhole (shown : List Byte) : Prop := ∃ t : MideRead, shown = t.script ∧ t.Sends

theorem readOf_result {result : Nat} {bytes : List Byte}
    (returns : readOf dev sector d = (some (result, bytes), e)) : result = 0 ∨ result = 512 := by
  cases dev with
  | ATA_DEV_MIDE => exact mideReadSector_result returns
  | ATA_DEV_PICOIDE =>
    obtain ⟨⟨_, words⟩, t, first, others⟩ := Program.bind_returns.mp returns
    cases others
    exact picoideReadSector_result first

theorem readOf_contents {bytes : List Byte} (safe : dev = .ATA_DEV_MIDE → GoodRead d.script)
    (returns : readOf dev sector d = (some (512, bytes), e)) :
    bytes = (d.contents (lbaOf sector)).val ∧
      (dev = .ATA_DEV_MIDE → ∃ shown, d.script = shown ++ e.script ∧ ReadWhole shown) := by
  cases dev with
  | ATA_DEV_MIDE =>
    obtain ⟨t, left, script, sends, rfl, rfl⟩ := mideReadSector_given.mp returns
    exact ⟨given_contents t sends (safe rfl t left script sends),
      fun _ => ⟨t.script, script, t, rfl, sends⟩⟩
  | ATA_DEV_PICOIDE =>
    obtain ⟨⟨_, words⟩, t, first, others⟩ := Program.bind_returns.mp returns
    cases others
    exact ⟨picoideReadSector_contents first, fun impossible => absurd impossible nofun⟩

/-- The statuses ahead let the driver read a sector. -/
def Served : Dev → List Byte → Prop
  | .ATA_DEV_MIDE, script =>
    GoodRead script ∧ ∀ feature start checked left, script = feature ++ (start ++ checked :: left) →
      IsWait notBusy feature → IsWait notBusy start → error checked = false
  | .ATA_DEV_PICOIDE, script =>
    (∀ read left, script = read ++ left → ¬ Polled drqOf 0 PICOIDE_TIMEOUT_LOOPS read 0) ∧
      ∀ read read' left, script = read ++ (read' ++ left) →
        Polled drqOf 0 PICOIDE_TIMEOUT_LOOPS read 1 → ¬ Polled idleOf 0 PICOIDE_TIMEOUT_LOOPS read' 0

theorem mideReceive_refused {bytes : List Byte} (returns : mideReceive d = (some (0, bytes), e)) :
    ∃ start checked left, d.script = start ++ checked :: left ∧ IsWait notBusy start ∧
      error checked = true := by
  obtain ⟨_, t, first, returns⟩ := Program.bind_returns.mp returns
  obtain ⟨start, left, script, wait, rfl⟩ := ataWait_returns.mp first
  obtain ⟨checked, u, second, returns⟩ := Program.bind_returns.mp returns
  obtain ⟨left', script', rfl⟩ := readStatus_returns.mp second
  split at returns
  · next broken =>
    have own : left = checked :: left' := script'
    rw [own] at script
    exact ⟨start, checked, left', script, wait, broken⟩
  · obtain ⟨_, _, -, returns⟩ := Program.bind_returns.mp returns
    obtain ⟨_, _, -, returns⟩ := Program.bind_returns.mp returns
    obtain ⟨_, _, -, returns⟩ := Program.bind_returns.mp returns
    cases returns

theorem readOf_served {result : Nat} {bytes : List Byte} (served : Served dev d.script)
    (returns : readOf dev sector d = (some (result, bytes), e)) :
    result = 512 ∧ bytes = (d.contents (lbaOf sector)).val := by
  have works : result = 512 := by
    refine (readOf_result returns).resolve_left fun failed => ?_
    rw [failed] at returns
    cases dev with
    | ATA_DEV_MIDE =>
      obtain ⟨feature, left, script, wait, received⟩ := mideReadSector_returns.mp returns
      obtain ⟨start, checked, left', script', wait', broken⟩ := mideReceive_refused received
      have own : left = start ++ checked :: left' := script'
      rw [own] at script
      exact absurd (served.2 feature start checked left' script wait wait')
        (fun clean => absurd (clean.symm.trans broken) nofun)
    | ATA_DEV_PICOIDE =>
      obtain ⟨⟨_, words⟩, t, first, others⟩ := Program.bind_returns.mp returns
      cases others
      cases picoideReadSector_ends first with
      | notAsked read left script drq => exact served.1 read left script drq
      | notDone read read' left words script drq idle => exact served.2 read read' left script drq idle
  rw [works] at returns
  refine ⟨works, (readOf_contents ?_ returns).1⟩
  intro mide
  rw [mide] at served
  exact served.1

/-! ## The sectors of a request -/

/-- The statuses are safe for each of the sectors that the driver comes to. -/
def EachSector (safe whole : List Byte → Prop) : Nat → List Byte → Prop
  | 0, _ => True
  | sectors + 1, script =>
    safe script ∧
      ∀ shown left, script = shown ++ left → whole shown → EachSector safe whole sectors left

/-- How many sectors of a request the driver reports as written. -/
def reported (write : BitVec 32 → Sector → Program Device Nat) (physicalSector i : BitVec 32) :
    List Sector → Device → Nat
  | [], _ => 0
  | buffer :: rest, d =>
    match write (physicalSector + i) buffer d with
    | (some result, e) => if result = 0 then 0 else reported write physicalSector (i + 1) rest e + 1
    | (none, _) => 0

/-- Sectors put on a disk one after the other. -/
def store : Nat → List Sector → (Nat → Sector) → Nat → Sector
  | _, [], disk => disk
  | start, buffer :: rest, disk => store (start + 1) rest (Function.update disk start buffer)

def Agrees (d : Device) (disk : Nat → Sector) : Prop := ∀ lba, d.contents lba = disk lba.toNat

/-- No sector waits for the device to accept it. -/
def Calm (d : Device) : Prop := d.order.operation = .write → ∀ sector, d.phase ≠ .complete sector

theorem Kept.calm (kept : Kept d e) : Calm e := by
  intro write sector phase
  have early := kept.quiet write
  rw [phase] at early
  exact early

theorem Agrees.kept {disk : Nat → Sector} (agrees : Agrees d disk) (kept : Kept d e) :
    Agrees e disk := by
  intro lba
  rw [kept.contents]
  exact agrees lba

theorem Agrees.stored {disk : Nat → Sector} {start : Nat} (agrees : Agrees d disk)
    (address : (lbaOf sector).toNat = start) (saved : e.saved = (lbaOf sector, buffer) :: d.saved)
    (medium : e.medium = d.medium) : Agrees e (Function.update disk start buffer) := by
  intro lba
  have own := agrees lba
  unfold Device.contents at own ⊢
  rw [saved, medium, List.find?_cons]
  by_cases same : lbaOf sector = lba
  · rw [decide_eq_true same, ← address, same, Function.update_self]
    rfl
  · have apart : lba.toNat ≠ start := fun equal =>
      same (BitVec.eq_of_toNat_eq (address.trans equal.symm))
    rw [decide_eq_false same, Function.update_of_ne apart]
    exact own

theorem lbaOf_ofNat {start : Nat} (less : start < 2 ^ 28) :
    (lbaOf (BitVec.ofNat 32 start)).toNat = start := by
  unfold lbaOf
  rw [BitVec.extractLsb'_toNat, Nat.shiftRight_zero, BitVec.toNat_ofNat]
  omega

theorem address_next {physicalSector i : BitVec 32} {start : Nat}
    (address : physicalSector + i = BitVec.ofNat 32 start) :
    physicalSector + (i + 1) = BitVec.ofNat 32 (start + 1) := by
  rw [← BitVec.add_assoc, address, BitVec.ofNat_add]
  rfl

variable {physicalSector i : BitVec 32} {start code : Nat} {disk : Nat → Sector}

theorem reported_cons {buffer : Sector} {rest : List Sector} {result : Nat}
    {write : BitVec 32 → Sector → Program Device Nat}
    (first : write (physicalSector + i) buffer d = (some result, e)) :
    reported write physicalSector i (buffer :: rest) d =
      if result = 0 then 0 else reported write physicalSector (i + 1) rest e + 1 := by
  show (match write (physicalSector + i) buffer d with
    | (some result, e) => if result = 0 then 0 else reported write physicalSector (i + 1) rest e + 1
    | (none, _) => 0) = _
  rw [first]

theorem sectorsWritten_stored {buff : List Sector} (calm : Calm d)
    (safe : EachSector (WriteSafe dev) (Written dev) buff.length d.script)
    (address : physicalSector + i = BitVec.ofNat 32 start) (fits : start + buff.length ≤ 2 ^ 28)
    (agrees : Agrees d disk)
    (returns : sectorsWritten (writeOf dev) physicalSector i buff d = (some code, e)) :
    Calm e ∧
      Agrees e (store start (buff.take (reported (writeOf dev) physicalSector i buff d)) disk) ∧
      (code = RES_OK → reported (writeOf dev) physicalSector i buff d = buff.length) := by
  induction buff generalizing i start d disk with
  | nil =>
    cases returns
    exact ⟨calm, agrees, fun _ => rfl⟩
  | cons buffer rest inductionHypothesis =>
    have body : sectorsWritten (writeOf dev) physicalSector i (buffer :: rest) =
        (writeOf dev (physicalSector + i) buffer >>= fun result =>
          if result = 0 then pure RES_ERROR
          else sectorsWritten (writeOf dev) physicalSector (i + 1) rest) := rfl
    rw [body] at returns
    obtain ⟨result, t, first, others⟩ := Program.bind_returns.mp returns
    rw [reported_cons first]
    rw [List.length_cons] at fits
    cases writeOf_stored safe.1 first with
    | fails kept =>
      cases others
      exact ⟨kept.calm, agrees.kept kept, nofun⟩
    | works phase saved medium shown script written =>
      have now : (lbaOf (physicalSector + i)).toNat = start := by
        rw [address]
        exact lbaOf_ofNat (by omega)
      have done : Calm t := by
        intro _ sector complete
        rw [phase] at complete
        exact absurd complete nofun
      obtain ⟨calm', agrees', all⟩ := inductionHypothesis done (safe.2 shown t.script script written)
        (address_next address) (by omega) (agrees.stored now saved medium) others
      exact ⟨calm', agrees', fun works => congrArg Nat.succ (all works)⟩

theorem sectorsRead_steady (dev : Dev) (physicalSector i : BitVec 32) (count : Nat) :
    Program.Relates Steady (sectorsRead (readOf dev) physicalSector i count) := by
  induction count generalizing i with
  | zero => exact steady_pure _
  | succ count inductionHypothesis =>
    refine steady_bind (readOf_steady dev _) fun read => Program.Relates.ite (steady_pure _) ?_
    exact steady_bind (inductionHypothesis (i + 1)) fun rest => steady_pure _

theorem sectorsRead_contents {count : Nat} {read : List (List Byte)} (quiet : Quiet d)
    (safe : dev = .ATA_DEV_MIDE → EachSector GoodRead ReadWhole count d.script)
    (address : physicalSector + i = BitVec.ofNat 32 start) (fits : start + count ≤ 2 ^ 28)
    (agrees : Agrees d disk)
    (returns : sectorsRead (readOf dev) physicalSector i count d = (some (RES_OK, read), e)) :
    read = (List.range' start count).map fun sector => (disk sector).val := by
  induction count generalizing i start d read with
  | zero =>
    cases returns
    rfl
  | succ count inductionHypothesis =>
    have body : sectorsRead (readOf dev) physicalSector i (count + 1) =
        (readOf dev (physicalSector + i) >>= fun got =>
          if got.1 = 0 then pure (RES_ERROR, [got.2])
          else sectorsRead (readOf dev) physicalSector (i + 1) count >>= fun rest =>
            pure (rest.1, got.2 :: rest.2)) := rfl
    rw [body] at returns
    obtain ⟨⟨result, bytes⟩, t, first, others⟩ := Program.bind_returns.mp returns
    by_cases failed : result = 0
    · rw [if_pos failed] at others
      cases others
    · rw [if_neg failed] at others
      obtain ⟨⟨code, rest⟩, u, second, last⟩ := Program.bind_returns.mp others
      cases last
      cases (readOf_result first).resolve_left failed
      obtain ⟨same, goesOn⟩ := readOf_contents (fun mide => (safe mide).1) first
      have steady := readOf_steady dev (physicalSector + i) d quiet
      rw [first] at steady
      have safe' (mide : dev = .ATA_DEV_MIDE) : EachSector GoodRead ReadWhole count t.script := by
        obtain ⟨shown, script, whole⟩ := goesOn mide
        exact (safe mide).2 shown t.script script whole
      have own : bytes = (disk start).val := by
        rw [same, agrees, address, lbaOf_ofNat (by omega)]
      have more := inductionHypothesis steady.quiet safe' (address_next address) (by omega)
        (agrees.kept steady) second
      rw [List.range'_succ, List.map_cons, ← more, own]

end OrionBios.Disks
