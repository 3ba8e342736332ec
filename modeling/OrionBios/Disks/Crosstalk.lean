import OrionBios.Disks.Drives

/-!
# Calls on both drives

A run is watched with what its calls should mean: where the partition of a drive starts, and what
its disk holds. Each drive keeps to that whatever happens on the other.
-/

namespace OrionBios.Disks

open Machine Device Transition

variable {dev : Dev} {s : System} {d e : Device}

/-! ## Runs -/

/-- What a device shows during a call is its own; a sector that it accepted before is settled. -/
def Device.showing (script : List Byte) (d : Device) : Device :=
  match d.phase with
  | .accepted => (d.withPhase .idle).withScript script
  | _ => d.withScript script

/-- A system with the meaning of the calls so far. -/
structure Watched where
  system : System
  /-- The base that the last successful initialisation found. -/
  base : Dev → BitVec 32
  /-- The last initialisation was successful. -/
  ready : Dev → Bool
  disk : Dev → Nat → Sector
  /-- The answers so far, the last first. -/
  answers : List (Dev × Answer)

namespace Watched

def shown (w : Watched) (event : Event) : System :=
  w.system.set event.dev ((w.system.on event.dev).showing event.script)

/-- Where a sector of a drive is on its disk. -/
def address (w : Watched) (dev : Dev) (sector : BitVec 32) : Nat :=
  (w.base dev).toNat + sector.toNat

def initialised (w : Watched) (dev : Dev) (code : Nat) : Watched :=
  if code = 0 then
    { w with
      base := Function.update w.base dev (readPartitionTable (w.disk dev 0) 0).base
      ready := Function.update w.ready dev true }
  else { w with ready := Function.update w.ready dev false }

def reportedSectors (w : Watched) (event : Event) (sector : BitVec 32) (buff : List Sector) : Nat :=
  reported (writeOf event.dev) ((w.system.drives event.dev 0).base + sector) 0 buff
    ((w.shown event).on event.dev)

def meant (w : Watched) (event : Event) (answer : Answer) : Watched :=
  match event.call with
  | .status | .read _ _ => w
  | .init => w.initialised event.dev answer.1
  | .write sector buff =>
    { w with
      disk := Function.update w.disk event.dev
        (store (w.address event.dev sector) (buff.take (w.reportedSectors event sector buff))
          (w.disk event.dev)) }

def after (w : Watched) (event : Event) (answer : Answer) (t : System) : Watched :=
  { w.meant event answer with system := t, answers := (event.dev, answer) :: w.answers }

end Watched

def step (w : Watched) (event : Event) : Option Watched :=
  match runCall (pdrvOf event.dev) event.call (w.shown event) with
  | (none, _) => none
  | (some answer, t) => some (w.after event answer t)

/-- A system that starts: nothing is initialised. -/
def boot (s : System) : Watched where
  system := s
  base := fun _ => 0
  ready := fun _ => false
  disk := fun dev sector => (s.on dev).contents (BitVec.ofNat 28 sector)
  answers := []

/-! ## What a call has to do -/

/-- The sectors of the device that a call accessed are its own, in order. -/
def Accessed (operation : Operation) (start count : Nat) (before after : Device) : Prop :=
  ∃ accessed : List Order, after.orders = accessed.reverse ++ before.orders ∧
    accessed.length ≤ count ∧
    ∀ i order, accessed[i]? = some order →
      order.operation = operation ∧ order.sectors = 1 ∧ order.lba.toNat = start + i

def Lawful (w : Watched) (event : Event) (next : Watched) : Prop :=
  (∀ other, other ≠ event.dev → next.system.drive other = w.system.drive other) ∧
    ∃ answer, next.answers = (event.dev, answer) :: w.answers ∧
      match event.call with
      | .status => True
      | .init => answer.1 = 0 →
          next.system.drives event.dev = readPartitionTable (w.disk event.dev 0)
      | .read sector count =>
          Accessed .read (w.address event.dev sector) count.toNat (w.system.on event.dev)
              (next.system.on event.dev) ∧
            (answer.1 = RES_OK →
              answer.2 = (List.range' (w.address event.dev sector) count.toNat).map fun n =>
                (w.disk event.dev n).val)
      | .write sector buff =>
          Accessed .write (w.address event.dev sector) buff.length (w.system.on event.dev)
              (next.system.on event.dev) ∧
            (answer.1 = RES_OK →
              next.disk event.dev = store (w.address event.dev sector) buff (w.disk event.dev))

/-! ## When it does -/

/-- A request on a drive that is initialised, at addresses that the registers hold. -/
def Addressable (w : Watched) (dev : Dev) (sector : BitVec 32) (count : Nat) : Prop :=
  w.ready dev = true ∧ w.address dev sector + count ≤ 2 ^ 28

def Guard (w : Watched) (event : Event) : Prop :=
  match event.call with
  | .status => True
  | .init => Loads event.dev ((w.shown event).on event.dev)
  | .read sector count =>
      Addressable w event.dev sector count.toNat ∧
        (event.dev = .ATA_DEV_MIDE → EachSector GoodRead ReadWhole count.toNat event.script)
  | .write sector buff =>
      Addressable w event.dev sector buff.length ∧
        EachSector (WriteSafe event.dev) (Written event.dev) buff.length event.script

/-- The meaning of the calls so far is what the devices and the tables hold. -/
structure Consistent (w : Watched) : Prop where
  calm : ∀ dev, Calm (w.system.on dev)
  agrees : ∀ dev, Agrees (w.system.on dev) (w.disk dev)
  table : ∀ dev, w.ready dev = true → (w.system.drives dev 0).base = w.base dev

theorem showing_script (script : List Byte) : (d.showing script).script = script := by
  unfold Device.showing
  cases d.phase with
  | idle => rfl
  | asked => rfl
  | moving bytes => rfl
  | complete sector => rfl
  | accepted => rfl
  | failed => rfl

theorem showing_quiet {script : List Byte} (calm : Calm d) : Quiet (d.showing script) := by
  obtain ⟨present, taskFile, phase, order, orders, saved, medium, identity, own⟩ := d
  intro write
  cases phase with
  | complete sector => exact absurd rfl (calm write sector)
  | idle => exact trivial
  | asked => exact trivial
  | moving bytes => exact trivial
  | accepted => exact trivial
  | failed => exact trivial

theorem showing_contents (script : List Byte) : (d.showing script).contents = d.contents := by
  unfold Device.showing
  cases d.phase <;> rfl

theorem showing_orders (script : List Byte) : (d.showing script).orders = d.orders := by
  unfold Device.showing
  cases d.phase <;> rfl

/-! ## One call -/

variable {w next : Watched} {event : Event}

/-- What the drive of a call is like when the call starts. -/
def Watched.seen (w : Watched) (event : Event) : Drive :=
  ⟨(w.system.on event.dev).showing event.script, w.system.drives event.dev⟩

theorem drive_shown (w : Watched) (event : Event) :
    (w.shown event).drive event.dev = w.seen event := by
  unfold Watched.shown Watched.seen System.drive
  rw [System.on_set, System.set_drives]

theorem drive_shown_of_ne {other : Dev} (different : other ≠ event.dev) :
    (w.shown event).drive other = w.system.drive other := by
  unfold Watched.shown System.drive
  rw [System.on_set_of_ne different, System.set_drives]

theorem on_shown (w : Watched) (event : Event) :
    (w.shown event).on event.dev = (w.seen event).device :=
  congrArg Drive.device (drive_shown w event)

theorem runCall_seen (loads : event.call = .init → Loads event.dev (w.seen event).device) :
    OnDrive event.dev (w.shown event) (runCall (pdrvOf event.dev) event.call (w.shown event))
      (Drive.call event.dev event.call (w.seen event)) := by
  rw [← drive_shown]
  refine runCall_onDrive event.call fun init => ?_
  rw [on_shown]
  exact loads init

theorem guard_loads (guard : Guard w event) :
    event.call = .init → Loads event.dev (w.seen event).device := by
  intro init
  unfold Guard at guard
  rw [init] at guard
  rw [← on_shown]
  exact guard

theorem step_alone (guard : Guard w event) (taken : step w event = some next) :
    ∃ answer, Drive.call event.dev event.call (w.seen event) =
        (some answer, next.system.drive event.dev) ∧
      (∀ other, other ≠ event.dev → next.system.drive other = w.system.drive other) ∧
      next = w.after event answer next.system := by
  have alone := runCall_seen (guard_loads guard)
  unfold step at taken
  cases run : runCall (pdrvOf event.dev) event.call (w.shown event) with
  | mk result t =>
    rw [run] at taken alone
    cases result with
    | none => cases taken
    | some answer =>
      cases taken
      refine ⟨answer, Prod.ext alone.answer.symm alone.drive.symm, fun other different => ?_, rfl⟩
      exact (alone.other other different).trans (drive_shown_of_ne different)

theorem step_of_alone {answer : Answer} {v : Drive}
    (loads : event.call = .init → Loads event.dev (w.seen event).device)
    (alone : Drive.call event.dev event.call (w.seen event) = (some answer, v)) :
    ∃ t, step w event = some (w.after event answer t) ∧ t.drive event.dev = v := by
  have same := runCall_seen loads
  rw [alone] at same
  unfold step
  cases run : runCall (pdrvOf event.dev) event.call (w.shown event) with
  | mk result t =>
    rw [run] at same
    have returned : result = some answer := same.answer
    rw [returned]
    exact ⟨t, rfl, same.drive⟩

/-! ## What a call does to its drive -/

theorem probe_steady (dev : Dev) : Program.Relates Steady (probe dev) := by
  refine steady_bind (detectOf_steady dev) fun there => Program.Relates.ite (steady_pure _) ?_
  refine steady_bind ?_ fun _ => steady_pure _
  cases dev with
  | ATA_DEV_MIDE => exact steady_pure ()
  | ATA_DEV_PICOIDE => exact steady_bind picoideIdentify_steady fun _ => steady_pure ()

theorem start_returns {v u : Drive} {answer : Answer} {disk : Nat → Sector}
    (loads : Loads dev v.device) (quiet : Quiet v.device) (agrees : Agrees v.device disk)
    (returns : v.start dev = (some answer, u)) :
    Kept v.device u.device ∧ (answer.1 = 0 → u.parts = readPartitionTable (disk 0)) := by
  have probed := probe_steady dev v.device quiet
  unfold Drive.start at returns
  cases run : probe dev v.device with
  | mk value d =>
    rw [run] at probed returns
    cases value with
    | none => cases returns
    | some there =>
      cases there with
      | false =>
        cases returns
        exact ⟨probed, nofun⟩
      | true =>
        have loaded := readOf_steady dev 0 d probed.quiet
        cases reads : readOf dev 0 d with
        | mk value e =>
          rw [reads] at loaded
          cases value with
          | none =>
            simp only [reads] at returns
            cases returns
          | some read =>
            obtain ⟨result, bytes⟩ := read
            simp only [reads] at returns
            cases returns
            refine ⟨⟨loaded.quiet, loaded.saved.trans probed.saved,
              loaded.medium.trans probed.medium⟩, fun _ => ?_⟩
            have same := (readOf_served (loads d run) reads).2
            have zero : d.contents (lbaOf 0) = disk 0 := (agrees.kept probed) (lbaOf 0)
            have full : bytes.length = 512 := by
              rw [same]
              exact (d.contents (lbaOf 0)).property
            show readPartitionTable (overwritten zeros bytes) = _
            rw [overwritten_full full, ← zero]
            exact congrArg readPartitionTable (Subtype.ext same)

theorem accessed_of_accesses {operation : Operation} {base sector : BitVec 32} {count start : Nat}
    {result : Option Nat} (address : start = base.toNat + sector.toNat)
    (fits : start + count ≤ 2 ^ 28)
    (accesses : Accesses operation (base + sector) 0 count result d e) :
    Accessed operation start count d e := by
  obtain ⟨accessed, atMost, orders, -⟩ := accesses
  refine ⟨ordersFor operation (base + sector) 0 accessed, orders, ?_, fun i order given => ?_⟩
  · rw [ordersFor_length]
    exact atMost
  · have less : i < accessed := by
      have inside := (List.getElem?_eq_some_iff.mp given).1
      rw [ordersFor_length] at inside
      exact inside
    rw [ordersFor_getElem? less] at given
    cases given
    refine ⟨rfl, rfl, (lbaOf_sum base sector i).trans ?_⟩
    rw [Nat.mod_eq_of_lt (by omega), address]

theorem onDrive_returns {Value : Type} {program : Program Device Value} {v u : Drive} {value : Value} :
    onDrive program v = (some value, u) ↔
      program v.device = (some value, u.device) ∧ u.parts = v.parts := by
  unfold onDrive
  constructor
  · intro returns
    have answer : (program v.device).1 = some value := congrArg Prod.fst returns
    have drive : _ = u := congrArg Prod.snd returns
    exact ⟨Prod.ext answer (congrArg Drive.device drive),
      (congrArg Drive.parts drive).symm⟩
  · rintro ⟨returns, parts⟩
    rw [returns, ← parts]

theorem bind_pure_returns {Value Result : Type} {program : Program Device Value}
    {result : Value → Result} {returned : Result} :
    (program >>= fun value => pure (result value)) d = (some returned, e) ↔
      ∃ value, program d = (some value, e) ∧ returned = result value := by
  rw [Program.bind_returns]
  constructor
  · rintro ⟨value, t, first, last⟩
    cases last
    exact ⟨value, first, rfl⟩
  · rintro ⟨value, first, rfl⟩
    exact ⟨value, e, first, rfl⟩

theorem address_of_table {base sector : BitVec 32} :
    base + sector + 0 = BitVec.ofNat 32 (base.toNat + sector.toNat) := by
  show base + sector + 0#32 = _
  rw [BitVec.add_zero, BitVec.ofNat_add, BitVec.ofNat_toNat, BitVec.ofNat_toNat,
    BitVec.setWidth_eq, BitVec.setWidth_eq]

theorem seen_agrees (event : Event) (consistent : Consistent w) :
    Agrees (w.seen event).device (w.disk event.dev) := by
  intro lba
  show ((w.system.on event.dev).showing event.script).contents lba = _
  rw [showing_contents]
  exact consistent.agrees event.dev lba

theorem seen_quiet (consistent : Consistent w) : Quiet (w.seen event).device :=
  showing_quiet (consistent.calm event.dev)

/-- What a call leaves of its own drive. -/
structure Own (w : Watched) (event : Event) (next : Watched) : Prop where
  calm : Calm (next.system.on event.dev)
  agrees : Agrees (next.system.on event.dev) (next.disk event.dev)
  table : next.ready event.dev = true → (next.system.drives event.dev 0).base = next.base event.dev

theorem after_others (answer : Answer) (t : System) {other : Dev} (different : other ≠ event.dev) :
    (w.after event answer t).base other = w.base other ∧
      (w.after event answer t).ready other = w.ready other ∧
      (w.after event answer t).disk other = w.disk other := by
  unfold Watched.after Watched.meant
  cases event.call with
  | status => exact ⟨rfl, rfl, rfl⟩
  | read sector count => exact ⟨rfl, rfl, rfl⟩
  | write sector buff => exact ⟨rfl, rfl, Function.update_of_ne different _ _⟩
  | init =>
    unfold Watched.initialised
    by_cases works : answer.1 = 0
    · simp only [works, if_true]
      exact ⟨Function.update_of_ne different _ _, Function.update_of_ne different _ _, trivial⟩
    · simp only [works, if_false]
      exact ⟨trivial, Function.update_of_ne different _ _, trivial⟩

theorem consistent_of_own {answer : Answer} {t : System} (consistent : Consistent w)
    (others : ∀ other, other ≠ event.dev → t.drive other = w.system.drive other)
    (own : Own w event (w.after event answer t)) : Consistent (w.after event answer t) := by
  have on_other (dev : Dev) (different : dev ≠ event.dev) : t.on dev = w.system.on dev :=
    congrArg Drive.device (others dev different)
  have drives_other (dev : Dev) (different : dev ≠ event.dev) : t.drives dev = w.system.drives dev :=
    congrArg Drive.parts (others dev different)
  refine ⟨fun dev => ?_, fun dev => ?_, fun dev => ?_⟩
  · by_cases same : dev = event.dev
    · rw [same]
      exact own.calm
    · show Calm (t.on dev)
      rw [on_other dev same]
      exact consistent.calm dev
  · by_cases same : dev = event.dev
    · rw [same]
      exact own.agrees
    · show Agrees (t.on dev) _
      rw [on_other dev same, (after_others answer t same).2.2]
      exact consistent.agrees dev
  · by_cases same : dev = event.dev
    · rw [same]
      exact own.table
    · show _ → (t.drives dev 0).base = _
      rw [(after_others answer t same).1, (after_others answer t same).2.1, drives_other dev same]
      exact consistent.table dev

theorem status_lawful {script : List Byte} (consistent : Consistent w)
    (taken : step w ⟨dev, .status, script⟩ = some next) :
    Consistent next ∧ Lawful w ⟨dev, .status, script⟩ next := by
  have guard : Guard w ⟨dev, .status, script⟩ := trivial
  obtain ⟨answer, alone, others, same⟩ := step_alone guard taken
  obtain ⟨runs, parts⟩ := onDrive_returns.mp alone
  obtain ⟨there, detects, -⟩ := bind_pure_returns.mp runs
  have quiet : Quiet (w.seen ⟨dev, .status, script⟩).device := seen_quiet consistent
  have kept := detectOf_steady dev (w.seen ⟨dev, .status, script⟩).device quiet
  rw [detects] at kept
  have answers := congrArg Watched.answers same
  refine ⟨?_, others, answer, answers, trivial⟩
  rw [same]
  refine consistent_of_own consistent others ⟨kept.calm, ?_, fun ready => ?_⟩
  · exact (seen_agrees ⟨dev, .status, script⟩ consistent).kept kept
  · have table : next.system.drives dev = w.system.drives dev := parts
    show (next.system.drives dev 0).base = _
    rw [table]
    exact consistent.table dev ready

theorem init_lawful {script : List Byte} (consistent : Consistent w)
    (guard : Guard w ⟨dev, .init, script⟩) (taken : step w ⟨dev, .init, script⟩ = some next) :
    Consistent next ∧ Lawful w ⟨dev, .init, script⟩ next := by
  obtain ⟨answer, alone, others, same⟩ := step_alone guard taken
  have quiet : Quiet (w.seen ⟨dev, .init, script⟩).device := seen_quiet consistent
  have agrees := seen_agrees ⟨dev, .init, script⟩ consistent
  obtain ⟨kept, parts⟩ := start_returns (guard_loads guard rfl) quiet agrees alone
  have answers := congrArg Watched.answers same
  refine ⟨?_, others, answer, answers, parts⟩
  rw [same]
  refine consistent_of_own consistent others ⟨kept.calm, ?_, ?_⟩
  · unfold Watched.after Watched.meant Watched.initialised
    by_cases works : answer.1 = 0
    · simp only [works, if_true]
      exact agrees.kept kept
    · simp only [works, if_false]
      exact agrees.kept kept
  · have table : answer.1 = 0 → next.system.drives dev = readPartitionTable (w.disk dev 0) := parts
    unfold Watched.after Watched.meant Watched.initialised
    by_cases works : answer.1 = 0
    · simp only [works, if_true, Function.update_self]
      intro _
      rw [table works]
    · simp only [works, if_false, Function.update_self]
      exact nofun

theorem read_lawful {script : List Byte} {sector count : BitVec 32} (consistent : Consistent w)
    (guard : Guard w ⟨dev, .read sector count, script⟩)
    (taken : step w ⟨dev, .read sector count, script⟩ = some next) :
    Consistent next ∧ Lawful w ⟨dev, .read sector count, script⟩ next := by
  obtain ⟨answer, alone, others, same⟩ := step_alone guard taken
  obtain ⟨runs, parts⟩ := onDrive_returns.mp alone
  have quiet : Quiet (w.seen ⟨dev, .read sector count, script⟩).device := seen_quiet consistent
  have agrees := seen_agrees ⟨dev, .read sector count, script⟩ consistent
  have base : (w.system.drives dev 0).base = w.base dev := consistent.table dev guard.1.1
  have address : w.address dev sector = (w.system.drives dev 0).base.toNat + sector.toNat := by
    rw [base]
    rfl
  have kept := sectorsRead_steady dev ((w.system.drives dev 0).base + sector) 0 count.toNat
    (w.seen ⟨dev, .read sector count, script⟩).device quiet
  have accesses := sectorsRead_orders (readOf_orders dev) ((w.system.drives dev 0).base + sector) 0
    count.toNat (w.seen ⟨dev, .read sector count, script⟩).device
  have run : sectorsRead (readOf dev) ((w.system.drives dev 0).base + sector) 0 count.toNat
      (w.seen ⟨dev, .read sector count, script⟩).device = (some answer, next.system.on dev) := runs
  rw [run] at kept accesses
  have answers := congrArg Watched.answers same
  refine ⟨?_, others, answer, answers, ?_, fun works => ?_⟩
  · rw [same]
    refine consistent_of_own consistent others ⟨kept.calm, agrees.kept kept, fun ready => ?_⟩
    have table : next.system.drives dev = w.system.drives dev := parts
    show (next.system.drives dev 0).base = _
    rw [table]
    exact consistent.table dev ready
  · obtain ⟨accessed, orders, atMost, each⟩ := accessed_of_accesses address guard.1.2 accesses
    have before : (w.seen ⟨dev, .read sector count, script⟩).device.orders = (w.system.on dev).orders :=
      showing_orders script
    rw [before] at orders
    exact ⟨accessed, orders, atMost, each⟩
  · obtain ⟨code, read⟩ := answer
    have done : code = RES_OK := works
    rw [done] at run
    have shown : (w.seen ⟨dev, .read sector count, script⟩).device.script = script :=
      showing_script script
    have safe := guard.2
    rw [← shown] at safe
    have start : (w.system.drives dev 0).base + sector + 0 = BitVec.ofNat 32 (w.address dev sector) := by
      rw [address]
      exact address_of_table
    exact sectorsRead_contents quiet safe start guard.1.2 agrees run

theorem write_lawful {script : List Byte} {sector : BitVec 32} {buff : List Sector}
    (consistent : Consistent w) (guard : Guard w ⟨dev, .write sector buff, script⟩)
    (taken : step w ⟨dev, .write sector buff, script⟩ = some next) :
    Consistent next ∧ Lawful w ⟨dev, .write sector buff, script⟩ next := by
  obtain ⟨answer, alone, others, same⟩ := step_alone guard taken
  obtain ⟨runs, parts⟩ := onDrive_returns.mp alone
  obtain ⟨code, run, rfl⟩ := bind_pure_returns.mp runs
  have quiet : Quiet (w.seen ⟨dev, .write sector buff, script⟩).device := seen_quiet consistent
  have calm : Calm (w.seen ⟨dev, .write sector buff, script⟩).device :=
    (steady_refl _ quiet).calm
  have agrees := seen_agrees ⟨dev, .write sector buff, script⟩ consistent
  have base : (w.system.drives dev 0).base = w.base dev := consistent.table dev guard.1.1
  have address : w.address dev sector = (w.system.drives dev 0).base.toNat + sector.toNat := by
    rw [base]
    rfl
  have accesses := sectorsWritten_orders (writeOf_orders dev) ((w.system.drives dev 0).base + sector) 0
    buff (w.seen ⟨dev, .write sector buff, script⟩).device
  have run : sectorsWritten (writeOf dev) ((w.system.drives dev 0).base + sector) 0 buff
      (w.seen ⟨dev, .write sector buff, script⟩).device = (some code, next.system.on dev) := run
  have safe := guard.2
  have shown : (w.seen ⟨dev, .write sector buff, script⟩).device.script = script :=
    showing_script script
  rw [← shown] at safe
  have start : (w.system.drives dev 0).base + sector + 0 = BitVec.ofNat 32 (w.address dev sector) := by
    rw [address]
    exact address_of_table
  obtain ⟨calm', agrees', all⟩ := sectorsWritten_stored calm safe start guard.1.2 agrees run
  have count : w.reportedSectors ⟨dev, .write sector buff, script⟩ sector buff =
      reported (writeOf dev) ((w.system.drives dev 0).base + sector) 0 buff
        (w.seen ⟨dev, .write sector buff, script⟩).device := by
    unfold Watched.reportedSectors
    rw [on_shown]
  have disk : next.disk dev = store (w.address dev sector)
      (buff.take (w.reportedSectors ⟨dev, .write sector buff, script⟩ sector buff)) (w.disk dev) := by
    rw [same]
    exact Function.update_self _ _ _
  rw [run] at accesses
  have answers := congrArg Watched.answers same
  refine ⟨?_, others, (code, []), answers, ?_, fun works => ?_⟩
  · rw [same]
    refine consistent_of_own consistent others ⟨calm', ?_, fun ready => ?_⟩
    · rw [← same, disk, count]
      exact agrees'
    · have table : next.system.drives dev = w.system.drives dev := parts
      show (next.system.drives dev 0).base = _
      rw [table]
      exact consistent.table dev ready
  · obtain ⟨accessed, orders, atMost, each⟩ := accessed_of_accesses address guard.1.2 accesses
    have before : (w.seen ⟨dev, .write sector buff, script⟩).device.orders =
        (w.system.on dev).orders := showing_orders script
    rw [before] at orders
    exact ⟨accessed, orders, atMost, each⟩
  · rw [disk, count, all works, List.take_length]

/-- A call under the guard keeps the meaning of the calls and does what it has to do. -/
theorem step_lawful (consistent : Consistent w) (guard : Guard w event)
    (taken : step w event = some next) : Consistent next ∧ Lawful w event next := by
  obtain ⟨dev, call, script⟩ := event
  cases call with
  | status => exact status_lawful consistent taken
  | init => exact init_lawful consistent guard taken
  | read sector count => exact read_lawful consistent guard taken
  | write sector buff => exact write_lawful consistent guard taken

/-! ## One drive without the other -/

/-- Two runs that a drive cannot tell apart, the second with the calls on that drive only. -/
structure Alike (dev : Dev) (w v : Watched) : Prop where
  drive : v.system.drive dev = w.system.drive dev
  base : v.base dev = w.base dev
  ready : v.ready dev = w.ready dev
  disk : v.disk dev = w.disk dev
  answers : v.answers = w.answers.filter fun answer => answer.1 = dev

theorem step_foreign {v : Watched} (foreign : event.dev ≠ dev) (alike : Alike dev w v)
    (others : ∀ other, other ≠ event.dev → next.system.drive other = w.system.drive other)
    {answer : Answer} (same : next = w.after event answer next.system) : Alike dev next v := by
  obtain ⟨base, ready, disk⟩ := after_others answer next.system foreign.symm
  rw [← same] at base ready disk
  refine ⟨alike.drive.trans (others dev foreign.symm).symm, alike.base.trans base.symm,
    alike.ready.trans ready.symm, alike.disk.trans disk.symm, ?_⟩
  have answers : next.answers = (event.dev, answer) :: w.answers := congrArg Watched.answers same
  rw [alike.answers, answers, List.filter_cons_of_neg (by rw [decide_eq_true_eq]; exact foreign)]

theorem alike_seen {v : Watched} (alike : Alike event.dev w v) : v.seen event = w.seen event := by
  have device := congrArg Drive.device alike.drive
  have parts := congrArg Drive.parts alike.drive
  have on : v.system.on event.dev = w.system.on event.dev := device
  have drives : v.system.drives event.dev = w.system.drives event.dev := parts
  unfold Watched.seen
  rw [on, drives]

theorem alike_reported {v : Watched} (alike : Alike event.dev w v) (sector : BitVec 32)
    (buff : List Sector) :
    v.reportedSectors event sector buff = w.reportedSectors event sector buff := by
  have drives : v.system.drives event.dev = w.system.drives event.dev :=
    congrArg Drive.parts alike.drive
  unfold Watched.reportedSectors
  rw [on_shown, on_shown, alike_seen alike, drives]

theorem alike_after {v : Watched} {answer : Answer} {t u : System} (alike : Alike event.dev w v)
    (drive : u.drive event.dev = t.drive event.dev) :
    Alike event.dev (w.after event answer t) (v.after event answer u) := by
  have answers : (event.dev, answer) :: v.answers =
      ((event.dev, answer) :: w.answers).filter fun answer => answer.1 = event.dev := by
    rw [List.filter_cons, if_pos (decide_eq_true rfl), alike.answers]
  have zero := congrFun alike.disk 0
  obtain ⟨dev, call, script⟩ := event
  cases call with
  | status => exact ⟨drive, alike.base, alike.ready, alike.disk, answers⟩
  | read sector count => exact ⟨drive, alike.base, alike.ready, alike.disk, answers⟩
  | write sector buff =>
    refine ⟨drive, alike.base, alike.ready, ?_, answers⟩
    have address : v.address dev sector = w.address dev sector :=
      congrArg (fun base => base.toNat + sector.toNat) alike.base
    show Function.update v.disk dev _ dev = Function.update w.disk dev _ dev
    rw [Function.update_self, Function.update_self, alike_reported alike, address, alike.disk]
  | init =>
    refine ⟨drive, ?_, ?_, ?_, answers⟩
    · show (v.initialised dev answer.1).base dev = (w.initialised dev answer.1).base dev
      unfold Watched.initialised
      by_cases works : answer.1 = 0
      · rw [if_pos works, if_pos works]
        show Function.update v.base dev _ dev = Function.update w.base dev _ dev
        rw [Function.update_self, Function.update_self, zero]
      · rw [if_neg works, if_neg works]
        exact alike.base
    · show (v.initialised dev answer.1).ready dev = (w.initialised dev answer.1).ready dev
      unfold Watched.initialised
      by_cases works : answer.1 = 0
      · rw [if_pos works, if_pos works]
        show Function.update v.ready dev _ dev = Function.update w.ready dev _ dev
        rw [Function.update_self, Function.update_self]
      · rw [if_neg works, if_neg works]
        show Function.update v.ready dev _ dev = Function.update w.ready dev _ dev
        rw [Function.update_self, Function.update_self]
    · show (v.initialised dev answer.1).disk dev = (w.initialised dev answer.1).disk dev
      unfold Watched.initialised
      by_cases works : answer.1 = 0
      · rw [if_pos works, if_pos works]
        exact alike.disk
      · rw [if_neg works, if_neg works]
        exact alike.disk

theorem step_follows {v : Watched} (own : event.dev = dev) (guard : Guard w event)
    (alike : Alike dev w v) (taken : step w event = some next) :
    ∃ next', step v event = some next' ∧ Alike dev next next' := by
  cases own
  obtain ⟨answer, alone, -, same⟩ := step_alone guard taken
  have seen := alike_seen alike
  have loads := guard_loads guard
  rw [← seen] at loads alone
  obtain ⟨t, taken', drive⟩ := step_of_alone loads alone
  refine ⟨_, taken', ?_⟩
  rw [same]
  exact alike_after alike drive

/-! ## Runs -/

theorem boot_consistent (calm : ∀ dev, Calm (s.on dev)) : Consistent (boot s) := by
  refine ⟨calm, fun dev lba => ?_, fun dev ready => absurd ready nofun⟩
  show (s.on dev).contents lba = (s.on dev).contents (BitVec.ofNat 28 lba.toNat)
  rw [BitVec.ofNat_toNat, BitVec.setWidth_eq]

theorem alike_refl (dev : Dev) : Alike dev (boot s) (boot s) := ⟨rfl, rfl, rfl, rfl, rfl⟩

/-- In every run of calls under the guard each call does what it has to do, and each drive answers
as if the other were not there. -/
theorem drives_apart (s : System) (calm : ∀ dev, Calm (s.on dev)) (events : List Event)
    (guarded : Guarded step Guard (boot s) events) :
    EachStep step Lawful (boot s) events ∧
      ∀ last dev, exec step (boot s) events = some last →
        ∃ alone, exec step (boot s) (events.filter fun event => event.dev = dev) = some alone ∧
          alone.answers = last.answers.filter fun answer => answer.1 = dev := by
  have preserved (w : Watched) (event : Event) (next : Watched) (consistent : Consistent w)
      (guard : Guard w event) (taken : step w event = some next) : Consistent next :=
    (step_lawful consistent guard taken).1
  have start := boot_consistent calm
  refine ⟨eachStep_of_guarded Consistent preserved
    (fun w event next consistent guard taken => (step_lawful consistent guard taken).2) start guarded,
    fun last dev run => ?_⟩
  obtain ⟨alone, own, alike⟩ := exec_filter (fun event : Event => event.dev = dev) Consistent
    (Alike dev) preserved
    (fun w event next v foreign guard alike taken => by
      obtain ⟨answer, -, others, same⟩ := step_alone guard taken
      exact step_foreign (of_decide_eq_false foreign) alike others same)
    (fun w event next v mine _ guard alike taken =>
      step_follows (of_decide_eq_true mine) guard alike taken)
    start guarded (alike_refl dev) run
  exact ⟨alone, own, alike.answers⟩

/-! ## An example of a run -/

/-- Statuses without the busy bit and without an error. -/
def Plain (script : List Byte) : Prop := ∀ status ∈ script, busy status = false ∧ error status = false

theorem plain_obliging (operation : Operation) : Plain (obliging .ATA_DEV_MIDE operation) := by
  intro status shown
  have known : status = 0x58 ∨ status = 0x50 := by
    cases operation with
    | write =>
      obtain first | last := List.mem_append.mp shown
      · exact .inl (List.eq_of_mem_replicate first)
      · simp only [List.mem_cons, List.not_mem_nil, or_false, or_self] at last
        exact .inr last
    | read => exact .inl (List.eq_of_mem_replicate shown)
    | identify => exact .inl (List.eq_of_mem_replicate shown)
    | other => exact .inl (List.eq_of_mem_replicate shown)
  obtain rfl | rfl := known <;> decide

theorem asksData_of_request {asking request : List Byte} (plain : Plain asking)
    (wait : IsWait dataReady request) (among : ∀ status ∈ request, status ∈ asking) :
    ∃ status ∈ asking, asksData status = true := by
  obtain ⟨skipped, last, rfl, -, ready⟩ := wait
  have shown := among last (List.mem_append_right skipped List.mem_cons_self)
  exact ⟨last, shown, by rw [asksData, (plain last shown).1, ready]; rfl⟩

theorem goodRead_of_plain {script : List Byte} (plain : Plain script) : GoodRead script := by
  rintro t left rfl sends
  have asking : ∀ status ∈ t.asking, status ∈ t.script ++ left := by
    intro status among
    simp only [MideRead.asking, MideRead.script, MideRead.answer, List.mem_append,
      List.mem_cons] at among ⊢
    tauto
  have waits : ∀ status ∈ t.waits.dropLast.flatten, status ∈ t.script ++ left := by
    intro status among
    obtain ⟨wait, inWaits, inWait⟩ := List.mem_flatten.mp among
    have shown := List.mem_flatten.mpr ⟨wait, List.dropLast_subset _ inWaits, inWait⟩
    simp only [MideRead.script, MideRead.answer, List.mem_append, List.mem_cons]
    tauto
  refine ⟨fun status among => ?_, ?_⟩
  · have shown := (List.mem_append.mp among).elim (asking status) (waits status)
    rw [tellsError, (plain status shown).2, Bool.and_false]
  · refine asksData_of_request (fun status among => plain status (asking status among))
      sends.request fun status among => ?_
    exact List.mem_append_right _ (List.mem_cons_of_mem _ (List.mem_append_right _ among))

theorem IsWait.pos {stop : Byte → Bool} {read : List Byte} (wait : IsWait stop read) :
    1 ≤ read.length := by
  obtain ⟨skipped, last, rfl, -, -⟩ := wait
  rw [List.length_append]
  exact Nat.le_add_left _ _

theorem waits_length {waits : List (List Byte)} (each : ∀ wait ∈ waits, IsWait notBusy wait) :
    waits.length ≤ waits.flatten.length := by
  induction waits with
  | nil => exact Nat.le_refl 0
  | cons wait rest inductionHypothesis =>
    have one := (each wait List.mem_cons_self).pos
    have others := inductionHypothesis fun other among => each other (List.mem_cons_of_mem _ among)
    rw [List.flatten_cons, List.length_append, List.length_cons]
    omega

/-- The script is as short as a whole sector can be, so the last two statuses end it. -/
theorem ends_obliging {t : MideShown} {left : List Byte} (sends : t.Sends)
    (script : obliging .ATA_DEV_MIDE .write = t.script ++ left) : t.ended = 0x50 ∧ t.last = 0x50 := by
  have whole : List.replicate 517 0x58 ++ [0x50, 0x50] =
      (t.feature ++ (t.start ++ t.checked :: (t.ready ++ (t.request ++ (t.waits.flatten ++ t.ends))))) ++
        (t.ended :: t.last :: left) := by
    refine script.trans ?_
    simp only [MideShown.script, MideShown.answer, List.append_assoc, List.cons_append,
      List.nil_append]
  have lengths := congrArg List.length whole
  have waits := waits_length sends.waits
  have feature := sends.feature.pos
  have start := sends.start.pos
  have ready := sends.ready.pos
  have request := sends.request.pos
  rw [sends.bytes] at waits
  simp only [List.length_append, List.length_replicate, List.length_cons, List.length_nil] at lengths
  have same := (List.append_inj whole (by
    simp only [List.length_append, List.length_replicate, List.length_cons]
    omega)).2
  obtain ⟨ended, rest⟩ := List.cons.inj same
  exact ⟨ended.symm, (List.cons.inj rest).1.symm⟩

theorem goodSector_obliging : GoodSector (obliging .ATA_DEV_MIDE .write) := by
  intro t left script sends
  have plain := plain_obliging .write
  rw [script] at plain
  have asking : ∀ status ∈ t.asking, status ∈ t.script ++ left := by
    intro status among
    simp only [MideShown.asking, MideShown.script, MideShown.answer, List.mem_append,
      List.mem_cons] at among ⊢
    tauto
  have waits : ∀ status ∈ t.waits.flatten, status ∈ t.script ++ left := by
    intro status among
    simp only [MideShown.script, MideShown.answer, List.mem_append, List.mem_cons]
    tauto
  refine ⟨fun status among => ?_, ?_, ?_⟩
  · have shown := (List.mem_append.mp among).elim (asking status) (waits status)
    rw [tellsError, (plain status shown).2, Bool.and_false]
  · obtain ⟨status, among, asks⟩ := asksData_of_request
      (fun status among => plain status (asking status among)) sends.request
      fun status among => List.mem_append_right _ (List.mem_cons_of_mem _
        (List.mem_append_right _ among))
    exact ⟨status, List.mem_append_left _ among, asks⟩
  · obtain ⟨ended, last⟩ := ends_obliging sends script
    rw [ended, last, EndsWell, if_neg (by decide)]
    decide

theorem patient_obliging : Patient (obliging .ATA_DEV_PICOIDE .write) := by
  intro read read' left script _ tired
  have length : 2 = (read ++ (read' ++ left)).length := congrArg List.length script
  rw [List.length_append, List.length_append, tired] at length
  exact absurd length (by unfold PICOIDE_TIMEOUT_LOOPS; omega)

theorem served_obliging (dev : Dev) : Served dev (obliging dev .read) := by
  cases dev with
  | ATA_DEV_MIDE =>
    have plain := plain_obliging .read
    refine ⟨goodRead_of_plain plain, fun feature start checked left script _ _ => ?_⟩
    rw [script] at plain
    exact (plain checked (by simp)).2
  | ATA_DEV_PICOIDE =>
    have drq : picoideWaitDrq devicePort (showing [0x58, 0x50]) = (some 1, _) :=
      picoideWaitDrq_obliging rfl
    refine ⟨fun read left script polled => ?_, fun read read' left script polled polled' => ?_⟩
    · have zero : picoideWaitDrq devicePort (showing [0x58, 0x50]) = (some 0, _) :=
        picoideWaitDrq_returns.mpr ⟨read, left, script, polled, rfl⟩
      exact absurd (Option.some.inj (congrArg Prod.fst (drq.symm.trans zero))) Nat.one_ne_zero
    · have one : picoideWaitDrq devicePort (showing [0x58, 0x50]) = (some 1, _) :=
        picoideWaitDrq_returns.mpr ⟨read, read' ++ left, script, polled, rfl⟩
      have rest : [0x50] = read' ++ left :=
        congrArg (fun run : Option Nat × Device => run.2.script) (drq.symm.trans one)
      have idle : picoideWaitIdle devicePort (showing [0x50]) = (some 1, _) :=
        picoideWaitIdle_obliging rfl
      have zero : picoideWaitIdle devicePort (showing [0x50]) = (some 0, _) :=
        picoideWaitIdle_returns.mpr ⟨read', left, rest, polled', rfl⟩
      exact absurd (Option.some.inj (congrArg Prod.fst (idle.symm.trans zero))) Nat.one_ne_zero

theorem told_script (status : Byte) : (d.told status).script = d.script := by
  have apart := congrArg Device.script (@told_withScript d status d.script)
  exact apart

theorem picoideDetect_obliging {left : List Byte} (there : d.present = true)
    (script : d.script = 0x50 :: left) :
    ∃ t, picoideDetect d = (some true, t) ∧ t.script = left := by
  obtain ⟨present, taskFile, phase, order, orders, saved, medium, identity, own⟩ := d
  cases there
  cases script
  refine ⟨_, rfl, ?_⟩
  exact told_script 0x50

theorem picoideIdentify_obliging {left : List Byte} (script : d.script = 0x58 :: 0x50 :: left) :
    ∃ words t, picoideIdentify devicePort d = (some (some words), t) ∧ t.script = left := by
  obtain ⟨t, drq, script'⟩ : ∃ t, picoideWaitDrq devicePort
      (Device.begin ATA_CMD_IDENTIFY { d with taskFile := d.taskFile.set 0xE0 .DRIVE_HEAD }) =
        (some 1, t) ∧ t.script = 0x50 :: left := ⟨_, picoideWaitDrq_obliging script, rfl⟩
  obtain ⟨words, read, -⟩ := readWords_returns 256 t
  obtain ⟨u, idle, script''⟩ : ∃ u, picoideWaitIdle devicePort
      (giveAll (List.replicate (2 * 256) []) t).2 = (some 1, u) ∧ u.script = left :=
    ⟨_, picoideWaitIdle_obliging ((giveAll_script (List.replicate (2 * 256) [])).trans script'), rfl⟩
  refine ⟨words, u, ?_, script''⟩
  show (picoideWaitDrq devicePort >>= fun ready => _) _ = _
  refine (Program.bind_of_returns drq).trans ?_
  rw [if_neg Nat.one_ne_zero]
  refine (Program.bind_of_returns read).trans ?_
  exact (Program.bind_of_returns idle).trans rfl

/-- A drive is asked for its state and what it is, and gives sector 0. -/
def initialising : Dev → Event
  | .ATA_DEV_MIDE => ⟨.ATA_DEV_MIDE, .init, 0x58 :: obliging .ATA_DEV_MIDE .read⟩
  | .ATA_DEV_PICOIDE => ⟨.ATA_DEV_PICOIDE, .init, [0x50, 0x58, 0x50, 0x58, 0x50]⟩

theorem probe_obliging (dev : Dev) :
    ∃ u, probe dev (showing (initialising dev).script) = (some true, u) ∧
      u.script = obliging dev .read := by
  cases dev with
  | ATA_DEV_MIDE => exact ⟨_, rfl, rfl⟩
  | ATA_DEV_PICOIDE =>
    obtain ⟨t, detects, rest⟩ := picoideDetect_obliging (d := showing _) rfl
      (show (showing (initialising .ATA_DEV_PICOIDE).script).script = _ from rfl)
    obtain ⟨words, u, identifies, rest'⟩ := picoideIdentify_obliging rest
    refine ⟨u, ?_, rest'⟩
    refine (Program.bind_of_returns detects).trans ?_
    show ((picoideIdentify devicePort >>= fun _ => pure ()) >>= fun _ => pure true) t = _
    have inner : (picoideIdentify devicePort >>= fun _ => pure ()) t = (some (), u) :=
      Program.bind_of_returns identifies
    exact Program.bind_of_returns inner

theorem initialising_dev (dev : Dev) : (initialising dev).dev = dev := by cases dev <;> rfl

theorem initialising_call (dev : Dev) : (initialising dev).call = .init := by cases dev <;> rfl

/-- A drive that nothing has happened to, with an empty table in sector 0. -/
structure Untouched (w : Watched) (dev : Dev) : Prop where
  device : w.system.on dev = showing []
  disk : w.disk dev 0 = zeros

def Usable (w : Watched) (dev : Dev) : Prop := w.ready dev = true ∧ w.base dev = 0

theorem initialising_seen (untouched : Untouched w dev) :
    (w.seen (initialising dev)).device = showing (initialising dev).script := by
  unfold Watched.seen
  rw [initialising_dev, untouched.device]
  rfl

theorem initialising_guard (untouched : Untouched w dev) : Guard w (initialising dev) := by
  obtain ⟨u, probed, rest⟩ := probe_obliging dev
  have loads : Loads dev (showing (initialising dev).script) := by
    intro e probed'
    have same : u = e := congrArg Prod.snd (probed.symm.trans probed')
    rw [← same, rest]
    exact served_obliging dev
  unfold Guard
  rw [initialising_call]
  show Loads (initialising dev).dev ((w.shown (initialising dev)).on (initialising dev).dev)
  rw [on_shown, initialising_seen untouched, initialising_dev]
  exact loads

theorem initialising_next (untouched : Untouched w dev)
    (taken : step w (initialising dev) = some next) :
    Usable next dev ∧ ∀ other, other ≠ dev →
      (Usable w other → Usable next other) ∧ (Untouched w other → Untouched next other) := by
  obtain ⟨answer, called, others, same⟩ := step_alone (initialising_guard untouched) taken
  obtain ⟨u, probed, rest⟩ := probe_obliging dev
  have readScript : u.script = obliging dev .read ++ [] := rest.trans (List.append_nil _).symm
  obtain ⟨bytes, e, reads, -⟩ := readOf_obliging 0 readScript
  have zero : answer.1 = 0 := by
    rw [initialising_call, initialising_dev] at called
    have started : (Drive.start dev (w.seen (initialising dev))).1 = some (0, []) := by
      unfold Drive.start
      rw [initialising_seen untouched, probed]
      simp only [reads]
    have given : some answer = some (0, []) := (congrArg Prod.fst called).symm.trans started
    cases given
    rfl
  have meant : w.meant (initialising dev) answer = w.initialised dev 0 := by
    unfold Watched.meant
    rw [initialising_call, zero, initialising_dev]
  rw [Watched.after, meant] at same
  rw [initialising_dev] at others
  have table : (readPartitionTable zeros 0).base = 0 := by decide +kernel
  refine ⟨?_, fun other different => ⟨fun usable => ?_, fun fresh => ?_⟩⟩
  · rw [same]
    refine ⟨Function.update_self .., ?_⟩
    show Function.update w.base dev _ dev = 0
    rw [Function.update_self, untouched.disk]
    exact table
  · rw [same]
    exact ⟨(Function.update_of_ne different ..).trans usable.1,
      (Function.update_of_ne different ..).trans usable.2⟩
  · refine ⟨(congrArg Drive.device (others other different)).trans fresh.device, ?_⟩
    rw [same]
    exact fresh.disk

/-- Sector 3 of each drive is written, and read again behind both. -/
def contentOf : Dev → Sector
  | .ATA_DEV_MIDE => ⟨List.replicate 512 0x4D, List.length_replicate⟩
  | .ATA_DEV_PICOIDE => ⟨List.replicate 512 0x50, List.length_replicate⟩

def storing (dev : Dev) : Event := ⟨dev, .write 3 [contentOf dev], obliging dev .write⟩

def fetching (dev : Dev) : Event := ⟨dev, .read 3 1, obliging dev .read⟩

def transfers : List Event :=
  [storing .ATA_DEV_MIDE, storing .ATA_DEV_PICOIDE, fetching .ATA_DEV_MIDE,
    fetching .ATA_DEV_PICOIDE]

theorem addressable_three (usable : Usable w dev) : Addressable w dev 3 1 := by
  refine ⟨usable.1, ?_⟩
  unfold Watched.address
  rw [usable.2]
  decide

theorem storing_guard (usable : Usable w dev) : Guard w (storing dev) := by
  refine ⟨addressable_three usable, ?_, fun _ _ _ _ => trivial⟩
  cases dev with
  | ATA_DEV_MIDE => exact goodSector_obliging
  | ATA_DEV_PICOIDE => exact patient_obliging

theorem fetching_guard (usable : Usable w dev) : Guard w (fetching dev) := by
  refine ⟨addressable_three usable, ?_⟩
  rintro rfl
  exact ⟨goodRead_of_plain (plain_obliging .read), fun _ _ _ _ => trivial⟩

theorem usable_next {event : Event} (moves : event.call ≠ .init) (usable : Usable w dev)
    (taken : step w event = some next) : Usable next dev := by
  unfold step at taken
  cases run : runCall (pdrvOf event.dev) event.call (w.shown event) with
  | mk result t =>
    rw [run] at taken
    cases result with
    | none => cases taken
    | some answer =>
      cases taken
      obtain ⟨device, call, script⟩ := event
      cases call with
      | init => exact absurd rfl moves
      | status => exact usable
      | read sector count => exact usable
      | write sector buff => exact usable

theorem transfers_guarded (usable : ∀ dev, Usable w dev) : Guarded step Guard w transfers := by
  have stores (dev : Dev) : (storing dev).call ≠ .init := fun same => by cases same
  have fetches (dev : Dev) : (fetching dev).call ≠ .init := fun same => by cases same
  refine ⟨storing_guard (usable _), fun _ first => ?_⟩
  have usable₁ (dev : Dev) := usable_next (stores _) (usable dev) first
  refine ⟨storing_guard (usable₁ _), fun _ second => ?_⟩
  have usable₂ (dev : Dev) := usable_next (stores _) (usable₁ dev) second
  refine ⟨fetching_guard (usable₂ _), fun _ third => ?_⟩
  exact ⟨fetching_guard (usable_next (fetches _) (usable₂ _) third), fun _ _ => trivial⟩

/-- Both drives are initialised, written and read. -/
theorem drives_apart_two :
    EachStep step Lawful (boot (mounted (showing []) (showing [])))
      (initialising .ATA_DEV_MIDE :: initialising .ATA_DEV_PICOIDE :: transfers) := by
  have calm : ∀ dev, Calm ((mounted (showing []) (showing [])).on dev) := by
    intro dev write
    cases dev with
    | ATA_DEV_MIDE => exact absurd write nofun
    | ATA_DEV_PICOIDE => exact absurd write nofun
  have untouched (dev : Dev) : Untouched (boot (mounted (showing []) (showing []))) dev := by
    cases dev <;> exact ⟨rfl, rfl⟩
  have guarded : Guarded step Guard (boot (mounted (showing []) (showing [])))
      (initialising .ATA_DEV_MIDE :: initialising .ATA_DEV_PICOIDE :: transfers) := by
    refine ⟨initialising_guard (untouched _), fun _ first => ?_⟩
    obtain ⟨mide, other⟩ := initialising_next (untouched _) first
    have fresh := (other .ATA_DEV_PICOIDE nofun).2 (untouched _)
    refine ⟨initialising_guard fresh, fun _ second => transfers_guarded fun dev => ?_⟩
    obtain ⟨picoide, other⟩ := initialising_next fresh second
    cases dev with
    | ATA_DEV_MIDE => exact (other .ATA_DEV_MIDE nofun).1 mide
    | ATA_DEV_PICOIDE => exact picoide
  exact (drives_apart _ calm _ guarded).1

/-- The memory for sector 0 still holds a table whose first partition starts at sector 7. -/
def remembering : System :=
  { mounted (showing []) (showing []) with
    scratch := ⟨List.replicate 454 0 ++ 7 :: List.replicate 57 0, by
      rw [List.length_append, List.length_replicate, List.length_cons, List.length_replicate]⟩ }

theorem remembering_base : (readPartitionTable remembering.scratch 0).base = 7 := by
  decide +kernel

theorem overwritten_nil (buffer : Sector) : overwritten buffer [] = buffer := by
  refine Subtype.ext ?_
  exact List.take_of_length_le (Nat.le_of_eq buffer.property)

/-- The card is there, and refuses the read of sector 0. -/
def unreadable : Event := ⟨.ATA_DEV_MIDE, .init, [0x58, 0x58, 0x58, 0x59]⟩

/-- An initialisation that cannot read sector 0 is successful with the table of old memory. -/
theorem old_table_installed :
    ¬ ∀ (s : System) (events : List Event), (∀ dev, Calm (s.on dev)) →
      EachStep step Lawful (boot s) events := by
  intro always
  have calm : ∀ dev, Calm (remembering.on dev) := by
    intro dev write
    cases dev with
    | ATA_DEV_MIDE => exact absurd write nofun
    | ATA_DEV_PICOIDE => exact absurd write nofun
  obtain ⟨next, taken, answers, installed⟩ : ∃ next,
      step (boot remembering) unreadable = some next ∧
      next.answers = [(.ATA_DEV_MIDE, (0, []))] ∧
      next.system.drives .ATA_DEV_MIDE = readPartitionTable (overwritten remembering.scratch []) :=
    ⟨_, rfl, rfl, rfl⟩
  obtain ⟨-, answer, given, table⟩ := (always remembering [unreadable] calm next taken).1
  rw [answers] at given
  cases given
  have wrong : (readPartitionTable (overwritten remembering.scratch []) 0).base =
      (readPartitionTable ((boot remembering).disk .ATA_DEV_MIDE 0) 0).base :=
    congrArg Partition.base (congrFun (installed.symm.trans (table rfl)) 0)
  have zero : (readPartitionTable ((boot remembering).disk .ATA_DEV_MIDE 0) 0).base = 0 := by
    decide +kernel
  rw [overwritten_nil, remembering_base, zero] at wrong
  exact absurd wrong (by decide)

end OrionBios.Disks
