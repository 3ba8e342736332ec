import OrionBios.Disks.Contents
import OrionBios.Transition.Runs

/-!
# Two drives

Calls on both drives in any order. The selection and the memory for sector 0 are shared; a drive
goes its own way all the same, as long as no initialisation fails to read sector 0.
-/

namespace OrionBios.Disks

open Machine Device Transition

variable {dev : Dev} {s : System} {d e : Device}

/-! ## Calls -/

inductive Call where
  | status
  | init
  | read (sector count : BitVec 32)
  | write (sector : BitVec 32) (buff : List Sector)

/-- A call on a drive, and the statuses that its device shows. -/
structure Event where
  dev : Dev
  call : Call
  script : List Byte

/-- The code that a call returns, and what a read leaves in the buffer. -/
abbrev Answer := Nat × List (List Byte)

def pdrvOf : Dev → Byte
  | .ATA_DEV_MIDE => 0
  | .ATA_DEV_PICOIDE => 1

theorem pdrvAtaDev_pdrvOf (dev : Dev) : pdrvAtaDev (pdrvOf dev) = some dev := by
  cases dev with
  | ATA_DEV_MIDE => rfl
  | ATA_DEV_PICOIDE => rfl

def runCall (pdrv : Byte) : Call → Program System Answer
  | .status => diskStatus pdrv >>= fun code => pure (code, [])
  | .init => diskInitialize pdrv >>= fun code => pure (code, [])
  | .read sector count => diskRead pdrv sector count
  | .write sector buff => diskWrite pdrv sector buff >>= fun code => pure (code, [])

/-! ## One drive -/

/-- A device with its partition table. -/
structure Drive where
  device : Device
  parts : Fin 4 → Partition

def System.drive (dev : Dev) (s : System) : Drive := ⟨s.on dev, s.drives dev⟩

def identifyOf : Dev → Program Device Unit
  | .ATA_DEV_MIDE => pure ()
  | .ATA_DEV_PICOIDE => picoideIdentify devicePort >>= fun _ => pure ()

/-- What an initialisation does before it reads sector 0. -/
def probe (dev : Dev) : Program Device Bool := do
  let there ← detectOf dev
  if !there then
    pure false
  else do
    identifyOf dev
    pure true

def cleared (parts : Fin 4 → Partition) (i : Fin 4) : Partition :=
  { parts i with base := 0, size := 0 }

def onDrive {Value : Type} (program : Program Device Value) (v : Drive) : Option Value × Drive :=
  ((program v.device).1, { v with device := (program v.device).2 })

namespace Drive

def start (dev : Dev) (v : Drive) : Option Answer × Drive :=
  match probe dev v.device with
  | (none, d) => (none, ⟨d, cleared v.parts⟩)
  | (some false, d) => (some (1, []), ⟨d, cleared v.parts⟩)
  | (some true, d) =>
    match readOf dev 0 d with
    | (none, e) => (none, ⟨e, cleared v.parts⟩)
    | (some (_, bytes), e) => (some (0, []), ⟨e, readPartitionTable (overwritten zeros bytes)⟩)

def call (dev : Dev) : Call → Drive → Option Answer × Drive
  | .status => onDrive (detectOf dev >>= fun there => pure (if there then 0 else 1, []))
  | .init => start dev
  | .read sector count => fun v =>
    onDrive (sectorsRead (readOf dev) ((v.parts 0).base + sector) 0 count.toNat) v
  | .write sector buff => fun v =>
    onDrive (sectorsWritten (writeOf dev) ((v.parts 0).base + sector) 0 buff >>= fun code =>
      pure (code, [])) v

end Drive

/-! ## The driver on one of the drives -/

/-- A call does on its drive what it does on a drive that is alone, and nothing on the other. -/
structure OnDrive (dev : Dev) (s : System) (run : Option Answer × System)
    (alone : Option Answer × Drive) : Prop where
  answer : run.1 = alone.1
  drive : run.2.drive dev = alone.2
  other : ∀ other, other ≠ dev → run.2.drive other = s.drive other

theorem selected_onDrive (program : Program Device Answer) (s : System) :
    OnDrive dev s (selected dev program s) (onDrive program (s.drive dev)) := by
  refine ⟨rfl, ?_, fun other different => ?_⟩
  · unfold System.drive
    rw [selected_on]
    unfold selected
    show (⟨_, (s.set dev _).drives dev⟩ : Drive) = _
    rw [System.set_drives]
    rfl
  · unfold System.drive
    rw [selected_others program s other different]
    unfold selected
    show (⟨_, (s.set dev _).drives other⟩ : Drive) = _
    rw [System.set_drives]

theorem selected_bind_pure {Value Result : Type} {program : Program System Value}
    {onDevice : Program Device Value} {result : Value → Result}
    (same : program s = selected dev onDevice s) :
    (program >>= fun value => pure (result value)) s =
      selected dev (onDevice >>= fun value => pure (result value)) s := by
  rw [Program.bind_apply, same]
  unfold selected
  rw [Program.bind_apply]
  cases onDevice (s.on dev) with
  | mk value t =>
    cases value with
    | none => rfl
    | some value => rfl

/-! ## The initialisation on the selected drive -/

theorem overwritten_full {bytes : List Byte} (full : bytes.length = 512) (buffer : Sector) :
    overwritten buffer bytes = ⟨bytes, full⟩ := by
  refine Subtype.ext ?_
  show (bytes ++ buffer.val.drop bytes.length).take 512 = bytes
  rw [full, List.take_append_of_le_length (Nat.le_of_eq full.symm), ← full, List.take_length]

def System.withParts (dev : Dev) (parts : Fin 4 → Partition) (s : System) : System :=
  { s with drives := Function.update s.drives dev parts }

/-- Sector 0 in its memory, and the partition table from there. -/
def System.install (dev : Dev) (bytes : List Byte) (s : System) : System :=
  { s with
    scratch := overwritten s.scratch bytes
    drives := Function.update s.drives dev (readPartitionTable (overwritten s.scratch bytes)) }

theorem drive_put (parts : Fin 4 → Partition) (d : Device) (s : System) :
    (((s.withParts dev parts).set dev d).select dev).drive dev = ⟨d, parts⟩ := by
  have own : Function.update s.drives dev parts dev = parts := Function.update_self dev parts s.drives
  cases dev with
  | ATA_DEV_MIDE => exact congrArg (Drive.mk d) own
  | ATA_DEV_PICOIDE => exact congrArg (Drive.mk d) own

theorem drive_put_of_ne {other : Dev} (different : other ≠ dev) (parts : Fin 4 → Partition)
    (d : Device) (s : System) :
    (((s.withParts dev parts).set dev d).select dev).drive other = s.drive other := by
  have kept : Function.update s.drives dev parts other = s.drives other :=
    Function.update_of_ne different _ _
  cases dev <;> cases other <;>
    first | exact absurd rfl different | exact congrArg (Drive.mk _) kept

theorem drive_install (bytes : List Byte) (s : System) :
    (s.install dev bytes).drive dev =
      ⟨s.on dev, readPartitionTable (overwritten s.scratch bytes)⟩ := by
  have own : Function.update s.drives dev (readPartitionTable (overwritten s.scratch bytes)) dev = _ :=
    Function.update_self dev _ s.drives
  cases dev with
  | ATA_DEV_MIDE => exact congrArg (Drive.mk _) own
  | ATA_DEV_PICOIDE => exact congrArg (Drive.mk _) own

theorem drive_install_of_ne {other : Dev} (different : other ≠ dev) (bytes : List Byte)
    (s : System) : (s.install dev bytes).drive other = s.drive other := by
  have kept : Function.update s.drives dev (readPartitionTable (overwritten s.scratch bytes)) other =
      s.drives other := Function.update_of_ne different _ _
  cases other with
  | ATA_DEV_MIDE => exact congrArg (Drive.mk _) kept
  | ATA_DEV_PICOIDE => exact congrArg (Drive.mk _) kept

/-- `ata_init` from the read of sector 0 on. -/
def loadTable : Program System Bool := do
  let (_, bytes) ← ataReadSector 0
  storeScratch bytes
  let buffer ← scratch
  setParts (readPartitionTable buffer)
  pure true

theorem loadTable_select :
    loadTable (s.select dev) =
      match readOf dev 0 (s.on dev) with
      | (none, e) => (none, (s.set dev e).select dev)
      | (some (_, bytes), e) => (some true, ((s.set dev e).select dev).install dev bytes) := by
  unfold loadTable
  rw [Program.bind_apply, ataReadSector_select]
  unfold selected
  cases readOf dev 0 (s.on dev) with
  | mk value e =>
    cases value with
    | none => rfl
    | some read => rfl

theorem ataInit_eq :
    ataInit = (clearParts >>= fun _ => ataDetect >>= fun there =>
      if !there then pure false
      else ataDev >>= fun dev =>
        match dev with
        | .ATA_DEV_PICOIDE => onDevice (picoideIdentify devicePort) >>= fun _ => loadTable
        | .ATA_DEV_MIDE => loadTable) := rfl

theorem clearParts_select :
    clearParts (s.select dev) = (some (), (s.withParts dev (cleared (s.drives dev))).select dev) := rfl

theorem ataInit_select :
    ataInit (s.select dev) =
      match probe dev (s.on dev) with
      | (none, d) => (none, ((s.withParts dev (cleared (s.drives dev))).set dev d).select dev)
      | (some false, d) =>
        (some false, ((s.withParts dev (cleared (s.drives dev))).set dev d).select dev)
      | (some true, d) =>
        loadTable (((s.withParts dev (cleared (s.drives dev))).set dev d).select dev) := by
  have same : (s.withParts dev (cleared (s.drives dev))).on dev = s.on dev := by
    cases dev with
    | ATA_DEV_MIDE => rfl
    | ATA_DEV_PICOIDE => rfl
  rw [ataInit_eq, Program.bind_of_returns clearParts_select, Program.bind_apply, ataDetect_select]
  unfold selected probe
  rw [same, Program.bind_apply]
  cases detectOf dev (s.on dev) with
  | mk value d =>
    cases value with
    | none => rfl
    | some there =>
      cases there with
      | false => rfl
      | true =>
        cases dev with
        | ATA_DEV_MIDE => rfl
        | ATA_DEV_PICOIDE =>
          have identified : (identifyOf .ATA_DEV_PICOIDE >>= fun _ => pure true) d =
              match picoideIdentify devicePort d with
              | (none, e) => ((none : Option Bool), e)
              | (some _, e) => (some true, e) := by
            show ((picoideIdentify devicePort >>= fun _ => pure ()) >>= fun _ => pure true) d = _
            rw [Program.bind_apply, Program.bind_apply]
            cases picoideIdentify devicePort d with
            | mk value e =>
              cases value with
              | none => rfl
              | some value => rfl
          show (onDevice (picoideIdentify devicePort) >>= fun _ => loadTable)
            (System.select .ATA_DEV_PICOIDE _) =
              match (identifyOf .ATA_DEV_PICOIDE >>= fun _ => pure true) d with
              | (none, d) => _
              | (some false, d) => _
              | (some true, d) => _
          rw [Program.bind_apply, onDevice_select, identified]
          unfold selected
          rw [System.on_set]
          cases picoideIdentify devicePort d with
          | mk value e =>
            cases value with
            | none => rfl
            | some value => rfl

/-- The read of sector 0 goes through if it comes to that. -/
def Loads (dev : Dev) (d : Device) : Prop := ∀ e, probe dev d = (some true, e) → Served dev e.script

theorem diskInitialize_eq :
    diskInitialize (pdrvOf dev) s =
      (ataInit >>= fun started => pure (if started then 0 else 1)) (s.select dev) := by
  unfold diskInitialize
  rw [pdrvAtaDev_pdrvOf]
  exact Program.bind_of_returns (ataSelectDevice_eq dev)

theorem runCall_init :
    runCall (pdrvOf dev) .init s =
      match ataInit (s.select dev) with
      | (none, t) => (none, t)
      | (some started, t) => (some (if started then 0 else 1, []), t) := by
  show (diskInitialize (pdrvOf dev) >>= fun code => pure (code, [])) s = _
  rw [Program.bind_apply, diskInitialize_eq, Program.bind_apply]
  cases ataInit (s.select dev) with
  | mk value t =>
    cases value with
    | none => rfl
    | some started => rfl

theorem runCall_start (loads : Loads dev (s.on dev)) :
    OnDrive dev s (runCall (pdrvOf dev) .init s) ((s.drive dev).start dev) := by
  have device : (s.drive dev).device = s.on dev := rfl
  have parts : (s.drive dev).parts = s.drives dev := rfl
  rw [runCall_init, ataInit_select]
  unfold Drive.start
  rw [device, parts]
  cases probed : probe dev (s.on dev) with
  | mk value d =>
    cases value with
    | none => exact ⟨rfl, drive_put _ d s, fun other different => drive_put_of_ne different _ d s⟩
    | some there =>
      cases there with
      | false => exact ⟨rfl, drive_put _ d s, fun other different => drive_put_of_ne different _ d s⟩
      | true =>
        have put (e : Device) : ((s.withParts dev (cleared (s.drives dev))).set dev d).set dev e =
            (s.withParts dev (cleared (s.drives dev))).set dev e := System.set_set d e
        show OnDrive dev s (match loadTable (System.select dev _) with
          | (none, t) => (none, t)
          | (some started, t) => _) (match readOf dev 0 d with
            | (none, e) => (none, ⟨e, cleared (s.drives dev)⟩)
            | (some (_, bytes), e) =>
              (some (0, []), ⟨e, readPartitionTable (overwritten zeros bytes)⟩))
        rw [loadTable_select, System.on_set]
        cases reads : readOf dev 0 d with
        | mk value e =>
          cases value with
          | none =>
            show OnDrive dev s (none, System.select dev _) _
            rw [put]
            exact ⟨rfl, drive_put _ e s, fun other different => drive_put_of_ne different _ e s⟩
          | some read =>
            obtain ⟨result, bytes⟩ := read
            obtain ⟨-, same⟩ := readOf_served (loads d probed) reads
            have full : bytes.length = 512 := by
              rw [same]
              exact (d.contents (lbaOf 0)).property
            show OnDrive dev s (some (0, []), System.install dev bytes (System.select dev _)) _
            rw [put]
            refine ⟨rfl, ?_, fun other different => ?_⟩
            · show (System.install dev bytes _).drive dev = _
              rw [drive_install, overwritten_full full]
              show _ = (⟨e, readPartitionTable (overwritten zeros bytes)⟩ : Drive)
              rw [overwritten_full full]
              exact congrArg (fun device => Drive.mk device _)
                (congrArg Drive.device (drive_put _ e s))
            · show (System.install dev bytes _).drive other = _
              rw [drive_install_of_ne different]
              exact drive_put_of_ne different _ e s

theorem runCall_onDrive (call : Call) (loads : call = .init → Loads dev (s.on dev)) :
    OnDrive dev s (runCall (pdrvOf dev) call s) (Drive.call dev call (s.drive dev)) := by
  have drive := pdrvAtaDev_pdrvOf dev
  cases call with
  | status =>
    have run : runCall (pdrvOf dev) .status s =
        selected dev ((detectOf dev >>= fun there => pure (if there then 0 else 1)) >>= fun code =>
          pure (code, [])) s := selected_bind_pure (diskStatus_eq drive)
    rw [run]
    have same : ((detectOf dev >>= fun there => pure (if there then 0 else 1)) >>= fun code =>
        pure (code, []) : Program Device Answer) =
          (detectOf dev >>= fun there => pure (if there then 0 else 1, [])) := by
      funext d
      rw [Program.bind_apply, Program.bind_apply, Program.bind_apply]
      cases detectOf dev d with
      | mk value e =>
        cases value with
        | none => rfl
        | some there => rfl
    rw [same]
    exact selected_onDrive _ s
  | init => exact runCall_start (loads rfl)
  | read sector count =>
    have run : runCall (pdrvOf dev) (.read sector count) s = _ := diskRead_eq drive sector count
    rw [run]
    exact selected_onDrive _ s
  | write sector buff =>
    have run : runCall (pdrvOf dev) (.write sector buff) s = _ :=
      selected_bind_pure (diskWrite_eq drive sector buff)
    rw [run]
    exact selected_onDrive _ s

end OrionBios.Disks
