import OrionBios.Disks.Volumes

/-!
# The selected device

Every call selects the device of its drive and works on that device alone.
-/

namespace OrionBios.Disks

open Machine

variable {dev : Dev} {s : System}

def baseOf : Dev → BitVec 32
  | .ATA_DEV_MIDE => ATA_BASE_MIDE
  | .ATA_DEV_PICOIDE => ATA_BASE_PICOIDE

namespace System

def select (dev : Dev) (s : System) : System := { s with ataDev := dev, ataBase := baseOf dev }

def on (dev : Dev) (s : System) : Device :=
  match dev with
  | .ATA_DEV_MIDE => s.mide
  | .ATA_DEV_PICOIDE => s.picoide

def set (dev : Dev) (d : Device) (s : System) : System :=
  match dev with
  | .ATA_DEV_MIDE => { s with mide := d }
  | .ATA_DEV_PICOIDE => { s with picoide := d }

theorem device_select : (s.select dev).device = s.on dev := by
  cases dev with
  | ATA_DEV_MIDE => rfl
  | ATA_DEV_PICOIDE => rfl

theorem putDevice_select (d : Device) : (s.select dev).putDevice d = (s.set dev d).select dev := by
  cases dev with
  | ATA_DEV_MIDE => rfl
  | ATA_DEV_PICOIDE => rfl

@[simp] theorem on_set (d : Device) : (s.set dev d).on dev = d := by
  cases dev with
  | ATA_DEV_MIDE => rfl
  | ATA_DEV_PICOIDE => rfl

theorem on_set_of_ne {other : Dev} (different : other ≠ dev) (d : Device) :
    (s.set dev d).on other = s.on other := by
  cases dev <;> cases other <;> first | rfl | exact absurd rfl different

@[simp] theorem on_select (other : Dev) : (s.select dev).on other = s.on other := by
  cases other with
  | ATA_DEV_MIDE => rfl
  | ATA_DEV_PICOIDE => rfl

@[simp] theorem set_set (d e : Device) : (s.set dev d).set dev e = s.set dev e := by
  cases dev with
  | ATA_DEV_MIDE => rfl
  | ATA_DEV_PICOIDE => rfl

@[simp] theorem set_on : s.set dev (s.on dev) = s := by
  cases dev with
  | ATA_DEV_MIDE => rfl
  | ATA_DEV_PICOIDE => rfl

@[simp] theorem set_drives (d : Device) : (s.set dev d).drives = s.drives := by
  cases dev with
  | ATA_DEV_MIDE => rfl
  | ATA_DEV_PICOIDE => rfl

end System

theorem ataSelectDevice_eq (dev : Dev) : ataSelectDevice dev s = (some (), s.select dev) := by
  cases dev with
  | ATA_DEV_MIDE => rfl
  | ATA_DEV_PICOIDE => rfl

/-! ## Functions of the driver on their device -/

def selected {Value : Type} (dev : Dev) (program : Program Device Value) (s : System) :
    Option Value × System :=
  ((program (s.on dev)).1, (s.set dev (program (s.on dev)).2).select dev)

theorem onDevice_select {Value : Type} (program : Program Device Value) :
    onDevice program (s.select dev) = selected dev program s := by
  unfold onDevice Program.within selected
  rw [System.device_select, System.putDevice_select]

theorem pure_select {Value : Type} (value : Value) :
    (pure value : Program System Value) (s.select dev) = selected dev (pure value) s := by
  show (some value, s.select dev) = (some value, (s.set dev (s.on dev)).select dev)
  rw [System.set_on]

theorem bind_select {Value Result : Type} {program : Program System Value}
    {next : Value → Program System Result} {onDrive : Program Device Value}
    {nextOnDrive : Value → Program Device Result}
    (first : program (s.select dev) = selected dev onDrive s)
    (second : ∀ value t, next value (System.select dev t) = selected dev (nextOnDrive value) t) :
    (program >>= next) (s.select dev) = selected dev (onDrive >>= nextOnDrive) s := by
  unfold selected at first
  unfold selected
  rw [Program.bind_apply, first, Program.bind_apply]
  cases run : onDrive (s.on dev) with
  | mk value d =>
    cases value with
    | none => rfl
    | some value =>
      show next value ((s.set dev d).select dev) = _
      rw [second]
      unfold selected
      rw [System.on_set, System.set_set]

def readOf (dev : Dev) (sector : BitVec 32) : Program Device (Nat × List Byte) :=
  match dev with
  | .ATA_DEV_MIDE => mideReadSector sector
  | .ATA_DEV_PICOIDE => do
    let (result, words) ← picoideReadSector devicePort sector
    pure (result, bytesOf words)

def writeOf (dev : Dev) (sector : BitVec 32) (buffer : Sector) : Program Device Nat :=
  match dev with
  | .ATA_DEV_MIDE => mideWriteSector sector buffer
  | .ATA_DEV_PICOIDE => picoideWriteSector devicePort sector (wordsOf buffer.val)

def detectOf (dev : Dev) : Program Device Bool :=
  match dev with
  | .ATA_DEV_MIDE => mideDetect
  | .ATA_DEV_PICOIDE => picoideDetect

theorem ataReadSector_select (sector : BitVec 32) :
    ataReadSector sector (s.select dev) = selected dev (readOf dev sector) s := by
  cases dev with
  | ATA_DEV_MIDE => exact onDevice_select _
  | ATA_DEV_PICOIDE =>
    show (onDevice (picoideReadSector devicePort sector) >>= fun read =>
      pure (read.1, bytesOf read.2)) (s.select .ATA_DEV_PICOIDE) = _
    exact bind_select (onDevice_select _) fun read t => pure_select _

theorem ataWriteSector_select (sector : BitVec 32) (buffer : Sector) :
    ataWriteSector sector buffer (s.select dev) = selected dev (writeOf dev sector buffer) s := by
  cases dev with
  | ATA_DEV_MIDE => exact onDevice_select _
  | ATA_DEV_PICOIDE => exact onDevice_select _

theorem ataDetect_select : ataDetect (s.select dev) = selected dev (detectOf dev) s := by
  cases dev with
  | ATA_DEV_MIDE => exact onDevice_select _
  | ATA_DEV_PICOIDE => exact onDevice_select _

/-! ## The loops over sectors -/

/-- `diskWriteLoop` on what stands behind the registers of one drive. -/
def sectorsWritten {State : Type} (write : BitVec 32 → Sector → Program State Nat)
    (physicalSector i : BitVec 32) : List Sector → Program State Nat
  | [] => pure RES_OK
  | buffer :: rest => do
    let result ← write (physicalSector + i) buffer
    if result = 0 then
      pure RES_ERROR
    else
      sectorsWritten write physicalSector (i + 1) rest

/-- `diskReadLoop` in the same way. -/
def sectorsRead {State : Type} (read : BitVec 32 → Program State (Nat × List Byte))
    (physicalSector i : BitVec 32) : Nat → Program State (Nat × List (List Byte))
  | 0 => pure (RES_OK, [])
  | left + 1 => do
    let (result, bytes) ← read (physicalSector + i)
    if result = 0 then
      pure (RES_ERROR, [bytes])
    else do
      let (result, rest) ← sectorsRead read physicalSector (i + 1) left
      pure (result, bytes :: rest)

theorem diskWriteLoop_select (physicalSector i : BitVec 32) (buff : List Sector) :
    diskWriteLoop physicalSector i buff (s.select dev) =
      selected dev (sectorsWritten (writeOf dev) physicalSector i buff) s := by
  induction buff generalizing i s with
  | nil => exact pure_select _
  | cons buffer rest inductionHypothesis =>
    refine bind_select (ataWriteSector_select _ _) fun result t => ?_
    by_cases failed : result = 0
    · rw [if_pos failed, if_pos failed]
      exact pure_select _
    · rw [if_neg failed, if_neg failed]
      exact inductionHypothesis (i + 1)

theorem diskReadLoop_select (physicalSector i : BitVec 32) (left : Nat) :
    diskReadLoop physicalSector i left (s.select dev) =
      selected dev (sectorsRead (readOf dev) physicalSector i left) s := by
  induction left generalizing i s with
  | zero => exact pure_select _
  | succ left inductionHypothesis =>
    refine bind_select (ataReadSector_select _) fun read t => ?_
    obtain ⟨result, bytes⟩ := read
    show (if result = 0 then _ else _ : Program System _) _ =
      selected dev (if result = 0 then _ else _ : Program Device _) t
    by_cases failed : result = 0
    · rw [if_pos failed, if_pos failed]
      exact pure_select _
    · rw [if_neg failed, if_neg failed]
      exact bind_select (inductionHypothesis (i + 1)) fun read u => pure_select _

/-! ## The interface of the file system -/

variable {pdrv : Byte}

theorem diskStatus_eq (drive : pdrvAtaDev pdrv = some dev) :
    diskStatus pdrv s =
      selected dev (detectOf dev >>= fun there => pure (if there then 0 else 1)) s := by
  unfold diskStatus
  rw [drive]
  show (ataSelectDevice dev >>= fun _ => _) s = _
  rw [Program.bind_of_returns (ataSelectDevice_eq dev)]
  exact bind_select ataDetect_select fun there t => pure_select _

theorem diskWrite_eq (drive : pdrvAtaDev pdrv = some dev) (sector : BitVec 32) (buff : List Sector) :
    diskWrite pdrv sector buff s =
      selected dev (sectorsWritten (writeOf dev) ((s.drives dev 0).base + sector) 0 buff) s := by
  unfold diskWrite
  rw [drive]
  show (ataSelectDevice dev >>= fun _ => _) s = _
  rw [Program.bind_of_returns (ataSelectDevice_eq dev)]
  exact diskWriteLoop_select _ 0 buff

theorem diskRead_eq (drive : pdrvAtaDev pdrv = some dev) (sector count : BitVec 32) :
    diskRead pdrv sector count s =
      selected dev (sectorsRead (readOf dev) ((s.drives dev 0).base + sector) 0 count.toNat) s := by
  unfold diskRead
  rw [drive]
  show (ataSelectDevice dev >>= fun _ => _) s = _
  rw [Program.bind_of_returns (ataSelectDevice_eq dev)]
  exact diskReadLoop_select _ 0 count.toNat

end OrionBios.Disks
