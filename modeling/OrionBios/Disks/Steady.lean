import OrionBios.Disks.Accesses

/-!
# What stays on a disk

Only a write changes a disk: whatever else the driver does, and whatever the device shows, the
sectors stay as they are, as long as no write was left half done.
-/

namespace OrionBios.Disks

open Machine Device

variable {d e : Device} {dev : Dev} {sector : BitVec 32} {Value Result : Type}

/-- No sector is on its way into the device. -/
def Early : Phase → Prop
  | .complete _ | .accepted => False
  | _ => True

/-- The device has no sector that a later status could save or drop. -/
def Quiet (d : Device) : Prop := d.order.operation = .write → Early d.phase

/-- A quiet device stays quiet and keeps its sectors. -/
structure Kept (before after : Device) : Prop where
  quiet : Quiet after
  saved : after.saved = before.saved
  medium : after.medium = before.medium

def Steady (before after : Device) : Prop := Quiet before → Kept before after

theorem steady_refl (d : Device) : Steady d d := fun quiet => ⟨quiet, rfl, rfl⟩

theorem Steady.trans {f : Device} (first : Steady d e) (second : Steady e f) : Steady d f := by
  intro quiet
  have one := first quiet
  have two := second one.quiet
  exact ⟨two.quiet, two.saved.trans one.saved, two.medium.trans one.medium⟩

theorem Kept.contents (kept : Kept d e) : e.contents = d.contents := by
  funext lba
  unfold Device.contents
  rw [kept.saved, kept.medium]

theorem told_steady (status : Byte) : Steady d (d.told status) := by
  obtain ⟨present, taskFile, phase, ⟨operation, lba, sectors⟩, orders, saved, medium, identity,
    script⟩ := d
  intro quiet
  unfold told
  cases busy status with
  | true => exact ⟨quiet, rfl, rfl⟩
  | false =>
    cases phase with
    | idle => exact ⟨fun _ => trivial, rfl, rfl⟩
    | failed => exact ⟨fun _ => trivial, rfl, rfl⟩
    | asked =>
      cases dataReady status <;> cases error status <;> exact ⟨fun _ => trivial, rfl, rfl⟩
    | moving bytes => cases error status <;> exact ⟨fun _ => trivial, rfl, rfl⟩
    | complete sector =>
      cases operation with
      | write => exact absurd (quiet rfl) id
      | read =>
        by_cases last : sectors = 1
        · cases dataReady status <;> cases error status <;>
            simp only [last, if_true] <;> exact ⟨nofun, rfl, rfl⟩
        · cases dataReady status <;> cases error status <;>
            simp only [last, if_false] <;> exact ⟨nofun, rfl, rfl⟩
      | identify =>
        by_cases last : sectors = 1
        · cases dataReady status <;> cases error status <;>
            simp only [last, if_true] <;> exact ⟨nofun, rfl, rfl⟩
        · cases dataReady status <;> cases error status <;>
            simp only [last, if_false] <;> exact ⟨nofun, rfl, rfl⟩
      | other =>
        by_cases last : sectors = 1
        · cases dataReady status <;> cases error status <;>
            simp only [last, if_true] <;> exact ⟨nofun, rfl, rfl⟩
        · cases dataReady status <;> cases error status <;>
            simp only [last, if_false] <;> exact ⟨nofun, rfl, rfl⟩
    | accepted =>
      cases operation with
      | write => exact absurd (quiet rfl) id
      | read => cases error status <;> exact ⟨nofun, rfl, rfl⟩
      | identify => cases error status <;> exact ⟨nofun, rfl, rfl⟩
      | other => cases error status <;> exact ⟨nofun, rfl, rfl⟩

/-! ## Programs that do not write -/

theorem readStatus_steady : Program.Relates Steady readStatus := by
  intro d
  cases script : d.script with
  | nil =>
    rw [readStatus_nil script]
    exact steady_refl d
  | cons status rest =>
    rw [readStatus_cons script]
    exact fun quiet =>
      have told : Kept d (d.told status) := told_steady status quiet
      ⟨told.quiet, told.saved, told.medium⟩

theorem waitLoop_steady (stop : Byte → Bool) (script : List Byte) (d : Device) :
    Steady d (waitLoop stop script d).2 := by
  induction script generalizing d with
  | nil => exact fun quiet => ⟨quiet, rfl, rfl⟩
  | cons status rest inductionHypothesis =>
    have shown : Steady d ((d.told status).withScript rest) := fun quiet =>
      have told : Kept d (d.told status) := told_steady status quiet
      ⟨told.quiet, told.saved, told.medium⟩
    rw [waitLoop_cons]
    split
    · exact shown
    · exact shown.trans (inductionHypothesis _)

theorem waitFor_steady (stop : Byte → Bool) : Program.Relates Steady (waitFor stop) := fun d =>
  waitLoop_steady stop d.script d

theorem steady_pure (value : Value) : Program.Relates Steady (pure value) :=
  Program.relates_pure steady_refl value

theorem steady_bind {program : Program Device Value} {next : Value → Program Device Result}
    (first : Program.Relates Steady program) (second : ∀ value, Program.Relates Steady (next value)) :
    Program.Relates Steady (program >>= next) :=
  first.bind (fun one two => one.trans two) second

theorem ataWait_steady : Program.Relates Steady ataWait :=
  steady_bind (waitFor_steady _) fun _ => steady_pure ()

theorem ataWaitForData_steady : Program.Relates Steady ataWaitForData :=
  steady_bind (waitFor_steady _) fun _ => steady_pure ()

theorem give_steady : Steady d d.give.2 := by
  intro quiet
  unfold give
  split
  · exact ⟨quiet, rfl, rfl⟩
  · next notWrite =>
    rw [moved_eq]
    exact ⟨fun write => absurd write notWrite, rfl, rfl⟩
  · exact ⟨quiet, rfl, rfl⟩

theorem readDataByte_steady : Program.Relates Steady readDataByte := fun _ => give_steady

theorem writeRegister_steady (register : Register) (value : Byte) :
    Program.Relates Steady (writeRegister register value) := fun _ quiet => ⟨quiet, rfl, rfl⟩

theorem readSectorCount_steady : Program.Relates Steady readSectorCount := steady_refl

theorem begin_kept (command : Byte) (d : Device) : Kept d (d.begin command) := by
  unfold begin
  cases operationOf command with
  | read => exact ⟨fun _ => trivial, rfl, rfl⟩
  | write => exact ⟨fun _ => trivial, rfl, rfl⟩
  | identify => exact ⟨fun _ => trivial, rfl, rfl⟩
  | other => exact ⟨fun _ => trivial, rfl, rfl⟩

theorem writeCommand_steady (command : Byte) : Program.Relates Steady (writeCommand command) :=
  fun d _ => begin_kept command d

theorem readBytes_steady (count : Nat) : Program.Relates Steady (readBytes count) := by
  induction count with
  | zero => exact steady_pure []
  | succ count inductionHypothesis =>
    exact steady_bind readDataByte_steady fun _ => steady_bind ataWait_steady fun _ =>
      steady_bind inductionHypothesis fun _ => steady_pure _

theorem go8bitsMode_steady : Program.Relates Steady go8bitsMode :=
  steady_bind (writeRegister_steady _ _) fun _ =>
    steady_bind (writeCommand_steady _) fun _ => ataWait_steady

theorem mideReadSector_steady (sector : BitVec 32) :
    Program.Relates Steady (mideReadSector sector) := by
  unfold mideReadSector
  refine steady_bind (writeRegister_steady _ _) fun _ => steady_bind go8bitsMode_steady fun _ => ?_
  refine steady_bind (writeRegister_steady _ _) fun _ => ?_
  refine steady_bind (writeRegister_steady _ _) fun _ => ?_
  refine steady_bind (writeRegister_steady _ _) fun _ => ?_
  refine steady_bind (writeRegister_steady _ _) fun _ => ?_
  refine steady_bind (writeCommand_steady _) fun _ => steady_bind ataWait_steady fun _ => ?_
  refine steady_bind readStatus_steady fun status => Program.Relates.ite (steady_pure _) ?_
  refine steady_bind ataWait_steady fun _ => steady_bind ataWaitForData_steady fun _ => ?_
  exact steady_bind (readBytes_steady 512) fun _ => steady_pure _

theorem pollLoop_steady (classify : Byte → Option Value) (giveUp : Value) (rounds : Nat) :
    Program.Relates Steady (pollLoop classify giveUp rounds) := by
  induction rounds with
  | zero => exact steady_pure giveUp
  | succ rounds inductionHypothesis =>
    refine steady_bind readStatus_steady fun status => ?_
    split
    · exact steady_pure _
    · exact inductionHypothesis

theorem picoideWaitDrq_steady : Program.Relates Steady (picoideWaitDrq devicePort) := by
  unfold picoideWaitDrq
  rw [picoideWaitDrqLoop_eq]
  exact pollLoop_steady _ _ _

theorem picoideWaitIdle_steady : Program.Relates Steady (picoideWaitIdle devicePort) := by
  unfold picoideWaitIdle
  rw [picoideWaitIdleLoop_eq]
  exact pollLoop_steady _ _ _

theorem picoideReport_steady : Program.Relates Steady (picoideReport devicePort) :=
  steady_bind readStatus_steady fun _ => steady_bind (steady_pure 0) fun _ => steady_pure ()

theorem readWords_steady (count : Nat) : Program.Relates Steady (readWords devicePort count) := by
  induction count with
  | zero => exact steady_pure []
  | succ count inductionHypothesis =>
    refine steady_bind ?_ fun _ => steady_bind inductionHypothesis fun _ => steady_pure _
    exact steady_bind readDataByte_steady fun _ =>
      steady_bind readDataByte_steady fun _ => steady_pure _

theorem picoideReceive_steady : Program.Relates Steady picoideReceive := by
  refine steady_bind picoideWaitDrq_steady fun ready => ?_
  refine Program.Relates.ite (steady_bind picoideReport_steady fun _ => steady_pure _) ?_
  refine steady_bind (readWords_steady 256) fun _ => steady_bind picoideWaitIdle_steady fun idle => ?_
  exact Program.Relates.ite (steady_bind picoideReport_steady fun _ => steady_pure _) (steady_pure _)

theorem picoideReadSector_steady (sector : BitVec 32) :
    Program.Relates Steady (picoideReadSector devicePort sector) := by
  intro d _
  rw [picoideReadSector_eq]
  have asked : Kept d (d.asked .read sector) := ⟨fun _ => trivial, rfl, rfl⟩
  have received := picoideReceive_steady (d.asked .read sector) asked.quiet
  exact ⟨received.quiet, received.saved, received.medium⟩

/-! ## The calls that do not write -/

theorem readOf_steady (dev : Dev) (sector : BitVec 32) : Program.Relates Steady (readOf dev sector) := by
  cases dev with
  | ATA_DEV_MIDE => exact mideReadSector_steady sector
  | ATA_DEV_PICOIDE => exact steady_bind (picoideReadSector_steady sector) fun _ => steady_pure _

theorem hasMasterDisk_steady : Program.Relates Steady hasMasterDisk := by
  refine steady_bind (writeRegister_steady _ _) fun _ => steady_bind readSectorCount_steady fun _ => ?_
  refine Program.Relates.ite (steady_pure _) (steady_bind (writeRegister_steady _ _) fun _ => ?_)
  exact steady_bind readSectorCount_steady fun _ => steady_pure _

theorem mideDetectLoop_steady (rounds : Nat) : Program.Relates Steady (mideDetectLoop rounds) := by
  induction rounds with
  | zero => exact steady_pure false
  | succ rounds inductionHypothesis =>
    refine steady_bind readStatus_steady fun status => ?_
    exact Program.Relates.ite inductionHypothesis (steady_pure _)

theorem detectOf_steady (dev : Dev) : Program.Relates Steady (detectOf dev) := by
  cases dev with
  | ATA_DEV_MIDE =>
    refine steady_bind hasMasterDisk_steady fun there => Program.Relates.ite (steady_pure _) ?_
    exact steady_bind (writeCommand_steady _) fun _ => mideDetectLoop_steady 1000
  | ATA_DEV_PICOIDE =>
    refine steady_bind hasMasterDisk_steady fun there => Program.Relates.ite (steady_pure _) ?_
    refine steady_bind readStatus_steady fun status => Program.Relates.ite (steady_pure _) ?_
    refine Program.Relates.ite ?_ (steady_pure _)
    refine steady_bind (picoideReadSector_steady 0) fun _ => ?_
    exact steady_bind readStatus_steady fun _ => steady_pure _

theorem picoideIdentify_steady : Program.Relates Steady (picoideIdentify devicePort) := by
  refine steady_bind (writeRegister_steady _ _) fun _ => steady_bind (writeCommand_steady _) fun _ => ?_
  refine steady_bind picoideWaitDrq_steady fun ready => Program.Relates.ite (steady_pure _) ?_
  refine steady_bind (readWords_steady 256) fun _ => ?_
  exact steady_bind picoideWaitIdle_steady fun _ => steady_pure _

end OrionBios.Disks
