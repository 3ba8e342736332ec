import OrionBios.Disks.Honesty
import OrionBios.Disks.Reading

/-!
# The sectors that a request accesses

Every call for one sector gives its device at most one command, for that sector. A request goes
through its sectors in order and stops at the first that fails.
-/

namespace OrionBios.Disks

open Machine Device

variable {d e : Device} {dev : Dev} {sector : BitVec 32} {buffer : Sector} {Value : Type}

/-! ## Programs without a command -/

theorem readStatus_frame : Program.Relates Frame readStatus := by
  intro d
  cases script : d.script with
  | nil =>
    rw [readStatus_nil script]
    exact frame_refl d
  | cons status rest =>
    rw [readStatus_cons script]
    have told := told_frame (d := d) status
    exact ⟨told.present, told.taskFile, told.orders, told.medium, told.identity⟩

theorem waitLoop_frame (stop : Byte → Bool) (script : List Byte) (d : Device) :
    Frame d (waitLoop stop script d).2 := by
  induction script generalizing d with
  | nil => exact ⟨rfl, rfl, rfl, rfl, rfl⟩
  | cons status rest inductionHypothesis =>
    have told := told_frame (d := d) status
    have shown : Frame d ((d.told status).withScript rest) :=
      ⟨told.present, told.taskFile, told.orders, told.medium, told.identity⟩
    rw [waitLoop_cons]
    split
    · exact shown
    · exact shown.trans (inductionHypothesis _)

theorem waitFor_frame (stop : Byte → Bool) : Program.Relates Frame (waitFor stop) := fun d =>
  waitLoop_frame stop d.script d

theorem frame_pure (value : Value) : Program.Relates Frame (pure value) :=
  Program.relates_pure frame_refl value

theorem frame_bind {Result : Type} {program : Program Device Value}
    {next : Value → Program Device Result} (first : Program.Relates Frame program)
    (second : ∀ value, Program.Relates Frame (next value)) :
    Program.Relates Frame (program >>= next) :=
  first.bind (fun one two => one.trans two) second

theorem ataWait_frame : Program.Relates Frame ataWait :=
  frame_bind (waitFor_frame _) fun _ => frame_pure ()

theorem ataWaitForData_frame : Program.Relates Frame ataWaitForData :=
  frame_bind (waitFor_frame _) fun _ => frame_pure ()

theorem moved_frame (byte : Byte) (bytes : List Byte) : Frame d (d.moved byte bytes) := by
  rw [moved_eq]
  exact ⟨rfl, rfl, rfl, rfl, rfl⟩

theorem take_frame (byte : Byte) : Frame d (d.take byte) := by
  unfold take
  split
  · exact moved_frame byte _
  · exact frame_refl d

theorem give_frame : Frame d d.give.2 := by
  unfold give
  split
  · exact frame_refl d
  · exact moved_frame _ _
  · exact frame_refl d

theorem writeDataByte_frame (byte : Byte) : Program.Relates Frame (writeDataByte byte) := fun _ =>
  take_frame byte

theorem readDataByte_frame : Program.Relates Frame readDataByte := fun _ => give_frame

theorem writeBytes_frame (bytes : List Byte) : Program.Relates Frame (writeBytes bytes) := by
  induction bytes with
  | nil => exact frame_pure ()
  | cons byte rest inductionHypothesis =>
    exact frame_bind ataWait_frame fun _ =>
      frame_bind (writeDataByte_frame byte) fun _ => inductionHypothesis

theorem readBytes_frame (count : Nat) : Program.Relates Frame (readBytes count) := by
  induction count with
  | zero => exact frame_pure []
  | succ count inductionHypothesis =>
    exact frame_bind readDataByte_frame fun _ => frame_bind ataWait_frame fun _ =>
      frame_bind inductionHypothesis fun _ => frame_pure _

theorem mideSend_frame (buffer : Sector) : Program.Relates Frame (mideSend buffer) := by
  refine frame_bind ataWait_frame fun _ => frame_bind readStatus_frame fun status => ?_
  refine Program.Relates.ite (frame_pure 0) ?_
  refine frame_bind ataWait_frame fun _ => frame_bind ataWaitForData_frame fun _ => ?_
  refine frame_bind (writeBytes_frame buffer.val) fun _ => frame_bind ataWait_frame fun _ => ?_
  exact frame_bind readStatus_frame fun _ => frame_pure 512

theorem mideReceive_frame : Program.Relates Frame mideReceive := by
  refine frame_bind ataWait_frame fun _ => frame_bind readStatus_frame fun status => ?_
  refine Program.Relates.ite (frame_pure _) ?_
  refine frame_bind ataWait_frame fun _ => frame_bind ataWaitForData_frame fun _ => ?_
  exact frame_bind (readBytes_frame 512) fun _ => frame_pure _

theorem pollLoop_frame (classify : Byte → Option Value) (giveUp : Value) (rounds : Nat) :
    Program.Relates Frame (pollLoop classify giveUp rounds) := by
  induction rounds with
  | zero => exact frame_pure giveUp
  | succ rounds inductionHypothesis =>
    refine frame_bind readStatus_frame fun status => ?_
    split
    · exact frame_pure _
    · exact inductionHypothesis

theorem picoideWaitDrq_frame : Program.Relates Frame (picoideWaitDrq devicePort) := by
  unfold picoideWaitDrq
  rw [picoideWaitDrqLoop_eq]
  exact pollLoop_frame _ _ _

theorem picoideWaitIdle_frame : Program.Relates Frame (picoideWaitIdle devicePort) := by
  unfold picoideWaitIdle
  rw [picoideWaitIdleLoop_eq]
  exact pollLoop_frame _ _ _

theorem picoideReport_frame : Program.Relates Frame (picoideReport devicePort) :=
  frame_bind readStatus_frame fun _ => frame_bind (frame_pure 0) fun _ => frame_pure ()

theorem writeWords_frame (words : List Word) :
    Program.Relates Frame (writeWords devicePort words) := by
  induction words with
  | nil => exact frame_pure ()
  | cons word rest inductionHypothesis =>
    refine frame_bind ?_ fun _ => inductionHypothesis
    exact frame_bind (writeDataByte_frame _) fun _ => writeDataByte_frame _

theorem readWords_frame (count : Nat) : Program.Relates Frame (readWords devicePort count) := by
  induction count with
  | zero => exact frame_pure []
  | succ count inductionHypothesis =>
    refine frame_bind ?_ fun _ => frame_bind inductionHypothesis fun _ => frame_pure _
    exact frame_bind readDataByte_frame fun _ => frame_bind readDataByte_frame fun _ => frame_pure _

theorem picoideSend_frame (words : List Word) : Program.Relates Frame (picoideSend words) := by
  refine frame_bind picoideWaitDrq_frame fun ready => ?_
  refine Program.Relates.ite (frame_bind picoideReport_frame fun _ => frame_pure 0) ?_
  refine frame_bind (writeWords_frame words) fun _ => frame_bind picoideWaitIdle_frame fun idle => ?_
  exact Program.Relates.ite (frame_bind picoideReport_frame fun _ => frame_pure 0) (frame_pure 512)

theorem picoideReceive_frame : Program.Relates Frame picoideReceive := by
  refine frame_bind picoideWaitDrq_frame fun ready => ?_
  refine Program.Relates.ite (frame_bind picoideReport_frame fun _ => frame_pure _) ?_
  refine frame_bind (readWords_frame 256) fun _ => frame_bind picoideWaitIdle_frame fun idle => ?_
  exact Program.Relates.ite (frame_bind picoideReport_frame fun _ => frame_pure _) (frame_pure _)

/-! ## One sector -/

def orderFor (operation : Operation) (sector : BitVec 32) : Order := ⟨operation, lbaOf sector, 1⟩

/-- A run that gave its device the command, or is still waiting before it. -/
def GivesOrder (order : Order) (run : Option Value × Device) (d : Device) : Prop :=
  run.2.orders = order :: d.orders ∨ (run.1 = none ∧ run.2.orders = d.orders)

theorem go8bitsMode_then {next : Unit → Program Device Value} {order : Order}
    (gives : ∀ left, (next () (d.eightBits.withScript left)).2.orders = order :: d.orders) :
    GivesOrder order ((go8bitsMode >>= next) d) d := by
  cases run : go8bitsMode d with
  | mk value t =>
    cases value with
    | none =>
      have kept := (ataWait_frame d.eightBits).orders
      have waits : go8bitsMode d = ataWait d.eightBits := rfl
      rw [← waits, run] at kept
      rw [Program.bind_of_waits run]
      exact .inr ⟨rfl, kept⟩
    | some _ =>
      obtain ⟨read, left, -, -, rfl⟩ := go8bitsMode_returns.mp run
      rw [Program.bind_of_returns run]
      exact .inl (gives left)

theorem writeOf_orders (dev : Dev) (sector : BitVec 32) (buffer : Sector) (d : Device) :
    GivesOrder (orderFor .write sector) (writeOf dev sector buffer d) d := by
  cases dev with
  | ATA_DEV_MIDE =>
    show GivesOrder _ (mideWriteSector sector buffer d) d
    rw [mideWriteSector_eq]
    exact go8bitsMode_then fun left => (mideSend_frame buffer _).orders
  | ATA_DEV_PICOIDE =>
    show GivesOrder _ (picoideWriteSector devicePort sector (wordsOf buffer.val) d) d
    rw [picoideWriteSector_eq]
    exact .inl (picoideSend_frame _ _).orders

theorem bind_pure_orders {program : Program Device Value} {Result : Type} {result : Value → Result}
    {order : Order} (gives : GivesOrder order (program d) d) :
    GivesOrder order ((program >>= fun value => pure (result value)) d) d := by
  cases run : program d with
  | mk value t =>
    rw [run] at gives
    cases value with
    | none =>
      rw [Program.bind_of_waits run]
      exact gives.imp_right fun waits => ⟨rfl, waits.2⟩
    | some value =>
      rw [Program.bind_of_returns run]
      exact .inl (gives.resolve_right fun waits => absurd waits.1 nofun)

theorem readOf_orders (dev : Dev) (sector : BitVec 32) (d : Device) :
    GivesOrder (orderFor .read sector) (readOf dev sector d) d := by
  cases dev with
  | ATA_DEV_MIDE =>
    show GivesOrder _ (mideReadSector sector d) d
    rw [mideReadSector_eq]
    show GivesOrder _ _ (d.withHead (driveHead sector))
    refine go8bitsMode_then fun left => ?_
    exact (mideReceive_frame _).orders.trans (congrArg Device.orders (begin_read _))
  | ATA_DEV_PICOIDE =>
    refine bind_pure_orders ?_
    rw [picoideReadSector_eq]
    exact .inl (picoideReceive_frame _).orders

/-! ## A request -/

/-- The commands for the sectors of a request from the `i`-th on. -/
def ordersFor (operation : Operation) (physicalSector i : BitVec 32) : Nat → List Order
  | 0 => []
  | count + 1 =>
    orderFor operation (physicalSector + i) :: ordersFor operation physicalSector (i + 1) count

theorem ordersFor_length (operation : Operation) (physicalSector i : BitVec 32) (count : Nat) :
    (ordersFor operation physicalSector i count).length = count := by
  induction count generalizing i with
  | zero => rfl
  | succ count inductionHypothesis => exact congrArg Nat.succ (inductionHypothesis (i + 1))

theorem ordersFor_getElem? {operation : Operation} {physicalSector i : BitVec 32} {count j : Nat}
    (less : j < count) :
    (ordersFor operation physicalSector i count)[j]? =
      some (orderFor operation (physicalSector + (i + BitVec.ofNat 32 j))) := by
  induction count generalizing i j with
  | zero => exact absurd less (Nat.not_lt_zero j)
  | succ count inductionHypothesis =>
    cases j with
    | zero =>
      rw [BitVec.add_zero]
      rfl
    | succ j =>
      have next : i + 1 + BitVec.ofNat 32 j = i + BitVec.ofNat 32 (j + 1) := by
        rw [BitVec.add_assoc, BitVec.ofNat_add j 1, BitVec.add_comm (BitVec.ofNat 32 j)]
        rfl
      show (ordersFor operation physicalSector (i + 1) count)[j]? = _
      rw [inductionHypothesis (Nat.lt_of_succ_lt_succ less), next]

/-- The device was given the commands for the first sectors of a request, for all of them if
nothing went wrong. -/
def Accesses (operation : Operation) (physicalSector i : BitVec 32) (count : Nat)
    (result : Option Nat) (before after : Device) : Prop :=
  ∃ accessed, accessed ≤ count ∧
    after.orders = (ordersFor operation physicalSector i accessed).reverse ++ before.orders ∧
    (result = some RES_OK → accessed = count)

variable {operation : Operation} {physicalSector i : BitVec 32} {count : Nat} {result : Option Nat}

theorem accesses_none : Accesses operation physicalSector i 0 result d d :=
  ⟨0, Nat.le_refl 0, rfl, fun _ => rfl⟩

theorem accesses_stop (same : e.orders = d.orders) (fails : result ≠ some RES_OK) :
    Accesses operation physicalSector i count result d e :=
  ⟨0, Nat.zero_le count, same, fun works => absurd works fails⟩

theorem Accesses.cons {f : Device}
    (first : f.orders = orderFor operation (physicalSector + i) :: d.orders)
    (others : Accesses operation physicalSector (i + 1) count result f e) :
    Accesses operation physicalSector i (count + 1) result d e := by
  obtain ⟨accessed, atMost, orders, all⟩ := others
  refine ⟨accessed + 1, Nat.succ_le_succ atMost, ?_, fun works => congrArg Nat.succ (all works)⟩
  rw [orders, first]
  show _ = (orderFor operation (physicalSector + i) ::
    ordersFor operation physicalSector (i + 1) accessed).reverse ++ d.orders
  rw [List.reverse_cons, List.append_assoc]
  rfl

theorem accesses_one (first : e.orders = orderFor operation (physicalSector + i) :: d.orders)
    (fails : result ≠ some RES_OK) :
    Accesses operation physicalSector i (count + 1) result d e :=
  (accesses_stop rfl fails).cons first

theorem sectorsWritten_orders {write : BitVec 32 → Sector → Program Device Nat}
    (gives : ∀ sector buffer d, GivesOrder (orderFor .write sector) (write sector buffer d) d)
    (physicalSector i : BitVec 32) (buff : List Sector) (d : Device) :
    Accesses .write physicalSector i buff.length
      (sectorsWritten write physicalSector i buff d).1 d
      (sectorsWritten write physicalSector i buff d).2 := by
  induction buff generalizing i d with
  | nil => exact accesses_none
  | cons buffer rest inductionHypothesis =>
    have body : sectorsWritten write physicalSector i (buffer :: rest) =
        (write (physicalSector + i) buffer >>= fun result =>
          if result = 0 then pure RES_ERROR
          else sectorsWritten write physicalSector (i + 1) rest) := rfl
    rw [body, Program.bind_apply]
    have order := gives (physicalSector + i) buffer d
    cases run : write (physicalSector + i) buffer d with
    | mk value t =>
      rw [run] at order
      cases value with
      | none =>
        rcases order with given | ⟨-, same⟩
        · exact accesses_one given nofun
        · exact accesses_stop same nofun
      | some value =>
        have given := order.resolve_right fun waits => absurd waits.1 nofun
        show Accesses _ _ _ _ ((if value = 0 then _ else _ : Program Device Nat) t).1 _
          ((if value = 0 then _ else _ : Program Device Nat) t).2
        by_cases failed : value = 0
        · rw [if_pos failed]
          exact accesses_one given nofun
        · rw [if_neg failed]
          exact (inductionHypothesis (i + 1) t).cons given

theorem sectorsRead_orders {read : BitVec 32 → Program Device (Nat × List Byte)}
    (gives : ∀ sector d, GivesOrder (orderFor .read sector) (read sector d) d)
    (physicalSector i : BitVec 32) (count : Nat) (d : Device) :
    Accesses .read physicalSector i count
      ((sectorsRead read physicalSector i count d).1.map Prod.fst) d
      (sectorsRead read physicalSector i count d).2 := by
  induction count generalizing i d with
  | zero => exact accesses_none
  | succ count inductionHypothesis =>
    have body : sectorsRead read physicalSector i (count + 1) =
        (read (physicalSector + i) >>= fun got =>
          if got.1 = 0 then pure (RES_ERROR, [got.2])
          else sectorsRead read physicalSector (i + 1) count >>= fun rest =>
            pure (rest.1, got.2 :: rest.2)) := rfl
    rw [body, Program.bind_apply]
    have order := gives (physicalSector + i) d
    cases run : read (physicalSector + i) d with
    | mk value t =>
      rw [run] at order
      cases value with
      | none =>
        rcases order with given | ⟨-, same⟩
        · exact accesses_one given nofun
        · exact accesses_stop same nofun
      | some value =>
        have given := order.resolve_right fun waits => absurd waits.1 nofun
        show Accesses _ _ _ _ (Option.map Prod.fst ((if value.1 = 0 then _ else _ :
          Program Device (Nat × List (List Byte))) t).1) _
          ((if value.1 = 0 then _ else _ : Program Device (Nat × List (List Byte))) t).2
        by_cases failed : value.1 = 0
        · rw [if_pos failed]
          exact accesses_one given nofun
        · rw [if_neg failed]
          have others := inductionHypothesis (i + 1) t
          rw [Program.bind_apply]
          cases more : sectorsRead read physicalSector (i + 1) count t with
          | mk rest u =>
            rw [more] at others
            cases rest with
            | none => exact others.cons given
            | some rest => exact others.cons given

end OrionBios.Disks
