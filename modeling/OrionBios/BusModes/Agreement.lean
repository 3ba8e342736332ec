import OrionBios.BusModes.Drive
import OrionBios.Disks.MideWrite

/-!
# Where the two bus modes agree

Both read paths give the sector as it is on the medium. The write path fills the medium with
whatever its byte accesses put on the lines, which is the sector only while the drive takes bytes.
-/

namespace OrionBios.BusModes

open Machine
open Disks (Byte Lba Sector Register TaskFile ATA_ST_BUSY ATA_ST_DATA_READY
  ATA_CMD_READ_SECTORS ATA_CMD_WRITE_SECTORS ATA_CMD_SET_FEATURE busy dataReady error driveHead
  lbaOf lba_registers)

/-! ## Waiting -/

def Drive.awake (d : Drive) : Drive := { d with pause := 0 }

theorem waitLoop_returns {stop : Byte → Bool} (busy : stop ATA_ST_BUSY = false) {rounds : Nat}
    {d : Drive} (enough : d.pause < rounds) (stops : stop d.awake.status = true) :
    waitLoop stop rounds d = (some (), d.awake) := by
  induction rounds generalizing d with
  | zero => exact absurd enough (Nat.not_lt_zero _)
  | succ rounds inductionHypothesis =>
      have read : readStatus d = (some d.status, { d with pause := d.pause - 1 }) := rfl
      rw [waitLoop, Program.bind_of_returns read]
      by_cases ready : d.pause = 0
      · have same : d.awake = d := by
          unfold Drive.awake
          rw [← ready]
        have after : ({ d with pause := d.pause - 1 } : Drive) = d.awake := by
          unfold Drive.awake
          rw [ready]
        rw [same] at stops
        rw [if_pos stops, after]
        rfl
      · have waits : d.status = ATA_ST_BUSY := if_pos ready
        rw [waits, busy, if_neg Bool.false_ne_true]
        exact inductionHypothesis (show d.pause - 1 < rounds by omega) stops

theorem status_awake (d : Drive) : busy d.awake.status = false ∧ error d.awake.status = false := by
  unfold Drive.status Drive.awake
  rw [if_neg (fun nonzero => nonzero rfl)]
  have ready : busy (0x40 ||| ATA_ST_DATA_READY) = false ∧
      error (0x40 ||| ATA_ST_DATA_READY) = false := by decide
  cases d.phase with
  | idle => decide
  | sending left =>
    exact ready
  | receiving lba taken =>
    exact ready

theorem ataWait_returns (d : Drive) : ataWait d = (some (), d.awake) := by
  refine waitLoop_returns (by decide) (Nat.lt_succ_self _) ?_
  show (!busy d.awake.status) = true
  rw [(status_awake d).1]
  rfl

theorem ataWaitForData_returns {d : Drive} (asks : d.phase ≠ .idle) :
    ataWaitForData d = (some (), d.awake) := by
  refine waitLoop_returns (by decide) (Nat.lt_succ_self _) ?_
  unfold Drive.status Drive.awake
  rw [if_neg (fun nonzero => nonzero rfl)]
  have ready : dataReady (0x40 ||| ATA_ST_DATA_READY) = true := by decide
  cases phase : d.phase with
  | idle => exact absurd phase asks
  | sending left => exact ready
  | receiving lba taken => exact ready

/-! ## Reading -/

def Sends (left : List Byte) (d : Drive) : Prop :=
  d.phase = if left = [] then .idle else .sending left

theorem Sends.give {left : List Byte} {d : Drive} (sends : Sends left d) (some : left ≠ []) :
    d.give.1 = left.take d.unit ∧ Sends (left.drop d.unit) d.give.2 ∧
      d.give.2.eightBit = d.eightBit := by
  unfold Sends at sends
  rw [if_neg some] at sends
  unfold Drive.give
  rw [sends]
  exact ⟨rfl, rfl, rfl⟩

/-- The two halves of a word change places, so the first byte is the upper one. -/
theorem stored_rotateLeft (first second : Byte) :
    stored ((second ++ first : Disks.Word).rotateLeft 8) = [first, second] := by
  have turned : (second ++ first : Disks.Word).rotateLeft 8 = first ++ second := by
    apply BitVec.eq_of_getLsbD_eq
    intro i less
    rw [BitVec.getLsbD_rotateLeft]
    simp only [BitVec.getLsbD_append]
    by_cases low : i < 8
    · have far : ¬8 + 8 - 8 % (8 + 8) + i < 8 := by omega
      have place : 8 + 8 - 8 % (8 + 8) + i - 8 = i := by omega
      rw [if_pos low, decide_eq_true (show i < 8 % (8 + 8) from low), cond_true, if_neg far, place]
    · have near : i - 8 % (8 + 8) < 8 := by omega
      rw [if_neg low, decide_eq_false (show ¬i < 8 % (8 + 8) from low), cond_false, if_pos near,
        decide_eq_true less, Bool.true_and]
  rw [turned]
  unfold stored
  rw [BitVec.extractLsb'_append_eq_left, BitVec.extractLsb'_append_eq_right]

theorem readBytes_returns {left : List Byte} {d : Drive} (sends : Sends left d)
    (byteWide : d.eightBit = true) :
    ∃ e, readBytes left.length d = (some left, e) := by
  induction left generalizing d with
  | nil => exact ⟨d, rfl⟩
  | cons byte left inductionHypothesis =>
      obtain ⟨given, after, same⟩ := sends.give (List.cons_ne_nil _ _)
      have one : d.unit = 1 := if_pos byteWide
      rw [one] at given after
      have first : readDataByte d = (some byte, d.give.2) := by
        show (some ((d.give.1.getD 1 0xFF ++ d.give.1.getD 0 0xFF : Disks.Word).extractLsb' 0 8),
          d.give.2) = _
        rw [BitVec.extractLsb'_append_eq_right, given]
        rfl
      obtain ⟨e, others⟩ := inductionHypothesis (d := d.give.2.awake) after (same.trans byteWide)
      refine ⟨e, ?_⟩
      rw [List.length_cons, readBytes, Program.bind_of_returns first,
        Program.bind_of_returns (ataWait_returns _), Program.bind_of_returns others]
      rfl

theorem readWords_returns {bus : Bus} (odd : bus.oddWords = true) {count : Nat}
    {left : List Byte} (even : left.length = 2 * count) {d : Drive} (sends : Sends left d)
    (wordWide : d.eightBit = false) : ∃ e, readWords bus count d = (some left, e) := by
  induction count generalizing left d with
  | zero =>
      rw [List.length_eq_zero_iff.mp even]
      exact ⟨d, rfl⟩
  | succ count inductionHypothesis =>
      match left, even with
      | first :: second :: left, even =>
        obtain ⟨given, after, same⟩ := sends.give (List.cons_ne_nil _ _)
        have two : d.unit = 2 := if_neg (by rw [wordWide]; exact Bool.false_ne_true)
        rw [two] at given after
        have word : readDataWord bus d = (some (second ++ first), d.give.2) := by
          unfold readDataWord
          rw [if_pos odd]
          show (some (d.give.1.getD 1 0xFF ++ d.give.1.getD 0 0xFF), d.give.2) = _
          rw [given]
          rfl
        have fewer : left.length = 2 * count := by
          rw [List.length_cons, List.length_cons] at even
          omega
        obtain ⟨e, others⟩ :=
          inductionHypothesis fewer (d := d.give.2.awake) after (same.trans wordWide)
        refine ⟨e, ?_⟩
        rw [readWords, Program.bind_of_returns word, Program.bind_of_returns (ataWait_returns _),
          Program.bind_of_returns others, stored_rotateLeft]
        rfl

/-! ## The feature and the command -/

theorem ideBusMode_ne {mode : IdeBusMode} (wide : mode.val ≠ 0) : mode.val = 1 :=
  mode.property.resolve_left wide

/-- The drive moves bytes in mode 0 and words in mode 1, whatever it did before. -/
theorem go8bitsMode_returns (mode : IdeBusMode) (d : Drive) :
    ∃ e, go8bitsMode mode d = (some (), e) ∧ e.medium = d.medium ∧
      e.eightBit = decide (mode.val = 0) ∧ e.taskFile.driveHead = d.taskFile.driveHead := by
  have switch (feature : Byte) {byteWide : Bool}
      (means : (if feature = 0x01 then true else if feature = 0x81 then false else d.eightBit) =
        byteWide) :
      ∃ e, (do
          writeRegister .FEATURE feature
          writeCommand ATA_CMD_SET_FEATURE
          ataWait : Program Drive Unit) d = (some (), e) ∧ e.medium = d.medium ∧
        e.eightBit = byteWide ∧ e.taskFile.driveHead = d.taskFile.driveHead :=
    ⟨_, ataWait_returns _, rfl, means, rfl⟩
  unfold go8bitsMode
  by_cases narrow : mode.val = 0
  · obtain ⟨e, returns, kept⟩ := switch 0x01 rfl
    have not : ¬mode.val = 1 := by
      rw [narrow]
      decide
    rw [if_pos narrow, if_neg not, decide_eq_true narrow]
    exact ⟨e, Program.bind_of_returns returns, kept⟩
  · obtain ⟨e, returns, kept⟩ := switch 0x81 rfl
    rw [if_neg narrow, if_pos (ideBusMode_ne narrow), decide_eq_false narrow]
    exact ⟨e, returns, kept⟩

def Drive.addressed (sector : BitVec 32) (d : Drive) : Drive :=
  { d with
    taskFile :=
      { d.taskFile with
        sectorCount := 1
        sectorNum := sector.extractLsb' 0 8
        cylLow := sector.extractLsb' 8 8
        cylHigh := sector.extractLsb' 16 8
        driveHead := driveHead sector } }

theorem addressed_of_head {sector : BitVec 32} {d : Drive}
    (head : d.taskFile.driveHead = driveHead sector) :
    { d with
      taskFile := ⟨d.taskFile.feature, 1, sector.extractLsb' 0 8, sector.extractLsb' 8 8,
        sector.extractLsb' 16 8, d.taskFile.driveHead⟩ } = d.addressed sector := by
  rw [head]
  rfl

theorem lba_addressed (sector : BitVec 32) (d : Drive) :
    (d.addressed sector).taskFile.lba = lbaOf sector := lba_registers sector

theorem begin_read (sector : BitVec 32) (d : Drive) :
    Sends (d.medium (lbaOf sector)).val ((d.addressed sector).begin ATA_CMD_READ_SECTORS) := by
  have some : (d.medium (lbaOf sector)).val ≠ [] := fun none => by
    have length := (d.medium (lbaOf sector)).property
    rw [none] at length
    cases length
  unfold Sends
  rw [if_neg some, ← lba_addressed sector d]
  rfl

theorem begin_write (sector : BitVec 32) (d : Drive) :
    ((d.addressed sector).begin ATA_CMD_WRITE_SECTORS).phase = .receiving (lbaOf sector) [] := by
  rw [← lba_addressed sector d]
  rfl

/-! ## The read path -/

theorem readStatus_returns (d : Drive) :
    ∃ status, error status = false ∧ readStatus d.awake = (some status, d.awake) :=
  ⟨d.awake.status, (status_awake d).2, rfl⟩

theorem receive_returns (bus : Bus) (mode : IdeBusMode) {content : Sector} {d : Drive}
    (sends : Sends content.val d) (width : d.eightBit = decide (mode.val = 0)) :
    ((do
        ataWait
        let status ← readStatus
        if error status then
          pure (0, [])
        else do
          ataWait
          ataWaitForData
          let buffer ← if mode.val = 0 then readBytes 512 else readWords bus 256
          pure (512, buffer) : Program Drive (Nat × List Byte)) d).1 =
      if mode.val = 0 ∨ bus.oddWords = true then some (512, content.val) else none := by
  obtain ⟨status, fine, shown⟩ := readStatus_returns d
  have some : content.val ≠ [] := fun none => by
    have length := content.property
    rw [none] at length
    cases length
  have asks : d.awake.awake.phase ≠ .idle := by
    show d.phase ≠ .idle
    unfold Sends at sends
    rw [sends, if_neg some]
    exact nofun
  rw [Program.bind_of_returns (ataWait_returns d), Program.bind_of_returns shown, fine,
    if_neg Bool.false_ne_true, Program.bind_of_returns (ataWait_returns _),
    Program.bind_of_returns (ataWaitForData_returns asks)]
  have sends : Sends content.val d.awake.awake.awake := sends
  by_cases narrow : mode.val = 0
  · rw [decide_eq_true narrow] at width
    obtain ⟨e, read⟩ := readBytes_returns sends width
    rw [content.property] at read
    rw [if_pos narrow, if_pos (.inl narrow), Program.bind_of_returns read]
    rfl
  · rw [decide_eq_false narrow] at width
    rw [if_neg narrow]
    by_cases odd : bus.oddWords = true
    · have even : content.val.length = 2 * 256 := content.property
      obtain ⟨e, read⟩ := readWords_returns odd even sends width
      rw [if_pos (.inr odd), Program.bind_of_returns read]
      rfl
    · have trap : readDataWord bus d.awake.awake.awake = (none, d.awake.awake.awake) := by
        unfold readDataWord
        rw [if_neg odd]
      have never : readWords bus 256 d.awake.awake.awake = (none, d.awake.awake.awake) :=
        Program.bind_of_waits trap
      rw [if_neg (not_or.mpr ⟨narrow, odd⟩), Program.bind_of_waits never]

theorem ataReadSector_returns (bus : Bus) (mode : IdeBusMode) (sector : BitVec 32) (d : Drive) :
    (ataReadSector bus mode sector d).1 =
      if mode.val = 0 ∨ bus.oddWords = true then some (512, (d.medium (lbaOf sector)).val)
      else none := by
  obtain ⟨e, set, medium, width, head⟩ :=
    go8bitsMode_returns mode { d with taskFile := d.taskFile.set (driveHead sector) .DRIVE_HEAD }
  have commanded := receive_returns bus mode (begin_read sector e) width
  rw [medium] at commanded
  rw [← addressed_of_head head] at commanded
  exact (congrArg Prod.fst (Program.bind_of_returns set)).trans commanded

/-! ## The write path -/

/-- What a byte access puts on the lines that the drive takes. -/
def lanes (bus : Bus) (d : Drive) (byte : Byte) : List Byte := [byte, bus.upper byte].take d.unit

theorem lanes_length (bus : Bus) (d : Drive) (byte : Byte) :
    (lanes bus d byte).length = d.unit := by
  unfold lanes Drive.unit
  cases d.eightBit <;> rfl

theorem writeBytes_idle (bus : Bus) (bytes : List Byte) {d : Drive} (idle : d.phase = .idle) :
    ∃ e, writeBytes bus bytes d = (some (), e) ∧ e.medium = d.medium := by
  induction bytes generalizing d with
  | nil => exact ⟨d, rfl, rfl⟩
  | cons byte rest inductionHypothesis =>
      have ignored : writeDataByte bus byte d.awake = (some (), d.awake) := by
        unfold writeDataByte Drive.take Drive.awake
        rw [idle]
      obtain ⟨e, others, same⟩ := inductionHypothesis (d := d.awake) idle
      refine ⟨e, ?_, same⟩
      rw [writeBytes, Program.bind_of_returns (ataWait_returns d),
        Program.bind_of_returns ignored]
      exact others

theorem writeBytes_returns (bus : Bus) {lba : Lba} {taken bytes : List Byte} {d : Drive}
    (receives : d.phase = .receiving lba taken) (less : taken.length < 512)
    (whole : d.unit = 1 ∨ d.unit = 2 ∧ taken.length % 2 = 0) (enough : 512 ≤ taken.length + d.unit * bytes.length) :
    ∃ e, writeBytes bus bytes d = (some (), e) ∧
      (e.medium lba).val = (taken ++ bytes.flatMap (lanes bus d)).take 512 := by
  induction bytes generalizing taken d with
  | nil =>
      rw [List.length_nil, Nat.mul_zero] at enough
      omega
  | cons byte rest inductionHypothesis =>
      have upper : (bus.upper byte ++ byte : Disks.Word).extractLsb' 8 8 = bus.upper byte :=
        BitVec.extractLsb'_append_eq_left
      have lower : (bus.upper byte ++ byte : Disks.Word).extractLsb' 0 8 = byte :=
        BitVec.extractLsb'_append_eq_right
      have longer : (taken ++ lanes bus d byte).length = taken.length + d.unit := by
        rw [List.length_append, lanes_length]
      have written : ∃ next, writeDataByte bus byte d.awake = (some (), next) ∧
          next = if full : (taken ++ lanes bus d byte).length = 512 then
            { d.awake with
              phase := .idle
              medium := Function.update d.medium lba ⟨taken ++ lanes bus d byte, full⟩ }.rest
          else { d.awake with phase := .receiving lba (taken ++ lanes bus d byte) }.rest := by
        refine ⟨_, rfl, ?_⟩
        have receives : d.awake.phase = .receiving lba taken := receives
        unfold Drive.take
        rw [receives, upper, lower]
        rfl
      obtain ⟨next, taken', is⟩ := written
      rw [writeBytes, Program.bind_of_returns (ataWait_returns d),
        Program.bind_of_returns taken', List.flatMap_cons, ← List.append_assoc]
      by_cases full : (taken ++ lanes bus d byte).length = 512
      · rw [dif_pos full] at is
        obtain ⟨e, others, same⟩ := writeBytes_idle bus rest (d := next) (by rw [is]; rfl)
        refine ⟨e, others, ?_⟩
        have saved : next.medium lba = ⟨taken ++ lanes bus d byte, full⟩ := by
          rw [is]
          exact Function.update_self _ _ _
        rw [same, saved, List.take_left' full]
      · rw [dif_neg full] at is
        have unit : next.unit = d.unit := by
          rw [is]
          rfl
        have lanes : lanes bus next = lanes bus d := by
          funext byte
          unfold lanes
          rw [unit]
        rw [longer] at full
        rw [List.length_cons, Nat.mul_add, Nat.mul_one] at enough
        obtain ⟨e, others, same⟩ := inductionHypothesis (d := next) (by rw [is]; rfl)
          (by rw [longer]; omega) (by rw [longer, unit]; omega) (by rw [longer, unit]; omega)
        exact ⟨e, others, by rw [same, lanes]⟩

theorem send_returns (bus : Bus) {lba : Lba} (buffer : Sector) {d : Drive}
    (receives : d.phase = .receiving lba []) :
    ∃ e, (do
        ataWait
        let status ← readStatus
        if error status then
          pure 0
        else do
          ataWait
          ataWaitForData
          writeBytes bus buffer.val
          ataWait
          let _ ← readStatus
          pure 512 : Program Drive Nat) d = (some 512, e) ∧
      (e.medium lba).val = (buffer.val.flatMap (lanes bus d)).take 512 := by
  obtain ⟨status, fine, shown⟩ := readStatus_returns d
  have receives : d.awake.awake.awake.phase = .receiving lba [] := receives
  have asks : d.awake.awake.phase ≠ .idle := by
    change d.awake.awake.phase = .receiving lba [] at receives
    rw [receives]
    exact nofun
  have whole : d.unit = 1 ∨ d.unit = 2 ∧ ([] : List Byte).length % 2 = 0 := by
    unfold Drive.unit
    cases d.eightBit <;> decide
  have enough : 512 ≤ ([] : List Byte).length + d.unit * buffer.val.length := by
    rw [buffer.property]
    obtain one | two := whole
    · rw [one]
      decide
    · rw [two.1]
      decide
  obtain ⟨e, written, saved⟩ :=
    writeBytes_returns bus (d := d.awake.awake.awake) receives (by decide) whole enough
  refine ⟨e.awake, ?_, saved⟩
  rw [Program.bind_of_returns (ataWait_returns d), Program.bind_of_returns shown, fine,
    if_neg Bool.false_ne_true, Program.bind_of_returns (ataWait_returns _),
    Program.bind_of_returns (ataWaitForData_returns asks), Program.bind_of_returns written,
    Program.bind_of_returns (ataWait_returns e)]
  rfl

theorem take_flatMap_pair {α β : Type} {pair : α → List β} (two : ∀ a, (pair a).length = 2)
    (list : List α) (count : Nat) :
    (list.flatMap pair).take (2 * count) = (list.take count).flatMap pair := by
  induction count generalizing list with
  | zero => rfl
  | succ count inductionHypothesis =>
      cases list with
      | nil => rfl
      | cons first list =>
        have length : 2 * (count + 1) = (pair first).length + 2 * count := by
          rw [two]
          omega
        rw [List.flatMap_cons, length, List.take_length_add_append, inductionHypothesis,
          List.take_succ_cons, List.flatMap_cons]

/-- The sector that the write path leaves on the medium: in mode 1 each byte of its first half
went out with the upper lines. -/
theorem ataWriteSector_returns (bus : Bus) (mode : IdeBusMode) (sector : BitVec 32)
    (buffer : Sector) (d : Drive) :
    ∃ e, ataWriteSector bus mode sector buffer d = (some 512, e) ∧
      (e.medium (lbaOf sector)).val =
        if mode.val = 0 then buffer.val
        else (buffer.val.take 256).flatMap fun byte => [byte, bus.upper byte] := by
  obtain ⟨e, set, medium, width, head⟩ := go8bitsMode_returns mode d
  obtain ⟨last, sent, saved⟩ := send_returns bus buffer (begin_write sector e)
  refine ⟨last, (Program.bind_of_returns set).trans sent, ?_⟩
  have same : ((e.addressed sector).begin ATA_CMD_WRITE_SECTORS).eightBit = e.eightBit := rfl
  rw [saved]
  by_cases narrow : mode.val = 0
  · have bytes : lanes bus ((e.addressed sector).begin ATA_CMD_WRITE_SECTORS) = fun byte => [byte] := by
      funext byte
      unfold lanes Drive.unit
      rw [same, width, decide_eq_true narrow]
      rfl
    rw [if_pos narrow, bytes, List.flatMap_singleton', List.take_of_length_le (Nat.le_of_eq buffer.property)]
  · have words : lanes bus ((e.addressed sector).begin ATA_CMD_WRITE_SECTORS) =
        fun byte => [byte, bus.upper byte] := by
      funext byte
      unfold lanes Drive.unit
      rw [same, width, decide_eq_false narrow]
      rfl
    rw [if_neg narrow, words]
    exact take_flatMap_pair (fun _ => rfl) buffer.val 256

theorem writeThenRead_eq (bus : Bus) (written read : IdeBusMode) (sector : BitVec 32)
    (buffer : Sector) (d : Drive) :
    (writeThenRead bus written read sector buffer d).1 =
      if read.val = 0 ∨ bus.oddWords = true then
        some (512,
          if written.val = 0 then buffer.val
          else (buffer.val.take 256).flatMap fun byte => [byte, bus.upper byte])
      else none := by
  obtain ⟨e, done, saved⟩ := ataWriteSector_returns bus written sector buffer d
  rw [← saved, ← ataReadSector_returns bus read sector e]
  exact congrArg Prod.fst (Program.bind_of_returns done)

/-! ## Agreement -/

theorem flatMap_pair_eq_iff {α : Type} (other : α → α) (first whole : List α)
    (length : whole.length = 2 * first.length) :
    (first.flatMap fun a => [a, other a]) = whole ↔
      ∀ i, i < first.length → whole[2 * i]? = first[i]? ∧
        whole[2 * i + 1]? = first[i]?.map other := by
  induction first generalizing whole with
  | nil =>
      rw [List.length_eq_zero_iff.mp length]
      exact ⟨fun _ i less => absurd less (Nat.not_lt_zero i), fun _ => rfl⟩
  | cons a first inductionHypothesis =>
      match whole, length with
      | b :: c :: whole, length =>
        have fewer : whole.length = 2 * first.length := by
          rw [List.length_cons, List.length_cons, List.length_cons] at length
          omega
        rw [List.flatMap_cons]
        show a :: other a :: first.flatMap (fun a => [a, other a]) = b :: c :: whole ↔ _
        rw [List.cons_eq_cons, List.cons_eq_cons, inductionHypothesis whole fewer]
        constructor
        · rintro ⟨rfl, rfl, rest⟩ i less
          cases i with
          | zero => exact ⟨rfl, rfl⟩
          | succ i => exact rest i (Nat.lt_of_succ_lt_succ less)
        · intro places
          obtain ⟨here, next⟩ := places 0 (Nat.succ_pos _)
          exact ⟨(Option.some.inj here).symm, (Option.some.inj next).symm,
            fun i less => places (i + 1) (Nat.succ_lt_succ less)⟩

/-- A sector comes back as it was written where the driver writes bytes to a drive that takes
bytes, or the sector happens to be what the lines carry; words are read at an odd address. -/
theorem modes_agree_iff (bus : Bus) (written read : IdeBusMode) (sector : BitVec 32)
    (buffer : Sector) (d : Drive) :
    (writeThenRead bus written read sector buffer d).1 = some (512, buffer.val) ↔
      (read.val = 0 ∨ bus.oddWords = true) ∧
        (written.val = 0 ∨ ∀ i, i < 256 → buffer.val[2 * i]? = buffer.val[i]? ∧
          buffer.val[2 * i + 1]? = buffer.val[i]?.map bus.upper) := by
  rw [writeThenRead_eq]
  by_cases readable : read.val = 0 ∨ bus.oddWords = true
  · rw [if_pos readable, Option.some_inj, Prod.mk.injEq, and_iff_right rfl, and_iff_right readable]
    by_cases narrow : written.val = 0
    · rw [if_pos narrow]
      exact ⟨fun _ => .inl narrow, fun _ => rfl⟩
    · have half : (buffer.val.take 256).length = 256 := by
        rw [List.length_take, buffer.property]
        rfl
      have double : buffer.val.length = 2 * (buffer.val.take 256).length := by
        rw [half, buffer.property]
      rw [if_neg narrow, or_iff_right narrow, flatMap_pair_eq_iff _ _ _ double, half]
      refine forall_congr' fun i => forall_congr' fun less => ?_
      rw [List.getElem?_take_of_lt less]
  · rw [if_neg readable]
    exact ⟨nofun, fun holds => absurd holds.1 readable⟩

/-- A sector of mode 1 does not come back: the drive was full after half of it. -/
theorem word_mode_scrambles : ¬∀ (bus : Bus) (written read : IdeBusMode) (sector : BitVec 32)
    (buffer : Sector) (d : Drive),
    (writeThenRead bus written read sector buffer d).1 = some (512, buffer.val) := by
  intro all
  let buffer : Sector := ⟨1 :: List.replicate 511 0, by rw [List.length_cons, List.length_replicate]⟩
  let d : Drive :=
    { taskFile := ⟨0, 0, 0, 0, 0, 0⟩
      eightBit := true
      phase := .idle
      medium := fun _ => buffer
      pause := 0
      pauses := fun _ => 0 }
  have back := all ⟨id, true⟩ ⟨1, .inr rfl⟩ ⟨1, .inr rfl⟩ 0 buffer d
  rw [writeThenRead_eq, if_pos (.inr rfl), if_neg (by decide), Option.some_inj] at back
  have second := congrArg (·[1]?) (Prod.mk.inj back).2
  have wrong : (some 1 : Option Byte) = some 0 := second
  exact absurd wrong (by decide)

end OrionBios.BusModes
