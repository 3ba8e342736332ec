import OrionBios.Disks.Sectors

/-!
# Writing a sector to the MIDE

The driver looks at one status of the card. What the card shows besides it decides whether the
sector that the driver reports as written was accepted.
-/

namespace OrionBios.Disks

open Machine Device

variable {d e : Device} {sector : BitVec 32} {buffer : Sector}

/-! ## The command -/

def lbaOf (sector : BitVec 32) : Lba := sector.extractLsb' 0 28

theorem driveHead_low (sector : BitVec 32) :
    (driveHead sector).truncate 4 = sector.extractLsb' 24 4 := by
  apply BitVec.eq_of_getLsbD_eq
  intro i inside
  have ones : ∀ i (inside : i < 4), (15#4)[i] = true := by decide
  have small : i < 8 := by omega
  simp [driveHead, inside, ones, small]

theorem lba_registers (sector : BitVec 32) :
    (driveHead sector).truncate 4 ++ sector.extractLsb' 16 8 ++ sector.extractLsb' 8 8 ++
      sector.extractLsb' 0 8 = lbaOf sector := by
  rw [driveHead_low,
    BitVec.extractLsb'_append_extractLsb'_eq_extractLsb' (show 24 = 16 + 8 from rfl),
    BitVec.extractLsb'_append_extractLsb'_eq_extractLsb' (show 16 = 8 + 8 from rfl),
    BitVec.extractLsb'_append_extractLsb'_eq_extractLsb' (show 8 = 0 + 8 from rfl)]
  rfl

namespace Device

def addressed (sector : BitVec 32) (d : Device) : Device :=
  { d with
    taskFile :=
      { d.taskFile with
        sectorCount := 1
        sectorNum := sector.extractLsb' 0 8
        cylLow := sector.extractLsb' 8 8
        cylHigh := sector.extractLsb' 16 8
        driveHead := Disks.driveHead sector } }

def withHead (head : Byte) (d : Device) : Device :=
  { d with taskFile := { d.taskFile with driveHead := head } }

def ordered (order : Order) (d : Device) : Device :=
  { d with order := order, orders := order :: d.orders }

/-- A device that was given the command for one sector. -/
def asked (operation : Operation) (sector : BitVec 32) (d : Device) : Device :=
  ((d.addressed sector).ordered ⟨operation, lbaOf sector, 1⟩).withPhase .asked

theorem begin_write (d : Device) :
    (d.addressed sector).begin ATA_CMD_WRITE_SECTORS = d.asked .write sector := by
  have lba : (d.addressed sector).taskFile.lba = lbaOf sector := lba_registers sector
  have one : (d.addressed sector).taskFile.sectors = 1 := rfl
  show (((d.addressed sector).ordered ⟨.write, _, _⟩).withPhase .asked) = _
  rw [lba, one]
  rfl

theorem begin_read (d : Device) :
    (d.addressed sector).begin ATA_CMD_READ_SECTORS = d.asked .read sector := by
  have lba : (d.addressed sector).taskFile.lba = lbaOf sector := lba_registers sector
  have one : (d.addressed sector).taskFile.sectors = 1 := rfl
  show (((d.addressed sector).ordered ⟨.read, _, _⟩).withPhase .asked) = _
  rw [lba, one]
  rfl

def eightBits (d : Device) : Device :=
  { d with taskFile := { d.taskFile with feature := 0x01 }, phase := .idle, order := ⟨.other, 0, 0⟩ }

end Device

theorem go8bitsMode_returns :
    go8bitsMode d = (some (), e) ↔
      ∃ read left, d.script = read ++ left ∧ IsWait notBusy read ∧
        e = d.eightBits.withScript left := by
  have starts : go8bitsMode d = ataWait d.eightBits := rfl
  rw [starts, ataWait_returns]
  have idle (read : List Byte) : d.eightBits.toldAll read = d.eightBits :=
    toldAll_idle (d := d.eightBits)
  constructor
  · rintro ⟨read, left, script, wait, rfl⟩
    exact ⟨read, left, script, wait, by rw [idle]⟩
  · rintro ⟨read, left, script, wait, rfl⟩
    exact ⟨read, left, script, wait, by rw [idle]⟩

/-! ## The bytes -/

theorem writeBytes_returns {bytes : List Byte} :
    writeBytes bytes d = (some (), e) ↔
      ∃ (waits : List (List Byte)) (left : List Byte),
        d.script = waits.flatten ++ left ∧ waits.length = bytes.length ∧
        (∀ wait ∈ waits, IsWait notBusy wait) ∧
        e = (d.takeAll (waits.zip bytes)).withScript left := by
  induction bytes generalizing d with
  | nil =>
    constructor
    · intro returns
      cases returns
      exact ⟨[], _, rfl, rfl, nofun, rfl⟩
    · rintro ⟨waits, left, script, none, -, same⟩
      cases List.length_eq_zero_iff.mp none
      have own : left = _ := script.symm
      rw [same, own]
      rfl
  | cons byte rest inductionHypothesis =>
    have next : writeBytes (byte :: rest) = (ataWait >>= fun _ => writeDataByte byte >>= fun _ =>
      writeBytes rest) := rfl
    rw [next, Program.bind_returns]
    constructor
    · rintro ⟨_, t, first, others⟩
      obtain ⟨read, left, script, wait, rfl⟩ := ataWait_returns.mp first
      have taken : writeBytes rest (((d.toldAll read).withScript left).take byte) = (some (), e) :=
        others
      rw [take_withScript, inductionHypothesis] at taken
      obtain ⟨waits, left', script', length, all, same⟩ := taken
      have own : left = waits.flatten ++ left' := script'
      refine ⟨read :: waits, left', ?_, ?_, ?_, ?_⟩
      · rw [script, own, List.flatten_cons, List.append_assoc]
      · rw [List.length_cons, length, List.length_cons]
      · intro other among
        rcases List.mem_cons.mp among with rfl | among
        · exact wait
        · exact all other among
      · rw [same, takeAll_withScript]
        rfl
    · rintro ⟨waits, left, script, length, all, rfl⟩
      cases waits with
      | nil => exact absurd length nofun
      | cons read waits =>
        rw [List.flatten_cons, List.append_assoc] at script
        refine ⟨(), _, ataWait_returns.mpr ⟨read, _, script, all read List.mem_cons_self, rfl⟩, ?_⟩
        show writeBytes rest (((d.toldAll read).withScript (waits.flatten ++ left)).take byte) = _
        rw [take_withScript, inductionHypothesis]
        refine ⟨waits, left, rfl, ?_, fun other among => all other (List.mem_cons_of_mem _ among), ?_⟩
        · exact Nat.succ.inj length
        · rw [takeAll_withScript]
          rfl

/-! ## The statuses of a sector -/

/-- What the card shows while a sector is written to it. -/
structure MideShown where
  /-- Until it is in the mode of 8 bits. -/
  feature : List Byte
  /-- After the command for the sector. -/
  start : List Byte
  /-- The one status that the driver looks at. -/
  checked : Byte
  ready : List Byte
  request : List Byte
  /-- Before each byte. -/
  waits : List (List Byte)
  /-- After the last byte: busy, then not. -/
  ends : List Byte
  ended : Byte
  /-- The status that the driver prints an error of. -/
  last : Byte

namespace MideShown

/-- After the command for the sector. -/
def answer (t : MideShown) : List Byte :=
  t.start ++ (t.checked :: (t.ready ++ (t.request ++ (t.waits.flatten ++
    (t.ends ++ [t.ended, t.last])))))

def script (t : MideShown) : List Byte := t.feature ++ t.answer

/-- The statuses let the driver send the whole sector and report that it is written. -/
structure Passes (t : MideShown) : Prop where
  start : IsWait notBusy t.start
  checked : error t.checked = false
  ready : IsWait notBusy t.ready
  request : IsWait dataReady t.request
  waits : ∀ wait ∈ t.waits, IsWait notBusy wait
  bytes : t.waits.length = 512
  ends : ∀ status ∈ t.ends, busy status = true
  ended : busy t.ended = false

structure Sends (t : MideShown) : Prop extends Passes t where
  feature : IsWait notBusy t.feature

/-- From the command for the sector to its first byte. -/
def asking (t : MideShown) : List Byte := t.start ++ t.checked :: (t.ready ++ t.request)

structure Good (t : MideShown) : Prop where
  silent : ∀ status ∈ t.asking ++ t.waits.flatten, tellsError status = false
  asks : ∃ status ∈ t.asking ++ t.waits.headD [], asksData status = true
  ends : EndsWell t.ended t.last

/-- The bytes of the sector with the statuses before them. -/
def sent (t : MideShown) (buffer : Sector) : List Sent :=
  match t.waits.zip buffer.val with
  | [] => []
  | first :: rest => (t.asking ++ first.1, first.2) :: rest

end MideShown

theorem takeAll_sent (t : MideShown) (d : Device) (bytes : t.waits.length = 512) :
    (d.toldAll t.asking).takeAll (t.waits.zip buffer.val) = d.takeAll (t.sent buffer) := by
  unfold MideShown.sent
  cases sent : t.waits.zip buffer.val with
  | nil =>
    have length := congrArg List.length sent
    rw [List.length_zip, bytes, buffer.property] at length
    exact absurd length nofun
  | cons first rest =>
    rw [takeAll_cons, takeAll_cons, toldAll_append]

theorem sent_whole (t : MideShown) (bytes : t.waits.length = 512) :
    (t.sent buffer).map Prod.snd = buffer.val := by
  have whole : (t.waits.zip buffer.val).map Prod.snd = buffer.val :=
    List.map_snd_zip (Nat.le_of_eq (buffer.property.trans bytes.symm))
  unfold MideShown.sent
  cases sent : t.waits.zip buffer.val with
  | nil => rw [← whole, sent]
  | cons first rest =>
    rw [← whole, sent]
    rfl

theorem arrives_sent (t : MideShown) (bytes : t.waits.length = 512) :
    Arrives (t.sent buffer) ↔
      (∀ status ∈ t.asking ++ t.waits.flatten, tellsError status = false) ∧
        ∃ status ∈ t.asking ++ t.waits.headD [], asksData status = true := by
  have firsts : (t.waits.zip buffer.val).map Prod.fst = t.waits :=
    List.map_fst_zip (Nat.le_of_eq (bytes.trans buffer.property.symm))
  unfold MideShown.sent
  cases sent : t.waits.zip buffer.val with
  | nil =>
    rw [sent] at firsts
    rw [← firsts] at bytes
    exact absurd bytes nofun
  | cons first rest =>
    rw [sent, List.map_cons] at firsts
    rw [← firsts, List.flatten_cons, List.headD_cons]
    have errors : tellErrors ((t.asking ++ first.1, first.2) :: rest) = false ↔
        ∀ status ∈ t.asking ++ (first.1 ++ (rest.map Prod.fst).flatten),
          tellsError status = false := by
      rw [tellErrors_cons, Bool.or_eq_false_iff, ← List.append_assoc]
      unfold tellErrors
      rw [List.any_eq_false, List.any_eq_false]
      constructor
      · rintro ⟨before, later⟩ status among
        rcases List.mem_append.mp among with among | among
        · exact Bool.eq_false_iff.mpr (before status among)
        · obtain ⟨wait, isWait, inside⟩ := List.mem_flatten.mp among
          obtain ⟨next, isNext, rfl⟩ := List.mem_map.mp isWait
          have silent := List.any_eq_false.mp (Bool.eq_false_iff.mpr (later next isNext))
          exact Bool.eq_false_iff.mpr (silent status inside)
      · intro silent
        refine ⟨fun status among => ?_, fun next among tells => ?_⟩
        · exact Bool.eq_false_iff.mp (silent status (List.mem_append_left _ among))
        · obtain ⟨status, inside, isError⟩ := List.any_eq_true.mp tells
          refine Bool.eq_false_iff.mp (silent status (List.mem_append_right _ ?_)) isError
          exact List.mem_flatten.mpr ⟨next.1, List.mem_map.mpr ⟨next, among, rfl⟩, inside⟩
    constructor
    · rintro ⟨silent, other, rest', same, asks⟩
      cases same
      exact ⟨errors.mp silent, List.any_eq_true.mp asks⟩
    · rintro ⟨silent, asks⟩
      exact ⟨errors.mpr silent, _, _, rfl, List.any_eq_true.mpr asks⟩

/-! ## The whole function -/

/-- `ata_write_sector` from the wait after its command on. -/
def mideSend (buffer : Sector) : Program Device Nat := do
  ataWait
  let status ← readStatus
  if error status then
    pure 0
  else do
    ataWait
    ataWaitForData
    writeBytes buffer.val
    ataWait
    let _ ← readStatus
    pure 512

theorem mideWriteSector_eq (d : Device) :
    mideWriteSector sector buffer d =
      (go8bitsMode >>= fun _ (t : Device) => mideSend buffer (t.asked .write sector)) d := by
  have same : (fun (_ : Unit) (t : Device) => mideSend buffer (t.asked .write sector)) =
      fun _ t => mideSend buffer ((t.addressed sector).begin ATA_CMD_WRITE_SECTORS) := by
    funext _ t
    rw [begin_write]
  show (go8bitsMode >>= fun _ (t : Device) =>
    mideSend buffer ((t.addressed sector).begin ATA_CMD_WRITE_SECTORS)) d = _
  rw [same]

theorem mideSend_returns {result : Nat} (returns : mideSend buffer d = (some result, e)) :
    result = 0 ∨ result = 512 := by
  obtain ⟨_, t, -, returns⟩ := Program.bind_returns.mp returns
  obtain ⟨status, u, -, returns⟩ := Program.bind_returns.mp returns
  split at returns
  · cases returns
    exact .inl rfl
  · obtain ⟨_, _, -, returns⟩ := Program.bind_returns.mp returns
    obtain ⟨_, _, -, returns⟩ := Program.bind_returns.mp returns
    obtain ⟨_, _, -, returns⟩ := Program.bind_returns.mp returns
    obtain ⟨_, _, -, returns⟩ := Program.bind_returns.mp returns
    obtain ⟨_, _, -, returns⟩ := Program.bind_returns.mp returns
    cases returns
    exact .inr rfl

theorem mideWriteSector_result {result : Nat}
    (returns : mideWriteSector sector buffer d = (some result, e)) : result = 0 ∨ result = 512 := by
  rw [mideWriteSector_eq] at returns
  obtain ⟨_, t, -, returns⟩ := Program.bind_returns.mp returns
  exact mideSend_returns returns

/-- The device at the end of a sector that was sent. -/
def MideShown.leaves (t : MideShown) (buffer : Sector) (d : Device) : Device :=
  (d.takeAll (t.sent buffer)).toldAll (t.ends ++ [t.ended, t.last])

theorem mideSend_sent :
    mideSend buffer d = (some 512, e) ↔
      ∃ (t : MideShown) (left : List Byte), d.script = t.answer ++ left ∧ t.Passes ∧
        e = (t.leaves buffer d).withScript left := by
  constructor
  · intro returns
    obtain ⟨_, d₁, first, returns⟩ := Program.bind_returns.mp returns
    obtain ⟨start, s₁, script₁, waitStart, rfl⟩ := ataWait_returns.mp first
    obtain ⟨checked, d₂, second, returns⟩ := Program.bind_returns.mp returns
    obtain ⟨s₂, script₂, rfl⟩ := readStatus_returns.mp second
    cases clean : error checked with
    | true =>
      rw [if_pos clean] at returns
      cases returns
    | false =>
      rw [if_neg (Bool.eq_false_iff.mp clean)] at returns
      obtain ⟨_, d₃, third, returns⟩ := Program.bind_returns.mp returns
      obtain ⟨ready, s₃, script₃, waitReady, rfl⟩ := ataWait_returns.mp third
      obtain ⟨_, d₄, fourth, returns⟩ := Program.bind_returns.mp returns
      obtain ⟨request, s₄, script₄, waitRequest, rfl⟩ := ataWaitForData_returns.mp fourth
      obtain ⟨_, d₅, fifth, returns⟩ := Program.bind_returns.mp returns
      obtain ⟨waits, s₅, script₅, bytes, waitBytes, rfl⟩ := writeBytes_returns.mp fifth
      obtain ⟨_, d₆, sixth, returns⟩ := Program.bind_returns.mp returns
      obtain ⟨read, s₆, script₆, ⟨ends, ended, rfl, others, clear⟩, rfl⟩ := ataWait_returns.mp sixth
      obtain ⟨last, d₇, seventh, returns⟩ := Program.bind_returns.mp returns
      obtain ⟨s₇, script₇, rfl⟩ := readStatus_returns.mp seventh
      cases returns
      have bytes' : waits.length = 512 := bytes.trans buffer.property
      refine ⟨⟨[], start, checked, ready, request, waits, ends, ended, last⟩, s₇, ?_, ?_, ?_⟩
      · have script₂' : s₁ = checked :: s₂ := script₂
        have script₃' : s₂ = ready ++ s₃ := script₃
        have script₄' : s₃ = request ++ s₄ := script₄
        have script₅' : s₄ = waits.flatten ++ s₅ := script₅
        have script₆' : s₅ = ends ++ [ended] ++ s₆ := script₆
        have script₇' : s₆ = last :: s₇ := script₇
        rw [script₁, script₂', script₃', script₄', script₅', script₆', script₇']
        simp [MideShown.answer]
      · exact ⟨waitStart, clean, waitReady, waitRequest, waitBytes, bytes',
          fun status among => by simpa [notBusy] using others status among,
          by simpa [notBusy] using clear⟩
      · unfold MideShown.leaves
        rw [← takeAll_sent _ _ bytes']
        simp only [toldAll_withScript, told_withScript, takeAll_withScript, withScript_withScript,
          MideShown.asking, toldAll_append, toldAll_cons, toldAll_nil]
  · rintro ⟨t, left, script, passes, rfl⟩
    unfold MideShown.answer at script
    simp only [List.append_assoc, List.cons_append, List.nil_append] at script
    have checked : ¬ error t.checked = true := Bool.eq_false_iff.mp passes.checked
    have ends : IsWait notBusy (t.ends ++ [t.ended]) := by
      refine ⟨t.ends, t.ended, rfl, fun status among => ?_, ?_⟩
      · show (!busy status) = false
        rw [passes.ends status among]
        rfl
      · show (!busy t.ended) = true
        rw [passes.ended]
        rfl
    refine Program.bind_returns.mpr ⟨(), _, ataWait_returns.mpr ⟨t.start, _, script, passes.start, rfl⟩, ?_⟩
    refine Program.bind_returns.mpr ⟨t.checked, _, readStatus_returns.mpr ⟨_, rfl, rfl⟩, ?_⟩
    rw [if_neg checked]
    refine Program.bind_returns.mpr ⟨(), _, ataWait_returns.mpr ⟨t.ready, _, rfl, passes.ready, rfl⟩, ?_⟩
    refine Program.bind_returns.mpr
      ⟨(), _, ataWaitForData_returns.mpr ⟨t.request, _, rfl, passes.request, rfl⟩, ?_⟩
    refine Program.bind_returns.mpr ⟨(), _, writeBytes_returns.mpr
      ⟨t.waits, _, rfl, passes.bytes.trans buffer.property.symm, passes.waits, rfl⟩, ?_⟩
    refine Program.bind_returns.mpr ⟨(), _, ataWait_returns.mpr
      ⟨t.ends ++ [t.ended], t.last :: left, ?_, ends, rfl⟩, ?_⟩
    · show t.ends ++ t.ended :: t.last :: left = _
      rw [List.append_assoc]
      rfl
    refine Program.bind_returns.mpr ⟨t.last, _, readStatus_returns.mpr ⟨left, rfl, rfl⟩, ?_⟩
    unfold MideShown.leaves
    rw [← takeAll_sent _ _ passes.bytes]
    simp only [toldAll_withScript, told_withScript, takeAll_withScript, withScript_withScript,
      MideShown.asking, toldAll_append, toldAll_cons, toldAll_nil]
    rfl

theorem mideWriteSector_sent :
    mideWriteSector sector buffer d = (some 512, e) ↔
      ∃ (t : MideShown) (left : List Byte), d.script = t.script ++ left ∧ t.Sends ∧
        e = (t.leaves buffer (d.eightBits.asked .write sector)).withScript left := by
  rw [mideWriteSector_eq]
  refine Program.bind_returns.trans ?_
  have apart (t : MideShown) (left left' : List Byte) :
      (t.leaves buffer ((d.eightBits.withScript left).asked .write sector)).withScript left' =
        (t.leaves buffer (d.eightBits.asked .write sector)).withScript left' := by
    show (t.leaves buffer ((d.eightBits.asked .write sector).withScript left)).withScript left' = _
    unfold MideShown.leaves
    rw [takeAll_withScript, toldAll_withScript, withScript_withScript]
  constructor
  · rintro ⟨_, u, first, returns⟩
    obtain ⟨feature, left, script, wait, rfl⟩ := go8bitsMode_returns.mp first
    obtain ⟨t, left', script', passes, rfl⟩ := mideSend_sent.mp returns
    refine ⟨{ t with feature := feature }, left', ?_, ?_, ?_⟩
    · have own : left = t.answer ++ left' := script'
      rw [script, own, ← List.append_assoc]
      rfl
    · exact { passes with feature := wait }
    · exact apart t left left'
  · rintro ⟨t, left, script, sends, rfl⟩
    unfold MideShown.script at script
    rw [List.append_assoc] at script
    refine ⟨(), _, go8bitsMode_returns.mpr ⟨t.feature, _, script, sends.feature, rfl⟩, ?_⟩
    refine mideSend_sent.mpr ⟨t, left, rfl, sends.toPasses, ?_⟩
    exact (apart t _ left).symm

theorem mideWriteSector_outcome (t : MideShown) (sends : t.Sends) (d : Device) :
    Outcome (d.eightBits.asked .write sector)
      (t.leaves buffer (d.eightBits.asked .write sector)) buffer t.Good := by
  have outcome : Outcome _ (t.leaves buffer (d.eightBits.asked .write sector)) buffer _ :=
    sent_outcome (d := (d.eightBits.addressed sector).ordered ⟨.write, lbaOf sector, 1⟩) rfl rfl
      (sent_whole t sends.bytes) sends.ends sends.ended
  have good : t.Good ↔ Arrives (t.sent buffer) ∧ EndsWell t.ended t.last := by
    rw [arrives_sent t sends.bytes]
    exact ⟨fun good => ⟨⟨good.silent, good.asks⟩, good.ends⟩,
      fun good => ⟨good.1.1, good.1.2, good.2⟩⟩
  exact ⟨fun holds => outcome.accepted (good.mp holds),
    fun fails => outcome.refused fun holds => fails (good.mpr holds)⟩

end OrionBios.Disks
