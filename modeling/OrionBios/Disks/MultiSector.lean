import OrionBios.Disks.PicoideWrite

/-!
# Several sectors with one command

The driver for the picoIDE alone sends all sectors after one command. A sector that the device
does not ask for in time leaves it behind to the end.
-/

namespace OrionBios.Disks

open Machine Device

variable {d e : Device} {sector : Sector} {rounds : Nat} {read : List Byte} {lba : BitVec 32}

/-! ## The waits -/

/-- How `ata_wait_clear` takes a status. -/
def clearOf (status : Byte) : Option Bool := if busy status then none else some true

/-- How the second loop of `ata_wait_drq` takes a status. -/
def requestOf (status : Byte) : Option AtaStatus :=
  if error status then some .ATA_ERR_DEVICE
  else if dataReady status then some .ATA_OK
  else none

theorem ataWaitClearLoop_eq (rounds : Nat) :
    ataWaitClearLoop rounds = pollLoop clearOf false rounds := by
  induction rounds with
  | zero => rfl
  | succ rounds inductionHypothesis =>
    unfold ataWaitClearLoop pollLoop
    refine congrArg (readStatus >>= ·) (funext fun status => ?_)
    rw [inductionHypothesis]
    unfold clearOf
    split_ifs <;> rfl

theorem ataWaitDrqLoop_eq (rounds : Nat) :
    ataWaitDrqLoop rounds = pollLoop requestOf .ATA_ERR_TIMEOUT_DRQ rounds := by
  induction rounds with
  | zero => rfl
  | succ rounds inductionHypothesis =>
    unfold ataWaitDrqLoop pollLoop
    refine congrArg (readStatus >>= ·) (funext fun status => ?_)
    rw [inductionHypothesis]
    unfold requestOf
    split_ifs <;> rfl

theorem ataWaitClear_returns {clear : Bool} :
    ataWaitClear d = (some clear, e) ↔
      ∃ read left, d.script = read ++ left ∧ Polled clearOf false ATA_TIMEOUT_LOOPS read clear ∧
        e = (d.toldAll read).withScript left := by
  unfold ataWaitClear
  rw [ataWaitClearLoop_eq]
  exact pollLoop_returns

/-- What `ata_wait_drq` reads when it returns `ATA_OK`. -/
def IsRequest (read : List Byte) : Prop :=
  ∃ clear polls, read = clear ++ polls ∧ Polled clearOf false ATA_TIMEOUT_LOOPS clear true ∧
    Polled requestOf .ATA_ERR_TIMEOUT_DRQ ATA_TIMEOUT_LOOPS polls .ATA_OK

theorem ataWaitDrq_returns :
    ataWaitDrq d = (some .ATA_OK, e) ↔
      ∃ read left, d.script = read ++ left ∧ IsRequest read ∧
        e = (d.toldAll read).withScript left := by
  unfold ataWaitDrq
  rw [Program.bind_returns]
  constructor
  · rintro ⟨clear, t, first, second⟩
    obtain ⟨read, left, script, polled, rfl⟩ := ataWaitClear_returns.mp first
    cases clear with
    | false =>
      rw [if_neg Bool.false_ne_true] at second
      cases second
    | true =>
      rw [if_pos rfl, ataWaitDrqLoop_eq] at second
      obtain ⟨polls, left', script', polled', rfl⟩ := pollLoop_returns.mp second
      have own : left = polls ++ left' := script'
      refine ⟨read ++ polls, left', ?_, ⟨read, polls, rfl, polled, polled'⟩, ?_⟩
      · rw [script, own, List.append_assoc]
      · rw [toldAll_withScript, toldAll_append]
        rfl
  · rintro ⟨read, left, script, ⟨clear, polls, rfl, polled, polled'⟩, rfl⟩
    rw [List.append_assoc] at script
    refine ⟨true, _, ataWaitClear_returns.mpr ⟨clear, polls ++ left, script, polled, rfl⟩, ?_⟩
    rw [if_pos rfl, ataWaitDrqLoop_eq]
    refine pollLoop_returns.mpr ⟨polls, left, rfl, polled', ?_⟩
    rw [toldAll_withScript, toldAll_append]
    rfl

/-! ## The sectors of a command -/

/-- The device after sectors that were each sent when some statuses were read. -/
def sendAll (shown : List (List Byte × Sector)) (d : Device) : Device :=
  shown.foldl (fun d next => (d.toldAll next.1).takeAll (unwatched next.2.val)) d

theorem sendAll_cons (next : List Byte × Sector) (rest : List (List Byte × Sector)) :
    sendAll (next :: rest) d =
      sendAll rest ((d.toldAll next.1).takeAll (unwatched next.2.val)) := rfl

theorem sendAll_withScript (shown : List (List Byte × Sector)) (script : List Byte) :
    sendAll shown (d.withScript script) = (sendAll shown d).withScript script := by
  induction shown generalizing d with
  | nil => rfl
  | cons next rest inductionHypothesis =>
    rw [sendAll_cons, toldAll_withScript, takeAll_withScript]
    exact inductionHypothesis

theorem ataWriteSectorsLoop_returns {buffer : List Sector} :
    ataWriteSectorsLoop buffer d = (some .ATA_OK, e) ↔
      ∃ (requests : List (List Byte)) (ends left : List Byte),
        d.script = requests.flatten ++ (ends ++ left) ∧ requests.length = buffer.length ∧
        (∀ request ∈ requests, IsRequest request) ∧
        Polled clearOf false ATA_TIMEOUT_LOOPS ends true ∧
        e = ((sendAll (requests.zip buffer) d).toldAll ends).withScript left := by
  induction buffer generalizing d with
  | nil =>
    unfold ataWriteSectorsLoop
    rw [Program.bind_returns]
    constructor
    · rintro ⟨clear, t, first, second⟩
      obtain ⟨ends, left, script, polled, rfl⟩ := ataWaitClear_returns.mp first
      cases clear with
      | false => cases second
      | true =>
        cases second
        exact ⟨[], ends, left, script, rfl, nofun, polled, rfl⟩
    · rintro ⟨requests, ends, left, script, length, -, polled, rfl⟩
      cases List.length_eq_zero_iff.mp length
      exact ⟨true, _, ataWaitClear_returns.mpr ⟨ends, left, script, polled, rfl⟩, rfl⟩
  | cons sector rest inductionHypothesis =>
    unfold ataWriteSectorsLoop
    rw [Program.bind_returns]
    have even : sector.val.length % 2 = 0 := by rw [sector.property]
    constructor
    · rintro ⟨ready, t, first, second⟩
      by_cases works : ready = .ATA_OK
      · cases works
        obtain ⟨request, left, script, isRequest, rfl⟩ := ataWaitDrq_returns.mp first
        rw [if_neg (not_not_intro rfl),
          Program.bind_of_returns (writeWords_wordsOf sector.val even _), inductionHypothesis] at second
        obtain ⟨requests, ends, left', script', length, all, polled, rfl⟩ := second
        rw [takeAll_withScript] at script' ⊢
        have own : left = requests.flatten ++ (ends ++ left') := script'
        refine ⟨request :: requests, ends, left', ?_, ?_, ?_, polled, ?_⟩
        · rw [script, own, List.flatten_cons, List.append_assoc]
        · rw [List.length_cons, length, List.length_cons]
        · intro other among
          rcases List.mem_cons.mp among with rfl | among
          · exact isRequest
          · exact all other among
        · rw [sendAll_withScript, toldAll_withScript]
          rfl
      · rw [if_pos works] at second
        cases second
        exact absurd rfl works
    · rintro ⟨requests, ends, left, script, length, all, polled, rfl⟩
      cases requests with
      | nil => exact absurd length nofun
      | cons request requests =>
        rw [List.flatten_cons, List.append_assoc] at script
        refine ⟨.ATA_OK, _, ataWaitDrq_returns.mpr
          ⟨request, _, script, all request List.mem_cons_self, rfl⟩, ?_⟩
        rw [if_neg (not_not_intro rfl), Program.bind_of_returns (writeWords_wordsOf sector.val even _),
          inductionHypothesis, takeAll_withScript]
        refine ⟨requests, ends, left, rfl, Nat.succ.inj length,
          fun other among => all other (List.mem_cons_of_mem _ among), polled, ?_⟩
        rw [sendAll_withScript, toldAll_withScript]
        rfl

/-! ## A device in time and a device behind -/

namespace Device

def next (sector : Sector) (d : Device) : Device :=
  { d with
    saved := (d.order.lba, sector) :: d.saved
    order := { d.order with lba := d.order.lba + 1, sectors := d.order.sectors - 1 } }

theorem told_between (write : d.order.operation = .write) (more : d.order.sectors ≠ 1)
    (status : Byte) :
    (d.withPhase (.complete sector)).told status =
      if tellsError status then d.withPhase .failed
      else if asksData status then (d.next sector).withPhase (.moving [])
      else d.withPhase (.complete sector) := by
  obtain ⟨present, taskFile, phase, ⟨operation, lba, sectors⟩, orders, saved, medium, identity,
    script⟩ := d
  cases write
  have more' : ¬ sectors = 1 := more
  unfold told tellsError asksData
  cases busy status with
  | true => rfl
  | false =>
    cases error status with
    | true =>
      simp only [withPhase, more', if_false]
      rfl
    | false =>
      cases dataReady status with
      | true =>
        simp only [withPhase, more', if_false]
        rfl
      | false =>
        simp only [withPhase, more', if_false]
        rfl

theorem toldAll_between {statuses : List Byte} (write : d.order.operation = .write)
    (more : d.order.sectors ≠ 1) (silent : statuses.any tellsError = false)
    (asks : statuses.any asksData = true) :
    (d.withPhase (.complete sector)).toldAll statuses = (d.next sector).withPhase (.moving []) := by
  induction statuses with
  | nil => exact absurd asks Bool.false_ne_true
  | cons status rest inductionHypothesis =>
    rw [List.any_cons, Bool.or_eq_false_iff] at silent
    rw [toldAll_cons, told_between write more, silent.1, if_neg Bool.false_ne_true]
    cases now : asksData status with
    | true =>
      rw [if_pos rfl, toldAll_moving, silent.2, if_neg Bool.false_ne_true]
    | false =>
      rw [List.any_cons, now, Bool.false_or] at asks
      exact inductionHypothesis silent.2 asks

/-- With `left` sectors to come the device has more of them to ask for, or has given up. -/
structure Behind (left : Nat) (d : Device) : Prop where
  write : d.order.operation = .write
  phase : d.phase = .failed ∨ (d.phase = .asked ∧ left < d.order.sectors) ∨
    (d.phase = .moving [] ∧ left < d.order.sectors) ∨
    ∃ sector, d.phase = .complete sector ∧ left + 1 < d.order.sectors

theorem Behind.told {left : Nat} (behind : Behind left d) (status : Byte) :
    Behind left (d.told status) := by
  obtain ⟨write, phase | ⟨phase, less⟩ | ⟨phase, less⟩ | ⟨sector, phase, less⟩⟩ := behind
  · rw [← withPhase_self phase, told_failed]
    exact ⟨write, .inl rfl⟩
  · rw [← withPhase_self phase, told_asked]
    refine ⟨write, ?_⟩
    cases tellsError status with
    | true => exact .inl rfl
    | false =>
      cases asksData status with
      | true => exact .inr (.inr (.inl ⟨rfl, less⟩))
      | false => exact .inr (.inl ⟨rfl, less⟩)
  · rw [← withPhase_self phase, told_moving]
    refine ⟨write, ?_⟩
    cases tellsError status with
    | true => exact .inl rfl
    | false => exact .inr (.inr (.inl ⟨rfl, less⟩))
  · rw [← withPhase_self phase, told_between write (by omega)]
    cases tellsError status with
    | true => exact ⟨write, .inl rfl⟩
    | false =>
      cases asksData status with
      | true => exact ⟨write, .inr (.inr (.inl ⟨rfl, Nat.lt_sub_of_add_lt less⟩))⟩
      | false => exact ⟨write, .inr (.inr (.inr ⟨sector, rfl, less⟩))⟩

theorem Behind.toldAll {left : Nat} (behind : Behind left d) (statuses : List Byte) :
    Behind left (d.toldAll statuses) := by
  induction statuses generalizing d with
  | nil => exact behind
  | cons status rest inductionHypothesis => exact inductionHypothesis (behind.told status)

theorem takeAll_lost {bytes : List Byte} (lost : ∀ byte, d.take byte = d) :
    d.takeAll (unwatched bytes) = d := by
  induction bytes with
  | nil => rfl
  | cons byte rest inductionHypothesis =>
    show ((d.toldAll []).take byte).takeAll (unwatched rest) = d
    rw [toldAll_nil, lost]
    exact inductionHypothesis

theorem take_complete {byte : Byte} :
    (d.withPhase (.complete sector)).take byte = d.withPhase (.complete sector) := rfl

theorem takeAll_unwatched (write : d.order.operation = .write) :
    (d.withPhase (.moving [])).takeAll (unwatched sector.val) = d.withPhase (.complete sector) := by
  have sent : writeWords devicePort (wordsOf sector.val) (d.withPhase (.moving [])) =
      (some (), d.withPhase (.complete sector)) := writeWords_sector write
  rw [writeWords_wordsOf sector.val (by rw [sector.property])] at sent
  exact (Prod.mk.inj sent).2

theorem Behind.sent {left : Nat} (behind : Behind (left + 1) d) (sector : Sector) :
    Behind left (d.takeAll (unwatched sector.val)) := by
  obtain ⟨write, phase | ⟨phase, less⟩ | ⟨phase, less⟩ | ⟨other, phase, less⟩⟩ := behind
  · rw [← withPhase_self phase, takeAll_lost fun _ => take_failed]
    exact ⟨write, .inl rfl⟩
  · rw [← withPhase_self phase, takeAll_lost fun _ => take_asked]
    exact ⟨write, .inr (.inl ⟨rfl, Nat.lt_of_succ_lt less⟩)⟩
  · rw [← withPhase_self phase, takeAll_unwatched write]
    exact ⟨write, .inr (.inr (.inr ⟨sector, rfl, less⟩))⟩
  · rw [← withPhase_self phase, takeAll_lost fun _ => take_complete]
    exact ⟨write, .inr (.inr (.inr ⟨other, rfl, Nat.lt_of_succ_lt less⟩))⟩

/-- With `left` sectors to come the device waits for the next of them. -/
structure InTime (left : Nat) (d : Device) : Prop where
  write : d.order.operation = .write
  phase : (d.phase = .asked ∧ d.order.sectors = left) ∨
    ∃ sector, d.phase = .complete sector ∧ d.order.sectors = left + 1

/-- Whether the statuses before a sector make the device ask for it. -/
def Asks (statuses : List Byte) : Prop :=
  statuses.any tellsError = false ∧ statuses.any asksData = true

theorem toldAll_silent (write : d.order.operation = .write) (more : d.order.sectors ≠ 1)
    {statuses : List Byte} (quiet : statuses.any asksData = false) :
    (d.withPhase (.complete sector)).toldAll statuses =
      d.withPhase (if statuses.any tellsError then .failed else .complete sector) := by
  induction statuses with
  | nil => rfl
  | cons status rest inductionHypothesis =>
    rw [List.any_cons, Bool.or_eq_false_iff] at quiet
    rw [toldAll_cons, told_between write more, quiet.1, List.any_cons]
    cases tellsError status with
    | true => exact toldAll_failed
    | false => exact inductionHypothesis quiet.2

theorem toldAll_broken (sector : Sector) (write : d.order.operation = .write) (more : d.order.sectors ≠ 1)
    {statuses : List Byte} (tells : statuses.any tellsError = true) :
    ((d.withPhase (.complete sector)).toldAll statuses).phase = .failed ∧
      ((d.withPhase (.complete sector)).toldAll statuses).order.operation = .write := by
  induction statuses with
  | nil => exact absurd tells Bool.false_ne_true
  | cons status rest inductionHypothesis =>
    rw [List.any_cons] at tells
    rw [toldAll_cons, told_between write more]
    cases now : tellsError status with
    | true =>
      rw [if_pos rfl, toldAll_failed]
      exact ⟨rfl, write⟩
    | false =>
      rw [now, Bool.false_or] at tells
      cases asksData status with
      | true =>
        rw [if_neg Bool.false_ne_true, if_pos rfl, toldAll_moving, tells]
        exact ⟨rfl, write⟩
      | false =>
        rw [if_neg Bool.false_ne_true, if_neg Bool.false_ne_true]
        exact inductionHypothesis tells

theorem InTime.misses {left : Nat} (inTime : InTime (left + 1) d) {statuses : List Byte}
    (misses : ¬ Asks statuses) (sector : Sector) :
    Behind left ((d.toldAll statuses).takeAll (unwatched sector.val)) := by
  obtain ⟨write, ⟨phase, count⟩ | ⟨other, phase, count⟩⟩ := inTime
  · rw [← withPhase_self phase, toldAll_asked]
    cases tells : statuses.any tellsError with
    | true =>
      rw [if_pos rfl, takeAll_lost fun _ => take_failed]
      exact ⟨write, .inl rfl⟩
    | false =>
      cases asks : statuses.any asksData with
      | true => exact absurd ⟨tells, asks⟩ misses
      | false =>
        rw [if_neg Bool.false_ne_true, if_neg Bool.false_ne_true, takeAll_lost fun _ => take_asked]
        exact ⟨write, .inr (.inl ⟨rfl, by show left < d.order.sectors; omega⟩)⟩
  · have more : d.order.sectors ≠ 1 := by omega
    cases tells : statuses.any tellsError with
    | true =>
      obtain ⟨failed, write'⟩ := toldAll_broken other write more tells
      rw [withPhase_self phase] at failed write'
      rw [← withPhase_self failed, takeAll_lost fun _ => take_failed]
      exact ⟨write', .inl rfl⟩
    | false =>
      cases asks : statuses.any asksData with
      | true => exact absurd ⟨tells, asks⟩ misses
      | false =>
        rw [← withPhase_self phase, toldAll_silent write more asks, tells,
          if_neg Bool.false_ne_true, takeAll_lost fun _ => take_complete]
        exact ⟨write, .inr (.inr (.inr ⟨other, rfl, by show left + 1 < d.order.sectors; omega⟩))⟩

theorem InTime.asks {left : Nat} (inTime : InTime (left + 1) d) {statuses : List Byte}
    (asks : Asks statuses) (sector : Sector) :
    InTime left ((d.toldAll statuses).takeAll (unwatched sector.val)) := by
  obtain ⟨write, ⟨phase, count⟩ | ⟨other, phase, count⟩⟩ := inTime
  · rw [← withPhase_self phase, toldAll_asked, asks.1, asks.2, if_neg Bool.false_ne_true, if_pos rfl,
      takeAll_unwatched write]
    exact ⟨write, .inr ⟨sector, rfl, count⟩⟩
  · rw [← withPhase_self phase, toldAll_between write (by omega) asks.1 asks.2,
      takeAll_unwatched (d := d.next other) write]
    refine ⟨write, .inr ⟨sector, rfl, ?_⟩⟩
    show d.order.sectors - 1 = left + 1
    omega

theorem behind_sendAll (shown : List (List Byte × Sector)) {left : Nat}
    (behind : Behind (left + shown.length) d) : Behind left (sendAll shown d) := by
  induction shown generalizing d with
  | nil => exact behind
  | cons next rest inductionHypothesis =>
    have later : Behind (left + rest.length + 1) d := behind
    exact inductionHypothesis ((later.toldAll next.1).sent next.2)

theorem InTime.sendAll_misses {shown : List (List Byte × Sector)} (inTime : InTime shown.length d)
    (misses : ¬ ∀ next ∈ shown, Asks next.1) : Behind 0 (sendAll shown d) := by
  induction shown generalizing d with
  | nil => exact absurd (fun next among => absurd among List.not_mem_nil) misses
  | cons next rest inductionHypothesis =>
    have more : InTime (rest.length + 1) d := inTime
    rw [sendAll_cons]
    by_cases asks : Asks next.1
    · refine inductionHypothesis (more.asks asks next.2) fun others => misses ?_
      intro other among
      rcases List.mem_cons.mp among with rfl | among
      · exact asks
      · exact others other among
    · have behind := more.misses asks next.2
      exact behind_sendAll rest (by rwa [Nat.zero_add])

end Device

/-! ## The sectors that the device holds -/

/-- Sectors at consecutive addresses. -/
def entriesFrom (lba : Lba) : List Sector → List (Lba × Sector)
  | [] => []
  | sector :: rest => (lba, sector) :: entriesFrom (lba + 1) rest

theorem sendAll_complete {shown : List (List Byte × Sector)} (sector : Sector) (write : d.order.operation = .write)
    (count : d.order.sectors = shown.length + 1) (asks : ∀ next ∈ shown, Asks next.1) :
    ∃ (base : Device) (last : Sector),
      sendAll shown (d.withPhase (.complete sector)) = base.withPhase (.complete last) ∧
      base.order.operation = .write ∧ base.order.sectors = 1 ∧
      (base.order.lba, last) :: base.saved =
        (entriesFrom d.order.lba (sector :: shown.map Prod.snd)).reverse ++ d.saved := by
  induction shown generalizing d sector with
  | nil => exact ⟨d, sector, rfl, write, count, rfl⟩
  | cons next rest inductionHypothesis =>
    have first := asks next List.mem_cons_self
    rw [List.length_cons] at count
    rw [sendAll_cons, toldAll_between write (by omega) first.1 first.2,
      takeAll_unwatched (d := d.next sector) write]
    obtain ⟨base, last, same, write', one, saved⟩ :=
      inductionHypothesis (d := d.next sector) next.2 write (by show d.order.sectors - 1 = _; omega)
        (fun other among => asks other (List.mem_cons_of_mem _ among))
    refine ⟨base, last, same, write', one, ?_⟩
    rw [saved, List.map_cons]
    show (entriesFrom (d.order.lba + 1) (next.2 :: rest.map Prod.snd)).reverse ++
      (d.order.lba, sector) :: d.saved = _
    show _ = ((d.order.lba, sector) :: entriesFrom (d.order.lba + 1) (next.2 :: rest.map Prod.snd)).reverse
      ++ d.saved
    rw [List.reverse_cons, List.append_assoc]
    rfl

/-- The status with which the busy bit falls after the last sector ends it without an error. -/
def EndsClean (ends : List Byte) : Prop :=
  ∀ ended ∈ ends.getLast?, dataReady ended = false ∧ error ended = false

theorem polled_clear (polled : Polled clearOf false rounds read true) :
    ∃ skipped ended, read = skipped ++ [ended] ∧ (∀ status ∈ skipped, busy status = true) ∧
      busy ended = false := by
  rcases polled with ⟨-, -, impossible⟩ | ⟨skipped, last, rfl, -, others, found⟩
  · exact absurd impossible nofun
  · refine ⟨skipped, last, rfl, fun status among => ?_, ?_⟩
    · have goesOn := others status among
      unfold clearOf at goesOn
      by_contra clear
      rw [if_neg clear] at goesOn
      exact absurd goesOn nofun
    · unfold clearOf at found
      cases still : busy last with
      | true =>
        rw [still] at found
        exact absurd found nofun
      | false => rfl

theorem told_ends {ends : List Byte} (sector : Sector) (write : d.order.operation = .write)
    (one : d.order.sectors = 1) (polled : Polled clearOf false rounds ends true) :
    (EndsClean ends → (d.withPhase (.complete sector)).toldAll ends =
        (d.withSaved ((d.order.lba, sector) :: d.saved)).withPhase .accepted) ∧
      (¬ EndsClean ends → ((d.withPhase (.complete sector)).toldAll ends).phase ≠ .accepted) := by
  obtain ⟨skipped, ended, rfl, still, clear⟩ := polled_clear polled
  have clean : EndsClean (skipped ++ [ended]) ↔ dataReady ended = false ∧ error ended = false := by
    unfold EndsClean
    rw [List.getLast?_append]
    exact ⟨fun all => all ended rfl, fun both other same => by cases same; exact both⟩
  rw [clean, toldAll_append, toldAll_busy still, toldAll_cons, toldAll_nil,
    told_complete write one, clear, Bool.false_or]
  cases ready : dataReady ended with
  | true => exact ⟨fun both => absurd both.1 nofun, fun _ => nofun⟩
  | false =>
    cases broken : error ended with
    | true => exact ⟨fun both => absurd both.2 nofun, fun _ => nofun⟩
    | false => exact ⟨fun _ => rfl, fun fails => absurd ⟨rfl, rfl⟩ fails⟩

theorem behind_ne_accepted {left : Nat} (behind : Behind left d) : d.phase ≠ .accepted := by
  rcases behind.phase with phase | ⟨phase, -⟩ | ⟨phase, -⟩ | ⟨sector, phase, -⟩
  · rw [phase]
    exact nofun
  · rw [phase]
    exact nofun
  · rw [phase]
    exact nofun
  · rw [phase]
    exact nofun

def Holds (lba : Lba) (buffer : List Sector) (e : Device) : Prop :=
  e.phase = .accepted ∧ (entriesFrom lba buffer).reverse <+: e.saved

theorem sendAll_holds {requests : List (List Byte)} {buffer : List Sector} {ends : List Byte}
    (write : d.order.operation = .write) (count : d.order.sectors = buffer.length)
    (some : buffer ≠ []) (length : requests.length = buffer.length)
    (polled : Polled clearOf false rounds ends true) :
    Holds d.order.lba buffer ((sendAll (requests.zip buffer) (d.withPhase .asked)).toldAll ends) ↔
      (∀ request ∈ requests, Asks request) ∧ EndsClean ends := by
  have firsts : (requests.zip buffer).map Prod.fst = requests :=
    List.map_fst_zip (Nat.le_of_eq length)
  have seconds : (requests.zip buffer).map Prod.snd = buffer :=
    List.map_snd_zip (Nat.le_of_eq length.symm)
  have all : (∀ next ∈ requests.zip buffer, Asks next.1) ↔ ∀ request ∈ requests, Asks request := by
    constructor
    · intro asks request among
      rw [← firsts] at among
      obtain ⟨next, inside, rfl⟩ := List.mem_map.mp among
      exact asks next inside
    · intro asks next among
      exact asks next.1 (List.of_mem_zip among).1
  have zipped : (requests.zip buffer).length = buffer.length := by
    rw [List.length_zip, length, Nat.min_self]
  rw [← all]
  by_cases asks : ∀ next ∈ requests.zip buffer, Asks next.1
  · cases shown : requests.zip buffer with
    | nil =>
      rw [shown] at zipped
      exact absurd (List.length_eq_zero_iff.mp zipped.symm) some
    | cons first rest =>
      rw [shown] at asks zipped seconds
      have now := asks first List.mem_cons_self
      rw [sendAll_cons, toldAll_asked, now.1, now.2, if_neg Bool.false_ne_true, if_pos rfl,
        takeAll_unwatched write]
      rw [List.length_cons] at zipped
      obtain ⟨base, last, same, write', one, saved⟩ :=
        sendAll_complete (d := d) first.2 write (by omega)
          (fun next among => asks next (List.mem_cons_of_mem _ among))
      rw [List.map_cons] at seconds
      rw [seconds] at saved
      rw [same]
      have outcome := told_ends last write' one polled
      constructor
      · intro holds
        refine ⟨asks, ?_⟩
        by_contra unclean
        exact outcome.2 unclean holds.1
      · rintro ⟨-, clean⟩
        rw [outcome.1 clean]
        refine ⟨rfl, d.saved, ?_⟩
        exact saved.symm
  · have inTime : InTime (requests.zip buffer).length (d.withPhase .asked) :=
      ⟨write, .inl ⟨rfl, by rw [zipped]; exact count⟩⟩
    have behind := (inTime.sendAll_misses asks).toldAll ends
    exact ⟨fun holds => absurd holds.1 (behind_ne_accepted behind), fun both => absurd both.1 asks⟩

/-! ## The whole function -/

/-- What the device shows while sectors are written with one command. -/
structure WriteShown where
  /-- Before the command. -/
  before : List Byte
  /-- Before each sector. -/
  requests : List (List Byte)
  /-- After the last sector. -/
  ends : List Byte

namespace WriteShown

def script (t : WriteShown) : List Byte := t.before ++ (t.requests.flatten ++ t.ends)

/-- The statuses let the driver send so many sectors and return `ATA_OK`. -/
structure Sends (t : WriteShown) (sectors : Nat) : Prop where
  before : ∃ delay clear, t.before = delay ++ clear ∧ delay.length = 4 ∧
    Polled clearOf false ATA_TIMEOUT_LOOPS clear true
  count : t.requests.length = sectors
  requests : ∀ request ∈ t.requests, IsRequest request
  ends : Polled clearOf false ATA_TIMEOUT_LOOPS t.ends true

/-- The device asks for every sector, tells of no error and ends the last one. -/
structure Good (t : WriteShown) : Prop where
  asks : ∀ request ∈ t.requests, Asks request
  ends : EndsClean t.ends

end WriteShown

theorem ata400nsDelay_returns :
    ata400nsDelay d = (some (), e) ↔
      ∃ delay left, d.script = delay ++ left ∧ delay.length = 4 ∧
        e = (d.toldAll delay).withScript left := by
  constructor
  · intro returns
    obtain ⟨first, t, run, returns⟩ := Program.bind_returns.mp returns
    obtain ⟨left₁, script₁, rfl⟩ := readStatus_returns.mp run
    obtain ⟨second, t, run, returns⟩ := Program.bind_returns.mp returns
    obtain ⟨left₂, script₂, rfl⟩ := readStatus_returns.mp run
    obtain ⟨third, t, run, returns⟩ := Program.bind_returns.mp returns
    obtain ⟨left₃, script₃, rfl⟩ := readStatus_returns.mp run
    obtain ⟨fourth, t, run, returns⟩ := Program.bind_returns.mp returns
    obtain ⟨left₄, script₄, rfl⟩ := readStatus_returns.mp run
    cases returns
    have own₁ : left₁ = second :: left₂ := script₂
    have own₂ : left₂ = third :: left₃ := script₃
    have own₃ : left₃ = fourth :: left₄ := script₄
    refine ⟨[first, second, third, fourth], left₄, ?_, rfl, ?_⟩
    · rw [script₁, own₁, own₂, own₃]
      rfl
    · simp only [told_withScript, withScript_withScript, toldAll_cons, toldAll_nil]
  · rintro ⟨delay, left, script, length, rfl⟩
    match delay, length with
    | [first, second, third, fourth], _ =>
      refine Program.bind_returns.mpr ⟨first, _, readStatus_returns.mpr ⟨_, script, rfl⟩, ?_⟩
      refine Program.bind_returns.mpr ⟨second, _, readStatus_returns.mpr ⟨_, rfl, rfl⟩, ?_⟩
      refine Program.bind_returns.mpr ⟨third, _, readStatus_returns.mpr ⟨_, rfl, rfl⟩, ?_⟩
      refine Program.bind_returns.mpr ⟨fourth, _, readStatus_returns.mpr ⟨left, rfl, rfl⟩, ?_⟩
      simp only [told_withScript, withScript_withScript, toldAll_cons, toldAll_nil]
      rfl

namespace Device

theorem toldAll_taskFile (statuses : List Byte) : (d.toldAll statuses).taskFile = d.taskFile := by
  induction statuses generalizing d with
  | nil => rfl
  | cons status rest inductionHypothesis =>
    rw [toldAll_cons, inductionHypothesis]
    exact (told_frame status).taskFile

end Device

variable {drive : Byte} {buffer : List Sector}

theorem selectedHead_low (lba : BitVec 32) (drive : Byte) :
    (driveHead lba ||| ((drive &&& 1) <<< 4)).truncate 4 = (driveHead lba).truncate 4 := by
  apply BitVec.eq_of_getLsbD_eq
  intro i inside
  simp [inside]

theorem sectors_ofNat {count : Nat} (some : count ≠ 0) (less : count < 256) (t : TaskFile) :
    TaskFile.sectors { t with sectorCount := BitVec.ofNat 8 count } = count := by
  have nonzero : BitVec.ofNat 8 count ≠ 0 := by
    intro zero
    have same := congrArg BitVec.toNat zero
    rw [BitVec.toNat_ofNat, Nat.mod_eq_of_lt less] at same
    exact some same
  have value : (BitVec.ofNat 8 count).toNat = count := by
    rw [BitVec.toNat_ofNat, Nat.mod_eq_of_lt less]
  unfold TaskFile.sectors
  show (if BitVec.ofNat 8 count = 0 then 256 else (BitVec.ofNat 8 count).toNat) = count
  rw [if_neg nonzero, value]

def selectedHead (drive : Byte) (lba : BitVec 32) : Byte := driveHead lba ||| ((drive &&& 1) <<< 4)

namespace Device

/-- The registers of the command but for the head. -/
def withSectors (lba : BitVec 32) (sectors : Nat) (d : Device) : Device :=
  { d with
    taskFile :=
      { d.taskFile with
        sectorCount := BitVec.ofNat 8 sectors
        sectorNum := lba.extractLsb' 0 8
        cylLow := lba.extractLsb' 8 8
        cylHigh := lba.extractLsb' 16 8 } }

/-- A device that was given the command for several sectors, after the statuses before it. -/
def commanded (drive : Byte) (lba : BitVec 32) (sectors : Nat) (before : List Byte) (d : Device) :
    Device :=
  (((d.withHead (selectedHead drive lba)).toldAll before).withSectors lba sectors).ordered
    ⟨.write, lbaOf lba, sectors⟩

theorem begin_sectors {count : Nat} (some : count ≠ 0) (less : count < 256)
    (head : d.taskFile.driveHead = selectedHead drive lba) :
    (d.withSectors lba count).begin ATA_CMD_WRITE_SECTORS =
      ((d.withSectors lba count).ordered ⟨.write, lbaOf lba, count⟩).withPhase .asked := by
  have address : (d.withSectors lba count).taskFile.lba = lbaOf lba := by
    show d.taskFile.driveHead.truncate 4 ++ lba.extractLsb' 16 8 ++ lba.extractLsb' 8 8 ++
      lba.extractLsb' 0 8 = _
    rw [head]
    unfold selectedHead
    rw [selectedHead_low]
    exact lba_registers lba
  have number : (d.withSectors lba count).taskFile.sectors = count :=
    sectors_ofNat some less
      { d.taskFile with
        sectorNum := lba.extractLsb' 0 8
        cylLow := lba.extractLsb' 8 8
        cylHigh := lba.extractLsb' 16 8 }
  show ((d.withSectors lba count).ordered ⟨.write, (d.withSectors lba count).taskFile.lba,
    (d.withSectors lba count).taskFile.sectors⟩).withPhase .asked = _
  rw [address, number]

end Device

theorem ataSelectDrive_returns :
    ataSelectDrive drive lba d = (some (), e) ↔
      ∃ delay left, d.script = delay ++ left ∧ delay.length = 4 ∧
        e = ((d.withHead (selectedHead drive lba)).toldAll delay).withScript left :=
  ata400nsDelay_returns (d := d.withHead (selectedHead drive lba))

theorem writeSectors_command (drive : Byte) (lba : BitVec 32) (d : Device) {count : Nat}
    (some : count ≠ 0) (less : count < 256) (before left : List Byte) :
    (((((d.withHead (selectedHead drive lba)).toldAll before).withScript left).withSectors lba
      count).begin ATA_CMD_WRITE_SECTORS) =
        (((commanded drive lba count before d).withPhase .asked).withScript left) := by
  rw [begin_sectors some less]
  · rfl
  · show ((d.withHead (selectedHead drive lba)).toldAll before).taskFile.driveHead = _
    rw [toldAll_taskFile]
    rfl

theorem ataWriteSectors_ok (less : buffer.length < 256) :
    ataWriteSectors drive lba buffer d = (some .ATA_OK, e) ↔
      ¬ (buffer.length = 0 ∨ 0x0FFFFFFF < lba.toNat) ∧ ∃ delay clear left,
        d.script = delay ++ (clear ++ left) ∧ delay.length = 4 ∧
        Polled clearOf false ATA_TIMEOUT_LOOPS clear true ∧
        ataWriteSectorsLoop buffer
          (((commanded drive lba buffer.length (delay ++ clear) d).withPhase .asked).withScript left) =
            (some .ATA_OK, e) := by
  unfold ataWriteSectors
  by_cases bad : buffer.length = 0 ∨ 0x0FFFFFFF < lba.toNat
  · rw [if_pos bad]
    exact ⟨fun returns => (nomatch returns), fun both => absurd bad both.1⟩
  · rw [if_neg bad]
    have some : buffer.length ≠ 0 := fun none => bad (.inl none)
    constructor
    · intro returns
      refine ⟨bad, ?_⟩
      obtain ⟨_, t, first, returns⟩ := Program.bind_returns.mp returns
      obtain ⟨delay, left, script, length, rfl⟩ := ataSelectDrive_returns.mp first
      obtain ⟨clear, t, second, returns⟩ := Program.bind_returns.mp returns
      obtain ⟨read, left', script', polled, rfl⟩ := ataWaitClear_returns.mp second
      cases clear with
      | false => cases returns
      | true =>
        have own : left = read ++ left' := script'
        rw [toldAll_withScript, withScript_withScript, ← toldAll_append] at returns
        refine ⟨delay, read, left', ?_, length, polled, ?_⟩
        · rw [script, own]
        · have same := writeSectors_command drive lba d some less (delay ++ read) left'
          exact (congrArg (ataWriteSectorsLoop buffer) same).symm.trans returns
    · rintro ⟨-, delay, clear, left, script, length, polled, returns⟩
      refine Program.bind_returns.mpr
        ⟨(), _, ataSelectDrive_returns.mpr ⟨delay, clear ++ left, script, length, rfl⟩, ?_⟩
      refine Program.bind_returns.mpr
        ⟨true, _, ataWaitClear_returns.mpr ⟨clear, left, rfl, polled, rfl⟩, ?_⟩
      rw [toldAll_withScript, withScript_withScript, ← toldAll_append]
      have same := writeSectors_command drive lba d some less (delay ++ clear) left
      exact (congrArg (ataWriteSectorsLoop buffer) same).trans returns

/-- The sectors that `ata_write_sectors` reports as written are held by the device exactly when
the statuses that it does not look at are good. -/
theorem ataWriteSectors_holds (less : buffer.length < 256) :
    (∀ e, ataWriteSectors drive lba buffer d = (some .ATA_OK, e) → Holds (lbaOf lba) buffer e) ↔
      (buffer ≠ [] → lba.toNat ≤ 0x0FFFFFFF → ∀ (t : WriteShown) (left : List Byte),
        d.script = t.script ++ left → t.Sends buffer.length → t.Good) := by
  constructor
  · rintro holds some small ⟨before, requests, ends⟩ left script sends
    obtain ⟨⟨delay, clear, rfl, length, polled⟩, count, all, ended⟩ := sends
    have good : ¬ (buffer.length = 0 ∨ 0x0FFFFFFF < lba.toNat) := by
      rintro (none | large)
      · exact some (List.length_eq_zero_iff.mp none)
      · omega
    unfold WriteShown.script at script
    simp only [List.append_assoc] at script
    have done := holds _ ((ataWriteSectors_ok less).mpr
      ⟨good, delay, clear, _, script, length, polled,
        ataWriteSectorsLoop_returns.mpr ⟨requests, ends, left, rfl, count, all, ended, rfl⟩⟩)
    rw [sendAll_withScript, toldAll_withScript] at done
    obtain ⟨asks, clean⟩ := (sendAll_holds (d := commanded drive lba buffer.length (delay ++ clear) d)
      rfl rfl some count ended).mp done
    exact ⟨asks, clean⟩
  · intro good e returns
    obtain ⟨allowed, delay, clear, left, script, length, polled, returns⟩ :=
      (ataWriteSectors_ok less).mp returns
    obtain ⟨requests, ends, left', script', count, all, ended, rfl⟩ :=
      ataWriteSectorsLoop_returns.mp returns
    have some : buffer ≠ [] := by
      rintro rfl
      exact allowed (.inl rfl)
    have small : lba.toNat ≤ 0x0FFFFFFF := by
      by_contra large
      exact allowed (.inr (by omega))
    have own : left = requests.flatten ++ (ends ++ left') := script'
    have shown : WriteShown.Good ⟨delay ++ clear, requests, ends⟩ := by
      refine good some small ⟨delay ++ clear, requests, ends⟩ left' ?_ ?_
      · rw [script, own]
        unfold WriteShown.script
        simp only [List.append_assoc]
      · exact ⟨⟨delay, clear, rfl, length, polled⟩, count, all, ended⟩
    rw [sendAll_withScript, toldAll_withScript]
    exact (sendAll_holds (d := commanded drive lba buffer.length (delay ++ clear) d) rfl rfl some count
      ended).mpr ⟨shown.asks, shown.ends⟩

end OrionBios.Disks
