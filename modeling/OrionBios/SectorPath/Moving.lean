import OrionBios.SectorPath.Asking

/-!
# The driver waits and moves a sector

While the command is served the 68k reads the status or moves words, and the disk takes turns in
between. A status that shows neither BSY nor DRQ nor ERR is that of a command that is done.
-/

namespace OrionBios.SectorPath

open Machine (Stable Establishes await establishes_await establishes_pure establishes_true
  establishes_ite)
open PicoIde Transition

variable {r : Request} {host : Host} {b c : Board} {turn : DiskTurn}

/-! ## While the command is served -/

/-- The 68k polls the status or moves words. -/
structure Request.Serves (r : Request) (host : Host) (b : Board) : Prop where
  serving : Serving r.order r.inserted.card r.writes r.data (b.session host)
  placed : Placed r.writes r.order r.sd (b.at host)

def Request.moved (r : Request) (b : Board) : List Word :=
  if r.writes then b.ledger.given else b.ledger.taken

theorem moved_length (r : Request) (b : Board) :
    (r.moved b).length = movedWords r.writes b.ledger := by
  unfold Request.moved movedWords
  split <;> rfl

theorem moved_congr (taken : c.ledger.taken = b.ledger.taken)
    (given : c.ledger.given = b.ledger.given) : r.moved c = r.moved b := by
  unfold Request.moved
  rw [taken, given]

theorem Request.Serves.rehost {host' : Host} (serves : r.Serves host b)
    (stands : host' = .poll ∨ ∃ left, host' = .move (left + 1) ∧ b.access = none)
    (aligned : ∃ sectors, movedWords r.writes b.ledger + host'.left = 256 * sectors) :
    r.Serves host' b where
  serving :=
    { serves.serving with
      host := stands
      aligned := aligned }
  placed := serves.placed.congr ⟨rfl, rfl⟩ rfl rfl

theorem Request.Serves.access_ne_write (serves : r.Serves host b) (raw : Raw) :
    b.access ≠ some (.write raw) := by
  have access : b.access = none ∨ b.access = some (.read statusRaw) := serves.serving.access
  rcases access with free | reads
  · rw [free]
    exact (Option.some_ne_none _).symm
  · rw [reads]
    exact fun same => Access.noConfusion (Option.some.inj same)

theorem Request.Serves.reads {raw : Raw} (serves : r.Serves host b)
    (waiting : b.access = some (.read raw)) : raw = statusRaw ∧ host = .poll := by
  have access : b.access = none ∨ b.access = some (.read statusRaw) := serves.serving.access
  have stands : host = .poll ∨ ∃ left, host = .move (left + 1) ∧ b.access = none :=
    serves.serving.host
  rw [waiting] at access stands
  constructor
  · rcases access with none | reads
    · cases none
    · cases reads
      rfl
  · refine stands.resolve_right ?_
    rintro ⟨_, _, none⟩
    cases none

theorem Request.Serves.step {t : OnCard} {turn : CardTurn} (sound : r.Sound)
    (serves : r.Serves host b) (lawful : LawfulTurn (b.at host) turn)
    (taken : cardStep r.writes r.data (b.at host) turn = some t) :
    Serving r.order r.inserted.card r.writes r.data t.session ∧ Placed r.writes r.order r.sd t := by
  have underway : Underway r.inserted r.taskfile r.command r.writes r.data (b.session host) :=
    .inr serves.serving
  obtain ⟨stepped, placed⟩ := serves.placed.step underway sound.ends lawful taken
  exact ⟨serves.serving.step stepped, placed⟩

theorem Request.Serves.others (sound : r.Sound) (serves : r.Serves host b)
    (taken : diskStep b turn = some c) : r.Serves host c ∧ r.moved c = r.moved b := by
  obtain ⟨host', stepped, lawful, stands⟩ := cardStep_of_diskStep taken r.writes r.data host
  obtain ⟨serving, placed⟩ := serves.step sound lawful stepped
  have after : r.Serves host' c := ⟨serving, placed⟩
  have turned := stepped_of_diskStep taken
  have moved : r.moved c = r.moved b := by
    rcases turned.words with ⟨words, given⟩ | ⟨⟨raw, waiting⟩, _⟩
    · exact moved_congr words given
    · exact absurd waiting (serves.access_ne_write raw)
  refine ⟨?_, moved⟩
  rcases stands with rfl | reads
  · exact after
  · subst reads
    cases turned with
    | readIsr raw waiting =>
        obtain ⟨_, rfl⟩ := serves.reads waiting
        refine after.rehost (.inl rfl) ?_
        rw [← moved_length, moved, moved_length]
        exact serves.serving.aligned

/-! ## The command is done -/

def Finished (b : Board) : Prop := InPhase b.firmware b.ledger .done

theorem finished_core1 {s : Firmware} {l : Ledger} (done : InPhase s l .done) (ok : Bool) :
    InPhase (core1Step ok s) (recordCore1 s l ok) .done := by
  obtain ⟨fetch, flush, call, _⟩ := workOf_eq.mp done.work
  have unfetched : ¬ s.needFetch = true := by
    rw [fetch]
    exact Bool.noConfusion
  have unflushed : ¬ s.needFlush = true := by
    rw [flush]
    exact Bool.noConfusion
  rcases core1_of_none call with at1 | at1
  · simp only [core1Step, recordCore1, at1, if_neg unfetched]
    exact done.turn call rfl
  · simp only [core1Step, recordCore1, at1, if_neg unflushed]
    exact done.turn call rfl

theorem Request.Serves.finished (serves : r.Serves host b) (finished : Finished b)
    (turned : Stepped b turn c) : Finished c := by
  obtain ⟨_, _, call, _, _, ints0, ints1⟩ := workOf_eq.mp finished.work
  cases turned with
  | writeIsr raw waiting => exact absurd waiting (serves.access_ne_write raw)
  | readIsr raw waiting => exact finished.readRegister raw
  | dmaBIsr pending =>
      rw [ints0] at pending
      cases pending
  | dmaCIsr pending =>
      rw [ints1] at pending
      cases pending
  | core1 answer lawful =>
      unfold Finished
      simp only [core1OnCard_free call]
      exact finished_core1 finished _

/-- The status of a command that is done. -/
def quiet (status : Byte) : Bool :=
  !Disks.busy status && !Disks.dataReady status && !Disks.error status

theorem quiet_eq {phase : Phase} {s : Firmware} {l : Ledger} (inPhase : InPhase s l phase)
    (some : l.order.kind ≠ .none) (silent : quiet s.regStatus = true) : phase = .done := by
  refine inPhase.done_of_status some ?_
  have drq : quiet drqStatus = false := by decide
  have busy : quiet busyStatus = false := by decide
  have error : quiet errorStatus = false := by decide
  have shows := inPhase.shows
  cases phase with
  | rest => exact absurd inPhase.suits some
  | done => exact shows
  | failed k =>
      rw [show s.regStatus = errorStatus from shows, error] at silent
      cases silent
  | fetchWanted k | fetching k | flushWanted k | flushing k =>
      rw [show s.regStatus = busyStatus from shows, busy] at silent
      cases silent
  | sending k position =>
      rw [show s.regStatus = drqStatus from shows, drq] at silent
      cases silent
  | receiving k position =>
      rcases shows with shows | ⟨_, shows⟩
      · rw [shows, drq] at silent
        cases silent
      · rw [shows, busy] at silent
        cases silent

theorem readRegister_status (s : Firmware) :
    (readRegister statusRaw s).1 = (readRegister statusRaw s).2.regStatus := rfl

theorem Request.Serves.quiet (serves : r.Serves host b)
    (silent : quiet (readRegister statusRaw b.firmware).1 = true) :
    InPhase (readRegister statusRaw b.firmware).2 b.ledger .done := by
  obtain ⟨phase, inPhase⟩ := serves.serving.phase
  have after : InPhase (readRegister statusRaw b.firmware).2 b.ledger phase :=
    inPhase.readRegister statusRaw
  have order : b.ledger.order = r.order := serves.serving.order_eq
  have some : b.ledger.order.kind ≠ .none := by
    rw [order, r.order_kind]
    cases r.writes <;> exact Kind.noConfusion
  rw [readRegister_status] at silent
  cases quiet_eq after some silent
  exact after

/-! ## A read of the status -/

/-- Between two accesses of the 68k. -/
structure Request.Polling (r : Request) (words : List Word) (b : Board) : Prop where
  serves : r.Serves .poll b
  free : b.access = none
  moved : r.moved b = words

structure Request.Asked (r : Request) (words : List Word) (b : Board) : Prop where
  serves : r.Serves .poll b
  moved : r.moved b = words
  /-- What it is told is still so. -/
  told : b.access = none → SectorPath.quiet b.answer = true → Finished b

theorem Request.Polling.others {words : List Word} (sound : r.Sound) (polling : r.Polling words b)
    (taken : diskStep b turn = some c) : r.Polling words c := by
  obtain ⟨serves, moved⟩ := polling.serves.others sound taken
  refine ⟨serves, ?_, moved.trans polling.moved⟩
  rcases (stepped_of_diskStep taken).access with kept | ended
  · exact kept.trans polling.free
  · exact ended

theorem Request.Asked.others {words : List Word} (sound : r.Sound) (asked : r.Asked words b)
    (taken : diskStep b turn = some c) : r.Asked words c := by
  obtain ⟨serves, moved⟩ := asked.serves.others sound taken
  refine ⟨serves, moved.trans asked.moved, fun free silent => ?_⟩
  have turned := stepped_of_diskStep taken
  have kept : c.access = b.access → c.answer = b.answer → Finished c := by
    intro access answer
    rw [access] at free
    rw [answer] at silent
    exact asked.serves.finished (asked.told free silent) turned
  cases turned with
  | writeIsr raw waiting => exact absurd waiting (asked.serves.access_ne_write raw)
  | readIsr raw waiting =>
      obtain ⟨rfl, _⟩ := asked.serves.reads waiting
      exact asked.serves.quiet silent
  | dmaBIsr pending | dmaCIsr pending | core1 answer lawful => exact kept rfl rfl

theorem Request.Polling.ask {words : List Word} (sound : r.Sound) (polling : r.Polling words b)
    (taken : beginAccess (.read statusRaw) b = some ((), c)) : r.Asked words c := by
  obtain ⟨next, began, same⟩ := Option.map_eq_some_iff.mp taken
  cases same
  obtain ⟨disk, recorded, rfl⟩ := Option.map_eq_some_iff.mp began
  have stepped : cardStep r.writes r.data (b.at .poll) .host =
      some (({ b with disk := disk } : Board).at .poll) := by
    simp only [cardStep, CardTurn.turn, sessionStep, hostStep, askStatus, recorded, Option.map_some]
  have lawful : LawfulTurn (b.at .poll) .host := trivial
  obtain ⟨serving, placed⟩ := polling.serves.step sound lawful stepped
  obtain ⟨bus, ledger⟩ := recordedStep_eq_some.mp recorded
  simp only [busStep, show b.disk.bus.access = none from polling.free, Option.some.injEq] at bus
  have same : disk.ledger = b.ledger := ledger
  have moved : r.moved ({ b with disk := disk } : Board) = r.moved b := by
    refine moved_congr ?_ ?_
    · rw [Board.ledger, same]
    · rw [Board.ledger, same]
  refine ⟨⟨serving, placed⟩, moved.trans polling.moved, fun free => ?_⟩
  rw [Board.access, ← bus] at free
  cases free

theorem establishes_readStatus (sound : r.Sound) (words : List Word) :
    Establishes (r.Polling words) port.readStatus fun status b =>
      r.Polling words b ∧ (quiet status = true → Finished b) := by
  have began : Establishes (r.Polling words) (await diskStep (beginAccess (.read statusRaw)))
      fun _ => r.Asked words :=
    establishes_await (fun _ _ _ polling taken => polling.others sound taken)
      fun _ _ _ polling taken => polling.ask sound taken
  refine began.bind fun _ =>
    establishes_await (fun _ _ _ asked taken => asked.others sound taken) ?_
  intro b status c asked taken
  unfold endAccess at taken
  split at taken
  · next free =>
    cases taken
    exact ⟨⟨asked.serves, free, asked.moved⟩, asked.told free⟩
  · cases taken

/-- `picoide_wait_drq`, whatever it returns. -/
theorem establishes_waitDrq (sound : r.Sound) (words : List Word) :
    Establishes (r.Polling words) (Disks.picoideWaitDrq port) fun _ => r.Polling words := by
  have loop : ∀ rounds, Establishes (r.Polling words) (Disks.picoideWaitDrqLoop port rounds)
      fun _ => r.Polling words := by
    intro rounds
    induction rounds with
    | zero => exact establishes_pure fun _ polling => polling
    | succ rounds inductionHypothesis =>
        refine (establishes_readStatus sound words).bind fun status => ?_
        have again := inductionHypothesis.weaken
          (fun b (both : r.Polling words b ∧ (quiet status = true → Finished b)) => both.1)
          fun _ _ => id
        refine establishes_ite (fun _ => again) fun _ => ?_
        refine establishes_ite (fun _ => establishes_pure fun _ both => both.1) fun _ => ?_
        exact establishes_ite (fun _ => establishes_pure fun _ both => both.1) fun _ => again
  exact loop _

/-- `picoide_wait_idle` returns 1 when the command is done. -/
theorem establishes_waitIdle (sound : r.Sound) (words : List Word) :
    Establishes (r.Polling words) (Disks.picoideWaitIdle port) fun idle b =>
      idle ≠ 0 → r.Polling words b ∧ Finished b := by
  have loop : ∀ rounds, Establishes (r.Polling words) (Disks.picoideWaitIdleLoop port rounds)
      fun idle b => idle ≠ 0 → r.Polling words b ∧ Finished b := by
    intro rounds
    induction rounds with
    | zero => exact establishes_pure fun _ _ nonzero => absurd rfl nonzero
    | succ rounds inductionHypothesis =>
        refine (establishes_readStatus sound words).bind fun status => ?_
        refine establishes_ite (fun _ => inductionHypothesis.weaken (fun _ both => both.1)
          fun _ _ => id) fun waits => establishes_pure ?_
        intro b both nonzero
        refine ⟨both.1, both.2 ?_⟩
        cases busy : Disks.busy status <;> cases drq : Disks.dataReady status <;>
          cases error : Disks.error status <;> simp_all [quiet]
  exact loop _

/-! ## The words of a sector -/

def moveHost (left : Nat) : Host := if left = 0 then .poll else .move left

/-- In the middle of a sector, with `left` words still to be moved. -/
structure Request.Moving (r : Request) (left : Nat) (words : List Word) (b : Board) : Prop where
  serves : r.Serves (moveHost left) b
  free : b.access = none
  moved : r.moved b = words

theorem Request.Polling.moving {words : List Word} (polling : r.Polling words b) :
    r.Moving 256 words b where
  serves := by
    refine polling.serves.rehost (.inr ⟨255, rfl, polling.free⟩) ?_
    obtain ⟨sectors, aligned⟩ := polling.serves.serving.aligned
    exact ⟨sectors + 1, congrArg (· + 256) aligned⟩
  free := polling.free
  moved := polling.moved

theorem Request.Moving.polling {words : List Word} (moving : r.Moving 0 words b) :
    r.Polling words b := ⟨moving.serves, moving.free, moving.moved⟩

theorem Request.Moving.others {left : Nat} {words : List Word} (sound : r.Sound)
    (moving : r.Moving left words b) (taken : diskStep b turn = some c) :
    r.Moving left words c := by
  obtain ⟨serves, moved⟩ := moving.serves.others sound taken
  refine ⟨serves, ?_, moved.trans moving.moved⟩
  rcases (stepped_of_diskStep taken).access with kept | ended
  · exact kept.trans moving.free
  · exact ended

theorem Request.Moving.move {left : Nat} {words : List Word} {event : Event} {disk : Recorded}
    (sound : r.Sound) (moving : r.Moving (left + 1) words b)
    (own : moveWord r.writes r.data (b.session (moveHost (left + 1))) = event)
    (recorded : recordedStep b.disk (.event event) = some disk) :
    r.Serves (moveHost left) { b with disk := disk } ∧ disk.bus.access = none ∧
      disk.ledger = recordEvent b.firmware b.ledger event := by
  have stepped : cardStep r.writes r.data (b.at (moveHost (left + 1))) .host =
      some (({ b with disk := disk } : Board).at (moveHost left)) := by
    simp only [cardStep, CardTurn.turn, sessionStep, hostStep, moveHost, Nat.succ_ne_zero, if_false]
    simp only [moveHost, Nat.succ_ne_zero, if_false] at own
    rw [own, recorded]
    rfl
  have lawful : LawfulTurn (b.at (moveHost (left + 1))) .host := trivial
  obtain ⟨serving, placed⟩ := moving.serves.step sound lawful stepped
  obtain ⟨bus, ledger⟩ := recordedStep_eq_some.mp recorded
  obtain ⟨firmware, _, same⟩ := Option.map_eq_some_iff.mp bus
  refine ⟨⟨serving, placed⟩, ?_, ledger⟩
  rw [← same]
  exact moving.free

theorem Request.Moving.take {left : Nat} {words : List Word} {word : Word} (sound : r.Sound)
    (reads : r.writes = false) (moving : r.Moving (left + 1) words b)
    (taken : takeWord b = some (word, c)) : r.Moving left (words ++ [word]) c := by
  unfold takeWord at taken
  split at taken
  · cases taken
  · next first rest tx =>
    obtain ⟨next, moved, same⟩ := Option.map_eq_some_iff.mp taken
    cases same
    obtain ⟨disk, recorded, rfl⟩ := Option.map_eq_some_iff.mp moved
    obtain ⟨serves, free, ledger⟩ := moving.move sound (by rw [moveWord, reads]; rfl) recorded
    refine ⟨serves, free, ?_⟩
    have before := moving.moved
    rw [Request.moved, reads] at before ⊢
    simp only [Board.ledger, ledger, recordEvent, Bool.false_eq_true, if_false] at before ⊢
    rw [before, show b.firmware.dataTx = _ from tx]
    rfl

theorem Request.Moving.give {left : Nat} {words : List Word} {word : Word} (sound : r.Sound)
    (writing : r.writes = true) (own : r.data words.length = word)
    (moving : r.Moving (left + 1) words b) (taken : giveWord word b = some ((), c)) :
    r.Moving left (words ++ [word]) c := by
  obtain ⟨next, moved, same⟩ := Option.map_eq_some_iff.mp taken
  cases same
  obtain ⟨disk, recorded, rfl⟩ := Option.map_eq_some_iff.mp moved
  have before := moving.moved
  rw [Request.moved, writing, if_pos rfl] at before
  have event : moveWord r.writes r.data (b.session (moveHost (left + 1))) = .writeData word := by
    rw [moveWord, writing, if_pos rfl, ← own, ← before]
  obtain ⟨serves, free, ledger⟩ := moving.move sound event recorded
  refine ⟨serves, free, ?_⟩
  rw [Request.moved, writing, if_pos rfl, Board.ledger, ledger]
  show b.ledger.given ++ [word] = _
  rw [before]

theorem establishes_readWords (sound : r.Sound) (reads : r.writes = false) (left : Nat)
    (words : List Word) :
    Establishes (r.Moving left words) (Disks.readWords port left) fun more b =>
      r.Polling (words ++ more) b := by
  induction left generalizing words with
  | zero =>
      refine establishes_pure fun b moving => ?_
      rw [List.append_nil]
      exact moving.polling
  | succ left inductionHypothesis =>
      have first : Establishes (r.Moving (left + 1) words) port.readData16 fun word b =>
          r.Moving left (words ++ [word]) b :=
        establishes_await (fun _ _ _ moving taken => moving.others sound taken)
          fun _ _ _ moving taken => moving.take sound reads taken
      refine first.bind fun word => (inductionHypothesis _).bind fun rest => ?_
      refine establishes_pure fun b polling => ?_
      rw [List.append_assoc] at polling
      exact polling

theorem establishes_writeWords (sound : r.Sound) (writing : r.writes = true) (src : List Word)
    (words : List Word) (own : ∀ i word, src[i]? = some word → r.data (words.length + i) = word) :
    Establishes (r.Moving src.length words) (Disks.writeWords port src) fun _ b =>
      r.Polling (words ++ src) b := by
  induction src generalizing words with
  | nil =>
      refine establishes_pure fun b moving => ?_
      rw [List.append_nil]
      exact moving.polling
  | cons word rest inductionHypothesis =>
      have first : Establishes (r.Moving (rest.length + 1) words) (port.writeData16 word) fun _ b =>
          r.Moving rest.length (words ++ [word]) b :=
        establishes_await (fun _ _ _ moving taken => moving.others sound taken)
          fun _ _ _ moving taken => moving.give sound writing (own 0 word rfl) taken
      refine first.bind fun _ => (inductionHypothesis _ ?_).weaken (fun _ => id) ?_
      · intro i other at1
        rw [List.length_append, List.length_singleton, Nat.add_assoc, Nat.add_comm 1 i]
        exact own (i + 1) other at1
      · intro _ b polling
        rw [List.append_assoc] at polling
        exact polling

/-! ## The driver -/

theorem Request.Setting.polling (setting : r.Setting .poll b) (free : b.access = none) :
    r.Polling [] b where
  serves := by
    rcases setting.underway with ⟨left, finished, rest, _, stage⟩ | serving
    · rcases stage with ⟨_, host, _⟩ | ⟨raw, waiting, _⟩
      · cases host
      · rw [show (b.session .poll).access = none from free] at waiting
        cases waiting
    · exact ⟨serving, setting.placed⟩
  free := free
  moved := by
    unfold Request.moved
    rw [setting.unmoved.1, setting.unmoved.2, ite_self]

/-- What holds when `picoide_read_sector` returns 512. -/
theorem establishes_readSector (sound : r.Sound) (reads : r.writes = false) :
    Establishes (r.Setting (.setup (r.taskfile ++ [r.command])))
      (Disks.picoideReadSector port r.sector) fun result b =>
        result.1 = 512 → r.Polling result.2 b ∧ Finished b := by
  have command := establishes_command sound
  rw [reads] at command
  have gaveUp : ∀ {before : Board → Prop} (words : List Word), Establishes before
      (do Disks.picoideReport port; pure (0, words)) fun result b =>
        result.1 = 512 → r.Polling result.2 b ∧ Finished b := fun words =>
    (establishes_true _ _).bind fun _ => establishes_pure fun _ _ success => by cases success
  refine (establishes_setLba sound).bind fun _ => command.bind fun _ => ?_
  refine (establishes_waitDrq sound []).weaken (fun b both => both.1.polling both.2)
    (fun _ _ => id) |>.bind fun ready => ?_
  refine establishes_ite (fun _ => gaveUp []) fun _ => ?_
  have words := (establishes_readWords sound reads 256 []).weaken
    (fun b (polling : r.Polling [] b) => polling.moving) fun _ _ => id
  refine words.bind fun dst => (establishes_waitIdle sound dst).bind fun idle => ?_
  refine establishes_ite (fun _ => gaveUp dst) fun returned => ?_
  exact establishes_pure fun b done _ => done returned

/-- What holds when `picoide_write_sector` returns 512. -/
theorem establishes_writeSector (sound : r.Sound) (writing : r.writes = true) (src : List Word)
    (length : src.length = 256) (own : ∀ i word, src[i]? = some word → r.data i = word) :
    Establishes (r.Setting (.setup (r.taskfile ++ [r.command])))
      (Disks.picoideWriteSector port r.sector src) fun result b =>
        result = 512 → r.Polling src b ∧ Finished b := by
  have command := establishes_command sound
  rw [writing] at command
  have gaveUp : ∀ {before : Board → Prop}, Establishes before
      (do Disks.picoideReport port; pure 0) fun result b =>
        result = 512 → r.Polling src b ∧ Finished b :=
    (establishes_true _ _).bind fun _ => establishes_pure fun _ _ success => by cases success
  refine (establishes_setLba sound).bind fun _ => command.bind fun _ => ?_
  refine (establishes_waitDrq sound []).weaken (fun b both => both.1.polling both.2)
    (fun _ _ => id) |>.bind fun ready => ?_
  refine establishes_ite (fun _ => gaveUp) fun _ => ?_
  have words := (establishes_writeWords sound writing src [] fun i word at1 => by
      rw [List.length_nil, Nat.zero_add]
      exact own i word at1).weaken
    (fun b (polling : r.Polling [] b) => by rw [length]; exact polling.moving) fun _ _ => id
  refine words.bind fun _ => (establishes_waitIdle sound src).bind fun idle => ?_
  refine establishes_ite (fun _ => gaveUp) fun returned => ?_
  exact establishes_pure fun b done _ => done returned

end OrionBios.SectorPath
