import Mathlib.Data.BitVec
import OrionBios.PicoIde.Pacing

/-!
# Multi-sector transfers

What the 68k gets from a READ SECTORS and what its WRITE SECTORS leaves on the card, at
every moment of a session and at its end.
-/

namespace OrionBios.PicoIde

open Transition

variable {order : Order} {card : BitVec 32 → Sector} {writes : Bool} {data : Nat → Word}
  {s t : Session} {phase : Phase} {k position : Nat}

/-! ## The rules -/

/-- The command is accepted, and the status shows it as done. -/
def Session.Done (order : Order) (s : Session) : Prop :=
  s.ledger.order = order ∧ s.firmware.regStatus = IDE_STATUS_DRDY

structure ReadRule (order : Order) (card : BitVec 32 → Sector) (s : Session) : Prop where
  /-- No word is lost, repeated or skipped. -/
  inOrder : s.ledger.taken <+: order.words card order.count
  calls : ∃ n ≤ order.count, s.ledger.begun = (List.range n).map order.lba
  unchanged : s.firmware.card = card
  /-- The words in the FIFO are those that the 68k has still set out for. -/
  complete : s.Done order → s.ledger.taken ++ s.firmware.dataTx = order.words card order.count ∧
    s.firmware.dataTx.length = s.host.left
  failed : ∀ sector ∈ s.ledger.failures, ∃ j < order.count, sector = order.lba j ∧
    s.firmware.regStatus = errorStatus ∧ s.ledger.begun = (List.range (j + 1)).map order.lba ∧
    s.ledger.taken ++ s.firmware.dataTx = order.words card j ∧
    s.firmware.dataTx.length = s.host.left

/-- The first `stored` sectors of a write are on the card. -/
structure Stored (order : Order) (card : BitVec 32 → Sector) (data : Nat → Word) (s : Session)
    (stored : Nat) : Prop where
  bound : stored ≤ order.count
  given : 256 * stored ≤ s.ledger.given.length
  written : ∀ i < stored, ∀ j : Fin 256,
    s.firmware.card (order.lba i) j = bswap (data (256 * i + j.val))
  others : ∀ sector, (∀ i < stored, sector ≠ order.lba i) → s.firmware.card sector = card sector
  complete : s.Done order → stored = order.count ∧ s.host = .poll
  /-- A sector whose last word is written shows as busy until it is stored. -/
  busy : stored < order.count → 256 * (stored + 1) ≤ s.ledger.given.length →
    s.ledger.failures = [] → ∀ raw, rawAddr raw = IDE_REG_STATUS_CMD →
      (readRegister raw s.firmware).1 &&& IDE_STATUS_BSY ≠ 0
  failed : ∀ sector ∈ s.ledger.failures, stored < order.count ∧ sector = order.lba stored ∧
    s.firmware.regStatus = errorStatus ∧
    s.ledger.begun = (List.range (stored + 1)).map order.lba ∧ s.host = .poll

structure WriteRule (order : Order) (card : BitVec 32 → Sector) (data : Nat → Word) (s : Session) :
    Prop where
  given : s.ledger.given = (List.range s.ledger.given.length).map data
  calls : ∃ n ≤ order.count, s.ledger.begun = (List.range n).map order.lba
  stored : ∃ stored, Stored order card data s stored

/-- The 68k is back at its poll, where it sees that the command is done or has failed. -/
structure AtPoll (writes : Bool) (order : Order) (card : BitVec 32 → Sector) (s last : Session) :
    Prop where
  polls : last.host = .poll
  failures : last.ledger.failures = s.ledger.failures
  done : s.ledger.failures = [] →
    last.Done order ∧ (writes = false → last.ledger.taken = order.words card order.count)
  failed : s.ledger.failures ≠ [] → last.firmware.regStatus = errorStatus

/-- The session can be brought to its end: without a failure if there has been none so far. -/
def CanFinish (writes : Bool) (data : Nat → Word) (order : Order) (card : BitVec 32 → Sector)
    (s : Session) : Prop :=
  ∃ turns last, exec (sessionStep writes data) s turns = some last ∧
    Guarded (sessionStep writes data) (Punctual writes) s turns ∧ AtPoll writes order card s last

/-! ## A read -/

theorem Order.words_prefix (order : Order) (card : BitVec 32 → Sector) {m n : Nat} (le : m ≤ n) :
    order.words card m <+: order.words card n := by
  induction le with
  | refl => exact List.prefix_refl _
  | step _ inductionHypothesis =>
      rw [Order.words_succ]
      exact inductionHypothesis.trans (List.prefix_append _ _)

theorem InPhase.calls_le {f : Firmware} {l : Ledger} (inPhase : InPhase f l phase) :
    phase.calls l.order ≤ l.order.count := by
  cases phase with
  | rest => exact Nat.zero_le _
  | done => exact Nat.le_refl _
  | failed k => exact inPhase.suits.2
  | fetchWanted k | receiving k position | flushWanted k =>
      exact Nat.le_of_lt (inPhase.counted k rfl).more
  | fetching k | sending k position | flushing k => exact (inPhase.counted k rfl).more

theorem InPhase.sent_prefix {f : Firmware} {l : Ledger} (inPhase : InPhase f l phase)
    (delivers : l.order.Delivers) : phase.sent l <+: l.order.words l.card l.order.count := by
  have whole : ∀ {m : Nat}, m ≤ l.order.count →
      l.order.words l.card m ++ [] <+: l.order.words l.card l.order.count := by
    intro m le
    rw [List.append_nil]
    exact l.order.words_prefix l.card le
  cases phase with
  | rest => exact absurd inPhase.suits delivers.not_none
  | done => exact whole (Nat.le_refl _)
  | failed k => exact whole (Nat.le_of_lt inPhase.suits.2)
  | fetchWanted k | fetching k => exact whole (Nat.le_of_lt (inPhase.counted k rfl).more)
  | sending k position =>
      refine List.IsPrefix.trans ?_ (l.order.words_prefix l.card (inPhase.counted k rfl).more)
      rw [Order.words_succ, Phase.sent]
      exact (List.prefix_append_right_inj _).mpr (List.take_prefix _ _)
  | receiving k position | flushWanted k | flushing k =>
      exact absurd inPhase.suits delivers.not_write

/-- Only a finished command shows neither BSY nor DRQ nor ERR. -/
theorem InPhase.done_of_status {f : Firmware} {l : Ledger} (inPhase : InPhase f l phase)
    (some : l.order.kind ≠ .none) (status : f.regStatus = IDE_STATUS_DRDY) : phase = .done := by
  have drq : IDE_STATUS_DRDY ≠ drqStatus := by decide
  have busy : IDE_STATUS_DRDY ≠ busyStatus := by decide
  have error : IDE_STATUS_DRDY ≠ errorStatus := by decide
  have shows := inPhase.shows
  rw [status] at shows
  cases phase with
  | rest => exact absurd inPhase.suits some
  | done => rfl
  | failed k => exact absurd shows error
  | fetchWanted k | fetching k | flushWanted k | flushing k => exact absurd shows busy
  | sending k position => exact absurd shows drq
  | receiving k position => exact shows.elim (absurd · drq) fun ⟨_, shows⟩ => absurd shows busy

theorem InPhase.failed_of_mem {f : Firmware} {l : Ledger} {sector : BitVec 32}
    (inPhase : InPhase f l phase) (among : sector ∈ l.failures) :
    ∃ k, phase = .failed k ∧ sector = l.order.lba k := by
  have failures := inPhase.failures
  cases phase with
  | failed k =>
      rw [failures] at among
      exact ⟨k, rfl, List.mem_singleton.mp among⟩
  | rest | done | fetchWanted k | fetching k | sending k position | receiving k position
  | flushWanted k | flushing k =>
      rw [failures] at among
      exact absurd among List.not_mem_nil

theorem Serving.poll_of_left (serving : Serving order card writes data s)
    (nothing : s.host.left = 0) : s.host = .poll := by
  refine serving.host.resolve_right ?_
  rintro ⟨left, moving, _⟩
  rw [moving] at nothing
  exact Nat.succ_ne_zero left nothing

/-- When the words of all sectors from the card are on their way, the 68k has set out for what is
left of them. -/
theorem Paced.left_of_words (paced : Paced false s) (serving : Serving order card false data s)
    {m : Nat} (words : s.ledger.taken ++ s.firmware.dataTx = order.words card m)
    (room : s.firmware.dataTx.length ≤ 4) (calls : completed s.firmware s.ledger = m) :
    s.firmware.dataTx.length = s.host.left := by
  obtain ⟨sectors, aligned⟩ := serving.aligned
  have aligned : s.ledger.taken.length + s.host.left = 256 * sectors := aligned
  have length := congrArg List.length words
  rw [List.length_append, Order.words_length] at length
  have bound := paced.read rfl
  rw [calls] at bound
  omega

theorem Paced.polls_of_write (paced : Paced true s) (serving : Serving order card true data s)
    (status : s.firmware.regStatus ≠ drqStatus) : s.host = .poll :=
  serving.poll_of_left ((paced.write rfl).resolve_right fun ⟨shows, _⟩ => status shows)

/-- Between two sectors the words sent are those of the sectors so far. -/
theorem Serving.sent_whole {phase : Phase} (serving : Serving order card writes data s)
    (inPhase : InPhase s.firmware s.ledger phase) (delivers : s.ledger.order.Delivers)
    (between : ∀ k position, phase ≠ .sending k position) :
    s.ledger.taken ++ s.firmware.dataTx = order.words card (phase.moved order) ∧
      s.firmware.dataTx.length ≤ 4 := by
  obtain ⟨words, room⟩ := inPhase.words delivers
  have sent : Phase.sent s.ledger phase =
      s.ledger.order.words s.ledger.card (phase.moved s.ledger.order) := by
    cases phase with
    | sending k position => exact absurd rfl (between k position)
    | rest | done | failed k | fetchWanted k | fetching k | receiving k position | flushWanted k
    | flushing k => exact List.append_nil _
  rw [sent, serving.order_eq, serving.card_eq] at words
  exact ⟨words, room⟩

/-- At the end of its command a 68k that polls has kept behind the card. -/
theorem Serving.paced_done (serving : Serving order card writes data s)
    (kind : order.kind = orderKind writes) (done : s.Done order) (polls : s.host = .poll) :
    Paced writes s where
  read reads := by
    subst reads
    obtain ⟨phase, inPhase⟩ := serving.phase
    have read : s.ledger.order.kind = .read := serving.kind_eq.trans kind
    have delivers : s.ledger.order.Delivers := .inl read
    cases inPhase.done_of_status delivers.not_none done.2
    obtain ⟨whole, -⟩ := serving.sent_whole inPhase delivers fun _ _ => Phase.noConfusion
    have length := congrArg List.length whole
    rw [List.length_append, Order.words_length] at length
    rw [inPhase.completed_done read, serving.order_eq, polls]
    exact Nat.le_of_add_right_le (Nat.le_of_eq length)
  write _ := .inl (by rw [polls]; rfl)

theorem Serving.readRule (serving : Serving order card false data s) (paced : Paced false s)
    (kind : order.kind = .read) : ReadRule order card s := by
  obtain ⟨phase, inPhase⟩ := serving.phase
  have read : s.ledger.order.kind = .read := serving.kind_eq.trans kind
  have delivers : s.ledger.order.Delivers := .inl read
  obtain ⟨words, -⟩ := inPhase.words delivers
  have calls : ∀ n, s.ledger.order.calls n = (List.range n).map order.lba := by
    intro n
    rw [serving.order_eq, Order.calls, kind]
  exact
    { inOrder := by
        have sent := inPhase.sent_prefix delivers
        rw [serving.order_eq, serving.card_eq] at sent
        refine List.IsPrefix.trans ?_ sent
        rw [← words]
        exact List.prefix_append _ _
      calls := by
        refine ⟨phase.calls s.ledger.order, ?_, ?_⟩
        · rw [← serving.order_eq]
          exact inPhase.calls_le
        · rw [← calls]
          exact inPhase.begun
      unchanged := (inPhase.card delivers.not_write).trans serving.card_eq
      complete := by
        rintro ⟨_, status⟩
        cases inPhase.done_of_status delivers.not_none status
        obtain ⟨whole, room⟩ := serving.sent_whole inPhase delivers fun _ _ => Phase.noConfusion
        have calls := inPhase.completed_done read
        rw [serving.order_eq] at calls
        exact ⟨whole, paced.left_of_words serving whole room calls⟩
      failed := fun sector among => by
        obtain ⟨k, rfl, equal⟩ := inPhase.failed_of_mem among
        obtain ⟨moved, room⟩ := serving.sent_whole inPhase delivers fun _ _ => Phase.noConfusion
        refine ⟨k, ?_, ?_, inPhase.shows, ?_, moved,
          paced.left_of_words serving moved room (inPhase.completed_failed read)⟩
        · rw [← serving.order_eq]
          exact inPhase.suits.2
        · rw [← serving.order_eq]
          exact equal
        · rw [← calls]
          exact inPhase.begun }

/-! ## A write -/

theorem overwrite_others (card : BitVec 32 → Sector) (order : Order) (words : List Word)
    {sectors : Nat} {sector : BitVec 32} (other : ∀ i < sectors, sector ≠ order.lba i) :
    overwrite card order words sectors sector = card sector := by
  induction sectors with
  | zero => rfl
  | succ i inductionHypothesis =>
      rw [overwrite, Function.update_of_ne (other i (Nat.lt_succ_self i))]
      exact inductionHypothesis fun j small => other j (Nat.lt_succ_of_lt small)

theorem Order.lba_injective (order : Order) {i j : Nat} (small : i < 2 ^ 32) (small' : j < 2 ^ 32)
    (equal : order.lba i = order.lba j) : i = j := by
  have offsets := congrArg BitVec.toNat (add_left_cancel equal)
  rwa [BitVec.toNat_ofNat, BitVec.toNat_ofNat, Nat.mod_eq_of_lt small, Nat.mod_eq_of_lt small']
    at offsets

theorem overwrite_written (card : BitVec 32 → Sector) (order : Order) (words : List Word)
    {sectors i : Nat} (bound : sectors ≤ 2 ^ 32) (small : i < sectors) :
    overwrite card order words sectors (order.lba i) = sectorOf words i := by
  induction sectors with
  | zero => exact absurd small (Nat.not_lt_zero i)
  | succ last inductionHypothesis =>
      rw [overwrite]
      by_cases same : i = last
      · rw [same, Function.update_self]
      · have apart : order.lba i ≠ order.lba last := fun equal =>
          same (order.lba_injective (by omega) (by omega) equal)
        rw [Function.update_of_ne apart]
        exact inductionHypothesis (by omega) (by omega)

theorem sectorOf_data (data : Nat → Word) {n i : Nat} (enough : 256 * (i + 1) ≤ n) (j : Fin 256) :
    sectorOf ((List.range n).map data) i j = bswap (data (256 * i + j.val)) := by
  have inside : 256 * i + j.val < n := by omega
  simp only [sectorOf, received, j.isLt, if_true, List.getD_eq_getElem?_getD, List.getElem?_drop,
    List.getElem?_map, List.getElem?_range inside, Option.map_some, Option.getD_some]

theorem InPhase.busy_of_full {f : Firmware} {l : Ledger} {raw : Raw} (inPhase : InPhase f l phase)
    (kind : l.order.kind = .write) (more : phase.moved l.order < l.order.count)
    (full : 256 * (phase.moved l.order + 1) ≤ l.given.length) (sound : l.failures = [])
    (status : rawAddr raw = IDE_REG_STATUS_CMD) :
    (PicoIde.readRegister raw f).1 &&& IDE_STATUS_BSY ≠ 0 := by
  have value : (PicoIde.readRegister raw f).1 = (PicoIde.statusPatch f).regStatus := by
    simp only [PicoIde.readRegister, if_pos status]
    rw [status]
    rfl
  have busy : busyStatus &&& IDE_STATUS_BSY ≠ 0 := by decide
  have patched := inPhase.statusPatch
  have shows := patched.shows
  rw [value]
  cases phase with
  | rest =>
      have none : l.order.kind = .none := inPhase.suits
      rw [kind] at none
      cases none
  | done => exact absurd more (Nat.lt_irrefl _)
  | failed k => exact absurd (sound.symm.trans inPhase.failures) (List.cons_ne_nil _ _).symm
  | fetchWanted k | fetching k =>
      have other : l.order.kind = .read := inPhase.suits
      rw [kind] at other
      cases other
  | sending k position =>
      have delivers : l.order.Delivers := inPhase.suits
      exact absurd kind delivers.not_write
  | flushWanted k | flushing k =>
      rw [show (PicoIde.statusPatch f).regStatus = busyStatus from shows]
      exact busy
  | receiving k position =>
      obtain ⟨_, filled, empty⟩ := inPhase.holding
      have full : 256 * (k + 1) ≤ l.given.length := full
      have last : position = 256 := by
        refine empty.elim id fun nothing => ?_
        rw [nothing] at filled
        have length := filled.length_eq
        have bound := inPhase.holding.1
        omega
      subst last
      rcases shows with drq | ⟨_, busyShown⟩
      · have idle : (PicoIde.statusPatch f).dmaC = none :=
          (workOf_eq.mp patched.work).2.2.2.2.1
        refine absurd idle (statusPatch_fresh patched.dir ?_)
        rw [drq]
        decide
      · rw [busyShown]
        exact busy

theorem InPhase.moved_le {f : Firmware} {l : Ledger} (inPhase : InPhase f l phase) :
    phase.moved l.order ≤ l.order.count := by
  cases phase with
  | rest => exact Nat.zero_le _
  | done => exact Nat.le_refl _
  | failed k => exact Nat.le_of_lt inPhase.suits.2
  | fetchWanted k | fetching k | sending k position | receiving k position | flushWanted k
  | flushing k => exact Nat.le_of_lt (inPhase.counted k rfl).more

theorem Serving.writeRule (serving : Serving order card true data s) (paced : Paced true s)
    (kind : order.kind = .write) (small : order.count ≤ 2 ^ 32) : WriteRule order card data s := by
  obtain ⟨phase, inPhase⟩ := serving.phase
  have orderEq := serving.order_eq
  have write : s.ledger.order.kind = .write := by
    rw [orderEq]
    exact kind
  obtain ⟨onCard, enough⟩ := inPhase.written write
  have calls : ∀ n, s.ledger.order.calls n = (List.range n).map order.lba := by
    intro n
    rw [orderEq, Order.calls, kind]
  have bound := inPhase.moved_le
  rw [serving.card_eq, orderEq] at onCard
  rw [orderEq] at bound enough
  exact
    { given := serving.given
      calls := by
        refine ⟨phase.calls s.ledger.order, ?_, ?_⟩
        · rw [← orderEq]
          exact inPhase.calls_le
        · rw [← calls]
          exact inPhase.begun
      stored := by
        refine ⟨phase.moved order, ?_⟩
        exact
          { bound := bound
            given := enough
            written := fun i less j => by
              rw [onCard, overwrite_written card order _ (Nat.le_trans bound small) less,
                serving.given]
              exact sectorOf_data data (by omega) j
            others := fun sector other => by
              rw [onCard]
              exact overwrite_others card order _ other
            complete := by
              rintro ⟨_, status⟩
              cases inPhase.done_of_status (by rw [write]; exact Kind.noConfusion) status
              refine ⟨rfl, paced.polls_of_write serving ?_⟩
              rw [status]
              decide
            busy := fun more full sound raw status => by
              rw [← orderEq] at more full
              exact inPhase.busy_of_full write more full sound status
            failed := fun sector among => by
              obtain ⟨k, rfl, equal⟩ := inPhase.failed_of_mem among
              rw [orderEq] at equal
              refine ⟨?_, equal, inPhase.shows, ?_, paced.polls_of_write serving ?_⟩
              · rw [← orderEq]
                exact inPhase.suits.2
              · rw [Phase.moved, ← calls]
                exact inPhase.begun
              · rw [show s.firmware.regStatus = errorStatus from inPhase.shows]
                decide } }

/-! ## The session comes to its end -/

/-- How far a phase is from the next sector. -/
def Phase.rank (order : Order) (f : Firmware) : Phase → Nat
  | .fetchWanted k => 8 * (order.count - k) + if f.core1 = .testFetch then 4 else 5
  | .fetching k => 8 * (order.count - k) + 3
  | .sending k _ => 8 * (order.count - k) + 2
  | .receiving k _ => 8 * (order.count - k) + 6
  | .flushWanted k => 8 * (order.count - k) + if f.core1 = .testFlush then 4 else 5
  | .flushing k => 8 * (order.count - k) + 3
  | _ => 0

/-- How far the 68k is from moving words. -/
def Session.hostRank (s : Session) : Nat :=
  match s.host with
  | .move _ => 0
  | _ => if s.access = none then 2 else 1

def workLeft (writes : Bool) (order : Order) (s : Session) (phase : Phase) : Nat :=
  4 * (256 * order.count - movedWords writes s.ledger) + phase.rank order s.firmware + s.hostRank

/-- Some step brings the session closer to its end. -/
def Progress (writes : Bool) (data : Nat → Word) (order : Order) (s : Session) (phase : Phase) :
    Prop :=
  ∃ turn next phase', sessionStep writes data s turn = some next ∧ Punctual writes s turn ∧
    InPhase next.firmware next.ledger phase' ∧ (∀ k, phase' ≠ .failed k) ∧
    workLeft writes order next phase' < workLeft writes order s phase

/-- The turn of an event of the disk's own. -/
def Event.turn : Event → Turn
  | .dmaBIsr => .dmaBIsr
  | .dmaCIsr => .dmaCIsr
  | .core1 ok => .core1 ok
  | _ => .host

theorem progress_own (event : Event) {firmware : Firmware} (phase' : Phase)
    (own : event.isOwn = true) (enabled : eventStep s.firmware event = some firmware)
    (after : InPhase firmware (recordEvent s.firmware s.ledger event) phase')
    (sound : ∀ k, phase' ≠ .failed k)
    (less : phase'.rank order firmware < phase.rank order s.firmware) :
    Progress writes data order s phase := by
  let next : Session := { s with
    disk :=
      { bus := { s.disk.bus with firmware := firmware }
        ledger := recordEvent s.firmware s.ledger event } }
  have recorded : recordedStep s.disk (.event event) = some next.disk := by
    rw [recordedStep, busStep, show eventStep s.disk.bus.firmware event = _ from enabled]
    rfl
  refine ⟨event.turn, next, phase', ?_, punctual_of_ne ?_, after, sound, ?_⟩
  · cases event with
    | dmaBIsr | dmaCIsr => exact congrArg (Option.map _) recorded
    | core1 ok =>
        simp only [Event.turn, sessionStep, recorded, Option.map_some]
        rfl
    | readData | writeData => cases own
  · cases event <;> exact Turn.noConfusion
  · obtain ⟨begun, failures, frame⟩ := recordEvent_frame own s.firmware s.ledger
    have moved : movedWords writes next.ledger = movedWords writes s.ledger := by
      show movedWords writes (recordEvent s.firmware s.ledger event) = _
      rw [frame]
      rfl
    have host : next.hostRank = s.hostRank := rfl
    unfold workLeft
    rw [moved, host]
    exact Nat.add_lt_add_right (Nat.add_lt_add_left less _) _

theorem progress_fetchWanted (inPhase : InPhase s.firmware s.ledger (.fetchWanted k)) :
    Progress writes data order s (.fetchWanted k) := by
  obtain ⟨fetch, flush, call, _⟩ := workOf_eq.mp inPhase.work
  have wanted : s.firmware.needFetch = true := fetch
  have unwanted : ¬ s.firmware.needFlush = true := by
    rw [flush]
    exact Bool.noConfusion
  have step : ∀ {phase' : Phase}, InPhase (core1Step true s.firmware)
      (recordEvent s.firmware s.ledger (.core1 true)) phase' → (∀ k, phase' ≠ .failed k) →
      phase'.rank order (core1Step true s.firmware) <
        (Phase.fetchWanted k).rank order s.firmware → Progress writes data order s (.fetchWanted k) :=
    fun after sound less => progress_own (.core1 true) _ rfl rfl after sound less
  rcases core1_of_none call with at1 | at1
  · have taken := inPhase.takeFetch
    simp only [core1Step, recordEvent, recordCore1, at1, if_pos wanted] at step
    refine step taken (fun _ => Phase.noConfusion) ?_
    simp only [Phase.rank, at1, if_true]
    omega
  · have turned := inPhase.turn call (show Core1.testFetch.call = none from rfl)
    simp only [core1Step, recordEvent, recordCore1, at1, if_neg unwanted] at step
    refine step turned (fun _ => Phase.noConfusion) ?_
    simp only [Phase.rank, at1, if_true]
    exact Nat.add_lt_add_left (by decide) _

theorem progress_fetching (inPhase : InPhase s.firmware s.ledger (.fetching k)) :
    Progress writes data order s (.fetching k) := by
  have at1 := core1_of_read (workOf_eq.mp inPhase.work).2.2.1
  have fetched := inPhase.fetched
  refine progress_own (.core1 true) (.sending k (4 - s.firmware.dataTx.length)) rfl rfl ?_
    (fun _ => Phase.noConfusion) ?_
  · simp only [core1Step, recordEvent, recordCore1, at1, if_true]
    exact fetched
  · exact Nat.add_lt_add_left (by decide) _

theorem progress_flushWanted (inPhase : InPhase s.firmware s.ledger (.flushWanted k)) :
    Progress writes data order s (.flushWanted k) := by
  obtain ⟨fetch, flush, call, _⟩ := workOf_eq.mp inPhase.work
  have wanted : s.firmware.needFlush = true := flush
  have unwanted : ¬ s.firmware.needFetch = true := by
    rw [fetch]
    exact Bool.noConfusion
  have step : ∀ {phase' : Phase}, InPhase (core1Step true s.firmware)
      (recordEvent s.firmware s.ledger (.core1 true)) phase' → (∀ k, phase' ≠ .failed k) →
      phase'.rank order (core1Step true s.firmware) <
        (Phase.flushWanted k).rank order s.firmware → Progress writes data order s (.flushWanted k) :=
    fun after sound less => progress_own (.core1 true) _ rfl rfl after sound less
  rcases core1_of_none call with at1 | at1
  · have turned := inPhase.turn call (show Core1.testFlush.call = none from rfl)
    simp only [core1Step, recordEvent, recordCore1, at1, if_neg unwanted] at step
    refine step turned (fun _ => Phase.noConfusion) ?_
    simp only [Phase.rank, at1, if_true]
    exact Nat.add_lt_add_left (by decide) _
  · have taken := inPhase.takeFlush
    simp only [core1Step, recordEvent, recordCore1, at1, if_pos wanted] at step
    refine step taken (fun _ => Phase.noConfusion) ?_
    simp only [Phase.rank, at1, if_true]
    omega

theorem progress_flushing (orderEq : s.ledger.order = order)
    (inPhase : InPhase s.firmware s.ledger (.flushing k)) :
    Progress writes data order s (.flushing k) := by
  have at1 := core1_of_write (workOf_eq.mp inPhase.work).2.2.1
  have more : k < order.count := by
    rw [← orderEq]
    exact (inPhase.counted k rfl).more
  by_cases last : k + 1 = s.ledger.order.count
  · have flushed := inPhase.flushedLast last
    refine progress_own (.core1 true) .done rfl rfl ?_
      (fun _ => Phase.noConfusion) (Nat.succ_pos _)
    simp only [core1Step, recordEvent, recordCore1, at1, if_true]
    exact flushed
  · have flushed := inPhase.flushedSector last
    refine progress_own (.core1 true) (.receiving (k + 1) s.firmware.dataRx.length) rfl rfl ?_
      (fun _ => Phase.noConfusion) ?_
    · simp only [core1Step, recordEvent, recordCore1, at1, if_true]
      exact flushed
    · simp only [Phase.rank]
      omega

theorem progress_sent (orderEq : s.ledger.order = order)
    (inPhase : InPhase s.firmware s.ledger (.sending k 256)) :
    Progress writes data order s (.sending k 256) := by
  have pending : s.firmware.ints0 = true := (workOf_eq.mp inPhase.work).2.2.2.2.2.1
  have more : k < order.count := by
    rw [← orderEq]
    exact (inPhase.counted k rfl).more
  by_cases last : k + 1 = s.ledger.order.count
  · exact progress_own .dmaBIsr .done rfl (if_pos pending) (inPhase.sentLast last)
      (fun _ => Phase.noConfusion) (Nat.succ_pos _)
  · refine progress_own .dmaBIsr (.fetchWanted (k + 1)) rfl (if_pos pending) (inPhase.sentSector last)
      (fun _ => Phase.noConfusion) ?_
    simp only [Phase.rank]
    split <;> omega

theorem progress_received (inPhase : InPhase s.firmware s.ledger (.receiving k 256)) :
    Progress writes data order s (.receiving k 256) := by
  have pending : s.firmware.ints1 = true := (workOf_eq.mp inPhase.work).2.2.2.2.2.2
  refine progress_own .dmaCIsr (.flushWanted k) rfl (if_pos pending) inPhase.gotSector
    (fun _ => Phase.noConfusion) ?_
  simp only [Phase.rank]
  split <;> omega

theorem Phase.rank_congr (phase : Phase) (order : Order) {f f' : Firmware}
    (same : f'.core1 = f.core1) : phase.rank order f' = phase.rank order f := by
  cases phase <;> simp only [Phase.rank, same]

theorem progress_host (serving : Serving order card writes data s)
    (inPhase : InPhase s.firmware s.ledger phase) (sound : ∀ k, phase ≠ .failed k)
    (asks : s.host = .poll → seeStatus (readRegister statusRaw s.firmware).1 = .move 256)
    (more : movedWords writes s.ledger < 256 * order.count)
    (served : s.firmware.ints0 = false)
    (word : s.host ≠ .poll → ∃ firmware phase',
      eventStep s.firmware (moveWord writes data s) = some firmware ∧
        InPhase firmware (recordEvent s.firmware s.ledger (moveWord writes data s)) phase' ∧
        (∀ k, phase' ≠ .failed k) ∧ phase'.rank order firmware = phase.rank order s.firmware) :
    Progress writes data order s phase := by
  rcases serving.host with polls | ⟨left, moving, _⟩
  · rcases serving.access with free | waiting
    · let next : Session :=
        { disk :=
            { bus := { s.disk.bus with access := some (.read statusRaw) }
              ledger := s.ledger }
          host := .poll }
      have recorded : recordedStep s.disk (.access (.read statusRaw)) = some next.disk := by
        rw [recordedStep, busStep, show s.disk.bus.access = none from free]
        rfl
      refine ⟨.host, next, phase, ?_, punctual_of_ne Turn.noConfusion, inPhase, sound, ?_⟩
      · simp only [sessionStep, hostStep, polls, askStatus, recorded, Option.map_some]
        rfl
      · have before : s.hostRank = 2 := by
          simp only [Session.hostRank, polls, if_pos free]
        have after : next.hostRank = 1 := rfl
        unfold workLeft
        rw [before, after]
        exact Nat.add_lt_add_left (by decide) _
    · let next : Session :=
        { disk :=
            { bus := { firmware := (readRegister statusRaw s.firmware).2, access := none }
              ledger := s.ledger }
          host := .move 256 }
      have recorded : recordedStep s.disk .readIsr = some next.disk := by
        rw [recordedStep, busStep, show s.disk.bus.access = _ from waiting]
        rfl
      refine ⟨.readIsr, next, phase, ?_, fun _ _ pending => ?_,
        inPhase.readRegister statusRaw, sound, ?_⟩
      · simp only [sessionStep, waiting, recorded, Option.map_some, asks polls]
        rfl
      · rw [served] at pending
        cases pending
      · have before : s.hostRank = 1 := by
          have busy : s.access ≠ none := by
            rw [waiting]
            exact Option.some_ne_none _
          simp only [Session.hostRank, polls, if_neg busy]
        have after : next.hostRank = 0 := rfl
        have rank : phase.rank order next.firmware = phase.rank order s.firmware :=
          phase.rank_congr order (keptOf_readRegister _ _).core1
        unfold workLeft
        rw [before, after, rank]
        exact Nat.add_lt_add_left Nat.one_pos _
  · have away : s.host ≠ .poll := by
      rw [moving]
      exact Host.noConfusion
    obtain ⟨firmware, phase', enabled, after, sound', rank⟩ := word away
    let next : Session :=
      { disk :=
          { bus := { s.disk.bus with firmware := firmware }
            ledger := recordEvent s.firmware s.ledger (moveWord writes data s) }
        host := if left = 0 then .poll else .move left }
    have recorded : recordedStep s.disk (.event (moveWord writes data s)) = some next.disk := by
      rw [recordedStep, busStep, show eventStep s.disk.bus.firmware _ = _ from enabled]
      rfl
    refine ⟨.host, next, phase', ?_, punctual_of_ne Turn.noConfusion, after, sound', ?_⟩
    · simp only [sessionStep, hostStep, moving, recorded, Option.map_some]
      rfl
    · have moved : movedWords writes next.ledger = movedWords writes s.ledger + 1 :=
        movedWords_moveWord enabled
      have ranks : phase'.rank order next.firmware = phase.rank order s.firmware := rank
      have hostBound : next.hostRank ≤ 2 := by
        unfold Session.hostRank
        split
        · exact Nat.zero_le _
        · split <;> decide
      unfold workLeft
      rw [moved, ranks]
      omega

theorem progress_sending (serving : Serving order card false data s)
    (inPhase : InPhase s.firmware s.ledger (.sending k position)) (small : position < 256) :
    Progress false data order s (.sending k position) := by
  have delivers : s.ledger.order.Delivers := inPhase.suits
  have full : s.firmware.dataTx.length = 4 := inPhase.holding.2.2.resolve_left (by omega)
  have words := (inPhase.words delivers).1
  have length := (inPhase.sent_prefix delivers).length_le
  rw [← words, List.length_append, Order.words_length, full, serving.order_eq] at length
  refine progress_host serving inPhase (fun _ => Phase.noConfusion) (fun _ => ?_)
    (show s.ledger.taken.length < 256 * order.count by omega) ?_ (fun _ => ?_)
  · rw [readRegister_status, show (statusPatch s.firmware).regStatus = drqStatus
      from inPhase.statusPatch.shows]
    exact seeStatus_drq
  · rw [(workOf_eq.mp inPhase.work).2.2.2.2.2.1]
    exact decide_eq_false (Nat.ne_of_lt small)
  · match tx : s.firmware.dataTx with
    | [] =>
        rw [tx] at full
        cases full
    | word :: rest =>
        have taken := inPhase.takeSending tx small
        refine ⟨pumpB { s.firmware with dataTx := rest }, .sending k (position + 1), ?_, ?_,
          fun _ => Phase.noConfusion, rfl⟩
        · simp only [moveWord, Bool.false_eq_true, if_false, eventStep, tx]
        · simp only [moveWord, Bool.false_eq_true, if_false, recordEvent, tx]
          exact taken

theorem progress_receiving (serving : Serving order card true data s)
    (inPhase : InPhase s.firmware s.ledger (.receiving k position)) (small : position < 256) :
    Progress true data order s (.receiving k position) := by
  obtain ⟨_, filled, empty⟩ := inPhase.holding
  have counted := inPhase.counted k rfl
  have more : k < order.count := by
    rw [← serving.order_eq]
    exact counted.more
  have nothing : s.firmware.dataRx = [] := empty.resolve_left (by omega)
  have length : s.ledger.given.length = 256 * k + position := by
    rw [nothing] at filled
    exact filled.length_eq
  refine progress_host serving inPhase (fun _ => Phase.noConfusion) (fun _ => ?_)
    (show s.ledger.given.length < 256 * order.count by omega)
    (workOf_eq.mp inPhase.work).2.2.2.2.2.1 (fun _ => ?_)
  · have shows := inPhase.statusPatch.shows.resolve_right fun ⟨full, _⟩ => by omega
    rw [readRegister_status, shows]
    exact seeStatus_drq
  · have given := inPhase.giveReceiving (data s.ledger.given.length) small
    refine ⟨pumpC { s.firmware with
        dataRx := s.firmware.dataRx ++ [data s.ledger.given.length] },
      .receiving k (position + 1), ?_, ?_, fun _ => Phase.noConfusion, rfl⟩
    · have room : s.firmware.dataRx.length < 4 := by
        rw [nothing]
        decide
      simp only [moveWord, if_true, eventStep, if_pos room]
    · simp only [moveWord, if_true, recordEvent]
      exact given

theorem progress_draining (serving : Serving order card false data s) (paced : Paced false s)
    (kind : order.kind = .read) (inPhase : InPhase s.firmware s.ledger .done)
    (some : s.firmware.dataTx ≠ []) : Progress false data order s .done := by
  have read : s.ledger.order.kind = .read := serving.kind_eq.trans kind
  obtain ⟨whole, room⟩ := serving.sent_whole inPhase (.inl read) fun _ _ => Phase.noConfusion
  have whole : _ = order.words card order.count := whole
  have length := congrArg List.length whole
  rw [List.length_append, Order.words_length] at length
  have positive := List.length_pos_iff.mpr some
  have away : s.host ≠ .poll := fun polls => by
    have calls := inPhase.completed_done read
    rw [serving.order_eq] at calls
    have none := paced.left_of_words serving whole room calls
    rw [polls] at none
    exact Nat.ne_of_gt positive none
  refine progress_host serving inPhase (fun _ => Phase.noConfusion) (fun polls => absurd polls away)
    (show s.ledger.taken.length < 256 * order.count by omega)
    (workOf_eq.mp inPhase.work).2.2.2.2.2.1 (fun _ => ?_)
  match tx : s.firmware.dataTx with
  | [] => exact absurd tx some
  | word :: rest =>
      have idle : s.firmware.dmaB = none := (workOf_eq.mp inPhase.work).2.2.2.1
      have taken := inPhase.takeIdle tx idle
      refine ⟨{ s.firmware with dataTx := rest }, .done, ?_, ?_, fun _ => Phase.noConfusion, rfl⟩
      · simp only [moveWord, Bool.false_eq_true, if_false, eventStep, tx]
        rw [pumpB_idle (s := { s.firmware with dataTx := rest }) idle]
      · simp only [moveWord, Bool.false_eq_true, if_false, recordEvent, tx]
        exact taken

/-- Nothing is left to do. -/
def Finished (writes : Bool) (s : Session) (phase : Phase) : Prop :=
  phase = .done ∧ (writes = false → s.firmware.dataTx = [])

theorem Serving.progress (serving : Serving order card writes data s) (paced : Paced writes s)
    (inPhase : InPhase s.firmware s.ledger phase) (kind : order.kind = orderKind writes)
    (sound : ∀ k, phase ≠ .failed k) :
    Finished writes s phase ∨ Progress writes data order s phase := by
  have orderEq := serving.order_eq
  have suits := inPhase.suits
  rw [orderEq] at suits
  cases phase with
  | rest =>
      have none : order.kind = .none := suits
      rw [kind] at none
      cases writes <;> cases none
  | failed k => exact absurd rfl (sound k)
  | fetchWanted k => exact .inr (progress_fetchWanted inPhase)
  | fetching k => exact .inr (progress_fetching inPhase)
  | flushWanted k => exact .inr (progress_flushWanted inPhase)
  | flushing k => exact .inr (progress_flushing orderEq inPhase)
  | done =>
      cases writes with
      | true => exact .inl ⟨rfl, Bool.noConfusion⟩
      | false =>
          by_cases empty : s.firmware.dataTx = []
          · exact .inl ⟨rfl, fun _ => empty⟩
          · exact .inr (progress_draining serving paced kind inPhase empty)
  | sending k position =>
      cases writes with
      | true =>
          have delivers : order.Delivers := suits
          exact absurd kind delivers.not_write
      | false =>
          rcases Nat.lt_or_eq_of_le inPhase.holding.1 with small | rfl
          · exact .inr (progress_sending serving inPhase small)
          · exact .inr (progress_sent orderEq inPhase)
  | receiving k position =>
      cases writes with
      | true =>
          rcases Nat.lt_or_eq_of_le inPhase.holding.1 with small | rfl
          · exact .inr (progress_receiving serving inPhase small)
          · exact .inr (progress_received inPhase)
      | false =>
          have write : order.kind = .write := suits
          rw [kind] at write
          cases write

theorem Serving.finished (serving : Serving order card writes data s) (paced : Paced writes s)
    (inPhase : InPhase s.firmware s.ledger phase) (kind : order.kind = orderKind writes)
    (finished : Finished writes s phase) : AtPoll writes order card s s := by
  obtain ⟨rfl, drained⟩ := finished
  have status : s.firmware.regStatus = IDE_STATUS_DRDY := inPhase.shows
  have none : s.ledger.failures = [] := inPhase.failures
  cases writes with
  | true =>
      refine ⟨paced.polls_of_write serving ?_, rfl, fun _ => ⟨⟨serving.order_eq, status⟩,
        fun other => Bool.noConfusion other⟩, fun some => absurd none some⟩
      rw [status]
      decide
  | false =>
      have rule := serving.readRule paced kind
      have empty := drained rfl
      obtain ⟨words, left⟩ := rule.complete ⟨serving.order_eq, status⟩
      rw [empty] at words left
      rw [List.append_nil] at words
      exact ⟨serving.poll_of_left left.symm, rfl, fun _ => ⟨⟨serving.order_eq, status⟩,
        fun _ => words⟩, fun some => absurd none some⟩

theorem AtPoll.of_failures {last : Session} (ended : AtPoll writes order card t last)
    (same : t.ledger.failures = s.ledger.failures) : AtPoll writes order card s last where
  polls := ended.polls
  failures := ended.failures.trans same
  done none := ended.done (same.trans none)
  failed some := ended.failed (same ▸ some)

theorem canFinish_of_step {turn : Turn} (taken : sessionStep writes data s turn = some t)
    (punctual : Punctual writes s turn) (same : t.ledger.failures = s.ledger.failures)
    (finish : CanFinish writes data order card t) : CanFinish writes data order card s := by
  obtain ⟨turns, last, run, guarded, ended⟩ := finish
  exact ⟨turn :: turns, last, exec_cons_eq_some.mpr ⟨t, taken, run⟩,
    guarded_cons_of_step punctual taken guarded, ended.of_failures same⟩

theorem InPhase.no_failures {f : Firmware} {l : Ledger} (inPhase : InPhase f l phase)
    (sound : ∀ k, phase ≠ .failed k) : l.failures = [] := by
  rw [inPhase.failures]
  cases phase with
  | failed k => exact absurd rfl (sound k)
  | _ => rfl

theorem serving_finishes (kind : order.kind = orderKind writes) (n : Nat) (s : Session)
    (phase : Phase) (serving : Serving order card writes data s) (paced : Paced writes s)
    (inPhase : InPhase s.firmware s.ledger phase) (sound : ∀ k, phase ≠ .failed k)
    (bound : workLeft writes order s phase ≤ n) : CanFinish writes data order card s := by
  induction n generalizing s phase with
  | zero =>
      rcases serving.progress paced inPhase kind sound with
        finished | ⟨_, _, _, _, _, _, _, less⟩
      · exact ⟨[], s, rfl, trivial, serving.finished paced inPhase kind finished⟩
      · omega
  | succ n inductionHypothesis =>
      rcases serving.progress paced inPhase kind sound with
        finished | ⟨turn, next, phase', taken, punctual, inPhase', sound', less⟩
      · exact ⟨[], s, rfl, trivial, serving.finished paced inPhase kind finished⟩
      · refine canFinish_of_step taken punctual
          ((inPhase'.no_failures sound').trans (inPhase.no_failures sound).symm) ?_
        exact inductionHypothesis next phase' (serving.step taken)
          (paced.step serving kind punctual taken) inPhase' sound' (by omega)

/-- After a failure the 68k fetches the words that are left in the FIFO, and is back at its poll. -/
theorem failed_finishes (kind : order.kind = orderKind writes) (n : Nat) (s : Session)
    (serving : Serving order card writes data s) (paced : Paced writes s)
    (inPhase : InPhase s.firmware s.ledger (.failed k)) (bound : s.host.left = n) :
    CanFinish writes data order card s := by
  have some : s.ledger.failures ≠ [] := by
    rw [inPhase.failures]
    exact List.cons_ne_nil _ _
  have status : s.firmware.regStatus = errorStatus := inPhase.shows
  induction n generalizing s with
  | zero =>
      exact ⟨[], s, rfl, trivial, serving.poll_of_left bound, rfl, fun none => absurd none some,
        fun _ => status⟩
  | succ n inductionHypothesis =>
      cases writes with
      | true =>
          have polls := paced.polls_of_write serving (by rw [status]; decide)
          rw [polls] at bound
          cases bound
      | false =>
          have moving : s.host = .move (n + 1) := by
            rcases serving.host with polls | ⟨left, moving, _⟩
            · rw [polls] at bound
              cases bound
            · rw [moving] at bound
              rw [moving, show left + 1 = n + 1 from bound]
          have read : s.ledger.order.kind = .read := serving.kind_eq.trans kind
          obtain ⟨moved, room⟩ := serving.sent_whole inPhase (.inl read) fun _ _ => Phase.noConfusion
          have length := paced.left_of_words serving moved room (inPhase.completed_failed read)
          match tx : s.firmware.dataTx with
          | [] =>
              rw [tx, bound] at length
              cases length
          | word :: rest =>
              have idle : s.firmware.dmaB = none := (workOf_eq.mp inPhase.work).2.2.2.1
              have after := inPhase.takeIdle tx idle
              let next : Session :=
                { disk :=
                    { bus := { s.disk.bus with firmware := { s.firmware with dataTx := rest } }
                      ledger := { s.ledger with taken := s.ledger.taken ++ [word] } }
                  host := if n = 0 then .poll else .move n }
              have enabled : eventStep s.disk.bus.firmware (moveWord false data s) =
                  Option.some { s.firmware with dataTx := rest } := by
                simp only [moveWord, Bool.false_eq_true, if_false, eventStep,
                  show s.disk.bus.firmware.dataTx = word :: rest from tx]
                rw [pumpB_idle (s := { s.firmware with dataTx := rest }) idle]
              have recorded : recordedStep s.disk (.event (moveWord false data s)) =
                  Option.some next.disk := by
                rw [recordedStep, busStep, enabled]
                simp only [Option.map_some, record, moveWord, Bool.false_eq_true, if_false,
                  recordEvent, show s.disk.bus.firmware.dataTx = word :: rest from tx,
                  List.take_succ_cons, List.take_zero]
                rfl
              have taken : sessionStep false data s .host = Option.some next := by
                simp only [sessionStep, hostStep, moving, recorded, Option.map_some]
                rfl
              have fewer : next.host.left = n := by
                show (if n = 0 then Host.poll else .move n).left = n
                split
                · next last => exact last.symm
                · rfl
              refine canFinish_of_step taken (punctual_of_ne Turn.noConfusion) rfl ?_
              exact inductionHypothesis next (serving.step taken)
                (paced.step serving kind (punctual_of_ne Turn.noConfusion) taken) after fewer some
                status

theorem Serving.canFinish (serving : Serving order card writes data s) (paced : Paced writes s)
    (kind : order.kind = orderKind writes) : CanFinish writes data order card s := by
  obtain ⟨phase, inPhase⟩ := serving.phase
  by_cases sound : ∀ k, phase ≠ .failed k
  · exact serving_finishes kind _ s phase serving paced inPhase sound (Nat.le_refl _)
  · obtain ⟨k, failed⟩ := not_forall.mp sound
    cases not_not.mp failed
    exact failed_finishes kind _ s serving paced inPhase rfl

/-! ## Before the command -/

variable {start : Firmware} {taskfile : List Raw} {command : Raw} {left : Nat}

theorem Preparing.fresh (preparing : Preparing start taskfile command left s) :
    s.ledger = openLedger noOrder start.card ∧ s.firmware.card = start.card := by
  obtain ⟨finished, rest, taken, _⟩ := preparing
  refine ⟨taken.ledger, ?_⟩
  have card := taken.idle.card (by rw [taken.ledger]; exact Kind.noConfusion)
  rw [card, taken.ledger]
  rfl

theorem Preparing.readRule (preparing : Preparing start taskfile command left s)
    (kind : order.kind ≠ .none) : ReadRule order start.card s := by
  obtain ⟨ledger, card⟩ := preparing.fresh
  exact
    { inOrder := by
        rw [ledger]
        exact List.nil_prefix
      calls := ⟨0, Nat.zero_le _, by rw [ledger]; rfl⟩
      unchanged := card
      complete := fun ⟨accepted, _⟩ => by
        rw [ledger] at accepted
        rw [← accepted] at kind
        exact absurd rfl kind
      failed := fun sector among => by
        rw [ledger] at among
        exact absurd among List.not_mem_nil }

theorem Preparing.writeRule (preparing : Preparing start taskfile command left s)
    (kind : order.kind ≠ .none) : WriteRule order start.card data s := by
  obtain ⟨ledger, card⟩ := preparing.fresh
  exact
    { given := by
        rw [ledger]
        rfl
      calls := ⟨0, Nat.zero_le _, by rw [ledger]; rfl⟩
      stored := by
        refine ⟨0, ?_⟩
        exact
          { bound := Nat.zero_le _
            given := Nat.zero_le _
            written := fun i less => absurd less (Nat.not_lt_zero i)
            others := fun sector _ => by rw [card]
            complete := fun ⟨accepted, _⟩ => by
              rw [ledger] at accepted
              rw [← accepted] at kind
              exact absurd rfl kind
            busy := fun _ full => by
              rw [ledger] at full
              exact absurd (show 256 * (0 + 1) ≤ 0 from full) (by decide)
            failed := fun sector among => by
              rw [ledger] at among
              exact absurd among List.not_mem_nil } }

theorem paced_accepted (polls : s.host = .poll) (nothing : s.ledger.taken = []) :
    Paced writes s := by
  refine ⟨fun _ => ?_, fun _ => .inl (by rw [polls]; rfl)⟩
  rw [nothing, polls]
  exact Nat.zero_le _

theorem Preparing.canFinish (n : Nat) (bound : left ≤ n)
    (preparing : Preparing start taskfile command left s)
    (registers : ∀ raw ∈ taskfile, rawAddr raw ≠ IDE_REG_STATUS_CMD)
    (isCommand : rawAddr command = IDE_REG_STATUS_CMD) (code : rawData command = commandOf writes) :
    CanFinish writes data (orderOf (commandOf writes) (written taskfile start)) start.card s := by
  have none : s.ledger.failures = [] := by
    rw [preparing.fresh.1]
    rfl
  obtain ⟨turn, own, enabled⟩ := preparing.enabled writes data
  obtain ⟨t, taken⟩ := Option.isSome_iff_exists.mp enabled
  have punctual : Punctual writes s turn := by
    apply punctual_of_ne
    rcases own with rfl | rfl <;> exact Turn.noConfusion
  induction n generalizing left s t turn with
  | zero =>
      rcases preparing.step registers isCommand code taken with
        ⟨left', _, less⟩ | ⟨serving, polls, nothing, sound⟩
      · exact absurd (less own) (by omega)
      · exact canFinish_of_step taken punctual (sound.trans none.symm)
          (serving.canFinish (paced_accepted polls nothing) (orderOf_command writes _))
  | succ n inductionHypothesis =>
      rcases preparing.step registers isCommand code taken with
        ⟨left', preparing', less⟩ | ⟨serving, polls, nothing, sound⟩
      · have fewer := less own
        have still : t.ledger.failures = [] := by
          rw [preparing'.fresh.1]
          rfl
        obtain ⟨turn', own', enabled'⟩ := preparing'.enabled writes data
        obtain ⟨t', taken'⟩ := Option.isSome_iff_exists.mp enabled'
        have punctual' : Punctual writes t turn' := by
          apply punctual_of_ne
          rcases own' with rfl | rfl <;> exact Turn.noConfusion
        exact canFinish_of_step taken punctual (still.trans none.symm)
          (inductionHypothesis (by omega) preparing' still turn' own' enabled' t' taken' punctual')
      · exact canFinish_of_step taken punctual (sound.trans none.symm)
          (serving.canFinish (paced_accepted polls nothing) (orderOf_command writes _))

/-! ## Sessions -/

def sectorCount (count : Byte) : Nat := if count = 0 then 256 else count.toNat

/-- The sectors from `lba` on. -/
def transfer (writes : Bool) (lba : Nat) (count : Byte) : Order where
  kind := orderKind writes
  first := BitVec.ofNat 32 lba
  count := sectorCount count

theorem sectorCountFromReg_toNat (f : Firmware) :
    (sectorCountFromReg f).toNat = sectorCount f.regSectorCount := by
  unfold sectorCountFromReg sectorCount
  split
  · rfl
  · rw [BitVec.zeroExtend, BitVec.toNat_setWidth_of_le (by decide)]

theorem orderOf_transfer {lba : Nat} {count : Byte} {f : Firmware}
    (address : (currentLbaFromRegs f).toNat = lba) (sectors : f.regSectorCount = count) :
    orderOf (commandOf writes) f = transfer writes lba count := by
  have first : currentLbaFromRegs f = BitVec.ofNat 32 lba := by
    rw [← address, BitVec.ofNat_toNat, BitVec.setWidth_eq]
  have moves : (sectorCountFromReg f).toNat = sectorCount count := by
    rw [sectorCountFromReg_toNat, sectors]
  cases writes
  · rw [orderOf, if_pos (by rfl), first, moves]
    rfl
  · rw [orderOf, if_neg (by decide), if_pos (by rfl), first, moves]
    rfl

theorem sectorCount_le (count : Byte) : sectorCount count ≤ 256 := by
  unfold sectorCount
  split
  · exact Nat.le_refl _
  · exact Nat.le_of_lt count.isLt

theorem transfer_lba_toNat {lba : Nat} {count : Byte} (small : lba < 2 ^ 28) {i : Nat}
    (less : i < sectorCount count) : ((transfer writes lba count).lba i).toNat = lba + i := by
  have bound := sectorCount_le count
  simp only [transfer, Order.lba, BitVec.toNat_add, BitVec.toNat_ofNat]
  omega

theorem session_invariant (idle : Idle start)
    (registers : ∀ raw ∈ taskfile, rawAddr raw ≠ IDE_REG_STATUS_CMD)
    (isCommand : rawAddr command = IDE_REG_STATUS_CMD) (code : rawData command = commandOf writes)
    {turns : List Turn}
    (punctual : Guarded (sessionStep writes data) (Punctual writes)
      (initialSession start taskfile command) turns)
    (run : exec (sessionStep writes data) (initialSession start taskfile command) turns = some s) :
    (∃ left, Preparing start taskfile command left s) ∨
      Serving (orderOf (commandOf writes) (written taskfile start)) start.card writes data s ∧
        Paced writes s := by
  refine invariant_of_guarded (fun s => (∃ left, Preparing start taskfile command left s) ∨
    Serving (orderOf (commandOf writes) (written taskfile start)) start.card writes data s ∧
      Paced writes s) ?_ (.inl (preparing_initial idle)) punctual run
  rintro s turn t (⟨left, preparing⟩ | ⟨serving, paced⟩) punctual taken
  · rcases preparing.step registers isCommand code taken with
      ⟨left', preparing', _⟩ | ⟨serving, polls, nothing, _⟩
    · exact .inl ⟨left', preparing'⟩
    · exact .inr ⟨serving, paced_accepted polls nothing⟩
  · exact .inr ⟨serving.step taken, paced.step serving (orderOf_command writes _) punctual taken⟩

/-- The words of a transfer arrive in order, a failure ends it where it happened, and the 68k can
come back to its poll and see the end. -/
def Transferred (start : Firmware) (lba : Nat) (count : Byte) (writes : Bool) (data : Nat → Word)
    (s : Session) : Prop :=
  (∀ i < sectorCount count, ((transfer writes lba count).lba i).toNat = lba + i) ∧
    (writes = false → ReadRule (transfer writes lba count) start.card s) ∧
    (writes = true → WriteRule (transfer writes lba count) start.card data s) ∧
    CanFinish writes data (transfer writes lba count) start.card s

/-- In every session whose status reads are punctual, at every moment: a read delivers its sectors
in order, a write stores the words it was given in order, and the 68k gets back to its poll. -/
theorem sectors_transferred (start : Firmware) (idle : Idle start) (lba : Nat) (small : lba < 2 ^ 28)
    (count : Byte) (taskfile : List Raw)
    (registers : ∀ raw ∈ taskfile, rawAddr raw ≠ IDE_REG_STATUS_CMD)
    (address : (currentLbaFromRegs (written taskfile start)).toNat = lba)
    (sectors : (written taskfile start).regSectorCount = count) (writes : Bool) (command : Raw)
    (isCommand : rawAddr command = IDE_REG_STATUS_CMD) (code : rawData command = commandOf writes)
    (data : Nat → Word) (turns : List Turn)
    (punctual : Guarded (sessionStep writes data) (Punctual writes)
      (initialSession start taskfile command) turns) (s : Session)
    (run : exec (sessionStep writes data) (initialSession start taskfile command) turns = some s) :
    Transferred start lba count writes data s := by
  have order : orderOf (commandOf writes) (written taskfile start) = transfer writes lba count :=
    orderOf_transfer address sectors
  have kind : (transfer writes lba count).kind = orderKind writes := rfl
  have some : (transfer writes lba count).kind ≠ .none := by
    rw [kind]
    cases writes <;> exact Kind.noConfusion
  refine ⟨fun i less => transfer_lba_toNat small less, ?_⟩
  rcases session_invariant idle registers isCommand code punctual run with
    ⟨left, preparing⟩ | ⟨serving, paced⟩
  · refine ⟨fun _ => preparing.readRule some, fun _ => preparing.writeRule some, ?_⟩
    rw [← order]
    exact preparing.canFinish left (Nat.le_refl _) registers isCommand code
  · rw [order] at serving
    refine ⟨fun reads => ?_, fun writes => ?_, serving.canFinish paced kind⟩
    · subst reads
      exact serving.readRule paced kind
    · subst writes
      have bound := sectorCount_le count
      exact serving.writeRule paced kind (show sectorCount count ≤ 2 ^ 32 by omega)

section Examples

/-- Each sector of the card holds its own number. -/
def numberedFirmware : Firmware := initialFirmware 0 (fun lba _ => lba.truncate 16) fun _ _ => 0

def numberedSession (count : Byte) : Session :=
  initialSession numberedFirmware [rawOf IDE_REG_SECTOR_COUNT count, rawOf IDE_REG_LBA_LOW 5]
    (rawOf IDE_REG_STATUS_CMD IDE_CMD_READ_SECTORS)

/-- Up to the last word of the first sector. -/
def firstSector : List Turn :=
  [.host, .writeIsr, .host, .writeIsr, .host, .writeIsr, .core1 true, .host, .core1 true,
    .readIsr] ++ List.replicate 256 .host

theorem registers_numbered {count : Byte} : ∀ raw ∈
    [rawOf IDE_REG_SECTOR_COUNT count, rawOf IDE_REG_LBA_LOW 5], rawAddr raw ≠ IDE_REG_STATUS_CMD := by
  have first : ∀ count : Byte, rawAddr (rawOf IDE_REG_SECTOR_COUNT count) ≠ IDE_REG_STATUS_CMD := by
    decide +kernel
  have low : rawAddr (rawOf IDE_REG_LBA_LOW 5) ≠ IDE_REG_STATUS_CMD := by decide
  intro raw among
  rcases List.mem_cons.mp among with rfl | among
  · exact first count
  · exact List.mem_singleton.mp among ▸ low

/-- A read of the sectors 5 and 6, up to the second word of the second. -/
theorem sectors_transferred_two :
    ∃ s, exec (sessionStep false fun _ => 0) (numberedSession 2)
        (firstSector ++ [.host, .dmaBIsr, .readIsr, .core1 true, .host, .core1 true, .core1 true,
          .readIsr, .host, .host]) = some s ∧
      Transferred numberedFirmware 5 2 false (fun _ => 0) s := by
  have taken : (exec (sessionStep false fun _ => 0) (numberedSession 2)
      (firstSector ++ [.host, .dmaBIsr, .readIsr, .core1 true, .host, .core1 true, .core1 true,
        .readIsr, .host, .host])).isSome = true := by
    decide +kernel
  obtain ⟨s, run⟩ := Option.isSome_iff_exists.mp taken
  exact ⟨s, run, sectors_transferred numberedFirmware ⟨rfl, rfl, .inl rfl⟩ 5 (by decide) 2
    [rawOf IDE_REG_SECTOR_COUNT 2, rawOf IDE_REG_LBA_LOW 5] registers_numbered
    (by decide +kernel) (by decide +kernel) false
    (rawOf IDE_REG_STATUS_CMD IDE_CMD_READ_SECTORS) (by decide) (by decide +kernel) (fun _ => 0)
    _ (guarded_of_check (by decide +kernel)) s run⟩

/-- The status read behind the last word of a read still shows DRQ, and the 68k sets out for a
sector that never comes. -/
theorem status_stale_after_last_word :
    ¬ ∀ (start : Firmware), Idle start → ∀ (lba : Nat), lba < 2 ^ 28 → ∀ (count : Byte)
      (taskfile : List Raw), (∀ raw ∈ taskfile, rawAddr raw ≠ IDE_REG_STATUS_CMD) →
      (currentLbaFromRegs (written taskfile start)).toNat = lba →
      (written taskfile start).regSectorCount = count → ∀ (writes : Bool) (command : Raw),
      rawAddr command = IDE_REG_STATUS_CMD → rawData command = commandOf writes →
      ∀ (data : Nat → Word) (turns : List Turn) (s : Session),
      exec (sessionStep writes data) (initialSession start taskfile command) turns = some s →
      Transferred start lba count writes data s := by
  intro always
  have stuck : (exec (sessionStep false fun _ => 0) (numberedSession 1)
      (firstSector ++ [.host, .readIsr, .dmaBIsr])).any (fun s =>
        decide (s.firmware.regStatus = IDE_STATUS_DRDY ∧ s.firmware.dataTx = [] ∧
          s.ledger.order = transfer false 5 1 ∧ s.host = .move 256)) = true := by
    decide +kernel
  obtain ⟨s, run, facts⟩ := Option.any_eq_true _ _ |>.mp stuck
  obtain ⟨status, empty, order, host⟩ := of_decide_eq_true facts
  obtain ⟨_, rule, _⟩ := always numberedFirmware ⟨rfl, rfl, .inl rfl⟩ 5 (by decide) 1
    [rawOf IDE_REG_SECTOR_COUNT 1, rawOf IDE_REG_LBA_LOW 5] registers_numbered
    (by decide +kernel) (by decide +kernel) false
    (rawOf IDE_REG_STATUS_CMD IDE_CMD_READ_SECTORS) (by decide) (by decide +kernel) (fun _ => 0)
    _ s run
  have left := ((rule rfl).complete ⟨order, status⟩).2
  rw [empty, host] at left
  cases left

end Examples

end OrionBios.PicoIde
