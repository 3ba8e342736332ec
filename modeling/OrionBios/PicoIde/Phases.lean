import OrionBios.PicoIde.Ledger

/-!
# The phases of a command

While no command is accepted before core 1 has done what an earlier one asked for, the
firmware owes the current command exactly one piece of work, and that piece is its
phase. The phases say how the sector counter, the address, the staging buffers and the
FIFOs stand to the ledger. Each step of the disk is shown here to lead from a phase to
a phase.
-/

namespace OrionBios.PicoIde

/-! ## Pending work -/

inductive SdCall where
  | read (buffer : Fin 2) (lba : BitVec 32)
  | write (buffer : Fin 2) (lba : BitVec 32)
  deriving DecidableEq, Repr

def Core1.call : Core1 → Option SdCall
  | .fetching buffer lba => some (.read buffer lba)
  | .flushing buffer lba => some (.write buffer lba)
  | _ => none

/-- What is still to be done: requests to core 1, a call in progress, busy channels and
their pending interrupts. -/
structure Work where
  fetch : Bool
  flush : Bool
  call : Option SdCall
  dmaB : Option Dma
  dmaC : Option Dma
  ints0 : Bool
  ints1 : Bool
  deriving DecidableEq, Repr

def noWork : Work where
  fetch := false
  flush := false
  call := none
  dmaB := none
  dmaC := none
  ints0 := false
  ints1 := false

def workOf (s : Firmware) : Work where
  fetch := s.needFetch
  flush := s.needFlush
  call := s.core1.call
  dmaB := s.dmaB
  dmaC := s.dmaC
  ints0 := s.ints0
  ints1 := s.ints1

theorem core1_of_read {core1 : Core1} {buffer : Fin 2} {lba : BitVec 32}
    (call : core1.call = some (.read buffer lba)) : core1 = .fetching buffer lba := by
  cases core1 <;> simp_all [Core1.call]

theorem core1_of_write {core1 : Core1} {buffer : Fin 2} {lba : BitVec 32}
    (call : core1.call = some (.write buffer lba)) : core1 = .flushing buffer lba := by
  cases core1 <;> simp_all [Core1.call]

theorem core1_of_none {core1 : Core1} (call : core1.call = none) :
    core1 = .testFetch ∨ core1 = .testFlush := by
  cases core1 <;> simp_all [Core1.call]

/-! ## Phases -/

def errorStatus : Byte := IDE_STATUS_DRDY ||| IDE_STATUS_ERR

def busyStatus : Byte := IDE_STATUS_DRDY ||| IDE_STATUS_BSY

def drqStatus : Byte := IDE_STATUS_DRDY ||| IDE_STATUS_DRQ

/-- Where the current command stands; `k` counts the sectors it has moved. A channel at
position 256 has its interrupt pending. -/
inductive Phase where
  /-- There are no sectors to move. -/
  | rest
  | done
  | failed (k : Nat)
  | fetchWanted (k : Nat)
  | fetching (k : Nat)
  | sending (k position : Nat)
  | receiving (k position : Nat)
  | flushWanted (k : Nat)
  | flushing (k : Nat)
  deriving DecidableEq, Repr

namespace Phase

def work (s : Firmware) : Phase → Work
  | .rest | .done | .failed _ => noWork
  | .fetchWanted _ => { noWork with fetch := true }
  | .fetching _ => { noWork with call := some (.read s.activeBuf s.lba) }
  | .sending _ position =>
    { noWork with dmaB := channel s.activeBuf position, ints0 := decide (position = 256) }
  | .receiving _ position =>
    { noWork with dmaC := channel 0 position, ints1 := decide (position = 256) }
  | .flushWanted _ => { noWork with flush := true }
  | .flushing _ => { noWork with call := some (.write 0 s.lba) }

def dir : Phase → Dir
  | .rest | .done | .failed _ => .none
  | .fetchWanted _ | .fetching _ | .sending _ _ => .read
  | .receiving _ _ | .flushWanted _ | .flushing _ => .write

def Shows (status : Byte) : Phase → Prop
  | .rest => status = IDE_STATUS_DRDY ∨ status = errorStatus
  | .done => status = IDE_STATUS_DRDY
  | .failed _ => status = errorStatus
  | .sending _ _ => status = drqStatus
  | .receiving _ position => status = drqStatus ∨ position = 256 ∧ status = busyStatus
  | _ => status = busyStatus

def Suits (order : Order) : Phase → Prop
  | .rest => order.kind = .none
  | .done => order.kind ≠ .none
  | .failed k => (order.kind = .read ∨ order.kind = .write) ∧ k < order.count
  | .fetchWanted _ | .fetching _ => order.kind = .read
  | .sending _ _ => order.Delivers
  | .receiving _ _ | .flushWanted _ | .flushing _ => order.kind = .write

/-- The sectors moved so far, while there are more to move. -/
def current : Phase → Option Nat
  | .fetchWanted k | .fetching k | .sending k _ => some k
  | .receiving k _ | .flushWanted k | .flushing k => some k
  | _ => none

def moved (order : Order) : Phase → Nat
  | .rest => 0
  | .done => order.count
  | .failed k | .fetchWanted k | .fetching k | .sending k _ => k
  | .receiving k _ | .flushWanted k | .flushing k => k

/-- The number of calls of the SD driver so far. -/
def calls (order : Order) : Phase → Nat
  | .rest => 0
  | .done => order.count
  | .fetchWanted k | .receiving k _ | .flushWanted k => k
  | .failed k | .fetching k | .sending k _ | .flushing k => k + 1

def sent (l : Ledger) (phase : Phase) : List Word :=
  l.order.words l.card (phase.moved l.order) ++
    match phase with
    | .sending k position => (sectorWords (l.order.sector l.card k)).take position
    | _ => []

def failures (order : Order) : Phase → List (BitVec 32)
  | .failed k => [order.lba k]
  | _ => []

end Phase

/-- Of the words given, the first of sector `k` are in the buffer and those behind in the FIFO. -/
structure Filled (buffer : Sector) (fifo given : List Word) (k position : Nat) : Prop where
  buffer_eq : buffer = received (given.drop (256 * k)) position buffer
  fifo_eq : fifo = (given.drop (256 * k)).drop position
  enough : 256 * k + position ≤ given.length
  room : fifo.length ≤ 4

/-- What a phase says of the buffers, the FIFOs and the request to core 1. -/
def Phase.Holding (s : Firmware) (l : Ledger) : Phase → Prop
  | .fetchWanted _ => s.fetchBuf = s.activeBuf ∧ s.fetchLba = s.lba
  | .sending k position =>
    position ≤ 256 ∧ s.buf s.activeBuf = l.order.sector l.card k ∧
      (position = 256 ∨ s.dataTx.length = 4)
  | .receiving k position =>
    position ≤ 256 ∧ Filled (s.buf 0) s.dataRx l.given k position ∧
      (position = 256 ∨ s.dataRx = [])
  | .flushWanted k =>
    s.flushBuf = 0 ∧ s.flushLba = s.lba ∧ Filled (s.buf 0) s.dataRx l.given k 256
  | .flushing k => Filled (s.buf 0) s.dataRx l.given k 256
  | _ => True

/-- Counter and address agree with the number of sectors moved. -/
structure Counted (remaining : BitVec 16) (lba : BitVec 32) (order : Order) (k : Nat) : Prop where
  remaining_eq : remaining.toNat + k = order.count
  more : k < order.count
  lba_eq : lba = order.lba k

structure InPhase (s : Firmware) (l : Ledger) (phase : Phase) : Prop where
  suits : phase.Suits l.order
  work : workOf s = phase.work s
  dir : s.dir = phase.dir
  shows : phase.Shows s.regStatus
  counted : ∀ k, phase.current = some k → Counted s.remainingSectors s.lba l.order k
  holding : phase.Holding s l
  words : l.order.Delivers → l.taken ++ s.dataTx = phase.sent l ∧ s.dataTx.length ≤ 4
  begun : l.begun = l.order.calls (phase.calls l.order)
  failures : l.failures = phase.failures l.order
  card : l.order.kind ≠ .write → s.card = l.card
  written : l.order.kind = .write →
    s.card = overwrite l.card l.order l.given (phase.moved l.order) ∧
      256 * phase.moved l.order ≤ l.given.length

variable {s : Firmware} {l : Ledger} {phase : Phase} {k position : Nat}

/-! ## Steps of the 68k -/

theorem InPhase.withRegisters (inPhase : InPhase s l phase) (error count low mid high head : Byte) :
    InPhase { s with
      regErrorFeatures := error
      regSectorCount := count
      regLbaLow := low
      regLbaMid := mid
      regLbaHigh := high
      regDeviceHead := head } l phase where
  suits := inPhase.suits
  work := inPhase.work
  dir := inPhase.dir
  shows := inPhase.shows
  counted := inPhase.counted
  holding := inPhase.holding
  words := inPhase.words
  begun := inPhase.begun
  failures := inPhase.failures
  card := inPhase.card
  written := inPhase.written

theorem workOf_eq {work : Work} : workOf s = work ↔
    s.needFetch = work.fetch ∧ s.needFlush = work.flush ∧ s.core1.call = work.call ∧
      s.dmaB = work.dmaB ∧ s.dmaC = work.dmaC ∧ s.ints0 = work.ints0 ∧ s.ints1 = work.ints1 := by
  cases work
  simp [workOf]

/-- Only in the middle of a sector is `DMA_B` busy. -/
theorem InPhase.dmaB_busy (inPhase : InPhase s l phase) (busy : s.dmaB ≠ none) :
    ∃ k position, phase = .sending k position ∧ position < 256 := by
  have dmaB := (workOf_eq.mp inPhase.work).2.2.2.1
  rw [dmaB] at busy
  cases phase with
  | sending k position =>
      refine ⟨k, position, rfl, Nat.lt_of_le_of_ne inPhase.holding.1 fun last => busy ?_⟩
      subst last
      rfl
  | _ => exact absurd rfl busy

theorem InPhase.dmaC_busy (inPhase : InPhase s l phase) (busy : s.dmaC ≠ none) :
    ∃ k position, phase = .receiving k position ∧ position < 256 := by
  have dmaC := (workOf_eq.mp inPhase.work).2.2.2.2.1
  rw [dmaC] at busy
  cases phase with
  | receiving k position =>
      refine ⟨k, position, rfl, Nat.lt_of_le_of_ne inPhase.holding.1 fun last => busy ?_⟩
      subst last
      rfl
  | _ => exact absurd rfl busy

/-- A word is taken and `DMA_B` has nothing to put in its place. -/
theorem InPhase.takeIdle {word : Word} {rest : List Word} (inPhase : InPhase s l phase)
    (tx : s.dataTx = word :: rest) (idle : s.dmaB = none) :
    InPhase { s with dataTx := rest } { l with taken := l.taken ++ [word] } phase where
  suits := inPhase.suits
  work := inPhase.work
  dir := inPhase.dir
  shows := inPhase.shows
  counted := inPhase.counted
  holding := by
    have holding := inPhase.holding
    cases phase with
    | sending k position =>
        obtain ⟨bound, buffer, _⟩ := holding
        refine ⟨bound, buffer, .inl ?_⟩
        have dmaB : s.dmaB = channel s.activeBuf position := (workOf_eq.mp inPhase.work).2.2.2.1
        by_contra notLast
        rw [idle, channel_of_lt _ (Nat.lt_of_le_of_ne bound notLast)] at dmaB
        exact Option.some_ne_none _ dmaB.symm
    | _ => exact holding
  words delivers := by
    obtain ⟨words, room⟩ := inPhase.words delivers
    rw [tx] at words room
    refine ⟨?_, Nat.le_of_succ_le room⟩
    rw [List.append_assoc, List.singleton_append, words]
    rfl
  begun := inPhase.begun
  failures := inPhase.failures
  card := inPhase.card
  written := inPhase.written

/-- A word is taken in the middle of a sector: `DMA_B` moves the next one up. -/
theorem InPhase.takeSending {word : Word} {rest : List Word}
    (inPhase : InPhase s l (.sending k position)) (tx : s.dataTx = word :: rest)
    (small : position < 256) :
    InPhase (pumpB { s with dataTx := rest }) { l with taken := l.taken ++ [word] }
      (.sending k (position + 1)) := by
  obtain ⟨fetch, flush, call, dmaB, dmaC, ints0, ints1⟩ := workOf_eq.mp inPhase.work
  obtain ⟨bound, buffer, full⟩ := inPhase.holding
  obtain ⟨words, room⟩ := inPhase.words inPhase.suits
  have length : rest.length = 3 := by
    rcases full with last | full
    · omega
    · rw [tx] at full
      exact Nat.succ.inj full
  have start : ({ s with dataTx := rest } : Firmware) = sendAt s s.activeBuf position rest := by
    rw [sendAt, ← (show s.dmaB = channel s.activeBuf position from dmaB),
      ← (show s.ints0 = decide (position = 256) from ints0)]
  have count : min (4 - rest.length) (256 - position) = 1 := by omega
  rw [start, pumpB_sendAt s s.activeBuf bound, count]
  have counted := inPhase.counted k rfl
  exact
    { suits := inPhase.suits
      work := workOf_eq.mpr ⟨fetch, flush, call, rfl, dmaC, rfl, ints1⟩
      dir := inPhase.dir
      shows := inPhase.shows
      counted := fun k' here => by
        cases here
        exact counted
      holding := by
        refine ⟨small, buffer, .inr ?_⟩
        rw [sendAt, List.length_append, length, List.length_take, List.length_drop,
          sectorWords_length]
        omega
      words := fun _ => by
        constructor
        · rw [tx] at words
          simp only [sendAt, Phase.sent, Phase.moved, buffer] at words ⊢
          rw [List.take_add, ← List.append_assoc (l.order.words l.card k), ← words]
          simp
        · rw [sendAt, List.length_append, length, List.length_take]
          omega
      begun := inPhase.begun
      failures := inPhase.failures
      card := inPhase.card
      written := inPhase.written }

theorem InPhase.readData {next : Firmware} (inPhase : InPhase s l phase)
    (taken : eventStep s .readData = some next) :
    ∃ phase', InPhase next (recordEvent s l .readData) phase' ∧
      (phase' = phase ∨ ∃ k position, position < 256 ∧ phase = .sending k position ∧
        phase' = .sending k (position + 1)) := by
  match tx : s.dataTx with
  | [] =>
      rw [eventStep, tx] at taken
      exact absurd taken.symm (Option.some_ne_none _)
  | word :: rest =>
      simp only [eventStep, tx, Option.some.injEq] at taken
      simp only [recordEvent, tx, List.take_succ_cons, List.take_zero]
      subst taken
      by_cases idle : s.dmaB = none
      · rw [pumpB_idle (show ({ s with dataTx := rest } : Firmware).dmaB = none from idle)]
        exact ⟨phase, inPhase.takeIdle tx idle, .inl rfl⟩
      · obtain ⟨k, position, rfl, small⟩ := inPhase.dmaB_busy idle
        exact ⟨_, inPhase.takeSending tx small, .inr ⟨k, position, small, rfl, rfl⟩⟩

/-! ### Words that the 68k writes -/

theorem Filled.append {buffer : Sector} {fifo given : List Word}
    (filled : Filled buffer fifo given k position) (room : fifo.length < 4) (word : Word) :
    Filled buffer (fifo ++ [word]) (given ++ [word]) k position where
  buffer_eq := by
    have enough := filled.enough
    have behind : position ≤ (given.drop (256 * k)).length := by
      rw [List.length_drop]
      omega
    calc
      buffer = received (given.drop (256 * k)) position buffer := filled.buffer_eq
      _ = received (given.drop (256 * k) ++ [word]) position buffer :=
        (received_append word _ behind).symm
      _ = received ((given ++ [word]).drop (256 * k)) position buffer := by
        rw [List.drop_append_of_le_length (by omega)]
  fifo_eq := by
    have enough := filled.enough
    simp only [filled.fifo_eq, List.drop_drop]
    rw [List.drop_append_of_le_length enough]
  enough := by
    rw [List.length_append]
    exact Nat.le_add_right_of_le filled.enough
  room := by
    rw [List.length_append]
    exact room

theorem Filled.length_eq {buffer : Sector} {given : List Word}
    (filled : Filled buffer [] given k position) : given.length = 256 * k + position := by
  have fifo := filled.fifo_eq
  rw [List.drop_drop] at fifo
  exact Nat.le_antisymm (List.drop_eq_nil_iff.mp fifo.symm) filled.enough

theorem Filled.eq_receiveAt {given : List Word}
    (filled : Filled (s.buf 0) s.dataRx given k position) (dmaC : s.dmaC = channel 0 position)
    (ints1 : s.ints1 = decide (position = 256)) :
    s = receiveAt s 0 position (given.drop (256 * k)) := by
  rw [receiveAt, ← dmaC, ← ints1, ← filled.fifo_eq, ← filled.buffer_eq, Function.update_eq_self]

theorem filled_receiveAt (s : Firmware) {given : List Word} {k position : Nat}
    (enough : 256 * k + position ≤ given.length) (room : given.length ≤ 256 * k + position + 4) :
    Filled ((receiveAt s 0 position (given.drop (256 * k))).buf 0)
      (receiveAt s 0 position (given.drop (256 * k))).dataRx given k position where
  buffer_eq := by
    simp only [receiveAt, Function.update_self]
    exact (received_received _ _ _).symm
  fifo_eq := rfl
  enough := enough
  room := by
    simp only [receiveAt, List.length_drop]
    omega

theorem InPhase.written_append (inPhase : InPhase s l phase) (word : Word)
    (kind : l.order.kind = .write) :
    s.card = overwrite l.card l.order (l.given ++ [word]) (phase.moved l.order) ∧
      256 * phase.moved l.order ≤ (l.given ++ [word]).length := by
  obtain ⟨card, enough⟩ := inPhase.written kind
  refine ⟨?_, ?_⟩
  · rw [overwrite_append l.card l.order word enough]
    exact card
  · rw [List.length_append]
    exact Nat.le_add_right_of_le enough

/-- A word is written and `DMA_C` is not waiting for it. -/
theorem InPhase.giveIdle (inPhase : InPhase s l phase) (room : s.dataRx.length < 4) (word : Word)
    (idle : s.dmaC = none) :
    InPhase { s with dataRx := s.dataRx ++ [word] } { l with given := l.given ++ [word] }
      phase where
  suits := inPhase.suits
  work := inPhase.work
  dir := inPhase.dir
  shows := inPhase.shows
  counted := inPhase.counted
  holding := by
    have holding := inPhase.holding
    cases phase with
    | receiving k position =>
        obtain ⟨bound, filled, _⟩ := holding
        refine ⟨bound, filled.append room word, .inl ?_⟩
        have dmaC : s.dmaC = channel 0 position := (workOf_eq.mp inPhase.work).2.2.2.2.1
        by_contra notLast
        rw [idle, channel_of_lt _ (Nat.lt_of_le_of_ne bound notLast)] at dmaC
        exact Option.some_ne_none _ dmaC.symm
    | flushWanted k =>
        obtain ⟨buffer, lba, filled⟩ := holding
        exact ⟨buffer, lba, filled.append room word⟩
    | flushing k => exact holding.append room word
    | _ => exact holding
  words := inPhase.words
  begun := inPhase.begun
  failures := inPhase.failures
  card := inPhase.card
  written := inPhase.written_append word

/-- A word is written that `DMA_C` waits for. -/
theorem InPhase.giveReceiving (inPhase : InPhase s l (.receiving k position)) (word : Word)
    (small : position < 256) :
    InPhase (pumpC { s with dataRx := s.dataRx ++ [word] }) { l with given := l.given ++ [word] }
      (.receiving k (position + 1)) := by
  obtain ⟨fetch, flush, call, dmaB, dmaC, ints0, ints1⟩ := workOf_eq.mp inPhase.work
  obtain ⟨bound, filled, empty⟩ := inPhase.holding
  have nothing : s.dataRx = [] := by
    rcases empty with last | nothing
    · omega
    · exact nothing
  have length : l.given.length = 256 * k + position := by
    rw [nothing] at filled
    exact filled.length_eq
  have appended := filled.append (by rw [nothing]; decide) word
  have start : ({ s with dataRx := s.dataRx ++ [word] } : Firmware) =
      receiveAt { s with dataRx := s.dataRx ++ [word] } 0 position
        ((l.given ++ [word]).drop (256 * k)) := appended.eq_receiveAt dmaC ints1
  have behind : ((l.given ++ [word]).drop (256 * k)).length = position + 1 := by
    rw [List.length_drop, List.length_append, length, List.length_singleton]
    omega
  have count : min (((l.given ++ [word]).drop (256 * k)).length - position) (256 - position) = 1 := by
    omega
  rw [start, pumpC_receiveAt _ 0 bound (by omega), count]
  have counted := inPhase.counted k rfl
  exact
    { suits := inPhase.suits
      work := workOf_eq.mpr ⟨fetch, flush, call, dmaB, rfl, ints0, rfl⟩
      dir := inPhase.dir
      shows := .inl (inPhase.shows.resolve_right fun busy => by omega)
      counted := fun k' here => by
        cases here
        exact counted
      holding := by
        refine ⟨small, ?_, .inr ?_⟩
        · apply filled_receiveAt
          · rw [List.length_append, length]
            exact Nat.le_refl _
          · rw [List.length_append, length, List.length_singleton]
            omega
        · exact List.drop_eq_nil_of_le (Nat.le_of_eq behind)
      words := inPhase.words
      begun := inPhase.begun
      failures := inPhase.failures
      card := inPhase.card
      written := inPhase.written_append word }

theorem InPhase.writeData {next : Firmware} {word : Word} (inPhase : InPhase s l phase)
    (taken : eventStep s (.writeData word) = some next) :
    ∃ phase', InPhase next (recordEvent s l (.writeData word)) phase' ∧
      (phase' = phase ∨ ∃ k position, position < 256 ∧ phase = .receiving k position ∧
        phase' = .receiving k (position + 1)) := by
  by_cases room : s.dataRx.length < 4
  · simp only [eventStep, if_pos room, Option.some.injEq] at taken
    subst taken
    by_cases idle : s.dmaC = none
    · rw [pumpC_idle (show ({ s with dataRx := s.dataRx ++ [word] } : Firmware).dmaC = none
        from idle)]
      exact ⟨phase, inPhase.giveIdle room word idle, .inl rfl⟩
    · obtain ⟨k, position, rfl, small⟩ := inPhase.dmaC_busy idle
      exact ⟨_, inPhase.giveReceiving word small, .inr ⟨k, position, small, rfl, rfl⟩⟩
  · rw [eventStep, if_neg room] at taken
    exact absurd taken.symm (Option.some_ne_none _)

/-! ## The interrupts of the channels -/

theorem Order.Delivers.not_write {order : Order} (delivers : order.Delivers) :
    order.kind ≠ .write := by
  rcases delivers with kind | ⟨⟨sdSectors, kind⟩, _⟩ <;> rw [kind] <;> exact Kind.noConfusion

theorem Order.Delivers.not_none {order : Order} (delivers : order.Delivers) :
    order.kind ≠ .none := by
  rcases delivers with kind | ⟨⟨sdSectors, kind⟩, _⟩ <;> rw [kind] <;> exact Kind.noConfusion

theorem Order.Delivers.read_of_more {order : Order} (delivers : order.Delivers)
    (more : 1 < order.count) : order.kind = .read := by
  rcases delivers with kind | ⟨_, one⟩
  · exact kind
  · omega

theorem Order.lba_succ (order : Order) (k : Nat) : order.lba k + 1 = order.lba (k + 1) := by
  rw [lba, lba, BitVec.ofNat_add, BitVec.add_assoc]
  rfl

theorem Counted.pred (counted : Counted s.remainingSectors s.lba l.order k) :
    (s.remainingSectors - 1).toNat + (k + 1) = l.order.count := by
  have remaining := counted.remaining_eq
  have more := counted.more
  have small := s.remainingSectors.isLt
  have one : (1 : BitVec 16).toNat = 1 := rfl
  rw [BitVec.toNat_sub, one]
  omega

theorem Counted.last_iff (counted : Counted s.remainingSectors s.lba l.order k) :
    s.remainingSectors - 1 = 0 ↔ k + 1 = l.order.count := by
  have pred := counted.pred
  have zero : (0 : BitVec 16).toNat = 0 := rfl
  rw [← BitVec.toNat_inj, zero]
  omega

theorem sent_sector (l : Ledger) (k : Nat) :
    (Phase.sending k 256).sent l = l.order.words l.card (k + 1) := by
  rw [Order.words_succ, Phase.sent, List.take_of_length_le (Nat.le_of_eq (sectorWords_length _))]
  rfl

/-- `DMA_B` has sent the last word of the last sector. -/
theorem InPhase.sentLast (inPhase : InPhase s l (.sending k 256)) (last : k + 1 = l.order.count) :
    InPhase (dmaBIrqHandler s) l .done := by
  obtain ⟨fetch, flush, call, dmaB, dmaC, _, ints1⟩ := workOf_eq.mp inPhase.work
  have none := (inPhase.counted k rfl).last_iff.mpr last
  have delivers : l.order.Delivers := inPhase.suits
  simp only [dmaBIrqHandler, if_pos none]
  exact
    { suits := delivers.not_none
      work := workOf_eq.mpr ⟨fetch, flush, call, dmaB, dmaC, rfl, ints1⟩
      dir := rfl
      shows := rfl
      counted := fun _ here => by cases here
      holding := trivial
      words := fun _ => by
        obtain ⟨words, room⟩ := inPhase.words delivers
        refine ⟨?_, room⟩
        rw [sent_sector, last] at words
        exact words.trans (List.append_nil _).symm
      begun := by
        rw [Phase.calls, ← last]
        exact inPhase.begun
      failures := inPhase.failures
      card := inPhase.card
      written := fun kind => absurd kind delivers.not_write }

/-- `DMA_B` has sent the last word of another sector. -/
theorem InPhase.sentSector (inPhase : InPhase s l (.sending k 256))
    (notLast : k + 1 ≠ l.order.count) :
    InPhase (dmaBIrqHandler s) l (.fetchWanted (k + 1)) := by
  obtain ⟨fetch, flush, call, dmaB, dmaC, _, ints1⟩ := workOf_eq.mp inPhase.work
  have counted := inPhase.counted k rfl
  have more : k + 1 < l.order.count := Nat.lt_of_le_of_ne counted.more notLast
  have delivers : l.order.Delivers := inPhase.suits
  have kind : l.order.kind = .read := delivers.read_of_more (by omega)
  simp only [dmaBIrqHandler, if_neg (mt counted.last_iff.mp notLast)]
  exact
    { suits := kind
      work := workOf_eq.mpr ⟨rfl, flush, call, dmaB, dmaC, rfl, ints1⟩
      dir := inPhase.dir
      shows := by
        simp only [setBusy, show s.regStatus = drqStatus from inPhase.shows]
        rfl
      counted := fun k' here => by
        cases here
        refine ⟨counted.pred, more, ?_⟩
        rw [← Order.lba_succ, ← counted.lba_eq]
        rfl
      holding := ⟨rfl, rfl⟩
      words := fun _ => by
        obtain ⟨words, room⟩ := inPhase.words delivers
        refine ⟨?_, room⟩
        rw [sent_sector] at words
        exact words.trans (List.append_nil _).symm
      begun := inPhase.begun
      failures := inPhase.failures
      card := inPhase.card
      written := fun write => absurd write delivers.not_write }

/-- `DMA_C` has received a sector. -/
theorem InPhase.gotSector (inPhase : InPhase s l (.receiving k 256)) :
    InPhase (dmaCIrqHandler s) l (.flushWanted k) := by
  obtain ⟨fetch, _, call, dmaB, dmaC, ints0, _⟩ := workOf_eq.mp inPhase.work
  obtain ⟨_, filled, _⟩ := inPhase.holding
  have counted := inPhase.counted k rfl
  exact
    { suits := inPhase.suits
      work := workOf_eq.mpr ⟨fetch, rfl, call, dmaB, dmaC, ints0, rfl⟩
      dir := inPhase.dir
      shows := by
        simp only [dmaCIrqHandler, setBusy]
        rcases inPhase.shows with drq | ⟨_, busy⟩
        · rw [drq]
          rfl
        · rw [busy]
          rfl
      counted := fun k' here => by
        cases here
        exact counted
      holding := ⟨rfl, rfl, filled⟩
      words := inPhase.words
      begun := inPhase.begun
      failures := inPhase.failures
      card := inPhase.card
      written := inPhase.written }

/-! ## Core 1 -/

theorem InPhase.turn (inPhase : InPhase s l phase) (call : s.core1.call = none) {core1 : Core1}
    (test : core1.call = none) : InPhase { s with core1 := core1 } l phase where
  suits := inPhase.suits
  work := by
    obtain ⟨fetch, flush, before, dmaB, dmaC, ints0, ints1⟩ := workOf_eq.mp inPhase.work
    exact workOf_eq.mpr ⟨fetch, flush, test.trans (call.symm.trans before), dmaB, dmaC, ints0, ints1⟩
  dir := inPhase.dir
  shows := inPhase.shows
  counted := inPhase.counted
  holding := inPhase.holding
  words := inPhase.words
  begun := inPhase.begun
  failures := inPhase.failures
  card := inPhase.card
  written := inPhase.written

theorem InPhase.takeFetch (inPhase : InPhase s l (.fetchWanted k)) :
    InPhase { s with needFetch := false, core1 := .fetching s.fetchBuf s.fetchLba }
      { l with begun := l.begun ++ [s.fetchLba] } (.fetching k) := by
  obtain ⟨_, flush, _, dmaB, dmaC, ints0, ints1⟩ := workOf_eq.mp inPhase.work
  obtain ⟨fetchBuf, fetchLba⟩ := inPhase.holding
  have kind : l.order.kind = .read := inPhase.suits
  have counted := inPhase.counted k rfl
  exact
    { suits := kind
      work := by
        refine workOf_eq.mpr ⟨rfl, flush, ?_, dmaB, dmaC, ints0, ints1⟩
        rw [fetchBuf, fetchLba]
        rfl
      dir := inPhase.dir
      shows := inPhase.shows
      counted := fun k' here => by
        cases here
        exact counted
      holding := trivial
      words := inPhase.words
      begun := by
        rw [fetchLba, counted.lba_eq, inPhase.begun]
        exact (Order.calls_succ (.inl kind) k).symm
      failures := inPhase.failures
      card := inPhase.card
      written := inPhase.written }

theorem fetchReturned_ok {s : Firmware} {buffer : Fin 2} (lba : BitVec 32) (dir : s.dir = .read)
    (active : s.activeBuf = buffer) (busy : s.regStatus = busyStatus) (quiet : s.ints0 = false)
    (room : s.dataTx.length ≤ 4) :
    fetchReturned buffer lba true s =
      sendAt { s with
        regStatus := drqStatus
        buf := Function.update s.buf buffer (s.card lba)
        bufReady := Function.update s.bufReady buffer true } buffer (4 - s.dataTx.length)
        (s.dataTx ++ (sectorWords (s.card lba)).take (4 - s.dataTx.length)) := by
  let filled : Firmware := { s with
    buf := Function.update s.buf buffer (s.card lba)
    bufReady := Function.update s.bufReady buffer true }
  have armed := armDmaBFromBuffer_eq (s := filled) buffer quiet room
  have buffered : filled.buf buffer = s.card lba := Function.update_self buffer _ _
  have waiting : filled.dir = .read ∧ filled.activeBuf = buffer ∧
      filled.regStatus &&& IDE_STATUS_BSY ≠ 0 := by
    refine ⟨dir, active, ?_⟩
    rw [show filled.regStatus = busyStatus from busy]
    decide
  have status : (busyStatus ||| IDE_STATUS_DRQ) &&& ~~~IDE_STATUS_BSY = drqStatus := by decide
  calc
    fetchReturned buffer lba true s =
        if filled.dir = .read ∧ filled.activeBuf = buffer ∧
            filled.regStatus &&& IDE_STATUS_BSY ≠ 0 then
          setDrq (armDmaBFromBuffer buffer filled) else filled := rfl
    _ = setDrq (sendAt filled buffer (4 - s.dataTx.length)
        (s.dataTx ++ (sectorWords (filled.buf buffer)).take (4 - s.dataTx.length))) := by
      rw [if_pos waiting, armed]
    _ = _ := by
      rw [buffered]
      simp only [setDrq, sendAt, filled, busy, status]

theorem InPhase.fetched (inPhase : InPhase s l (.fetching k)) :
    InPhase { fetchReturned s.activeBuf s.lba true s with core1 := .testFlush } l
      (.sending k (4 - s.dataTx.length)) := by
  obtain ⟨fetch, flush, _, dmaB, dmaC, ints0, ints1⟩ := workOf_eq.mp inPhase.work
  have kind : l.order.kind = .read := inPhase.suits
  have delivers : l.order.Delivers := .inl kind
  have counted := inPhase.counted k rfl
  obtain ⟨words, room⟩ := inPhase.words delivers
  have sector : s.card s.lba = l.order.sector l.card k := by
    rw [inPhase.card delivers.not_write, counted.lba_eq, Order.sector, kind]
  rw [fetchReturned_ok s.lba inPhase.dir rfl inPhase.shows ints0 room]
  exact
    { suits := delivers
      work := workOf_eq.mpr ⟨fetch, flush, rfl, rfl, dmaC, rfl, ints1⟩
      dir := inPhase.dir
      shows := rfl
      counted := fun k' here => by
        cases here
        exact counted
      holding := by
        refine ⟨by omega, ?_, .inr ?_⟩
        · exact (Function.update_self s.activeBuf _ _).trans sector
        · simp only [sendAt, List.length_append, List.length_take, sectorWords_length]
          omega
      words := fun _ => by
        constructor
        · simp only [Phase.sent, Phase.moved, List.append_nil] at words
          simp only [sendAt, Phase.sent, Phase.moved]
          rw [← List.append_assoc, words, sector]
        · simp only [sendAt, List.length_append, List.length_take]
          omega
      begun := inPhase.begun
      failures := inPhase.failures
      card := inPhase.card
      written := inPhase.written }

theorem InPhase.fetchFailed (inPhase : InPhase s l (.fetching k)) :
    InPhase { fetchReturned s.activeBuf s.lba false s with core1 := .testFlush }
      { l with failures := l.failures ++ [s.lba] } (.failed k) := by
  obtain ⟨fetch, flush, _, dmaB, dmaC, ints0, ints1⟩ := workOf_eq.mp inPhase.work
  have kind : l.order.kind = .read := inPhase.suits
  have counted := inPhase.counted k rfl
  exact
    { suits := ⟨.inl kind, counted.more⟩
      work := workOf_eq.mpr ⟨fetch, flush, rfl, dmaB, dmaC, ints0, ints1⟩
      dir := rfl
      shows := rfl
      counted := fun _ here => by cases here
      holding := trivial
      words := inPhase.words
      begun := inPhase.begun
      failures := by
        rw [inPhase.failures, counted.lba_eq]
        rfl
      card := inPhase.card
      written := inPhase.written }

theorem InPhase.takeFlush (inPhase : InPhase s l (.flushWanted k)) :
    InPhase { s with needFlush := false, core1 := .flushing s.flushBuf s.flushLba }
      { l with begun := l.begun ++ [s.flushLba] } (.flushing k) := by
  obtain ⟨fetch, _, _, dmaB, dmaC, ints0, ints1⟩ := workOf_eq.mp inPhase.work
  obtain ⟨flushBuf, flushLba, filled⟩ := inPhase.holding
  have kind : l.order.kind = .write := inPhase.suits
  have counted := inPhase.counted k rfl
  exact
    { suits := kind
      work := by
        refine workOf_eq.mpr ⟨fetch, rfl, ?_, dmaB, dmaC, ints0, ints1⟩
        rw [flushBuf, flushLba]
        rfl
      dir := inPhase.dir
      shows := inPhase.shows
      counted := fun k' here => by
        cases here
        exact counted
      holding := filled
      words := inPhase.words
      begun := by
        rw [flushLba, counted.lba_eq, inPhase.begun]
        exact (Order.calls_succ (.inr kind) k).symm
      failures := inPhase.failures
      card := inPhase.card
      written := inPhase.written }

theorem InPhase.flushFailed (inPhase : InPhase s l (.flushing k)) :
    InPhase { flushReturned 0 s.lba false s with core1 := .testFetch }
      { l with failures := l.failures ++ [s.lba] } (.failed k) := by
  obtain ⟨fetch, flush, _, dmaB, dmaC, ints0, ints1⟩ := workOf_eq.mp inPhase.work
  have kind : l.order.kind = .write := inPhase.suits
  have counted := inPhase.counted k rfl
  exact
    { suits := ⟨.inr kind, counted.more⟩
      work := workOf_eq.mpr ⟨fetch, flush, rfl, dmaB, dmaC, ints0, ints1⟩
      dir := rfl
      shows := rfl
      counted := fun _ here => by cases here
      holding := trivial
      words := inPhase.words
      begun := inPhase.begun
      failures := by
        rw [inPhase.failures, counted.lba_eq]
        rfl
      card := inPhase.card
      written := inPhase.written }

theorem Filled.sector_eq {buffer : Sector} {fifo given : List Word}
    (filled : Filled buffer fifo given k 256) : buffer = sectorOf given k := by
  rw [filled.buffer_eq, sectorOf]
  exact received_sector _ _ _

theorem InPhase.stored (inPhase : InPhase s l (.flushing k)) :
    Function.update s.card s.lba (s.buf 0) = overwrite l.card l.order l.given (k + 1) := by
  have filled : Filled (s.buf 0) s.dataRx l.given k 256 := inPhase.holding
  rw [overwrite, (inPhase.written inPhase.suits).1, filled.sector_eq,
    (inPhase.counted k rfl).lba_eq]
  rfl

theorem InPhase.flushedLast (inPhase : InPhase s l (.flushing k)) (last : k + 1 = l.order.count) :
    InPhase { flushReturned 0 s.lba true s with core1 := .testFetch } l .done := by
  obtain ⟨fetch, flush, _, dmaB, dmaC, ints0, ints1⟩ := workOf_eq.mp inPhase.work
  have kind : l.order.kind = .write := inPhase.suits
  have filled : Filled (s.buf 0) s.dataRx l.given k 256 := inPhase.holding
  have none := (inPhase.counted k rfl).last_iff.mpr last
  simp only [flushReturned, if_true, if_pos none]
  exact
    { suits := by
        rw [Phase.Suits, kind]
        exact Kind.noConfusion
      work := workOf_eq.mpr ⟨fetch, flush, rfl, dmaB, dmaC, ints0, ints1⟩
      dir := rfl
      shows := rfl
      counted := fun _ here => by cases here
      holding := trivial
      words := fun delivers => absurd kind delivers.not_write
      begun := by
        rw [Phase.calls, ← last]
        exact inPhase.begun
      failures := inPhase.failures
      card := fun other => absurd kind other
      written := fun _ => by
        rw [Phase.moved, ← last]
        exact ⟨inPhase.stored, filled.enough⟩ }

theorem InPhase.flushedSector (inPhase : InPhase s l (.flushing k))
    (notLast : k + 1 ≠ l.order.count) :
    InPhase { flushReturned 0 s.lba true s with core1 := .testFetch } l
      (.receiving (k + 1) s.dataRx.length) := by
  obtain ⟨fetch, flush, _, dmaB, dmaC, ints0, ints1⟩ := workOf_eq.mp inPhase.work
  have kind : l.order.kind = .write := inPhase.suits
  have filled : Filled (s.buf 0) s.dataRx l.given k 256 := inPhase.holding
  have counted := inPhase.counted k rfl
  have room := filled.room
  have enough := filled.enough
  have rest : s.dataRx = l.given.drop (256 * (k + 1)) := by
    rw [filled.fifo_eq, List.drop_drop]
    rfl
  have length : s.dataRx.length = l.given.length - 256 * (k + 1) := by
    rw [rest, List.length_drop]
  have busy : s.regStatus = busyStatus := inPhase.shows
  have status : (busyStatus ||| IDE_STATUS_DRQ) &&& ~~~IDE_STATUS_BSY = drqStatus := by decide
  let waiting : Firmware := { s with
    card := Function.update s.card s.lba (s.buf 0)
    bufReady := Function.update s.bufReady 0 false
    remainingSectors := s.remainingSectors - 1
    lba := s.lba + 1 }
  have armed := armDmaCIntoBuffer_eq (s := waiting) 0 ints1 room
  have returned : flushReturned 0 s.lba true s =
      setDrq (receiveAt waiting 0 s.dataRx.length (l.given.drop (256 * (k + 1)))) := by
    rw [← rest]
    refine Eq.trans ?_ (congrArg setDrq armed)
    simp only [flushReturned, if_true, if_neg (mt counted.last_iff.mp notLast), waiting]
  rw [returned]
  exact
    { suits := kind
      work := workOf_eq.mpr ⟨fetch, flush, rfl, dmaB, rfl, ints0, rfl⟩
      dir := inPhase.dir
      shows := by
        refine .inl ?_
        simp only [setDrq, receiveAt, waiting, busy, status]
      counted := fun k' here => by
        cases here
        refine ⟨counted.pred, Nat.lt_of_le_of_ne counted.more notLast, ?_⟩
        rw [← Order.lba_succ, ← counted.lba_eq]
        rfl
      holding := by
        refine ⟨by omega, filled_receiveAt waiting ?_ ?_, .inr ?_⟩
        · omega
        · omega
        · simp only [setDrq, receiveAt, List.drop_drop]
          exact List.drop_eq_nil_of_le (by omega)
      words := fun delivers => absurd kind delivers.not_write
      begun := inPhase.begun
      failures := inPhase.failures
      card := fun other => absurd kind other
      written := fun _ => ⟨inPhase.stored, filled.enough⟩ }

/-! ### The work that gives a phase away -/

theorem InPhase.of_fetch (inPhase : InPhase s l phase) (wanted : s.needFetch = true) :
    ∃ k, phase = .fetchWanted k := by
  have fetch := (workOf_eq.mp inPhase.work).1
  rw [wanted] at fetch
  cases phase with
  | fetchWanted k => exact ⟨k, rfl⟩
  | _ => exact absurd fetch Bool.noConfusion

theorem InPhase.of_flush (inPhase : InPhase s l phase) (wanted : s.needFlush = true) :
    ∃ k, phase = .flushWanted k := by
  have flush := (workOf_eq.mp inPhase.work).2.1
  rw [wanted] at flush
  cases phase with
  | flushWanted k => exact ⟨k, rfl⟩
  | _ => exact absurd flush Bool.noConfusion

theorem InPhase.of_fetching {buffer : Fin 2} {lba : BitVec 32} (inPhase : InPhase s l phase)
    (fetching : s.core1 = .fetching buffer lba) :
    buffer = s.activeBuf ∧ lba = s.lba ∧ ∃ k, phase = .fetching k := by
  have call := (workOf_eq.mp inPhase.work).2.2.1
  rw [fetching] at call
  cases phase with
  | fetching k =>
      cases call
      exact ⟨rfl, rfl, k, rfl⟩
  | _ => cases call

theorem InPhase.of_flushing {buffer : Fin 2} {lba : BitVec 32} (inPhase : InPhase s l phase)
    (flushing : s.core1 = .flushing buffer lba) :
    buffer = 0 ∧ lba = s.lba ∧ ∃ k, phase = .flushing k := by
  have call := (workOf_eq.mp inPhase.work).2.2.1
  rw [flushing] at call
  cases phase with
  | flushing k =>
      cases call
      exact ⟨rfl, rfl, k, rfl⟩
  | _ => cases call

theorem InPhase.of_ints0 (inPhase : InPhase s l phase) (pending : s.ints0 = true) :
    ∃ k, phase = .sending k 256 := by
  have ints0 := (workOf_eq.mp inPhase.work).2.2.2.2.2.1
  rw [pending] at ints0
  cases phase with
  | sending k position =>
      have last : position = 256 := of_decide_eq_true ints0.symm
      exact ⟨k, by rw [last]⟩
  | _ => cases ints0

theorem InPhase.of_ints1 (inPhase : InPhase s l phase) (pending : s.ints1 = true) :
    ∃ k, phase = .receiving k 256 := by
  have ints1 := (workOf_eq.mp inPhase.work).2.2.2.2.2.2
  rw [pending] at ints1
  cases phase with
  | receiving k position =>
      have last : position = 256 := of_decide_eq_true ints1.symm
      exact ⟨k, by rw [last]⟩
  | _ => cases ints1

/-! ## A step beside the register accesses -/

theorem InPhase.core1 (inPhase : InPhase s l phase) (ok : Bool) :
    ∃ phase', InPhase (core1Step ok s) (recordEvent s l (.core1 ok)) phase' := by
  unfold core1Step recordEvent recordCore1
  cases at1 : s.core1 with
  | testFetch =>
      by_cases wanted : s.needFetch = true
      · obtain ⟨k, rfl⟩ := inPhase.of_fetch wanted
        simp only [if_pos wanted]
        exact ⟨_, inPhase.takeFetch⟩
      · simp only [if_neg wanted]
        exact ⟨_, inPhase.turn (by rw [at1]; rfl) rfl⟩
  | testFlush =>
      by_cases wanted : s.needFlush = true
      · obtain ⟨k, rfl⟩ := inPhase.of_flush wanted
        simp only [if_pos wanted]
        exact ⟨_, inPhase.takeFlush⟩
      · simp only [if_neg wanted]
        exact ⟨_, inPhase.turn (by rw [at1]; rfl) rfl⟩
  | fetching buffer lba =>
      obtain ⟨rfl, rfl, k, rfl⟩ := inPhase.of_fetching at1
      cases ok with
      | true => exact ⟨_, inPhase.fetched⟩
      | false => exact ⟨_, inPhase.fetchFailed⟩
  | flushing buffer lba =>
      obtain ⟨rfl, rfl, k, rfl⟩ := inPhase.of_flushing at1
      cases ok with
      | true =>
          by_cases last : k + 1 = l.order.count
          · exact ⟨_, inPhase.flushedLast last⟩
          · exact ⟨_, inPhase.flushedSector last⟩
      | false => exact ⟨_, inPhase.flushFailed⟩

theorem InPhase.event {event : Event} {next : Firmware} (inPhase : InPhase s l phase)
    (taken : eventStep s event = some next) :
    ∃ phase', InPhase next (recordEvent s l event) phase' := by
  cases event with
  | readData =>
      obtain ⟨phase', inPhase', _⟩ := inPhase.readData taken
      exact ⟨phase', inPhase'⟩
  | writeData word =>
      obtain ⟨phase', inPhase', _⟩ := inPhase.writeData taken
      exact ⟨phase', inPhase'⟩
  | dmaBIsr =>
      by_cases pending : s.ints0 = true
      · rw [eventStep, if_pos pending] at taken
        cases taken
        obtain ⟨k, rfl⟩ := inPhase.of_ints0 pending
        by_cases last : k + 1 = l.order.count
        · exact ⟨_, inPhase.sentLast last⟩
        · exact ⟨_, inPhase.sentSector last⟩
      · rw [eventStep, if_neg pending] at taken
        cases taken
  | dmaCIsr =>
      by_cases pending : s.ints1 = true
      · rw [eventStep, if_pos pending] at taken
        cases taken
        obtain ⟨k, rfl⟩ := inPhase.of_ints1 pending
        exact ⟨_, inPhase.gotSector⟩
      · rw [eventStep, if_neg pending] at taken
        cases taken
  | core1 ok =>
      cases taken
      exact inPhase.core1 ok

/-! ## Register accesses -/

/-- Core 1 owes nothing to an earlier command, except a request that a read replaces; and
a command that leaves the data path as it is finds it at rest. -/
structure Clear (s : Firmware) (cmd : Byte) : Prop where
  fetch : s.needFetch = false ∨ cmd = IDE_CMD_READ_SECTORS
  flush : s.needFlush = false
  call : s.core1.call = none
  path : (orderOf cmd s).kind ≠ .none ∨ cmd = IDE_CMD_DIAGNOSTIC ∨ isNop cmd = true ∨
    s.dmaB = none ∧ s.dmaC = none ∧ s.ints0 = false ∧ s.ints1 = false ∧ s.dataTx = []

instance (s : Firmware) (cmd : Byte) : Decidable (Clear s cmd) :=
  decidable_of_iff ((s.needFetch = false ∨ cmd = IDE_CMD_READ_SECTORS) ∧ s.needFlush = false ∧
      s.core1.call = none ∧ ((orderOf cmd s).kind ≠ .none ∨ cmd = IDE_CMD_DIAGNOSTIC ∨
        isNop cmd = true ∨
        s.dmaB = none ∧ s.dmaC = none ∧ s.ints0 = false ∧ s.ints1 = false ∧ s.dataTx = []))
    ⟨fun ⟨fetch, flush, call, path⟩ => ⟨fetch, flush, call, path⟩,
      fun ⟨fetch, flush, call, path⟩ => ⟨fetch, flush, call, path⟩⟩

theorem sectorCountFromReg_pos (s : Firmware) : 0 < (sectorCountFromReg s).toNat := by
  unfold sectorCountFromReg
  by_cases zero : s.regSectorCount = 0
  · rw [if_pos zero]
    decide
  · rw [if_neg zero]
    have nonzero : s.regSectorCount.toNat ≠ 0 := fun equal => zero (BitVec.eq_of_toNat_eq equal)
    rw [BitVec.zeroExtend, BitVec.toNat_setWidth_of_le (by decide)]
    omega

end OrionBios.PicoIde
