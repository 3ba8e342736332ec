import OrionBios.PicoIde.Session

/-!
# Words that the 68k sets out for

A status with DRQ sends the 68k after 256 words. They come when the status belongs to a sector
that is not moved yet; then the 68k is never further ahead than the card.
-/

namespace OrionBios.PicoIde

open Transition

variable {order : Order} {card : BitVec 32 → Sector} {writes : Bool} {data : Nat → Word}
  {s t : Session} {f g : Firmware} {l : Ledger} {phase : Phase} {k position : Nat}

/-! ## Steps beside core 1 -/

/-- What only core 1 changes. -/
structure KeptOf (before after : Firmware) : Prop where
  core1 : after.core1 = before.core1
  card : after.card = before.card

theorem KeptOf.trans {a b c : Firmware} (first : KeptOf a b) (second : KeptOf b c) : KeptOf a c :=
  ⟨second.core1.trans first.core1, second.card.trans first.card⟩

theorem keptOf_moveB (s : Firmware) : KeptOf s (moveB s) := by
  unfold moveB
  split
  · exact ⟨rfl, rfl⟩
  · split
    · dsimp only
      split <;> exact ⟨rfl, rfl⟩
    · exact ⟨rfl, rfl⟩

theorem keptOf_pumpB (s : Firmware) : KeptOf s (pumpB s) :=
  (((keptOf_moveB s).trans (keptOf_moveB _)).trans (keptOf_moveB _)).trans (keptOf_moveB _)

theorem keptOf_moveC (s : Firmware) : KeptOf s (moveC s) := by
  unfold moveC
  split
  · dsimp only
    split <;> exact ⟨rfl, rfl⟩
  · exact ⟨rfl, rfl⟩

theorem keptOf_pumpC (s : Firmware) : KeptOf s (pumpC s) :=
  (((keptOf_moveC s).trans (keptOf_moveC _)).trans (keptOf_moveC _)).trans (keptOf_moveC _)

theorem keptOf_beginWriteSequence (s : Firmware) : KeptOf s (beginWriteSequence s) := by
  have pumped := keptOf_pumpC { resetDataPath s with
    dir := .write
    lba := currentLbaFromRegs s
    remainingSectors := sectorCountFromReg s
    activeBuf := 0
    bufReady := fun _ => false
    dmaC := some { buffer := 0, next := 0 } }
  exact ⟨pumped.core1, pumped.card⟩

theorem keptOf_beginIdentify (s : Firmware) : KeptOf s (beginIdentify s) := by
  unfold beginIdentify
  split
  · exact ⟨rfl, rfl⟩
  · have pumped := keptOf_pumpB { setBusy (resetDataPath s) with
      dir := .read
      remainingSectors := 1
      activeBuf := 0
      buf := Function.update s.buf 0 (buildIdentify s.sdSectors)
      bufReady := Function.update (fun _ => false) 0 true
      dmaB := some { buffer := 0, next := 0 } }
    exact ⟨pumped.core1, pumped.card⟩

theorem keptOf_dispatchCommand (cmd : Byte) (s : Firmware) : KeptOf s (dispatchCommand cmd s) := by
  unfold dispatchCommand
  dsimp only
  split
  · exact ⟨rfl, rfl⟩
  split
  · have begun := keptOf_beginWriteSequence
      { s with regErrorFeatures := 0x00, regStatus := IDE_STATUS_DRDY ||| IDE_STATUS_BSY }
    exact ⟨begun.core1, begun.card⟩
  split
  · have begun := keptOf_beginIdentify
      { s with regErrorFeatures := 0x00, regStatus := IDE_STATUS_DRDY ||| IDE_STATUS_BSY }
    exact ⟨begun.core1, begun.card⟩
  split
  · exact ⟨rfl, rfl⟩
  split
  · exact ⟨rfl, rfl⟩
  · exact ⟨rfl, rfl⟩

theorem keptOf_writeRegister (raw : Raw) (s : Firmware) : KeptOf s (writeRegister raw s) := by
  unfold writeRegister
  dsimp only
  repeat' split
  all_goals first
    | exact ⟨rfl, rfl⟩
    | exact keptOf_dispatchCommand _ s

theorem keptOf_readRegister (raw : Raw) (s : Firmware) : KeptOf s (readRegister raw s).2 := by
  unfold readRegister statusPatch
  dsimp only
  split
  · split <;> exact ⟨rfl, rfl⟩
  · exact ⟨rfl, rfl⟩

theorem keptOf_dmaBIrqHandler (s : Firmware) : KeptOf s (dmaBIrqHandler s) := by
  unfold dmaBIrqHandler
  dsimp only
  split <;> exact ⟨rfl, rfl⟩

theorem keptOf_event {s t : Firmware} {event : Event} (other : ∀ ok, event ≠ .core1 ok)
    (taken : eventStep s event = some t) : KeptOf s t := by
  cases event with
  | readData =>
      simp only [eventStep] at taken
      split at taken
      · cases taken
      · cases taken
        exact ⟨(keptOf_pumpB _).core1, (keptOf_pumpB _).card⟩
  | writeData word =>
      simp only [eventStep] at taken
      split at taken
      · cases taken
        exact ⟨(keptOf_pumpC _).core1, (keptOf_pumpC _).card⟩
      · cases taken
  | dmaBIsr =>
      simp only [eventStep] at taken
      split at taken
      · cases taken
        exact keptOf_dmaBIrqHandler s
      · cases taken
  | dmaCIsr =>
      simp only [eventStep] at taken
      split at taken
      · cases taken
        exact ⟨rfl, rfl⟩
      · cases taken
  | core1 ok => exact absurd rfl (other ok)

theorem seeStatus_drq : seeStatus drqStatus = .move 256 := by decide

theorem statusRaw_addr : rawAddr statusRaw = IDE_REG_STATUS_CMD := by decide

theorem readRegister_status (f : Firmware) :
    (readRegister statusRaw f).1 = (statusPatch f).regStatus := by
  simp only [readRegister, if_pos statusRaw_addr]
  rw [statusRaw_addr]
  rfl

def orderKind (writes : Bool) : Kind := if writes then .write else .read

theorem orderOf_command (writes : Bool) (f : Firmware) :
    (orderOf (commandOf writes) f).kind = orderKind writes := by
  cases writes <;> rfl

/-! ## The condition -/

/-- A READ is not asked for its status while the end of a sector waits for the handler of `DMA_B`
and the FIFO has run empty. -/
def Punctual (writes : Bool) (s : Session) (turn : Turn) : Prop :=
  writes = false → turn = .readIsr → s.firmware.ints0 = true → s.firmware.dataTx ≠ []

instance (writes : Bool) (s : Session) (turn : Turn) : Decidable (Punctual writes s turn) :=
  inferInstanceAs (Decidable (_ → _))

theorem punctual_of_ne {turn : Turn} (other : turn ≠ .readIsr) : Punctual writes s turn :=
  fun _ same => absurd same other

/-! ## How far the card is -/

/-- The calls of the SD driver that have returned without a failure. -/
def completed (f : Firmware) (l : Ledger) : Nat :=
  l.begun.length - l.failures.length - if f.core1.call = none then 0 else 1

theorem completed_core1 (f : Firmware) (l : Ledger) (ok : Bool) :
    completed f l ≤ completed (core1Step ok f) (recordCore1 f l ok) := by
  unfold completed core1Step recordCore1
  cases f.core1 with
  | testFetch =>
      by_cases wanted : f.needFetch = true
      · simp only [if_pos wanted, Core1.call, List.length_append, List.length_singleton]
        simp
        omega
      · simp only [if_neg wanted, Core1.call, if_true, Nat.le_refl]
  | testFlush =>
      by_cases wanted : f.needFlush = true
      · simp only [if_pos wanted, Core1.call, List.length_append, List.length_singleton]
        simp
        omega
      · simp only [if_neg wanted, Core1.call, if_true, Nat.le_refl]
  | fetching buffer lba | flushing buffer lba =>
      cases ok with
      | true =>
          simp only [Core1.call, if_true]
          omega
      | false =>
          simp only [Core1.call, Bool.false_eq_true, if_false, List.length_append,
            List.length_singleton, if_true, reduceCtorEq]
          omega

theorem completed_kept (kept : KeptOf f g) (l : Ledger) : completed g l = completed f l := by
  rw [completed, completed, kept.core1]

theorem completed_own {event : Event} (own : event.isOwn = true)
    (taken : eventStep f event = some g) :
    completed f l ≤ completed g (recordEvent f l event) := by
  cases event with
  | core1 ok =>
      cases taken
      exact completed_core1 f l ok
  | dmaBIsr | dmaCIsr =>
      exact Nat.le_of_eq (completed_kept (keptOf_event (fun _ => Event.noConfusion) taken) l).symm
  | readData | writeData => cases own

theorem InPhase.begun_length (inPhase : InPhase f l phase) (writes : Bool)
    (kind : l.order.kind = orderKind writes) : l.begun.length = phase.calls l.order := by
  rw [inPhase.begun, Order.calls, kind]
  cases writes <;> simp [orderKind]

theorem InPhase.completed_sending (inPhase : InPhase f l (.sending k position))
    (kind : l.order.kind = .read) : completed f l = k + 1 := by
  have call : f.core1.call = none := (workOf_eq.mp inPhase.work).2.2.1
  have none : l.failures = [] := inPhase.failures
  rw [completed, inPhase.begun_length false kind, call, none]
  rfl

theorem InPhase.completed_done (inPhase : InPhase f l .done) (kind : l.order.kind = .read) :
    completed f l = l.order.count := by
  have call : f.core1.call = none := (workOf_eq.mp inPhase.work).2.2.1
  have none : l.failures = [] := inPhase.failures
  rw [completed, inPhase.begun_length false kind, call, none]
  rfl

theorem InPhase.completed_failed (inPhase : InPhase f l (.failed k))
    (kind : l.order.kind = .read) : completed f l = k := by
  have call : f.core1.call = none := (workOf_eq.mp inPhase.work).2.2.1
  have one : l.failures = [l.order.lba k] := inPhase.failures
  rw [completed, inPhase.begun_length false kind, call, one]
  rfl

/-! ## The 68k keeps behind the card -/

/-- Only while words are moved does the status show DRQ. -/
theorem InPhase.of_asking (inPhase : InPhase f l phase) (asks : seeStatus f.regStatus ≠ .poll) :
    f.regStatus = drqStatus ∧
      ((∃ k position, phase = .sending k position) ∨ ∃ k position, phase = .receiving k position) := by
  have idle : seeStatus IDE_STATUS_DRDY = .poll := by decide
  have busy : seeStatus busyStatus = .poll := by decide
  have error : seeStatus errorStatus = .poll := by decide
  have shows := inPhase.shows
  cases phase with
  | rest => rcases shows with shows | shows <;> simp [shows, idle, error] at asks
  | done => exact absurd (by rw [show f.regStatus = _ from shows, idle]) asks
  | failed k => exact absurd (by rw [show f.regStatus = _ from shows, error]) asks
  | fetchWanted k | fetching k | flushWanted k | flushing k =>
      exact absurd (by rw [show f.regStatus = _ from shows, busy]) asks
  | sending k position => exact ⟨shows, .inl ⟨k, position, rfl⟩⟩
  | receiving k position =>
      refine ⟨shows.resolve_right fun ⟨_, shown⟩ => asks ?_, .inr ⟨k, position, rfl⟩⟩
      rw [shown, busy]

/-- The words that the 68k has moved and has set out for. -/
structure Paced (writes : Bool) (s : Session) : Prop where
  read : writes = false →
    s.ledger.taken.length + s.host.left ≤ 256 * completed s.firmware s.ledger
  write : writes = true → s.host.left = 0 ∨ s.firmware.regStatus = drqStatus ∧
    s.ledger.given.length + s.host.left ≤ 256 * (s.ledger.begun.length + 1)

/-- In a write the 68k is on its way in the middle of a sector only. -/
theorem Paced.receiving (paced : Paced true s) (inPhase : InPhase s.firmware s.ledger phase)
    (kind : s.ledger.order.kind = .write) (ahead : s.host.left ≠ 0) :
    ∃ k position, phase = .receiving k position ∧ position < 256 ∧ s.ledger.begun.length = k ∧
      s.firmware.regStatus = drqStatus ∧ s.ledger.given.length + s.host.left ≤ 256 * (k + 1) := by
  obtain ⟨shows, bound⟩ := (paced.write rfl).resolve_left ahead
  have asks : seeStatus s.firmware.regStatus ≠ .poll := by
    rw [shows]
    decide
  rcases (inPhase.of_asking asks).2 with ⟨k, position, rfl⟩ | ⟨k, position, rfl⟩
  · have delivers : s.ledger.order.Delivers := inPhase.suits
    exact absurd kind delivers.not_write
  · have begun : s.ledger.begun.length = k := inPhase.begun_length true kind
    rw [begun] at bound
    have enough := inPhase.holding.2.1.enough
    exact ⟨k, position, rfl, by omega, begun, shows, bound⟩

theorem Paced.own {event : Event} {next : Recorded} (paced : Paced writes s)
    (serving : Serving order card writes data s) (kind : order.kind = orderKind writes)
    (own : event.isOwn = true) (taken : recordedStep s.disk (.event event) = some next) :
    Paced writes { s with disk := next } := by
  obtain ⟨phase, inPhase⟩ := serving.phase
  obtain ⟨stepped, ledger⟩ := recordedStep_eq_some.mp taken
  obtain ⟨firmware, enabled, bus⟩ := Option.map_eq_some_iff.mp stepped
  obtain ⟨begun, failures, frame⟩ := recordEvent_frame own s.firmware s.ledger
  have same : next.ledger = recordEvent s.firmware s.ledger event := ledger
  have now : next.bus.firmware = firmware := by rw [← bus]
  constructor
  · intro reads
    have more : completed s.firmware s.ledger ≤
        completed firmware (recordEvent s.firmware s.ledger event) := completed_own own enabled
    have before := paced.read reads
    show next.ledger.taken.length + s.host.left ≤ 256 * completed next.bus.firmware next.ledger
    rw [now, same]
    have words : (recordEvent s.firmware s.ledger event).taken = s.ledger.taken := by rw [frame]
    rw [words]
    omega
  · rintro rfl
    by_cases still : s.host.left = 0
    · exact .inl still
    have kind : s.ledger.order.kind = .write := serving.kind_eq.trans kind
    obtain ⟨k, position, rfl, small, begun, shows, bound⟩ := paced.receiving inPhase kind still
    obtain ⟨fetch, flush, call, _, _, ints0, ints1⟩ := workOf_eq.mp inPhase.work
    have idle1 : s.firmware.ints1 = false := by
      rw [ints1]
      exact decide_eq_false (Nat.ne_of_lt small)
    refine .inr ?_
    show next.bus.firmware.regStatus = drqStatus ∧
      next.ledger.given.length + s.host.left ≤ 256 * (next.ledger.begun.length + 1)
    rw [now, same]
    cases event with
    | dmaBIsr =>
        rw [eventStep, show s.disk.bus.firmware.ints0 = false from ints0] at enabled
        cases enabled
    | dmaCIsr =>
        rw [eventStep, show s.disk.bus.firmware.ints1 = false from idle1] at enabled
        cases enabled
    | core1 ok =>
        cases enabled
        have unfetched : ¬ s.firmware.needFetch = true := by
          rw [fetch]
          exact Bool.noConfusion
        have unflushed : ¬ s.firmware.needFlush = true := by
          rw [flush]
          exact Bool.noConfusion
        rw [← begun] at bound
        rcases core1_of_none call with at1 | at1
        · simp only [core1Step, recordEvent, recordCore1, at1, if_neg unfetched]
          exact ⟨shows, bound⟩
        · simp only [core1Step, recordEvent, recordCore1, at1, if_neg unflushed]
          exact ⟨shows, bound⟩
    | readData | writeData => cases own

theorem Paced.moveWord {left : Nat} {next : Recorded} (paced : Paced writes s)
    (serving : Serving order card writes data s) (kind : order.kind = orderKind writes)
    (moving : s.host = .move (left + 1))
    (taken : recordedStep s.disk (.event (moveWord writes data s)) = some next) :
    Paced writes { disk := next, host := if left = 0 then .poll else .move left } := by
  obtain ⟨phase, inPhase⟩ := serving.phase
  obtain ⟨stepped, ledger⟩ := recordedStep_eq_some.mp taken
  obtain ⟨firmware, enabled, bus⟩ := Option.map_eq_some_iff.mp stepped
  have moved := movedWords_moveWord enabled
  have same : next.ledger = recordEvent s.firmware s.ledger (PicoIde.moveWord writes data s) := ledger
  have now : next.bus.firmware = firmware := by rw [← bus]
  have rest : (if left = 0 then Host.poll else .move left).left = left := by
    split
    · next last => exact last.symm
    · rfl
  have before : s.host.left = left + 1 := by
    rw [moving]
    rfl
  constructor
  · rintro rfl
    have kept := keptOf_event (fun _ => Event.noConfusion) enabled
    have bound := paced.read rfl
    have one : next.ledger.taken.length = s.ledger.taken.length + 1 := by
      rw [same]
      exact moved
    have calls : completed next.bus.firmware next.ledger = completed s.firmware s.ledger := by
      rw [now, same]
      exact completed_kept kept s.ledger
    show next.ledger.taken.length + (if left = 0 then Host.poll else .move left).left ≤
      256 * completed next.bus.firmware next.ledger
    rw [one, calls, rest]
    omega
  · rintro rfl
    have write : s.ledger.order.kind = .write := serving.kind_eq.trans kind
    obtain ⟨k, position, rfl, small, begun, shows, bound⟩ :=
      paced.receiving inPhase write (by omega)
    have one : next.ledger.given.length = s.ledger.given.length + 1 := by
      rw [same]
      exact moved
    have calls : next.ledger.begun.length = k := by
      rw [same]
      exact begun
    show (if left = 0 then Host.poll else .move left).left = 0 ∨
      next.bus.firmware.regStatus = drqStatus ∧
        next.ledger.given.length + (if left = 0 then Host.poll else .move left).left ≤
          256 * (next.ledger.begun.length + 1)
    rw [rest, one, calls]
    by_cases last : left = 0
    · exact .inl last
    refine .inr ⟨?_, by omega⟩
    obtain ⟨phase', after, which⟩ := inPhase.writeData enabled
    have enough : ∀ {p}, phase' = .receiving k p → p < 256 := by
      rintro p rfl
      have enough := after.holding.2.1.enough
      have length : (recordEvent s.firmware s.ledger
          (.writeData (data s.ledger.given.length))).given.length = s.ledger.given.length + 1 :=
        moved
      rw [length] at enough
      omega
    have shown : ∃ p, phase' = .receiving k p := by
      rcases which with rfl | ⟨_, p, _, same, rfl⟩
      · exact ⟨position, rfl⟩
      · cases same
        exact ⟨_, rfl⟩
    obtain ⟨p, rfl⟩ := shown
    have less := enough rfl
    rw [now]
    exact after.shows.resolve_right fun ⟨full, _⟩ => by omega

theorem Paced.readIsr (paced : Paced writes s) (serving : Serving order card writes data s)
    (kind : order.kind = orderKind writes) (punctual : Punctual writes s .readIsr)
    (taken : sessionStep writes data s .readIsr = some t) : Paced writes t := by
  obtain ⟨phase, inPhase⟩ := serving.phase
  simp only [sessionStep] at taken
  rcases serving.access with none | waiting
  · rw [none] at taken
    cases taken
  rw [waiting] at taken
  obtain ⟨next, recorded, rfl⟩ := Option.map_eq_some_iff.mp taken
  obtain ⟨stepped, ledger⟩ := recordedStep_eq_some.mp recorded
  have same : next.ledger = s.ledger := ledger
  simp only [busStep, show s.disk.bus.access = _ from waiting, Option.some.injEq] at stepped
  have now : next.bus.firmware = PicoIde.statusPatch s.firmware := by
    rw [← stepped]
    simp only [readRegister, if_pos statusRaw_addr]
  have patched := inPhase.statusPatch
  have polled : s.host = .poll := serving.host.resolve_right (by
    rintro ⟨_, _, free⟩
    rw [waiting] at free
    cases free)
  have calls : completed next.bus.firmware next.ledger = completed s.firmware s.ledger := by
    rw [same, ← stepped]
    exact completed_kept (keptOf_readRegister _ _) s.ledger
  obtain ⟨sectors, aligned⟩ := serving.aligned
  rw [polled] at aligned
  have aligned : movedWords writes s.ledger = 256 * sectors := aligned
  rw [readRegister_status]
  by_cases asks : seeStatus (PicoIde.statusPatch s.firmware).regStatus = .poll
  · rw [asks]
    constructor
    · intro reads
      have bound := paced.read reads
      show next.ledger.taken.length + 0 ≤ 256 * completed next.bus.firmware next.ledger
      rw [calls, same]
      omega
    · exact fun _ => .inl rfl
  · obtain ⟨shows, which⟩ := patched.of_asking asks
    rw [shows, seeStatus_drq]
    cases writes with
    | false =>
        have read : s.ledger.order.kind = .read := serving.kind_eq.trans kind
        refine ⟨fun _ => ?_, fun other => Bool.noConfusion other⟩
        rcases which with ⟨k, position, rfl⟩ | ⟨k, position, rfl⟩
        · have words := inPhase.words (.inl read)
          have length := congrArg List.length words.1
          rw [List.length_append, Phase.sent, List.length_append, Order.words_length,
            List.length_take, sectorWords_length] at length
          have few : s.ledger.taken.length < 256 * (k + 1) := by
            rcases Nat.lt_or_eq_of_le inPhase.holding.1 with small | rfl
            · have moved : (Phase.sending k position).moved s.ledger.order = k := rfl
              omega
            · have pending : s.firmware.ints0 = true := (workOf_eq.mp inPhase.work).2.2.2.2.2.1
              have some := List.length_pos_iff.mpr (punctual rfl rfl pending)
              have moved : (Phase.sending k 256).moved s.ledger.order = k := rfl
              omega
          have taken : s.ledger.taken.length = 256 * sectors := aligned
          show next.ledger.taken.length + 256 ≤ 256 * completed next.bus.firmware next.ledger
          rw [calls, same, inPhase.completed_sending read]
          omega
        · have write : s.ledger.order.kind = .write := inPhase.suits
          rw [read] at write
          cases write
    | true =>
        have write : s.ledger.order.kind = .write := serving.kind_eq.trans kind
        refine ⟨fun other => Bool.noConfusion other, fun _ => .inr ⟨?_, ?_⟩⟩
        · show next.bus.firmware.regStatus = drqStatus
          rw [now, shows]
        · rcases which with ⟨k, position, rfl⟩ | ⟨k, position, rfl⟩
          · have delivers : s.ledger.order.Delivers := inPhase.suits
            exact absurd write delivers.not_write
          · have begun : s.ledger.begun.length = k := inPhase.begun_length true write
            have idle : (PicoIde.statusPatch s.firmware).dmaC ≠ Option.none := by
              apply statusPatch_fresh patched.dir
              rw [shows]
              decide
            have busy : (PicoIde.statusPatch s.firmware).dmaC = channel 0 position :=
              (workOf_eq.mp patched.work).2.2.2.2.1
            have small : position < 256 := by
              by_contra full
              rw [busy] at idle
              exact idle (dif_neg full)
            obtain ⟨_, filled, empty⟩ := inPhase.holding
            have nothing : s.firmware.dataRx = [] := empty.resolve_left (by omega)
            have given : s.ledger.given.length = 256 * k + position := by
              rw [nothing] at filled
              exact filled.length_eq
            have moved : s.ledger.given.length = 256 * sectors := aligned
            show next.ledger.given.length + 256 ≤ 256 * (next.ledger.begun.length + 1)
            rw [same, begun]
            omega

theorem Paced.askStatus (paced : Paced writes s) (nothing : s.host.left = 0)
    (taken : PicoIde.askStatus s = some t) : Paced writes t := by
  obtain ⟨next, recorded, rfl⟩ := Option.map_eq_some_iff.mp taken
  obtain ⟨stepped, ledger⟩ := recordedStep_eq_some.mp recorded
  have same : next.ledger = s.ledger := ledger
  simp only [busStep] at stepped
  split at stepped
  · have bus := Option.some.inj stepped
    refine ⟨fun reads => ?_, fun _ => .inl rfl⟩
    have bound := paced.read reads
    rw [nothing] at bound
    show next.ledger.taken.length + 0 ≤ 256 * completed next.bus.firmware next.ledger
    rw [same, ← bus]
    exact bound
  · cases stepped

theorem Paced.step {turn : Turn} (paced : Paced writes s)
    (serving : Serving order card writes data s) (kind : order.kind = orderKind writes)
    (punctual : Punctual writes s turn) (taken : sessionStep writes data s turn = some t) :
    Paced writes t := by
  cases turn with
  | host =>
      simp only [sessionStep, hostStep] at taken
      split at taken
      case h_1 host => exact paced.askStatus (by rw [host]; rfl) taken
      case h_2 host => exact paced.askStatus (by rw [host]; rfl) taken
      case h_3 host => exact paced.askStatus (by rw [host]; rfl) taken
      case h_4 raw rest host =>
          rcases serving.host with polled | ⟨_, moving, _⟩
          · rw [host] at polled
            cases polled
          · rw [host] at moving
            cases moving
      case h_5 left host =>
          obtain ⟨next, recorded, rfl⟩ := Option.map_eq_some_iff.mp taken
          exact paced.moveWord serving kind host recorded
  | writeIsr =>
      obtain ⟨next, recorded, rfl⟩ := Option.map_eq_some_iff.mp taken
      obtain ⟨stepped, _⟩ := recordedStep_eq_some.mp recorded
      rcases serving.access with none | waiting
      · simp only [busStep, show s.disk.bus.access = _ from none] at stepped
        cases stepped
      · simp only [busStep, show s.disk.bus.access = _ from waiting] at stepped
        cases stepped
  | readIsr => exact paced.readIsr serving kind punctual taken
  | dmaBIsr | dmaCIsr =>
      obtain ⟨next, recorded, rfl⟩ := Option.map_eq_some_iff.mp taken
      exact paced.own serving kind rfl recorded
  | core1 ok =>
      simp only [sessionStep] at taken
      obtain ⟨next, recorded, rfl⟩ := Option.map_eq_some_iff.mp taken
      exact paced.own serving kind rfl recorded

end OrionBios.PicoIde
