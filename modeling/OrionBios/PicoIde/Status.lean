import OrionBios.PicoIde.Isolation

/-!
# What the status register tells the 68k

The 68k polls the status: DRQ asks for words, BSY asks it to wait, and neither of them
with ERR clear means that the command is done. Each of these is a promise about the rest
of the firmware at the moment of the answer.
-/

namespace OrionBios.PicoIde

open Transition

/-! ## Promises -/

/-- A schedule of core 1 and the interrupt of `DMA_C` brings BSY down. -/
def Clears (ok : Bool) (f : Firmware) : Prop :=
  ∃ events, (∀ event ∈ events, event = .dmaCIsr ∨ event = .core1 ok) ∧
    ∃ last, exec eventStep f events = some last ∧ last.regStatus &&& IDE_STATUS_BSY = 0

/-- BSY comes down whatever the card answers. -/
def WillClear (f : Firmware) : Prop := ∀ ok : Bool, Clears ok f

/-- A request to core 1, a call of the SD driver or an interrupt of a channel is pending. -/
def Owes (f : Firmware) : Prop :=
  f.needFetch = true ∨ f.needFlush = true ∨ f.core1.call ≠ none ∨ f.ints0 = true ∨ f.ints1 = true

structure StatusRule (value : Byte) (f : Firmware) (l : Ledger) : Prop where
  exclusive : ¬ (value &&& IDE_STATUS_BSY ≠ 0 ∧ value &&& IDE_STATUS_DRQ ≠ 0)
  drq : value &&& IDE_STATUS_DRQ ≠ 0 →
    f.dir = .read ∧ (f.dmaB ≠ none ∨ f.dataTx ≠ []) ∨ f.dir = .write ∧ f.dmaC ≠ none
  busy : value &&& IDE_STATUS_BSY ≠ 0 → Owes f ∧ WillClear f
  /-- A READ or IDENTIFY shows as done when the 68k has all its words. -/
  idle : value &&& (IDE_STATUS_BSY ||| IDE_STATUS_DRQ ||| IDE_STATUS_ERR) = 0 →
    l.order.Delivers → l.taken = l.order.words l.card l.order.count

/-- The rule for every status read that is answered. -/
def StatusHonest (before : Recorded) (label : Label) (after : Recorded) : Prop :=
  label = .readIsr → ∀ raw, before.bus.access = some (.read raw) →
    rawAddr raw = IDE_REG_STATUS_CMD →
      StatusRule (readRegister raw before.bus.firmware).1 after.bus.firmware after.ledger

/-- The status is not read between the end of a sector in `DMA_B` and the interrupt when
the FIFO has run empty, nor between that interrupt and the last word of the command. -/
structure Settled (f : Firmware) : Prop where
  served : f.ints0 = true → f.dataTx ≠ []
  drained : f.dir = .none → f.regStatus &&& IDE_STATUS_ERR = 0 → f.dataTx = []

instance (f : Firmware) : Decidable (Settled f) :=
  decidable_of_iff ((f.ints0 = true → f.dataTx ≠ []) ∧
      (f.dir = .none → f.regStatus &&& IDE_STATUS_ERR = 0 → f.dataTx = []))
    ⟨fun ⟨served, drained⟩ => ⟨served, drained⟩, fun ⟨served, drained⟩ => ⟨served, drained⟩⟩

/-- A status read is answered by a settled firmware. -/
def SettledRead (s : Bus) : Label → Prop
  | .readIsr =>
    match s.access with
    | some (.read raw) => rawAddr raw = IDE_REG_STATUS_CMD → Settled s.firmware
    | _ => True
  | _ => True

instance decidableSettledAccess (f : Firmware) : (access : Option Access) →
    Decidable (match access with
      | some (.read raw) => rawAddr raw = IDE_REG_STATUS_CMD → Settled f
      | _ => True)
  | some (.read _) => inferInstanceAs (Decidable (_ → _))
  | none | some (.write _) => .isTrue trivial

instance (s : Bus) : (label : Label) → Decidable (SettledRead s label)
  | .readIsr => decidableSettledAccess s.firmware s.access
  | .access _ | .writeIsr | .event _ => .isTrue trivial

def Attentive (s : Recorded) (label : Label) : Prop :=
  Undisturbed s.bus label ∧ SettledRead s.bus label

instance (s : Recorded) (label : Label) : Decidable (Attentive s label) :=
  inferInstanceAs (Decidable (_ ∧ _))

/-! ## BSY comes down -/

variable {f : Firmware} {l : Ledger} {phase : Phase} {k position : Nat}

theorem clears_now {ok : Bool} (clear : f.regStatus &&& IDE_STATUS_BSY = 0) : Clears ok f :=
  ⟨[], fun _ among => absurd among List.not_mem_nil, f, rfl, clear⟩

theorem clears_after {ok : Bool} {event : Event} {next : Firmware}
    (own : event = .dmaCIsr ∨ event = .core1 ok) (taken : eventStep f event = some next)
    (clears : Clears ok next) : Clears ok f := by
  obtain ⟨events, owns, last, run, clear⟩ := clears
  refine ⟨event :: events, ?_, last, exec_cons_eq_some.mpr ⟨next, taken, run⟩, clear⟩
  intro other among
  rcases List.mem_cons.mp among with rfl | among
  · exact own
  · exact owns other among

theorem clears_core1 {ok : Bool} (clears : Clears ok (core1Step ok f)) : Clears ok f :=
  clears_after (.inr rfl) rfl clears

theorem InPhase.clears_failed (inPhase : InPhase f l (.failed k)) (ok : Bool) : Clears ok f := by
  apply clears_now
  rw [show f.regStatus = errorStatus from inPhase.shows]
  decide

theorem InPhase.clears_fetching (inPhase : InPhase f l (.fetching k)) (ok : Bool) :
    Clears ok f := by
  apply clears_core1
  have at1 := core1_of_read (workOf_eq.mp inPhase.work).2.2.1
  rw [core1Step, at1]
  cases ok with
  | true =>
      apply clears_now
      rw [show _ = drqStatus from inPhase.fetched.shows]
      decide
  | false => exact inPhase.fetchFailed.clears_failed false

theorem InPhase.clears_fetchWanted (inPhase : InPhase f l (.fetchWanted k)) (ok : Bool) :
    Clears ok f := by
  obtain ⟨fetch, flush, call, _⟩ := workOf_eq.mp inPhase.work
  have fromTest : ∀ {g : Firmware}, InPhase g l (.fetchWanted k) → g.core1 = .testFetch →
      Clears ok g := by
    intro g waiting at1
    have wanted : g.needFetch = true := (workOf_eq.mp waiting.work).1
    apply clears_core1
    rw [core1Step, at1]
    simp only [if_pos wanted]
    exact waiting.takeFetch.clears_fetching ok
  rcases core1_of_none call with at1 | at1
  · exact fromTest inPhase at1
  · apply clears_core1
    have unwanted : ¬ f.needFlush = true := by
      rw [flush]
      exact Bool.noConfusion
    rw [core1Step, at1]
    simp only [if_neg unwanted]
    exact fromTest (inPhase.turn call rfl) rfl

theorem InPhase.clears_flushing (inPhase : InPhase f l (.flushing k)) (ok : Bool) :
    Clears ok f := by
  apply clears_core1
  have at1 := core1_of_write (workOf_eq.mp inPhase.work).2.2.1
  have room : f.dataRx.length ≤ 4 := inPhase.holding.room
  rw [core1Step, at1]
  cases ok with
  | true =>
      apply clears_now
      by_cases last : k + 1 = l.order.count
      · rw [show _ = IDE_STATUS_DRDY from (inPhase.flushedLast last).shows]
        decide
      · rw [(inPhase.flushedSector last).shows.resolve_right fun stuck => by
          have full := stuck.1
          omega]
        decide
  | false => exact inPhase.flushFailed.clears_failed false

theorem InPhase.clears_flushWanted (inPhase : InPhase f l (.flushWanted k)) (ok : Bool) :
    Clears ok f := by
  obtain ⟨fetch, flush, call, _⟩ := workOf_eq.mp inPhase.work
  have fromTest : ∀ {g : Firmware}, InPhase g l (.flushWanted k) → g.core1 = .testFlush →
      Clears ok g := by
    intro g waiting at1
    have wanted : g.needFlush = true := (workOf_eq.mp waiting.work).2.1
    apply clears_core1
    rw [core1Step, at1]
    simp only [if_pos wanted]
    exact waiting.takeFlush.clears_flushing ok
  rcases core1_of_none call with at1 | at1
  · apply clears_core1
    have unwanted : ¬ f.needFetch = true := by
      rw [fetch]
      exact Bool.noConfusion
    rw [core1Step, at1]
    simp only [if_neg unwanted]
    exact fromTest (inPhase.turn call rfl) rfl
  · exact fromTest inPhase at1

theorem InPhase.clears_received (inPhase : InPhase f l (.receiving k 256)) (ok : Bool) :
    Clears ok f := by
  have pending : f.ints1 = true := (workOf_eq.mp inPhase.work).2.2.2.2.2.2
  exact clears_after (.inl rfl) (if_pos pending) (inPhase.gotSector.clears_flushWanted ok)

theorem InPhase.busy (inPhase : InPhase f l phase) (busy : f.regStatus &&& IDE_STATUS_BSY ≠ 0) :
    Owes f ∧ WillClear f := by
  obtain ⟨fetch, flush, call, _, _, _, ints1⟩ := workOf_eq.mp inPhase.work
  have idle : IDE_STATUS_DRDY &&& IDE_STATUS_BSY = 0 := by decide
  have error : errorStatus &&& IDE_STATUS_BSY = 0 := by decide
  have drq : drqStatus &&& IDE_STATUS_BSY = 0 := by decide
  have shows := inPhase.shows
  cases phase with
  | rest => rcases shows with shows | shows <;> simp [shows, idle, error] at busy
  | done => simp [show f.regStatus = IDE_STATUS_DRDY from shows, idle] at busy
  | failed k => simp [show f.regStatus = errorStatus from shows, error] at busy
  | fetchWanted k => exact ⟨.inl fetch, inPhase.clears_fetchWanted⟩
  | fetching k =>
      refine ⟨.inr (.inr (.inl ?_)), inPhase.clears_fetching⟩
      rw [call]
      exact Option.some_ne_none _
  | sending k position => simp [show f.regStatus = drqStatus from shows, drq] at busy
  | receiving k position =>
      rcases shows with shows | ⟨rfl, _⟩
      · simp [shows, drq] at busy
      · exact ⟨.inr (.inr (.inr (.inr ints1))), inPhase.clears_received⟩
  | flushWanted k => exact ⟨.inr (.inl flush), inPhase.clears_flushWanted⟩
  | flushing k =>
      refine ⟨.inr (.inr (.inl ?_)), inPhase.clears_flushing⟩
      rw [call]
      exact Option.some_ne_none _

/-! ## The other promises -/

theorem InPhase.exclusive (inPhase : InPhase f l phase) :
    ¬ (f.regStatus &&& IDE_STATUS_BSY ≠ 0 ∧ f.regStatus &&& IDE_STATUS_DRQ ≠ 0) := by
  have idle : IDE_STATUS_DRDY &&& IDE_STATUS_DRQ = 0 := by decide
  have error : errorStatus &&& IDE_STATUS_DRQ = 0 := by decide
  have busy : busyStatus &&& IDE_STATUS_DRQ = 0 := by decide
  have drq : drqStatus &&& IDE_STATUS_BSY = 0 := by decide
  rintro ⟨showsBusy, showsDrq⟩
  have shows := inPhase.shows
  cases phase with
  | rest => rcases shows with shows | shows <;> simp [shows, idle, error] at showsDrq
  | done => simp [show f.regStatus = IDE_STATUS_DRDY from shows, idle] at showsDrq
  | failed k => simp [show f.regStatus = errorStatus from shows, error] at showsDrq
  | sending k position => simp [show f.regStatus = drqStatus from shows, drq] at showsBusy
  | receiving k position =>
      rcases shows with shows | ⟨_, shows⟩
      · simp [shows, drq] at showsBusy
      · simp [shows, busy] at showsDrq
  | fetchWanted k | fetching k | flushWanted k | flushing k =>
      simp [show f.regStatus = busyStatus from shows, busy] at showsDrq

theorem InPhase.drq (inPhase : InPhase f l phase) (served : f.ints0 = true → f.dataTx ≠ [])
    (fresh : f.dir = .write → f.regStatus &&& IDE_STATUS_DRQ ≠ 0 → f.dmaC ≠ none)
    (showsDrq : f.regStatus &&& IDE_STATUS_DRQ ≠ 0) :
    f.dir = .read ∧ (f.dmaB ≠ none ∨ f.dataTx ≠ []) ∨ f.dir = .write ∧ f.dmaC ≠ none := by
  have idle : IDE_STATUS_DRDY &&& IDE_STATUS_DRQ = 0 := by decide
  have error : errorStatus &&& IDE_STATUS_DRQ = 0 := by decide
  have busy : busyStatus &&& IDE_STATUS_DRQ = 0 := by decide
  have shows := inPhase.shows
  obtain ⟨_, _, _, dmaB, _, ints0, _⟩ := workOf_eq.mp inPhase.work
  cases phase with
  | rest => rcases shows with shows | shows <;> simp [shows, idle, error] at showsDrq
  | done => simp [show f.regStatus = IDE_STATUS_DRDY from shows, idle] at showsDrq
  | failed k => simp [show f.regStatus = errorStatus from shows, error] at showsDrq
  | sending k position =>
      refine .inl ⟨inPhase.dir, ?_⟩
      rcases Nat.lt_or_eq_of_le inPhase.holding.1 with small | rfl
      · refine .inl ?_
        rw [dmaB, Phase.work, channel_of_lt _ small]
        exact Option.some_ne_none _
      · exact .inr (served ints0)
  | receiving k position => exact .inr ⟨inPhase.dir, fresh inPhase.dir showsDrq⟩
  | fetchWanted k | fetching k | flushWanted k | flushing k =>
      simp [show f.regStatus = busyStatus from shows, busy] at showsDrq

theorem InPhase.idle (inPhase : InPhase f l phase)
    (drained : f.dir = .none → f.regStatus &&& IDE_STATUS_ERR = 0 → f.dataTx = [])
    (shown : f.regStatus &&& (IDE_STATUS_BSY ||| IDE_STATUS_DRQ ||| IDE_STATUS_ERR) = 0)
    (delivers : l.order.Delivers) : l.taken = l.order.words l.card l.order.count := by
  have error : errorStatus &&& (IDE_STATUS_BSY ||| IDE_STATUS_DRQ ||| IDE_STATUS_ERR) ≠ 0 := by
    decide
  have busy : busyStatus &&& (IDE_STATUS_BSY ||| IDE_STATUS_DRQ ||| IDE_STATUS_ERR) ≠ 0 := by decide
  have drq : drqStatus &&& (IDE_STATUS_BSY ||| IDE_STATUS_DRQ ||| IDE_STATUS_ERR) ≠ 0 := by decide
  have shows := inPhase.shows
  cases phase with
  | rest => exact absurd inPhase.suits delivers.not_none
  | done =>
      have status : f.regStatus = IDE_STATUS_DRDY := shows
      have empty := drained inPhase.dir (by rw [status]; decide)
      have words := (inPhase.words delivers).1
      rw [empty, List.append_nil] at words
      exact words.trans (List.append_nil _)
  | failed k =>
      rw [show f.regStatus = errorStatus from shows] at shown
      exact absurd shown error
  | sending k position =>
      rw [show f.regStatus = drqStatus from shows] at shown
      exact absurd shown drq
  | receiving k position => exact absurd inPhase.suits delivers.not_write
  | fetchWanted k | fetching k | flushWanted k | flushing k =>
      rw [show f.regStatus = busyStatus from shows] at shown
      exact absurd shown busy

theorem statusPatch_settled (settled : Settled f) :
    ((statusPatch f).ints0 = true → (statusPatch f).dataTx ≠ []) ∧
      ((statusPatch f).dir = .none → (statusPatch f).regStatus &&& IDE_STATUS_ERR = 0 →
        (statusPatch f).dataTx = []) := by
  unfold statusPatch
  by_cases stale : f.dir = .write ∧ f.regStatus &&& IDE_STATUS_DRQ ≠ 0 ∧ f.dmaC = none
  · rw [if_pos stale]
    refine ⟨settled.served, fun none => ?_⟩
    have write : (setBusy f).dir = .write := stale.1
    rw [none] at write
    cases write
  · rw [if_neg stale]
    exact ⟨settled.served, settled.drained⟩

theorem InPhase.statusRule (inPhase : InPhase f l phase) (settled : Settled f) :
    StatusRule (PicoIde.statusPatch f).regStatus (PicoIde.statusPatch f) l := by
  have patched := inPhase.statusPatch
  obtain ⟨served, drained⟩ := statusPatch_settled settled
  exact
    { exclusive := patched.exclusive
      drq := patched.drq served statusPatch_fresh
      busy := patched.busy
      idle := patched.idle drained }

theorem honest_step {s t : Recorded} {label : Label} (proceeds : Proceeds s)
    (attentive : Attentive s label) (taken : recordedStep s label = some t) :
    StatusHonest s label t := by
  rintro rfl raw waiting status
  obtain ⟨phase, inPhase⟩ := proceeds
  obtain ⟨stepped, ledger⟩ := recordedStep_eq_some.mp taken
  have settled := attentive.2
  simp only [SettledRead, waiting] at settled
  simp only [busStep, waiting, Option.some.injEq] at stepped
  have same : t.ledger = s.ledger := ledger
  rw [same, ← stepped]
  simp only [readRegister, if_pos status]
  have value : registerValue (rawAddr raw) (statusPatch s.bus.firmware) =
      (statusPatch s.bus.firmware).regStatus := by
    rw [status]
    rfl
  rw [value]
  exact inPhase.statusRule (settled status)

/-- In every run whose commands find core 1 free and whose status reads find the firmware
settled, every status that the 68k reads keeps its promises. -/
theorem status_reads_honest (sdSectors : BitVec 32) (card : BitVec 32 → Sector)
    (buf : Fin 2 → Sector) (labels : List Label)
    (attentive : Guarded recordedStep Attentive
      (initialRecorded (initialFirmware sdSectors card buf)) labels) :
    EachStep recordedStep StatusHonest (initialRecorded (initialFirmware sdSectors card buf))
      labels := by
  have preserved : ∀ s label t, Proceeds s → Attentive s label → recordedStep s label = some t →
      Proceeds t :=
    fun _ _ _ proceeds attentive taken => proceeds_step proceeds attentive.1 taken
  have established : ∀ s label t, Proceeds s → Attentive s label → recordedStep s label = some t →
      StatusHonest s label t :=
    fun _ _ _ proceeds attentive taken => honest_step proceeds attentive taken
  exact eachStep_of_guarded Proceeds preserved established ⟨_, inPhase_initial sdSectors card buf⟩
    attentive

/-- An IDENTIFY of which the 68k has taken all words but the last four when the interrupt of
`DMA_B` reports the sector as delivered. -/
def earlyLabels : List Label :=
  [.access (.write (rawOf IDE_REG_STATUS_CMD IDE_CMD_IDENTIFY)), .writeIsr] ++
    List.replicate 252 (.event .readData) ++
    [.event .dmaBIsr, .access (.read (rawOf IDE_REG_STATUS_CMD 0))]

theorem identify_done_with_words_left :
    ¬ ∀ (sdSectors : BitVec 32) (card : BitVec 32 → Sector) (buf : Fin 2 → Sector)
      (labels : List Label),
      EachStep recordedStep StatusHonest (initialRecorded (initialFirmware sdSectors card buf))
        labels := by
  intro always
  let start := initialRecorded (initialFirmware 1 (fun _ _ => 0) fun _ _ => 0)
  have each := always 1 (fun _ _ => 0) (fun _ _ => 0) (earlyLabels ++ [.readIsr])
  have early : (exec recordedStep start earlyLabels).any (fun s =>
      (recordedStep s .readIsr).any fun t =>
        decide (s.bus.access = some (.read (rawOf IDE_REG_STATUS_CMD 0)) ∧
          (readRegister (rawOf IDE_REG_STATUS_CMD 0) s.bus.firmware).1 = IDE_STATUS_DRDY ∧
          t.ledger.order = { kind := .identify 1, first := 0, count := 1 } ∧
          t.ledger.taken.length = 252)) = true := by
    decide +kernel
  obtain ⟨s, run, last⟩ := Option.any_eq_true _ _ |>.mp early
  obtain ⟨t, taken, facts⟩ := Option.any_eq_true _ _ |>.mp last
  obtain ⟨waiting, value, order, length⟩ := of_decide_eq_true facts
  have rule := ((eachStep_append each run) t taken).1 rfl _ waiting (by decide)
  have delivers : t.ledger.order.Delivers := by
    rw [order]
    exact .inr ⟨⟨1, rfl⟩, rfl⟩
  have words := congrArg List.length (rule.idle (by rw [value]; decide) delivers)
  rw [length, Order.words_length, order] at words
  exact absurd words (by decide)

/-- A read of one sector, polled before and after the sector is fetched. -/
theorem status_reads_honest_polled :
    EachStep recordedStep StatusHonest
      (initialRecorded (initialFirmware 0 (fun _ _ => 0) fun _ _ => 0))
      [.access (.write (rawOf IDE_REG_STATUS_CMD IDE_CMD_READ_SECTORS)), .writeIsr,
        .access (.read (rawOf IDE_REG_STATUS_CMD 0)), .readIsr, .event (.core1 true),
        .event (.core1 true), .access (.read (rawOf IDE_REG_STATUS_CMD 0)), .readIsr,
        .event .readData] := by
  apply status_reads_honest
  exact guarded_of_check (by decide +kernel)

end OrionBios.PicoIde
