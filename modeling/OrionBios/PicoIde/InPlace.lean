import OrionBios.PicoIde.OnCard

/-!
# A session reads and writes its own sectors

The invariant counts the calls of the SD driver that have returned: each of them has sent one
command, and each that the card served has touched the sector it was for.
-/

namespace OrionBios.PicoIde

open Transition

variable {start : Firmware} {taskfile : List Raw} {command : Raw} {writes : Bool}
  {data : Nat → Word} {order : Order} {sd : Sd}

/-- The calls of the SD driver that have returned. -/
def Session.returned (s : Session) : Nat :=
  s.ledger.begun.length - if s.firmware.core1.call.isSome then 1 else 0

/-- The address of the first sector at or behind the capacity has not wrapped. -/
def EndsUnwrapped (sd : Sd) (order : Order) : Prop :=
  ∀ i < order.count, (∀ j < i, (order.lba j).toNat < sd.card.sectors) → Unwrapped sd (order.lba i)

/-- The driver and the card stand to the calls of the session as they should. -/
structure InPlace (writes : Bool) (order : Order) (sd : Sd) (s : OnCard) : Prop where
  /-- Every call of a ready driver has sent one command, which names the sector of the call if
  the card has it. -/
  sent : ∃ frames, s.sd.sent = sd.sent ++ frames ∧
    frames.length = (if sd.ready then s.session.returned else 0) ∧
    ∀ i frame, frames[i]? = some frame → ∃ arg,
      frame = sdFrame (sdCommand writes) arg 0x01 ∧
        ((order.lba i).toNat < sd.card.sectors → sd.card.named arg = some (order.lba i).toNat)
  /-- The card has read or written the sectors of the request in their order, all below its
  capacity. -/
  touched : ∃ n ≤ order.count,
    s.sd.touched = sd.touched ++ (List.range n).map (fun i => (order.lba i).toNat) ∧
      ∀ i < n, (order.lba i).toNat < sd.card.sectors
  others : ∀ number, (∀ i < order.count, number ≠ (order.lba i).toNat) →
    s.sd.card.block number = sd.card.block number
  reads : writes = false → s.sd.card = sd.card
  /-- A sector at or behind the capacity ends the command with ERR when its call returns. -/
  refused : ∀ i < order.count, sd.card.sectors ≤ (order.lba i).toNat →
    order.lba i ∈ s.session.ledger.begun →
      Calls writes s.session.firmware (order.lba i) ∨
        s.session.ledger.failures = [order.lba i] ∧ s.session.firmware.regStatus = errorStatus
  /-- A request with such a sector is never shown as done. -/
  undone : ∀ i < order.count, sd.card.sectors ≤ (order.lba i).toNat → ¬ s.session.Done order

/-! ## The invariant -/

structure Placed (writes : Bool) (order : Order) (sd : Sd) (s : OnCard) : Prop where
  ready : s.sd.ready = sd.ready
  isSdhc : s.sd.isSdhc = sd.isSdhc
  sectors : s.sd.card.sectors = sd.card.sectors
  /-- The model's card is the one behind the driver, but for a sector whose write has failed. -/
  coherent : ∀ lba, lba.toNat < sd.card.sectors → lba ∉ s.session.ledger.failures →
    s.session.firmware.card lba = sectorOfBlock (s.sd.card.block lba.toNat)
  sent : s.sd.sent = sd.sent ++ (List.range (if sd.ready then s.session.returned else 0)).map
    fun i => callFrame writes sd (order.lba i)
  touched : ∃ n, s.session.returned ≤ n + s.session.ledger.failures.length ∧
    n ≤ s.session.returned ∧
    s.sd.touched = sd.touched ++ (List.range n).map (fun i => (order.lba i).toNat) ∧
      ∀ i < n, (order.lba i).toNat < sd.card.sectors
  others : ∀ number, (∀ i < order.count, number ≠ (order.lba i).toNat) →
    s.sd.card.block number = sd.card.block number
  reads : writes = false → s.sd.card = sd.card

theorem sectorOfBlock_blockOfSector (sector : Sector) : sectorOfBlock (blockOfSector sector) = sector := by
  funext i
  have odd : (2 * i.val + 1) % 2 ≠ 0 := by omega
  have even : (2 * i.val) % 2 = 0 := by omega
  have halfOdd : (2 * i.val + 1) / 2 = i.val := by omega
  have halfEven : 2 * i.val / 2 = i.val := by omega
  simp only [sectorOfBlock, blockOfSector, if_neg odd, if_pos even, halfOdd, halfEven]
  apply BitVec.eq_of_getLsbD_eq
  intro j less
  rw [BitVec.getLsbD_append]
  by_cases low : j < 8
  · simp [lowByte, low]
  · have high : j - 8 < 8 := by omega
    have back : 8 + (j - 8) = j := by omega
    simp [highByte, low, high, back]

theorem Calls.isSome {s : Firmware} {lba : BitVec 32} (calls : Calls writes s lba) :
    s.core1.call.isSome = true := by
  obtain ⟨buffer, at1⟩ := calls
  rw [at1]
  cases writes <;> rfl

theorem returned_free {s : Session} (free : s.firmware.core1.call = none) :
    s.returned = s.ledger.begun.length := by
  rw [Session.returned, free]
  rfl

theorem returned_calling {s : Session} {lba : BitVec 32} (calls : Calls writes s.firmware lba) :
    s.returned = s.ledger.begun.length - 1 := by
  rw [Session.returned, calls.isSome]
  rfl

theorem returned_congr {s t : Session} (core1 : t.firmware.core1 = s.firmware.core1)
    (begun : t.ledger.begun = s.ledger.begun) : t.returned = s.returned := by
  rw [Session.returned, core1, begun, Session.returned]

theorem Placed.congr {s : OnCard} {t : Session} (placed : Placed writes order sd s)
    (kept : KeptOf s.session.firmware t.firmware) (begun : t.ledger.begun = s.session.ledger.begun)
    (failures : t.ledger.failures = s.session.ledger.failures) :
    Placed writes order sd { s with session := t } := by
  have returned := returned_congr kept.core1 begun
  exact
    { ready := placed.ready
      isSdhc := placed.isSdhc
      sectors := placed.sectors
      coherent := fun lba below sound => by
        rw [show OnCard.session _ = t from rfl, failures] at sound
        rw [show OnCard.session _ = t from rfl, kept.card]
        exact placed.coherent lba below sound
      sent := by
        rw [show OnCard.session _ = t from rfl, returned]
        exact placed.sent
      touched := by
        rw [show OnCard.session _ = t from rfl, returned, failures]
        exact placed.touched
      others := placed.others
      reads := placed.reads }

/-! ## Core 1 -/

theorem Calls.unique {s : Firmware} {lba lba' : BitVec 32} (calls : Calls writes s lba)
    {buffer : Fin 2} (at1 : s.core1 = if writes then .flushing buffer lba' else .fetching buffer lba') :
    lba' = lba := by
  obtain ⟨buffer', at1'⟩ := calls
  rw [at1'] at at1
  cases writes <;> cases at1 <;> rfl

/-- The end of a call in the firmware. -/
structure Ended (writes : Bool) (buffer : Fin 2) (lba : BitVec 32) (ok : Bool) (s t : Firmware) :
    Prop where
  call : t.core1.call = none
  card : t.card = if writes && ok then Function.update s.card lba (s.buf buffer) else s.card

theorem ended_fetching {s : Firmware} {buffer : Fin 2} {lba : BitVec 32}
    (at1 : s.core1 = .fetching buffer lba) (ok : Bool) :
    Ended false buffer lba ok s (core1Step ok s) := by
  rw [core1Step, at1]
  refine ⟨rfl, ?_⟩
  unfold fetchReturned
  cases ok with
  | false => rfl
  | true =>
      dsimp only
      rw [if_pos rfl]
      split
      · exact (keptOf_pumpB _).card
      · rfl

theorem ended_flushing {s : Firmware} {buffer : Fin 2} {lba : BitVec 32}
    (at1 : s.core1 = .flushing buffer lba) (ok : Bool) :
    Ended true buffer lba ok s (core1Step ok s) := by
  rw [core1Step, at1]
  refine ⟨rfl, ?_⟩
  unfold flushReturned
  cases ok with
  | false => rfl
  | true =>
      dsimp only
      rw [if_pos rfl]
      split
      · rfl
      · exact (keptOf_pumpC _).card

theorem recordCore1_calling {s : Firmware} {lba : BitVec 32} (calls : Calls writes s lba)
    (l : Ledger) (ok : Bool) :
    recordCore1 s l ok = if ok then l else { l with failures := l.failures ++ [lba] } := by
  obtain ⟨buffer, at1⟩ := calls
  cases writes
  · rw [recordCore1, at1]
    rfl
  · rw [recordCore1, at1]
    rfl

/-- While the call of the sector `k` runs without an earlier failure, all before it is done. -/
theorem Placed.calling {s : OnCard} {k : Nat} (placed : Placed writes order sd s)
    (begun : s.session.ledger.begun = (List.range (k + 1)).map order.lba)
    (calls : Calls writes s.session.firmware (order.lba k))
    (sound : s.session.ledger.failures = []) :
    (∀ lba, lba.toNat < sd.card.sectors →
        s.session.firmware.card lba = sectorOfBlock (s.sd.card.block lba.toNat)) ∧
      s.sd.sent = sd.sent ++ (List.range (if sd.ready then k else 0)).map
        (fun i => callFrame writes sd (order.lba i)) ∧
      s.sd.touched = sd.touched ++ (List.range k).map (fun i => (order.lba i).toNat) ∧
      ∀ i < k, (order.lba i).toNat < sd.card.sectors := by
  have returned : s.session.returned = k := by
    rw [returned_calling calls, begun, List.length_map, List.length_range]
    rfl
  obtain ⟨n, enough, most, touched, earlier⟩ := placed.touched
  rw [returned, sound] at enough
  rw [returned] at most
  have all : n = k := Nat.le_antisymm most enough
  rw [all] at touched earlier
  have sent := placed.sent
  rw [returned] at sent
  refine ⟨fun lba below => placed.coherent lba below ?_, sent, touched, earlier⟩
  rw [sound]
  exact List.not_mem_nil

/-- The call of the sector `k` reaches that sector of the card or none. -/
theorem Placed.below {s : OnCard} {k : Nat} (placed : Placed writes order sd s)
    (ends : EndsUnwrapped sd order) (less : k < order.count)
    (begun : s.session.ledger.begun = (List.range (k + 1)).map order.lba)
    (calls : Calls writes s.session.firmware (order.lba k))
    (sound : s.session.ledger.failures = []) (ready : s.sd.ready = true)
    (inside : blockOf s.sd (order.lba k) < s.sd.card.sectors) :
    (order.lba k).toNat < sd.card.sectors ∧ blockOf s.sd (order.lba k) = (order.lba k).toNat := by
  obtain ⟨-, -, -, earlier⟩ := placed.calling begun calls sound
  have unwrapped : Unwrapped s.sd (order.lba k) := by
    have unwrapped := ends k less earlier
    rw [Unwrapped, ← placed.ready, ← placed.isSdhc, ← placed.sectors] at unwrapped
    exact unwrapped
  have below : (order.lba k).toNat < s.sd.card.sectors := by
    by_contra beyond
    exact absurd inside (Nat.not_lt_of_le (blockOf_beyond ready unwrapped (Nat.le_of_not_lt beyond)))
  refine ⟨?_, blockOf_below below⟩
  rw [← placed.sectors]
  exact below

theorem callFrame_congr {a b : Sd} (same : a.isSdhc = b.isSdhc) (lba : BitVec 32) :
    callFrame writes a lba = callFrame writes b lba := by
  rw [callFrame, same, callFrame]

theorem range_succ_map {α : Type} (f : Nat → α) (n : Nat) :
    (List.range (n + 1)).map f = (List.range n).map f ++ [f n] := by
  rw [List.range_succ, List.map_append]
  rfl

/-- What the session counts behind the call of the sector `k`. -/
theorem Ended.counted {s t : Session} {k : Nat} {buffer : Fin 2} {ok : Bool}
    (ended : Ended writes buffer (order.lba k) ok s.firmware t.firmware)
    (begun : s.ledger.begun = (List.range (k + 1)).map order.lba)
    (sound : s.ledger.failures = [])
    (ledger : t.ledger = if ok then s.ledger else
      { s.ledger with failures := s.ledger.failures ++ [order.lba k] }) :
    t.returned = k + 1 ∧ t.ledger.failures = if ok then [] else [order.lba k] := by
  have sameBegun : t.ledger.begun = s.ledger.begun := by
    rw [ledger]
    cases ok <;> rfl
  constructor
  · rw [returned_free ended.call, sameBegun, begun, List.length_map, List.length_range]
  · rw [ledger]
    cases ok
    · show s.ledger.failures ++ [order.lba k] = _
      rw [sound]
      rfl
    · exact sound

theorem coherent_stored {s t : Firmware} {card : SdCard} {sectors : Nat} {own : BitVec 32}
    {buffer : Fin 2} {ok : Bool} {failures : List (BitVec 32)}
    (coherent : ∀ lba, lba.toNat < sectors → s.card lba = sectorOfBlock (card.block lba.toNat))
    (ended : Ended true buffer own ok s t) (failed : failures = if ok then [] else [own])
    (lba : BitVec 32) (below : lba.toNat < sectors) (unfailed : lba ∉ failures) :
    t.card lba = sectorOfBlock
      ((card.store own.toNat (blockOfSector (s.buf buffer))).block lba.toNat) := by
  rw [ended.card, Bool.true_and]
  show _ = sectorOfBlock (Function.update card.block own.toNat _ lba.toNat)
  by_cases same : lba = own
  · rw [same, Function.update_self]
    cases ok with
    | true => rw [if_pos rfl, Function.update_self, sectorOfBlock_blockOfSector]
    | false =>
        rw [failed, same] at unfailed
        exact absurd List.mem_cons_self unfailed
  · have apart : lba.toNat ≠ own.toNat := fun equal => same (BitVec.eq_of_toNat_eq equal)
    rw [Function.update_of_ne apart]
    cases ok with
    | true =>
        rw [if_pos rfl, Function.update_of_ne same]
        exact coherent lba below
    | false =>
        rw [if_neg Bool.false_ne_true]
        exact coherent lba below

/-- A call that returns keeps the invariant. -/
theorem Placed.called {s : OnCard} {t : Session} {after : Sd} {k : Nat} {buffer : Fin 2}
    {ok : Bool} {src : Block}
    (placed : Placed writes order sd s) (ends : EndsUnwrapped sd order) (less : k < order.count)
    (begun : s.session.ledger.begun = (List.range (k + 1)).map order.lba)
    (calls : Calls writes s.session.firmware (order.lba k))
    (sound : s.session.ledger.failures = [])
    (source : writes = true → src = blockOfSector (s.session.firmware.buf buffer))
    (outcome : CallOutcome writes s.sd (order.lba k) src ok after)
    (ended : Ended writes buffer (order.lba k) ok s.session.firmware t.firmware)
    (ledger : t.ledger = if ok then s.session.ledger else
      { s.session.ledger with failures := s.session.ledger.failures ++ [order.lba k] }) :
    Placed writes order sd { session := t, sd := after } := by
  obtain ⟨coherent, sent, touched, earlier⟩ := placed.calling begun calls sound
  obtain ⟨counted, failures⟩ := ended.counted begun sound ledger
  have sentOne : s.sd.ready = true → s.sd.sent ++ [callFrame writes s.sd (order.lba k)] =
      sd.sent ++ (List.range (if sd.ready then t.returned else 0)).map
        fun i => callFrame writes sd (order.lba i) := by
    intro ready
    rw [placed.ready] at ready
    rw [if_pos ready] at sent
    rw [if_pos ready, counted, range_succ_map, ← List.append_assoc, ← sent,
      callFrame_congr placed.isSdhc]
  -- the firmware's card after a call that left the SD card alone
  have same : t.firmware.card = s.session.firmware.card → ∀ lba,
      lba.toNat < sd.card.sectors → lba ∉ t.ledger.failures →
        t.firmware.card lba = sectorOfBlock (s.sd.card.block lba.toNat) := by
    intro card lba below _
    rw [card]
    exact coherent lba below
  have untouched : ok = false → ∃ n, t.returned ≤ n + t.ledger.failures.length ∧
      n ≤ t.returned ∧
      s.sd.touched = sd.touched ++ (List.range n).map (fun i => (order.lba i).toNat) ∧
        ∀ i < n, (order.lba i).toNat < sd.card.sectors := by
    rintro rfl
    rw [counted, failures]
    exact ⟨k, Nat.le_refl _, Nat.le_succ k, touched, earlier⟩
  have touchedOne : (order.lba k).toNat < sd.card.sectors →
      blockOf s.sd (order.lba k) = (order.lba k).toNat →
      ∃ n, t.returned ≤ n + t.ledger.failures.length ∧ n ≤ t.returned ∧
        s.sd.touched ++ [blockOf s.sd (order.lba k)] =
          sd.touched ++ (List.range n).map (fun i => (order.lba i).toNat) ∧
        ∀ i < n, (order.lba i).toNat < sd.card.sectors := by
    intro below block
    rw [counted]
    refine ⟨k + 1, Nat.le_add_right _ _, Nat.le_refl _, ?_, ?_⟩
    · rw [range_succ_map, ← List.append_assoc, ← touched, block]
    · exact Nat.forall_lt_succ_right.mpr ⟨earlier, below⟩
  cases outcome with
  | unready ready =>
      have unready : ¬ sd.ready = true := by
        rw [← placed.ready, ready]
        exact Bool.noConfusion
      have card := ended.card
      rw [Bool.and_false, if_neg Bool.false_ne_true] at card
      rw [if_neg unready] at sent
      exact
        { placed with
          coherent := same card
          sent := by
            rw [if_neg unready]
            exact sent
          touched := untouched rfl }
  | refused ready =>
      have card := ended.card
      rw [Bool.and_false, if_neg Bool.false_ne_true] at card
      exact
        { placed with
          coherent := same card
          sent := sentOne ready
          touched := untouched rfl }
  | read ready inside reads =>
      obtain ⟨below, block⟩ := placed.below ends less begun calls sound ready inside
      have card := ended.card
      rw [reads, Bool.false_and, if_neg Bool.false_ne_true] at card
      exact
        { placed with
          coherent := same card
          sent := sentOne ready
          touched := touchedOne below block }
  | written ready inside writing programmed =>
      obtain ⟨below, block⟩ := placed.below ends less begun calls sound ready inside
      subst writing
      exact
        { ready := placed.ready
          isSdhc := placed.isSdhc
          sectors := placed.sectors
          coherent := by
            rw [block, source rfl]
            exact coherent_stored coherent ended failures
          sent := sentOne ready
          touched := touchedOne below block
          others := by
            intro number other
            show Function.update s.sd.card.block (blockOf s.sd (order.lba k)) src number = _
            rw [block, Function.update_of_ne (other k less)]
            exact placed.others number other
          reads := nofun }

theorem core1OnCard_fetching {f : Firmware} {buffer : Fin 2} {lba : BitVec 32} {answer : Answer}
    {sd : Sd} (at1 : f.core1 = .fetching buffer lba)
    (same : ∀ block, (yourSdDriverReadBlock lba answer sd).1 = some block →
      sectorOfBlock block = f.card lba) :
    core1OnCard answer f sd =
      (core1Step (driverReturns answer f sd) f, (yourSdDriverReadBlock lba answer sd).2) := by
  unfold core1OnCard driverReturns
  rw [at1]
  dsimp only
  rcases result : yourSdDriverReadBlock lba answer sd with ⟨got, after⟩
  cases got with
  | none => rfl
  | some block =>
      rw [result] at same
      dsimp only
      rw [same block rfl, Function.update_eq_self, ← at1]
      rfl

theorem core1OnCard_flushing {f : Firmware} {buffer : Fin 2} {lba : BitVec 32} {answer : Answer}
    {sd : Sd} (at1 : f.core1 = .flushing buffer lba) :
    core1OnCard answer f sd =
      (core1Step (driverReturns answer f sd) f,
        (yourSdDriverWriteBlock lba (blockOfSector (f.buf buffer)) answer sd).2) := by
  unfold core1OnCard driverReturns
  rw [at1]

theorem core1OnCard_free {f : Firmware} (free : f.core1.call = none) (answer : Answer) (sd : Sd) :
    core1OnCard answer f sd = (core1Step (driverReturns answer f sd) f, sd) := by
  unfold core1OnCard driverReturns
  rcases core1_of_none free with at1 | at1
  · rw [at1]
  · rw [at1]

theorem core1_free {f : Firmware} (free : f.core1.call = none) (l : Ledger) (ok : Bool) :
    (core1Step ok f).card = f.card ∧ (recordCore1 f l ok).failures = l.failures ∧
      (recordCore1 f l ok).begun.length - (if (core1Step ok f).core1.call.isSome then 1 else 0) =
        l.begun.length := by
  rcases core1_of_none free with at1 | at1
  · rw [core1Step, recordCore1, at1]
    dsimp only
    split
    · refine ⟨rfl, rfl, ?_⟩
      rw [if_pos (by rfl), List.length_append]
      rfl
    · exact ⟨rfl, rfl, rfl⟩
  · rw [core1Step, recordCore1, at1]
    dsimp only
    split
    · refine ⟨rfl, rfl, ?_⟩
      rw [if_pos (by rfl), List.length_append]
      rfl
    · exact ⟨rfl, rfl, rfl⟩

theorem Placed.free {s : OnCard} {t : Session} {ok : Bool} (placed : Placed writes order sd s)
    (free : s.session.firmware.core1.call = none)
    (firmware : t.firmware = core1Step ok s.session.firmware)
    (ledger : t.ledger = recordCore1 s.session.firmware s.session.ledger ok) :
    Placed writes order sd { s with session := t } := by
  obtain ⟨card, failures, count⟩ := core1_free free s.session.ledger ok
  rw [← firmware] at card count
  rw [← ledger] at failures count
  have returned : t.returned = s.session.returned := by
    rw [returned_free free]
    exact count
  exact
    { ready := placed.ready
      isSdhc := placed.isSdhc
      sectors := placed.sectors
      coherent := fun lba below sound => by
        rw [show OnCard.session _ = t from rfl, failures] at sound
        rw [show OnCard.session _ = t from rfl, card]
        exact placed.coherent lba below sound
      sent := by
        rw [show OnCard.session _ = t from rfl, returned]
        exact placed.sent
      touched := by
        rw [show OnCard.session _ = t from rfl, returned, failures]
        exact placed.touched
      others := placed.others
      reads := placed.reads }

/-- Core 1 with the card takes a step of the session model and keeps the invariant. -/
theorem Placed.core1 {s t : OnCard} {answer : Answer} (placed : Placed writes order sd s)
    (stage : CallStage writes order s.session) (ends : EndsUnwrapped sd order)
    (lawful : LawfulTurn s (.core1 answer)) (taken : cardStep writes data s (.core1 answer) = some t) :
    sessionStep writes data s.session (CardTurn.turn s (.core1 answer)) = some t.session ∧
      Placed writes order sd t := by
  have step : ∀ after, core1OnCard answer s.session.firmware s.sd =
      (core1Step (driverReturns answer s.session.firmware s.sd) s.session.firmware, after) →
      sessionStep writes data s.session (CardTurn.turn s (.core1 answer)) = some t.session ∧
        t.session.firmware =
          core1Step (driverReturns answer s.session.firmware s.sd) s.session.firmware ∧
        t.session.ledger = recordCore1 s.session.firmware s.session.ledger
          (driverReturns answer s.session.firmware s.sd) ∧ t.sd = after := by
    intro after simulated
    simp only [cardStep, simulated, Option.some.injEq] at taken
    subst taken
    exact ⟨rfl, rfl, rfl, rfl⟩
  have free : s.session.firmware.core1.call = none →
      sessionStep writes data s.session (CardTurn.turn s (.core1 answer)) = some t.session ∧
        Placed writes order sd t := by
    intro free
    obtain ⟨taken, firmware, ledger, same⟩ := step s.sd (core1OnCard_free free answer s.sd)
    refine ⟨taken, ?_⟩
    have kept := placed.free free firmware ledger
    rw [← same] at kept
    exact kept
  cases stage with
  | between n le begun none sound => exact free none
  | failed k less begun none failures error => exact free none
  | calling k less begun calls sound =>
      obtain ⟨buffer, at1⟩ := calls
      have answered := lawful (callFrame writes s.sd (order.lba k)) (by
        rw [frameOf, at1]
        cases writes <;> rfl)
      have calls : Calls writes s.session.firmware (order.lba k) := ⟨buffer, at1⟩
      cases writes with
      | false =>
          have at1 : s.session.firmware.core1 = .fetching buffer (order.lba k) := at1
          obtain ⟨outcome, block⟩ := readBlock_outcome (blockOfSector (s.session.firmware.buf buffer))
            answered
          have same : ∀ got, (yourSdDriverReadBlock (order.lba k) answer s.sd).1 = some got →
              sectorOfBlock got = s.session.firmware.card (order.lba k) := by
            intro got result
            have ok : (yourSdDriverReadBlock (order.lba k) answer s.sd).1.isSome = true := by
              rw [result]
              rfl
            rw [ok] at outcome
            have served : s.sd.ready = true ∧ blockOf s.sd (order.lba k) < s.sd.card.sectors := by
              generalize (yourSdDriverReadBlock (order.lba k) answer s.sd).2 = after at outcome
              cases outcome with
              | read ready inside _ => exact ⟨ready, inside⟩
              | written ready inside _ _ => exact ⟨ready, inside⟩
            obtain ⟨below, own⟩ := placed.below ends less begun calls sound served.1 served.2
            rw [block got result, own]
            refine (placed.coherent _ below ?_).symm
            rw [sound]
            exact List.not_mem_nil
          obtain ⟨taken, firmware, ledger, sdAfter⟩ := step _ (core1OnCard_fetching at1 same)
          have returns : driverReturns answer s.session.firmware s.sd =
              (yourSdDriverReadBlock (order.lba k) answer s.sd).1.isSome := by
            rw [driverReturns, at1]
          have ended := ended_fetching at1 (driverReturns answer s.session.firmware s.sd)
          rw [← firmware] at ended
          rw [recordCore1_calling calls] at ledger
          rw [← returns, ← sdAfter] at outcome
          exact ⟨taken, placed.called ends less begun calls sound (fun writing => by cases writing)
            outcome ended ledger⟩
      | true =>
          have at1 : s.session.firmware.core1 = .flushing buffer (order.lba k) := at1
          have outcome := writeBlock_outcome (blockOfSector (s.session.firmware.buf buffer)) answered
          obtain ⟨taken, firmware, ledger, sdAfter⟩ := step _ (core1OnCard_flushing at1)
          have returns : driverReturns answer s.session.firmware s.sd =
              (yourSdDriverWriteBlock (order.lba k)
                (blockOfSector (s.session.firmware.buf buffer)) answer s.sd).1 := by
            rw [driverReturns, at1]
          have ended := ended_flushing at1 (driverReturns answer s.session.firmware s.sd)
          rw [← firmware] at ended
          rw [recordCore1_calling calls] at ledger
          rw [← returns, ← sdAfter] at outcome
          exact ⟨taken, placed.called ends less begun calls sound (fun _ => rfl) outcome ended ledger⟩

theorem Placed.step {s t : OnCard} {turn : CardTurn}
    (placed : Placed writes (orderOf (commandOf writes) (written taskfile start)) sd s)
    (underway : Underway start taskfile command writes data s.session)
    (ends : EndsUnwrapped sd (orderOf (commandOf writes) (written taskfile start)))
    (lawful : LawfulTurn s turn) (taken : cardStep writes data s turn = some t) :
    sessionStep writes data s.session (turn.turn s) = some t.session ∧
      Placed writes (orderOf (commandOf writes) (written taskfile start)) sd t := by
  have others : (∀ ok, turn.turn s ≠ .core1 ok) →
      ((sessionStep writes data s.session (turn.turn s)).map fun session =>
        { s with session := session }) = some t →
      sessionStep writes data s.session (turn.turn s) = some t.session ∧
        Placed writes (orderOf (commandOf writes) (written taskfile start)) sd t := by
    intro other taken
    obtain ⟨session, stepped, rfl⟩ := Option.map_eq_some_iff.mp taken
    obtain ⟨kept, begun, failures⟩ := underway.others other stepped
    exact ⟨stepped, placed.congr kept begun failures⟩
  cases turn with
  | core1 answer => exact placed.core1 underway.stage ends lawful taken
  | host | writeIsr | readIsr | dmaBIsr | dmaCIsr =>
      exact others (fun _ => Turn.noConfusion) taken

theorem placed_initial (start : Firmware) (idle : Idle start) (sd : Sd) :
    Placed writes order sd (initialOnCard start sd taskfile command) := by
  have free : start.core1.call = none := (workOf_eq.mp idle.work).2.2.1
  have returned : (initialOnCard start sd taskfile command).session.returned = 0 :=
    returned_free free
  exact
    { ready := rfl
      isSdhc := rfl
      sectors := rfl
      coherent := fun _ _ _ => rfl
      sent := by
        rw [returned, ite_self]
        exact (List.append_nil _).symm
      touched := by
        refine ⟨0, ?_, Nat.zero_le _, (List.append_nil _).symm, fun i less => absurd less (Nat.not_lt_zero i)⟩
        rw [returned]
        exact Nat.zero_le _
      others := fun _ _ => rfl
      reads := fun _ => rfl }

/-! ## The rule -/

theorem Underway.done {s : Session} (underway : Underway start taskfile command writes data s)
    (done : s.Done (orderOf (commandOf writes) (written taskfile start))) :
    s.ledger.begun = (List.range (orderOf (commandOf writes) (written taskfile start)).count).map
        (orderOf (commandOf writes) (written taskfile start)).lba ∧
      s.firmware.core1.call = none := by
  have kind := orderOf_command writes (written taskfile start)
  have some : (orderOf (commandOf writes) (written taskfile start)).kind ≠ .none := by
    rw [kind]
    cases writes <;> exact Kind.noConfusion
  rcases underway with ⟨left, preparing⟩ | serving
  · have accepted := done.1
    rw [preparing.fresh.1] at accepted
    rw [← accepted] at some
    exact absurd rfl some
  · obtain ⟨phase, inPhase⟩ := serving.phase
    have orderEq := serving.order_eq
    cases inPhase.done_of_status (by rw [orderEq]; exact some) done.2
    refine ⟨?_, (workOf_eq.mp inPhase.work).2.2.1⟩
    rw [inPhase.begun, orderEq]
    show Order.calls _ _ = _
    rw [Order.calls, kind]
    cases writes <;> rfl

theorem Placed.refused {s : OnCard} (placed : Placed writes order sd s)
    (stage : CallStage writes order s.session) (small : order.count ≤ 2 ^ 32) {i : Nat}
    (less : i < order.count) (beyond : sd.card.sectors ≤ (order.lba i).toNat)
    (among : order.lba i ∈ s.session.ledger.begun) :
    Calls writes s.session.firmware (order.lba i) ∨
      s.session.ledger.failures = [order.lba i] ∧ s.session.firmware.regStatus = errorStatus := by
  obtain ⟨n, enough, _, _, below⟩ := placed.touched
  have least : n ≤ i := by
    by_contra inside
    exact absurd (below i (Nat.lt_of_not_le inside)) (Nat.not_lt_of_le beyond)
  have index : ∀ m ≤ order.count, s.session.ledger.begun = (List.range m).map order.lba → i < m := by
    intro m le begun
    rw [begun] at among
    obtain ⟨j, inside, equal⟩ := List.mem_map.mp among
    have inside := List.mem_range.mp inside
    have same : j = i := order.lba_injective (by omega) (by omega) equal
    rw [← same]
    exact inside
  cases stage with
  | between m le begun free sound =>
      have inside := index m le begun
      rw [returned_free free, begun, sound, List.length_map, List.length_range] at enough
      exact absurd (Nat.le_trans enough least) (Nat.not_le_of_lt inside)
  | calling k less' begun calls sound =>
      have inside := index (k + 1) less' begun
      rw [returned_calling calls, begun, sound, List.length_map, List.length_range] at enough
      have last : i = k := Nat.le_antisymm (Nat.le_of_lt_succ inside) (Nat.le_trans enough least)
      rw [last]
      exact .inl calls
  | failed k less' begun free failures error =>
      have inside := index (k + 1) less' begun
      rw [returned_free free, begun, failures, List.length_map, List.length_range] at enough
      have last : i = k :=
        Nat.le_antisymm (Nat.le_of_lt_succ inside) (Nat.le_trans (Nat.le_of_succ_le_succ enough) least)
      rw [last]
      exact .inr ⟨failures, error⟩

theorem callFrame_named {lba : BitVec 32} :
    ∃ arg, callFrame writes sd lba = sdFrame (sdCommand writes) arg 0x01 ∧
      (lba.toNat < sd.card.sectors → sd.card.named arg = some lba.toNat) := by
  refine ⟨_, rfl, fun below => ?_⟩
  rw [named_blockAddress]
  exact congrArg some (blockOf_below below)

theorem Placed.inPlace {s : OnCard}
    (placed : Placed writes (orderOf (commandOf writes) (written taskfile start)) sd s)
    (underway : Underway start taskfile command writes data s.session)
    (small : (orderOf (commandOf writes) (written taskfile start)).count ≤ 2 ^ 32) :
    InPlace writes (orderOf (commandOf writes) (written taskfile start)) sd s := by
  have stage := underway.stage
  have refused := fun i less beyond among =>
    placed.refused stage small (i := i) less beyond among
  have called : s.session.returned ≤ (orderOf (commandOf writes) (written taskfile start)).count := by
    cases stage with
    | between m le begun free sound =>
        rw [returned_free free, begun, List.length_map, List.length_range]
        exact le
    | calling k less begun calls sound =>
        rw [returned_calling calls, begun, List.length_map, List.length_range]
        exact Nat.le_of_lt less
    | failed k less begun free failures error =>
        rw [returned_free free, begun, List.length_map, List.length_range]
        exact less
  exact
    { sent := by
        refine ⟨_, placed.sent, by rw [List.length_map, List.length_range], ?_⟩
        intro i frame at1
        rw [List.getElem?_map] at at1
        obtain ⟨j, index, rfl⟩ := Option.map_eq_some_iff.mp at1
        obtain ⟨_, same⟩ := List.getElem?_eq_some_iff.mp index
        rw [List.getElem_range] at same
        rw [← same]
        exact callFrame_named
      touched := by
        obtain ⟨n, _, most, touched, below⟩ := placed.touched
        exact ⟨n, Nat.le_trans most called, touched, below⟩
      others := placed.others
      reads := placed.reads
      refused := refused
      undone := fun i less beyond done => by
        obtain ⟨begun, free⟩ := underway.done done
        have among : (orderOf (commandOf writes) (written taskfile start)).lba i ∈
            s.session.ledger.begun := by
          rw [begun]
          exact List.mem_map_of_mem (List.mem_range.mpr less)
        rcases refused i less beyond among with calls | ⟨_, error⟩
        · have some := calls.isSome
          rw [free] at some
          cases some
        · have status := done.2
          rw [error] at status
          exact absurd status (by decide) }

/-- In every session on a card, at every moment: each command names the sector that its call is
for, the card moves sectors of the request only, and a sector behind its end is an error. -/
theorem sectors_in_place (start : Firmware) (idle : Idle start) (sd : Sd) (lba : Nat)
    (small : lba < 2 ^ 28) (count : Byte) (taskfile : List Raw)
    (registers : ∀ raw ∈ taskfile, rawAddr raw ≠ IDE_REG_STATUS_CMD)
    (address : (currentLbaFromRegs (written taskfile (insertCard sd.card start))).toNat = lba)
    (sectors : (written taskfile (insertCard sd.card start)).regSectorCount = count) (writes : Bool)
    (command : Raw) (isCommand : rawAddr command = IDE_REG_STATUS_CMD)
    (code : rawData command = commandOf writes) (data : Nat → Word)
    (ends : EndsUnwrapped sd (transfer writes lba count)) (turns : List CardTurn) (s : OnCard)
    (lawful : Guarded (cardStep writes data) LawfulTurn (initialOnCard start sd taskfile command)
      turns)
    (run : exec (cardStep writes data) (initialOnCard start sd taskfile command) turns = some s) :
    (∀ i < sectorCount count, ((transfer writes lba count).lba i).toNat = lba + i) ∧
      InPlace writes (transfer writes lba count) sd s := by
  have idle' : Idle (insertCard sd.card start) := ⟨idle.work, idle.dir, idle.status⟩
  have order : orderOf (commandOf writes) (written taskfile (insertCard sd.card start)) =
      transfer writes lba count := orderOf_transfer address sectors
  have count_le : (orderOf (commandOf writes) (written taskfile (insertCard sd.card start))).count ≤
      2 ^ 32 := by
    have bound := sectorCount_le count
    rw [order]
    show sectorCount count ≤ 2 ^ 32
    omega
  refine ⟨fun i less => transfer_lba_toNat small less, ?_⟩
  rw [← order] at ends ⊢
  have kept : Underway (insertCard sd.card start) taskfile command writes data s.session ∧
      Placed writes (orderOf (commandOf writes) (written taskfile (insertCard sd.card start))) sd s := by
    refine invariant_of_guarded
      (fun s => Underway (insertCard sd.card start) taskfile command writes data s.session ∧
        Placed writes (orderOf (commandOf writes) (written taskfile (insertCard sd.card start))) sd s)
      ?_ ⟨.inl (preparing_initial idle'), placed_initial start idle sd⟩ lawful run
    rintro s turn t ⟨underway, placed⟩ lawful taken
    obtain ⟨stepped, placed'⟩ := placed.step underway ends lawful taken
    exact ⟨underway.step registers isCommand code stepped, placed'⟩
  exact kept.2.inPlace kept.1 count_le

def smallCard : Sd where
  ready := true
  isSdhc := false
  card :=
    { isSdhc := false
      sectors := 8
      reachable := fun _ => by decide
      block := fun number _ => BitVec.ofNat 8 number }
  agrees := rfl
  sent := []
  touched := []

def idleFirmware : Firmware := initialFirmware 8 (fun _ _ => 0) fun _ _ => 0

def readAt (reg : BitVec 3) (value : Byte) : List Raw :=
  [rawOf IDE_REG_SECTOR_COUNT 1, rawOf reg value]

/-- The command is taken, and core 1 calls the driver once. -/
def oneCall (answer : Answer) : List CardTurn :=
  [.host, .writeIsr, .host, .writeIsr, .host, .writeIsr, .core1 answer, .core1 answer]

def refusingAnswer : Answer where
  r1 := 0x40
  token := false
  response := 0
  ready := false

def servingAnswer : Answer where
  r1 := 0
  token := true
  response := 0x05
  ready := true

theorem readAt_registers {reg : BitVec 3} (value : Byte)
    (register : rawAddr (rawOf reg value) ≠ IDE_REG_STATUS_CMD) :
    ∀ raw ∈ readAt reg value, rawAddr raw ≠ IDE_REG_STATUS_CMD := by
  have count : rawAddr (rawOf IDE_REG_SECTOR_COUNT 1) ≠ IDE_REG_STATUS_CMD := by decide
  intro raw among
  rcases List.mem_cons.mp among with same | among
  · exact same ▸ count
  · exact (List.mem_singleton.mp among) ▸ register

/-- A read of sector 9 of that card. -/
theorem sectors_in_place_nine :
    ∃ s, exec (cardStep false fun _ => 0)
        (initialOnCard idleFirmware smallCard (readAt IDE_REG_LBA_LOW 9)
          (rawOf IDE_REG_STATUS_CMD IDE_CMD_READ_SECTORS)) (oneCall refusingAnswer) = some s ∧
      InPlace false (transfer false 9 1) smallCard s := by
  have taken : (exec (cardStep false fun _ => 0)
      (initialOnCard idleFirmware smallCard (readAt IDE_REG_LBA_LOW 9)
        (rawOf IDE_REG_STATUS_CMD IDE_CMD_READ_SECTORS)) (oneCall refusingAnswer)).isSome = true := by
    decide +kernel
  have ends : EndsUnwrapped smallCard (transfer false 9 1) := by
    intro i less _ _ _ _
    have first : i = 0 := Nat.lt_one_iff.mp less
    rw [first]
    decide
  obtain ⟨s, run⟩ := Option.isSome_iff_exists.mp taken
  refine ⟨s, run, ?_⟩
  exact (sectors_in_place idleFirmware ⟨rfl, rfl, .inl rfl⟩ smallCard 9 (by decide) 1
    (readAt IDE_REG_LBA_LOW 9) (readAt_registers 9 (by decide)) (by decide +kernel)
    (by decide +kernel) false (rawOf IDE_REG_STATUS_CMD IDE_CMD_READ_SECTORS) (by decide)
    (by decide +kernel) (fun _ => 0) ends (oneCall refusingAnswer) s
    (guarded_of_check (by decide +kernel)) run).2

/-- A read of sector 2^23 of that card gets its block 0. -/
theorem wrapped_sector_read :
    ¬ ∀ (start : Firmware) (_ : Idle start) (sd : Sd) (lba : Nat) (_ : lba < 2 ^ 28) (count : Byte)
      (taskfile : List Raw) (_ : ∀ raw ∈ taskfile, rawAddr raw ≠ IDE_REG_STATUS_CMD)
      (_ : (currentLbaFromRegs (written taskfile (insertCard sd.card start))).toNat = lba)
      (_ : (written taskfile (insertCard sd.card start)).regSectorCount = count) (writes : Bool)
      (command : Raw) (_ : rawAddr command = IDE_REG_STATUS_CMD)
      (_ : rawData command = commandOf writes) (data : Nat → Word) (turns : List CardTurn)
      (s : OnCard) (_ : Guarded (cardStep writes data) LawfulTurn
        (initialOnCard start sd taskfile command) turns)
      (_ : exec (cardStep writes data) (initialOnCard start sd taskfile command) turns = some s),
      InPlace writes (transfer writes lba count) sd s := by
  intro always
  have touched : (exec (cardStep false fun _ => 0)
      (initialOnCard idleFirmware smallCard (readAt IDE_REG_LBA_HIGH 0x80)
        (rawOf IDE_REG_STATUS_CMD IDE_CMD_READ_SECTORS)) (oneCall servingAnswer)).map
          (fun s => s.sd.touched) = some [0] := by
    decide +kernel
  obtain ⟨s, run, zero⟩ := Option.map_eq_some_iff.mp touched
  have inPlace := always idleFirmware ⟨rfl, rfl, .inl rfl⟩ smallCard (2 ^ 23) (by decide) 1
    (readAt IDE_REG_LBA_HIGH 0x80) (readAt_registers 0x80 (by decide)) (by decide +kernel)
    (by decide +kernel) false (rawOf IDE_REG_STATUS_CMD IDE_CMD_READ_SECTORS) (by decide)
    (by decide +kernel) (fun _ => 0) (oneCall servingAnswer) s
    (guarded_of_check (by decide +kernel)) run
  obtain ⟨n, _, own, below⟩ := inPlace.touched
  rw [zero] at own
  have length := congrArg List.length own
  rw [List.length_append, List.length_map, List.length_range] at length
  have one : n = 1 := (length.trans (Nat.zero_add n)).symm
  exact absurd (below 0 (by rw [one]; decide)) (by decide)

end OrionBios.PicoIde
