import OrionBios.Timers.Model

/-!
# When the timers keep time

The tick of a timer is what its `remaining` says only while every tick gets its own pass and a
timer starts behind the pass that runs; the blocks are only touched while they live when a
callback leaves its own timer in the table. Under that condition the law holds in every run.
-/

namespace OrionBios.Timers

open Transition

namespace State

/-- The pass that runs is past the slot. -/
def Passed (s : State) (slot : Nat) : Prop := ∀ frame ∈ s.frames, slot ≤ frame.slot

def Framed (s : State) (slot : Nat) : Prop := ∃ frame ∈ s.frames, frame.slot = slot

/-- A timer of this interval that starts now is counted down at the next tick first. -/
def InStep (s : State) (slot : Nat) (interval : Word) : Prop :=
  interval ≠ 0 ∨ s.Framed slot → s.lastTick = s.gTickCount ∧ s.Passed slot

/-- No timer that is about to fire has used up its count. -/
def Countable (s : State) : Prop :=
  ∀ slot, slot < maxTimers → ∀ timer ∈ s.timerAt slot,
    timer.enabled = true → timer.remaining = 1 → timer.count.toNat + 1 < 2 ^ 32

/-- No callback runs, and no timer waits. -/
def Resting (s : State) : Prop :=
  s.frames = [] ∧ ∀ slot, slot < maxTimers → ∀ timer ∈ s.timerAt slot, timer.enabled = false

instance (s : State) (slot : Nat) : Decidable (s.Passed slot) :=
  inferInstanceAs (Decidable (∀ frame ∈ s.frames, slot ≤ frame.slot))

instance (s : State) (slot : Nat) : Decidable (s.Framed slot) :=
  inferInstanceAs (Decidable (∃ frame ∈ s.frames, frame.slot = slot))

instance (s : State) (slot : Nat) (interval : Word) : Decidable (s.InStep slot interval) :=
  inferInstanceAs (Decidable (_ → _))

instance (s : State) : Decidable s.Resting :=
  inferInstanceAs (Decidable (s.frames = [] ∧ ∀ slot, slot < maxTimers →
    ∀ timer ∈ s.timerAt slot, timer.enabled = false))

instance (s : State) : Decidable s.Countable :=
  inferInstanceAs (Decidable (∀ slot, slot < maxTimers → ∀ timer ∈ s.timerAt slot,
    timer.enabled = true → timer.remaining = 1 → timer.count.toNat + 1 < 2 ^ 32))

end State

/-- The condition under which the timers keep time, call by call. -/
def Guard (s : State) : Label → Prop
  | .tick => s.lastTick = s.gTickCount ∨ s.Resting ∧ s.gTickCount + 1 ≠ s.lastTick
  | .init => False
  | .add interval start _ block => ∀ slot ∈ s.freeSlot,
    block ≠ none ∧ (start = true → s.InStep slot (interval.setWidth 32))
  | .delete timer => ∀ block ∈ s.gTimers timer.toNat,
    timer.toNat < maxTimers ∧ ∀ frame ∈ s.frames, frame.block ≠ block
  | .start timer => ∀ block ∈ s.gTimers timer.toNat,
    timer.toNat < maxTimers ∧ ∀ event ∈ s.blocks block, s.InStep timer.toNat event.interval
  | .stop timer => ∀ _block ∈ s.gTimers timer.toNat, timer.toNat < maxTimers
  | .reset timer => ∀ block ∈ s.gTimers timer.toNat,
    timer.toNat < maxTimers ∧ ∀ event ∈ s.blocks block,
      event.enabled = true → s.InStep timer.toNat event.interval
  | .setInterval timer _ => ∀ _block ∈ s.gTimers timer.toNat, timer.toNat < maxTimers
  | .update => s.lastTick = s.gTickCount ∨ s.frames = [] ∧ s.Countable
  | .ret => s.Countable

instance (s : State) (label : Label) : Decidable (Guard s label) := by
  cases label <;> dsimp only [Guard] <;> infer_instance

/-! ## The invariant -/

/-- The tick by which a slot lags when the pass is at a position. -/
def lag (position slot : Nat) : Nat := if slot < position then 0 else 1

/-- What holds of a slot's timer while the pass is at a position and a callback holds a slot. -/
structure OnTime (seen position : Nat) (held : Option Nat) (slot : Nat) (timer : EventTimer)
    (watch : Watch) : Prop where
  count : timer.count.toNat = watch.counted
  /-- The firings of a timer whose interval stayed are one interval apart. -/
  apart : timer.enabled = true → watch.steady = true → timer.interval ≠ 0 →
    watch.mark = watch.since + watch.fired * timer.interval.toNat
  marked : held = some slot → timer.enabled = true → watch.mark = seen
  steady : held ≠ some slot → timer.enabled = true → watch.steady = true →
    watch.period = timer.interval.toNat
  /-- `remaining` is what is left of the period. -/
  remains : held ≠ some slot → timer.enabled = true → 1 ≤ watch.period →
    1 ≤ timer.remaining.toNat ∧
      timer.remaining.toNat + seen = watch.mark + watch.period + lag position slot ∧
      watch.mark + lag position slot ≤ seen

/-- What holds while the pass is at a position and a callback holds a slot. -/
structure Kept (s : State) (position : Nat) (held : Option Nat) : Prop where
  sane : s.fault = none
  tickCount : s.gTickCount = BitVec.ofNat 32 s.now
  lastTick : s.lastTick = BitVec.ofNat 32 s.seen
  low : s.seen ≤ s.now
  high : s.now < s.seen + 2 ^ 32
  live : ∀ slot block, slot < maxTimers → s.gTimers slot = some block →
    ∃ timer, s.blocks block = some timer
  apart : ∀ first second block, first < maxTimers → second < maxTimers →
    s.gTimers first = some block → s.gTimers second = some block → first = second
  onTime : ∀ slot timer, s.timerAt slot = some timer →
    OnTime s.seen position held slot timer (s.watches slot)
  firings : ∀ firing ∈ s.firings, firing.Right

namespace State

/-- The first slot that the pass has yet to come to. -/
def position (s : State) : Nat :=
  match s.frames with
  | [] => maxTimers
  | frame :: _ => frame.slot + 1

def held (s : State) : Option Nat := s.frames.head?.map Frame.slot

end State

/-- At most one tick has had no pass, unless no timer waits for one. -/
def State.Paced (s : State) : Prop :=
  s.now ≤ s.seen + 1 ∨
    s.frames = [] ∧ ∀ slot timer, s.timerAt slot = some timer → timer.enabled = true →
      (s.watches slot).period = 0

structure Inv (s : State) : Prop where
  kept : Kept s s.position s.held
  paced : s.Paced
  alone : s.frames.length ≤ 1
  framed : ∀ frame ∈ s.frames,
    frame.slot < maxTimers ∧ s.gTimers frame.slot = some frame.block

theorem initial_inv (beyond : Nat → Option Nat) : Inv (initial beyond) := by
  have empty (slot : Nat) : (initial beyond).timerAt slot = none := by
    unfold State.timerAt initial
    by_cases inside : slot < maxTimers
    · rw [if_pos inside]
      show (if slot < maxTimers then none else beyond slot).bind _ = none
      rw [if_pos inside]
      rfl
    · rw [if_neg inside]
  have unused {slot block : Nat} (inside : slot < maxTimers)
      (points : (initial beyond).gTimers slot = some block) : False := by
    change (if slot < maxTimers then none else beyond slot) = some block at points
    rw [if_pos inside] at points
    cases points
  refine ⟨?_, .inl (Nat.zero_le _), Nat.zero_le _, fun _ there => absurd there List.not_mem_nil⟩
  exact
    { sane := rfl
      tickCount := rfl
      lastTick := rfl
      low := Nat.le_refl 0
      high := by
        show 0 < 0 + 2 ^ 32
        decide
      live := fun slot block inside points => (unused inside points).elim
      apart := fun first second block inside _ points _ => (unused inside points).elim
      onTime := fun slot timer there => by
        rw [empty] at there
        cases there
      firings := fun _ there => absurd there List.not_mem_nil }

/-! ## A timer of the table is written -/

variable {s t : State} {position position' slot block : Nat} {held held' : Option Nat}

theorem timerAt_eq_some {timer : EventTimer} (there : s.timerAt slot = some timer) :
    slot < maxTimers ∧ ∃ block, s.gTimers slot = some block ∧ s.blocks block = some timer := by
  unfold State.timerAt at there
  by_cases inside : slot < maxTimers
  · rw [if_pos inside] at there
    exact ⟨inside, Option.bind_eq_some_iff.mp there⟩
  · rw [if_neg inside] at there
    cases there

theorem timerAt_of {timer : EventTimer} (inside : slot < maxTimers)
    (points : s.gTimers slot = some block) (holds : s.blocks block = some timer) :
    s.timerAt slot = some timer := by
  unfold State.timerAt
  rw [if_pos inside, points]
  exact holds

theorem timerAt_put_self {timer : EventTimer} {watch : Watch}
    (inside : slot < maxTimers) (points : s.gTimers slot = some block) :
    (s.put slot block timer watch).timerAt slot = some timer :=
  timerAt_of inside points (Function.update_self _ _ _)

theorem Kept.timerAt_put_of_ne (kept : Kept s position held) {timer : EventTimer} {watch : Watch}
    (inside : slot < maxTimers) (points : s.gTimers slot = some block) {other : Nat}
    (different : other ≠ slot) :
    (s.put slot block timer watch).timerAt other = s.timerAt other := by
  unfold State.timerAt
  by_cases within : other < maxTimers
  · rw [if_pos within, if_pos within]
    show (s.gTimers other).bind (Function.update s.blocks block (some timer)) =
      (s.gTimers other).bind s.blocks
    cases own : s.gTimers other with
    | none => rfl
    | some block' =>
      have elsewhere : block' ≠ block := fun same =>
        different (kept.apart other slot block within inside (own.trans (congrArg some same)) points)
      exact Function.update_of_ne elsewhere _ _
  · rw [if_neg within, if_neg within]

theorem Kept.put (kept : Kept s position held) {timer : EventTimer} {watch : Watch}
    (inside : slot < maxTimers) (points : s.gTimers slot = some block)
    (own : OnTime s.seen position' held' slot timer watch)
    (others : ∀ other timer watch, other ≠ slot → OnTime s.seen position held other timer watch →
      OnTime s.seen position' held' other timer watch) :
    Kept (s.put slot block timer watch) position' held' where
  sane := kept.sane
  tickCount := kept.tickCount
  lastTick := kept.lastTick
  low := kept.low
  high := kept.high
  live := fun other block' within points' => by
    show ∃ found, Function.update s.blocks block (some timer) block' = some found
    by_cases same : block' = block
    · exact ⟨timer, by rw [same, Function.update_self]⟩
    · rw [Function.update_of_ne same]
      exact kept.live other block' within points'
  apart := kept.apart
  onTime := fun other timer' there => by
    show OnTime s.seen position' held' other timer'
      (Function.update s.watches slot watch other)
    by_cases same : other = slot
    · subst same
      rw [Function.update_self]
      rw [timerAt_put_self inside points] at there
      cases there
      exact own
    · rw [Function.update_of_ne same]
      rw [kept.timerAt_put_of_ne inside points same] at there
      exact others other timer' _ same (kept.onTime other timer' there)
  firings := kept.firings

theorem Paced.put (kept : Kept s position held) (paced : s.Paced) {timer : EventTimer}
    {watch : Watch} (inside : slot < maxTimers) (points : s.gTimers slot = some block)
    (own : s.frames = [] → timer.enabled = true → watch.period = 0 ∨ s.now ≤ s.seen + 1) :
    (s.put slot block timer watch).Paced := by
  by_cases near : s.now ≤ s.seen + 1
  · exact .inl near
  obtain ⟨quiet, idle⟩ := paced.resolve_left near
  refine .inr ⟨quiet, fun other timer' there on => ?_⟩
  show (Function.update s.watches slot watch other).period = 0
  by_cases same : other = slot
  · subst same
    rw [timerAt_put_self inside points] at there
    cases there
    rw [Function.update_self]
    exact (own quiet on).resolve_right near
  · rw [kept.timerAt_put_of_ne inside points same] at there
    rw [Function.update_of_ne same]
    exact idle other timer' there on

/-- The functions that write one timer keep the invariant when they keep its part of it. -/
theorem Inv.edit (inv : Inv s) {timer : BitVec 16} {change : EventTimer → EventTimer}
    {watched : EventTimer → Watch → Watch}
    (inside : ∀ _block ∈ s.gTimers timer.toNat, timer.toNat < maxTimers)
    (own : ∀ event watch, s.timerAt timer.toNat = some event →
      OnTime s.seen s.position s.held timer.toNat event watch →
      OnTime s.seen s.position s.held timer.toNat (change event) (watched event watch))
    (rests : ∀ event watch, s.timerAt timer.toNat = some event →
      (event.enabled = true → watch.period = 0 ∨ s.now ≤ s.seen + 1) →
      (change event).enabled = true →
      (watched event watch).period = 0 ∨ s.now ≤ s.seen + 1) :
    Inv (s.edit timer change watched) := by
  unfold State.edit
  cases points : s.gTimers timer.toNat with
  | none => exact inv
  | some block =>
    have within := inside block points
    obtain ⟨event, holds⟩ := inv.kept.live _ _ within points
    have there := timerAt_of within points holds
    dsimp only
    rw [if_pos within, holds]
    exact
      { kept := inv.kept.put within points (own event _ there (inv.kept.onTime _ _ there))
          fun _ _ _ _ onTime => onTime
        paced := Paced.put inv.kept inv.paced within points fun _ => by
          refine rests event _ there fun on => ?_
          exact inv.paced.symm.imp_left fun idle => idle.2 _ _ there on
        alone := inv.alone
        framed := inv.framed }

theorem stopTimer_inv (inv : Inv s) {timer : BitVec 16} (guard : Guard s (.stop timer)) :
    Inv (s.stopTimer timer) := by
  refine inv.edit guard (fun event watch _ onTime => ?_) fun _ _ _ _ on => nomatch on
  exact
    { count := onTime.count
      apart := fun on => nomatch on
      marked := fun _ on => nomatch on
      steady := fun _ on => nomatch on
      remains := fun _ on => nomatch on }

theorem setInterval_inv (inv : Inv s) {timer : BitVec 16} {interval : Word}
    (guard : Guard s (.setInterval timer interval)) : Inv (s.setInterval timer interval) := by
  refine inv.edit guard (fun event watch _ onTime => ?_) fun _ _ _ idle => idle
  have stayed (steady : (watch.steady && decide (interval = event.interval)) = true) :
      watch.steady = true ∧ interval = event.interval := by
    rw [Bool.and_eq_true, decide_eq_true_eq] at steady
    exact steady
  exact
    { count := onTime.count
      apart := fun on steady => by
        obtain ⟨steady, same⟩ := stayed steady
        show interval ≠ 0 → watch.mark = watch.since + watch.fired * interval.toNat
        rw [same]
        exact onTime.apart on steady
      marked := onTime.marked
      steady := fun free on steady => by
        obtain ⟨steady, same⟩ := stayed steady
        show watch.period = interval.toNat
        rw [same]
        exact onTime.steady free on steady
      remains := onTime.remains }

/-! ## A timer starts -/

theorem lag_eq_zero (passed : s.Passed slot) (inside : slot < maxTimers) :
    lag s.position slot = 0 := by
  refine if_pos ?_
  unfold State.position
  cases frames : s.frames with
  | nil => exact inside
  | cons frame rest =>
    have behind : slot ≤ frame.slot :=
      passed frame (frames.symm ▸ List.mem_cons_self)
    exact Nat.lt_succ_of_le behind

theorem seen_eq_now (kept : Kept s position held) (same : s.lastTick = s.gTickCount) :
    s.seen = s.now := by
  have low := kept.low
  have high := kept.high
  rw [kept.lastTick, kept.tickCount, ← BitVec.toNat_inj, BitVec.toNat_ofNat,
    BitVec.toNat_ofNat] at same
  omega

theorem lastTick_eq (kept : Kept s position held) (same : s.seen = s.now) :
    s.lastTick = s.gTickCount := by
  rw [kept.lastTick, kept.tickCount, same]

theorem framed_of_held (there : s.held = some slot) : s.Framed slot := by
  unfold State.held at there
  cases frames : s.frames with
  | nil =>
    rw [frames] at there
    cases there
  | cons frame rest =>
    rw [frames] at there
    exact ⟨frame, by rw [frames]; exact List.mem_cons_self, Option.some.inj there⟩

theorem InStep.rests (kept : Kept s position held) {interval : Word}
    (inStep : s.InStep slot interval) : interval.toNat = 0 ∨ s.now ≤ s.seen + 1 := by
  by_cases none : interval = 0
  · exact .inl (congrArg BitVec.toNat none)
  · have settled := seen_eq_now kept (inStep (.inl none)).1
    exact .inr (by omega)

theorem OnTime.restarted (inv : Inv s) (inside : slot < maxTimers) (timer : EventTimer)
    (watch : Watch) (inStep : timer.enabled = true → s.InStep slot timer.interval)
    (fresh : timer.remaining = timer.interval) {counted : Nat}
    (count : timer.count.toNat = counted) :
    OnTime s.seen s.position s.held slot timer
      { watch.restarted s.now timer.interval with counted := counted } where
  count := count
  apart := fun _ _ _ => by
    show s.now = s.now + 0 * timer.interval.toNat
    rw [Nat.zero_mul, Nat.add_zero]
  marked := fun own on =>
    (seen_eq_now inv.kept (inStep on (.inr (framed_of_held own))).1).symm
  steady := fun _ _ _ => rfl
  remains := fun free on (positive : 1 ≤ timer.interval.toNat) => by
    have counts : timer.interval ≠ 0 := fun none => by
      rw [none] at positive
      exact absurd positive (by decide)
    obtain ⟨settled, passed⟩ := inStep on (.inl counts)
    show 1 ≤ timer.remaining.toNat ∧
      timer.remaining.toNat + s.seen = s.now + timer.interval.toNat + lag s.position slot ∧
      s.now + lag s.position slot ≤ s.seen
    rw [lag_eq_zero passed inside, seen_eq_now inv.kept settled, fresh]
    exact ⟨positive, Nat.add_comm _ _, Nat.le_refl _⟩

theorem startTimer_inv (inv : Inv s) {timer : BitVec 16} (guard : Guard s (.start timer)) :
    Inv (s.startTimer timer) := by
  refine inv.edit (fun block points => (guard block points).1) (fun event watch there _ => ?_)
    fun event watch there _ _ => ?_
  · obtain ⟨inside, block, points, holds⟩ := timerAt_eq_some there
    exact OnTime.restarted inv inside
      { event with remaining := event.interval, count := 0, enabled := true }
      watch (fun _ => (guard block points).2 event holds) rfl rfl
  · obtain ⟨-, block, points, holds⟩ := timerAt_eq_some there
    exact InStep.rests inv.kept ((guard block points).2 event holds)

theorem resetTimer_inv (inv : Inv s) {timer : BitVec 16} (guard : Guard s (.reset timer)) :
    Inv (s.resetTimer timer) := by
  refine inv.edit (fun block points => (guard block points).1) (fun event watch there onTime => ?_)
    fun event watch there _ on => ?_
  · obtain ⟨inside, block, points, holds⟩ := timerAt_eq_some there
    exact OnTime.restarted inv inside { event with remaining := event.interval }
      watch ((guard block points).2 event holds) rfl onTime.count
  · obtain ⟨-, block, points, holds⟩ := timerAt_eq_some there
    exact InStep.rests inv.kept ((guard block points).2 event holds on)

theorem freeSlot_eq_some (free : s.freeSlot = some slot) :
    slot < maxTimers ∧ s.gTimers slot = none := by
  have empty : (s.gTimers slot).isNone = true :=
    List.find?_some (p := fun slot => (s.gTimers slot).isNone) free
  exact ⟨List.mem_range.mp (List.mem_of_find?_eq_some free), Option.isNone_iff_eq_none.mp empty⟩

theorem Kept.elsewhere (kept : Kept s position held) (unused : s.blocks block = none) {other : Nat}
    (within : other < maxTimers) : s.gTimers other ≠ some block := fun points => by
  obtain ⟨timer, holds⟩ := kept.live other block within points
  rw [unused] at holds
  cases holds

theorem pointer_add {other block' : Nat}
    (points : Function.update s.gTimers slot (some block) other = some block') :
    other = slot ∧ block' = block ∨ other ≠ slot ∧ s.gTimers other = some block' := by
  by_cases same : other = slot
  · rw [same, Function.update_self] at points
    exact .inl ⟨same, (Option.some.inj points).symm⟩
  · rw [Function.update_of_ne same] at points
    exact .inr ⟨same, points⟩

theorem Kept.timerAt_add (kept : Kept s position held) (unused : s.blocks block = none)
    {timer timer' : EventTimer} {watch : Watch} {other : Nat}
    (there : State.timerAt ({ s with gTimers := Function.update s.gTimers slot (some block) }.put
      slot block timer watch) other = some timer') :
    other = slot ∧ timer' = timer ∨ other ≠ slot ∧ s.timerAt other = some timer' := by
  obtain ⟨within, block', points, holds⟩ := timerAt_eq_some there
  change Function.update s.blocks block (some timer) block' = some timer' at holds
  obtain ⟨same, rfl⟩ | ⟨different, points⟩ := pointer_add points
  · rw [Function.update_self] at holds
    exact .inl ⟨same, (Option.some.inj holds).symm⟩
  · have apart : block' ≠ block := fun same =>
      kept.elsewhere unused within (points.trans (congrArg some same))
    rw [Function.update_of_ne apart] at holds
    exact .inr ⟨different, timerAt_of within points holds⟩

theorem Kept.add (kept : Kept s position held) (unused : s.blocks block = none)
    {timer : EventTimer} {watch : Watch}
    (own : OnTime s.seen position held slot timer watch) :
    Kept ({ s with gTimers := Function.update s.gTimers slot (some block) }.put
      slot block timer watch) position held := by
  exact
    { sane := kept.sane
      tickCount := kept.tickCount
      lastTick := kept.lastTick
      low := kept.low
      high := kept.high
      live := fun other block' within points => by
        show ∃ found, Function.update s.blocks block (some timer) block' = some found
        obtain ⟨-, rfl⟩ | ⟨-, points⟩ := pointer_add points
        · exact ⟨timer, Function.update_self _ _ _⟩
        · have apart : block' ≠ block := fun same =>
            kept.elsewhere unused within (points.trans (congrArg some same))
          rw [Function.update_of_ne apart]
          exact kept.live other block' within points
      apart := fun first second block' within within' points points' => by
        obtain ⟨rfl, rfl⟩ | ⟨-, one⟩ := pointer_add points
        · obtain ⟨same, -⟩ | ⟨-, other⟩ := pointer_add points'
          · exact same.symm
          · exact absurd other (kept.elsewhere unused within')
        · obtain ⟨-, rfl⟩ | ⟨-, other⟩ := pointer_add points'
          · exact absurd one (kept.elsewhere unused within)
          · exact kept.apart first second block' within within' one other
      onTime := fun other timer' there => by
        show OnTime s.seen position held other timer' (Function.update s.watches slot watch other)
        obtain ⟨rfl, rfl⟩ | ⟨different, there⟩ := kept.timerAt_add unused there
        · rw [Function.update_self]
          exact own
        · rw [Function.update_of_ne different]
          exact kept.onTime other timer' there
      firings := kept.firings }

theorem addTimer_inv (inv : Inv s) {interval : BitVec 16} {start : Bool} {callback : Word}
    {block : Option Nat} (guard : Guard s (.add interval start callback block))
    (fresh : block.all (fun block => (s.blocks block).isNone) = true) :
    Inv (s.addTimer interval start callback block).1 := by
  unfold State.addTimer
  cases free : s.freeSlot with
  | none => exact inv
  | some slot =>
    obtain ⟨given, inStep⟩ := guard slot free
    obtain ⟨inside, empty⟩ := freeSlot_eq_some free
    cases block with
    | none => exact absurd rfl given
    | some block =>
      let timer : EventTimer := ⟨interval.setWidth 32, 0, interval.setWidth 32, start, callback⟩
      have own := OnTime.restarted inv inside timer (s.watches slot) inStep rfl rfl
      exact
        { kept := inv.kept.add (Option.isNone_iff_eq_none.mp fresh) own
          paced := by
            by_cases near : s.now ≤ s.seen + 1
            · exact .inl near
            obtain ⟨quiet, idle⟩ := inv.paced.resolve_left near
            refine .inr ⟨quiet, fun other timer' there on => ?_⟩
            show (Function.update s.watches slot _ other).period = 0
            obtain ⟨rfl, rfl⟩ | ⟨different, there⟩ :=
              inv.kept.timerAt_add (Option.isNone_iff_eq_none.mp fresh) there
            · rw [Function.update_self]
              exact (InStep.rests inv.kept (inStep on)).resolve_right near
            · rw [Function.update_of_ne different]
              exact idle other timer' there on
          alone := inv.alone
          framed := fun frame there => by
            obtain ⟨within, points⟩ := inv.framed frame there
            have different : frame.slot ≠ slot := fun same => by
              rw [same, empty] at points
              cases points
            exact ⟨within, (Function.update_of_ne different _ _).trans points⟩ }

theorem deleteTimer_inv (inv : Inv s) {timer : BitVec 16} (guard : Guard s (.delete timer)) :
    Inv (s.deleteTimer timer) := by
  unfold State.deleteTimer
  cases points : s.gTimers timer.toNat with
  | none => exact inv
  | some block =>
    obtain ⟨inside, free⟩ := guard block points
    obtain ⟨event, holds⟩ := inv.kept.live _ _ inside points
    dsimp only
    rw [if_pos inside, holds]
    have pointer {other block' : Nat}
        (points' : Function.update s.gTimers timer.toNat none other = some block') :
        other ≠ timer.toNat ∧ s.gTimers other = some block' := by
      by_cases same : other = timer.toNat
      · rw [same, Function.update_self] at points'
        cases points'
      · rw [Function.update_of_ne same] at points'
        exact ⟨same, points'⟩
    have others {other block' : Nat} (within : other < maxTimers)
        (different : other ≠ timer.toNat) (points' : s.gTimers other = some block') :
        Function.update s.blocks block none block' = s.blocks block' := by
      refine Function.update_of_ne (fun same => different ?_) _ _
      exact inv.kept.apart other _ block within inside (points'.trans (congrArg some same)) points
    have remaining {other : Nat} {timer' : EventTimer}
        (there : State.timerAt { s with
          blocks := Function.update s.blocks block none
          gTimers := Function.update s.gTimers timer.toNat none } other = some timer') :
        s.timerAt other = some timer' := by
      obtain ⟨within, block', points', holds'⟩ := timerAt_eq_some there
      obtain ⟨different, points'⟩ := pointer points'
      change Function.update s.blocks block none block' = some timer' at holds'
      rw [others within different points'] at holds'
      exact timerAt_of within points' holds'
    refine ⟨?_, ?_, inv.alone, fun frame there => ?_⟩
    · exact
        { sane := inv.kept.sane
          tickCount := inv.kept.tickCount
          lastTick := inv.kept.lastTick
          low := inv.kept.low
          high := inv.kept.high
          live := fun other block' within points' => by
            obtain ⟨different, points'⟩ := pointer points'
            show ∃ found, Function.update s.blocks block none block' = some found
            rw [others within different points']
            exact inv.kept.live other block' within points'
          apart := fun first second block' within within' points' points'' =>
            inv.kept.apart first second block' within within' (pointer points').2
              (pointer points'').2
          onTime := fun other timer' there => inv.kept.onTime other timer' (remaining there)
          firings := inv.kept.firings }
    · exact inv.paced.imp_right fun idle =>
        ⟨idle.1, fun other timer' there => idle.2 other timer' (remaining there)⟩
    · obtain ⟨within, points'⟩ := inv.framed frame there
      have different : frame.slot ≠ timer.toNat := fun same => by
        rw [same, points] at points'
        exact free frame there (Option.some.inj points').symm
      exact ⟨within, (Function.update_of_ne different _ _).trans points'⟩

/-! ## A pass -/

theorem lag_succ_of_ne (different : slot ≠ position) : lag (position + 1) slot = lag position slot := by
  unfold lag
  by_cases less : slot < position
  · rw [if_pos less, if_pos (less.trans (Nat.lt_succ_self _))]
  · rw [if_neg less, if_neg (by omega)]

theorem lag_self : lag position position = 1 := if_neg (Nat.lt_irrefl _)

theorem lag_succ_self : lag (position + 1) position = 0 := if_pos (Nat.lt_succ_self _)

theorem OnTime.pass {seen : Nat} {timer : EventTimer} {watch : Watch}
    (onTime : OnTime seen position none slot timer watch) (different : slot ≠ position)
    (free : held ≠ some slot) : OnTime seen (position + 1) held slot timer watch where
  count := onTime.count
  apart := onTime.apart
  marked := fun own => absurd own free
  steady := fun _ => onTime.steady nofun
  remains := fun _ => by
    rw [lag_succ_of_ne different]
    exact onTime.remains nofun

theorem Kept.skip (kept : Kept s position none)
    (idle : ∀ timer, s.timerAt position = some timer → timer.enabled = false) :
    Kept s (position + 1) none :=
  { kept with
    onTime := fun slot timer there => by
      have onTime := kept.onTime slot timer there
      by_cases same : slot = position
      · subst same
        have off : timer.enabled ≠ true := fun on => by
          rw [idle timer there] at on
          cases on
        exact
          { count := onTime.count
            apart := onTime.apart
            marked := fun own => by cases own
            steady := fun _ on => absurd on off
            remains := fun _ on => absurd on off }
      · exact onTime.pass same nofun }

theorem toNat_pred {remaining : Word} (positive : 1 ≤ remaining.toNat) :
    (remaining - 1).toNat + 1 = remaining.toNat := by
  have below := remaining.isLt
  rw [BitVec.toNat_sub]
  show (2 ^ 32 - 1 + remaining.toNat) % 2 ^ 32 + 1 = remaining.toNat
  omega

theorem OnTime.countDown {seen : Nat} {timer : EventTimer} {watch : Watch}
    (onTime : OnTime seen slot none slot timer watch) (left : timer.remaining - 1 ≠ 0) :
    OnTime seen (slot + 1) none slot { timer with remaining := timer.remaining - 1 } watch where
  count := onTime.count
  apart := onTime.apart
  marked := fun own => nomatch own
  steady := onTime.steady
  remains := fun free on positive => by
    obtain ⟨some, sum, order⟩ := onTime.remains free on positive
    have less := toNat_pred some
    have more : (timer.remaining - 1).toNat ≠ 0 := fun none =>
      left (BitVec.eq_of_toNat_eq none)
    rw [lag_self] at sum order
    rw [lag_succ_self]
    show 1 ≤ (timer.remaining - 1).toNat ∧
      (timer.remaining - 1).toNat + seen = watch.mark + watch.period + 0 ∧ watch.mark + 0 ≤ seen
    omega

theorem OnTime.due {seen : Nat} {timer : EventTimer} {watch : Watch}
    (onTime : OnTime seen slot none slot timer watch) (on : timer.enabled = true)
    (out : timer.remaining - 1 = 0) (positive : 1 ≤ watch.period) :
    seen = watch.mark + watch.period := by
  obtain ⟨some, sum, -⟩ := onTime.remains nofun on positive
  have less := toNat_pred some
  rw [out] at less
  rw [lag_self] at sum
  change 0 + 1 = timer.remaining.toNat at less
  omega

theorem remaining_eq_one {remaining : Word} (out : remaining - 1 = 0) : remaining = 1 := by
  have same : remaining - 1 + 1 = 0 + 1 := congrArg (· + 1) out
  rw [BitVec.sub_add_cancel] at same
  exact same

theorem OnTime.fired {seen : Nat} {timer : EventTimer} {watch : Watch}
    (onTime : OnTime seen slot none slot timer watch) (on : timer.enabled = true)
    (out : timer.remaining - 1 = 0) (room : timer.count.toNat + 1 < 2 ^ 32) :
    OnTime seen (slot + 1) (some slot) slot
      { timer with remaining := timer.remaining - 1, count := timer.count + 1 }
      { watch with fired := watch.fired + 1, counted := watch.counted + 1, mark := seen } where
  count := by
    show (timer.count + 1).toNat = watch.counted + 1
    rw [BitVec.toNat_add, ← onTime.count]
    exact Nat.mod_eq_of_lt room
  apart := fun _ steady some => by
    have period := onTime.steady nofun on steady
    have positive : 1 ≤ watch.period := by
      rw [period]
      exact Nat.one_le_iff_ne_zero.mpr fun none => some (BitVec.eq_of_toNat_eq none)
    show seen = watch.since + (watch.fired + 1) * timer.interval.toNat
    rw [onTime.due on out positive, onTime.apart on steady some, period, Nat.add_mul, Nat.one_mul,
      Nat.add_assoc]
  marked := fun _ _ => rfl
  steady := fun free => absurd rfl free
  remains := fun free => absurd rfl free

theorem fire_inv (kept : Kept s slot none) (quiet : s.frames = []) (inside : slot < maxTimers)
    (points : s.gTimers slot = some block) {timer : EventTimer}
    (holds : s.blocks block = some timer) (on : timer.enabled = true)
    (out : timer.remaining - 1 = 0) (room : timer.count.toNat + 1 < 2 ^ 32)
    (near : s.now ≤ s.seen + 1) :
    Inv (s.fire slot block { timer with remaining := timer.remaining - 1 }) := by
  have onTime := kept.onTime slot timer (timerAt_of inside points holds)
  have fired := onTime.fired on out room
  have after := kept.put inside points fired fun other _ _ different others =>
    others.pass different fun same => different (Option.some.inj same).symm
  refine ⟨{ after with firings := ?_ }, .inl near, ?_, ?_⟩
  · intro firing there
    obtain rfl | earlier := List.mem_cons.mp there
    · exact ⟨onTime.due on out, fired.count⟩
    · exact kept.firings firing earlier
  · show s.frames.length + 1 ≤ 1
    rw [quiet]
    exact Nat.le_refl 1
  · intro frame there
    change frame ∈ ⟨slot, block⟩ :: s.frames at there
    rw [quiet, List.mem_singleton] at there
    rw [there]
    exact ⟨inside, points⟩

theorem updateFrom_inv {left : Nat} (all : slot + left = maxTimers) (quiet : s.frames = [])
    (kept : Kept s slot none) (near : s.now ≤ s.seen + 1)
    (countable : ∀ other, slot ≤ other → ∀ timer, s.timerAt other = some timer →
      timer.enabled = true → timer.remaining = 1 → timer.count.toNat + 1 < 2 ^ 32) :
    Inv (State.updateFrom (List.range' slot left) s) := by
  induction left generalizing slot s with
  | zero =>
      have position : s.position = slot := by
        unfold State.position
        rw [quiet]
        exact all.symm
      have held : s.held = none := by
        unfold State.held
        rw [quiet]
        rfl
      show Inv s
      refine ⟨?_, .inl near, ?_, ?_⟩
      · rw [position, held]
        exact kept
      · rw [quiet]
        exact Nat.zero_le 1
      · intro frame there
        rw [quiet] at there
        exact absurd there List.not_mem_nil
  | succ left inductionHypothesis =>
      have inside : slot < maxTimers := by omega
      have rest : slot + 1 + left = maxTimers := by omega
      have later (other : Nat) (order : slot + 1 ≤ other) := countable other (by omega)
      rw [List.range'_succ, State.updateFrom]
      cases points : s.gTimers slot with
      | none =>
        refine inductionHypothesis rest quiet (kept.skip fun timer there => ?_) near later
        obtain ⟨-, block, points', -⟩ := timerAt_eq_some there
        rw [points] at points'
        cases points'
      | some block =>
        obtain ⟨timer, holds⟩ := kept.live slot block inside points
        have there := timerAt_of inside points holds
        dsimp only
        rw [holds]
        dsimp only
        by_cases on : timer.enabled = true
        · rw [if_pos on]
          by_cases out : timer.remaining - 1 = 0
          · rw [if_pos out]
            exact fire_inv kept quiet inside points holds on out
              (countable slot (Nat.le_refl slot) timer there on (remaining_eq_one out)) near
          · rw [if_neg out]
            refine inductionHypothesis rest quiet (kept.put inside points
              ((kept.onTime slot timer there).countDown out)
              fun other _ _ different others => others.pass different nofun) near ?_
            intro other order timer' there'
            rw [kept.timerAt_put_of_ne inside points (by omega)] at there'
            exact later other order timer' there'
        · rw [if_neg on]
          refine inductionHypothesis rest quiet (kept.skip fun timer' there' => ?_) near later
          rw [there] at there'
          cases there'
          exact Bool.eq_false_iff.mpr on

theorem updateTimers_inv (inv : Inv s) (guard : Guard s .update) : Inv s.updateTimers := by
  unfold State.updateTimers
  by_cases ticked : s.lastTick ≠ s.gTickCount
  · rw [if_pos ticked]
    obtain ⟨quiet, countable⟩ := guard.resolve_left ticked
    have kept := inv.kept
    have whole : s.position = maxTimers := by
      unfold State.position
      rw [quiet]
    have free : s.held = none := by
      unfold State.held
      rw [quiet]
      rfl
    rw [whole, free] at kept
    have different : s.seen ≠ s.now := fun same => ticked (lastTick_eq kept same)
    refine updateFrom_inv rfl quiet ?_ (Nat.le_succ _) fun other _ timer there =>
      countable other (timerAt_eq_some there).1 timer there
    exact
      { sane := kept.sane
        tickCount := kept.tickCount
        lastTick := kept.tickCount
        low := Nat.le_refl _
        high := Nat.lt_add_of_pos_right (Nat.two_pow_pos 32)
        live := kept.live
        apart := kept.apart
        onTime := fun slot timer there => by
          have onTime := kept.onTime slot timer there
          exact
            { count := onTime.count
              apart := onTime.apart
              marked := fun own => nomatch own
              steady := onTime.steady
              remains := fun free on positive => by
                obtain ⟨some, sum, order⟩ := onTime.remains free on positive
                have behind : lag maxTimers slot = 0 := if_pos (timerAt_eq_some there).1
                have first : lag 0 slot = 1 := if_neg (Nat.not_lt_zero _)
                have near : s.now ≤ s.seen + 1 := inv.paced.resolve_right fun idle => by
                  have never := idle.2 slot timer there on
                  change 1 ≤ (s.watches slot).period at positive
                  omega
                have low := kept.low
                have ahead : s.now = s.seen + 1 := by omega
                rw [behind] at sum order
                show 1 ≤ timer.remaining.toNat ∧
                  timer.remaining.toNat + s.now =
                    (s.watches slot).mark + (s.watches slot).period + lag 0 slot ∧
                  (s.watches slot).mark + lag 0 slot ≤ s.now
                rw [first, ahead]
                omega }
        firings := kept.firings }
  · rw [if_neg ticked]
    exact inv

theorem OnTime.reloaded {seen : Nat} {timer : EventTimer} {watch : Watch}
    (onTime : OnTime seen (slot + 1) (some slot) slot timer watch) :
    OnTime seen (slot + 1) none slot { timer with remaining := timer.interval }
      { watch with period := timer.interval.toNat } where
  count := onTime.count
  apart := onTime.apart
  marked := fun own => nomatch own
  steady := fun _ _ _ => rfl
  remains := fun _ on positive => by
    rw [lag_succ_self]
    show 1 ≤ timer.interval.toNat ∧
      timer.interval.toNat + seen = watch.mark + timer.interval.toNat + 0 ∧ watch.mark + 0 ≤ seen
    rw [onTime.marked rfl on]
    exact ⟨positive, Nat.add_comm _ _, Nat.le_refl _⟩

theorem reload_inv (inv : Inv s) (countable : s.Countable) {frame : Frame} {rest : List Frame}
    (frames : s.frames = frame :: rest) : Inv ({ s with frames := rest }.reload frame) := by
  have kept := inv.kept
  have position : s.position = frame.slot + 1 := by
    unfold State.position
    rw [frames]
  have held : s.held = some frame.slot := by
    unfold State.held
    rw [frames]
    rfl
  have last : rest = [] := by
    have alone := inv.alone
    rw [frames, List.length_cons] at alone
    exact List.length_eq_zero_iff.mp (by omega)
  have own : frame ∈ s.frames := frames ▸ List.mem_cons_self
  obtain ⟨inside, points⟩ := inv.framed frame own
  rw [position, held] at kept
  obtain ⟨timer, holds⟩ := kept.live frame.slot frame.block inside points
  have returned : Kept { s with frames := rest } (frame.slot + 1) (some frame.slot) :=
    { kept with }
  have onTime := kept.onTime frame.slot timer (timerAt_of inside points holds)
  have near : s.now ≤ s.seen + 1 := inv.paced.resolve_right fun idle => by
    rw [idle.1] at frames
    cases frames
  unfold State.reload
  dsimp only
  rw [holds]
  have whole : frame.slot + 1 + (maxTimers - (frame.slot + 1)) = maxTimers := by omega
  refine updateFrom_inv whole last (returned.put inside points onTime.reloaded ?_) near ?_
  · intro other timer' watch different others
    have free : some frame.slot ≠ some other := fun same => different (Option.some.inj same).symm
    exact
      { count := others.count
        apart := others.apart
        marked := fun own => nomatch own
        steady := fun _ => others.steady free
        remains := fun _ => others.remains free }
  · intro other order timer' there
    rw [returned.timerAt_put_of_ne inside points (by omega)] at there
    exact countable other (timerAt_eq_some there).1 timer' there

/-! ## Every run -/

theorem tick_high (kept : Kept s position held) (guard : Guard s .tick) :
    s.now + 1 < s.seen + 2 ^ 32 := by
  have high := kept.high
  obtain same | ⟨-, apart⟩ := guard
  · have settled := seen_eq_now kept same
    omega
  · by_contra late
    have full : s.now + 1 = s.seen + 2 ^ 32 := by omega
    refine apart ?_
    rw [kept.tickCount, kept.lastTick]
    calc BitVec.ofNat 32 s.now + 1 = BitVec.ofNat 32 (s.now + 1) := (BitVec.ofNat_add _ _).symm
      _ = BitVec.ofNat 32 (s.seen + 2 ^ 32) := by rw [full]
      _ = BitVec.ofNat 32 s.seen := by
        apply BitVec.eq_of_toNat_eq
        rw [BitVec.toNat_ofNat, BitVec.toNat_ofNat, Nat.add_mod_right]

theorem step_inv {label : Label} (inv : Inv s) (guard : Guard s label)
    (taken : step s label = some t) : Inv t := by
  unfold step at taken
  have sane : ¬s.fault.isSome = true := by
    rw [inv.kept.sane]
    exact Bool.false_ne_true
  rw [if_neg sane] at taken
  cases label with
  | tick =>
    cases taken
    refine ⟨{ inv.kept with tickCount := ?_, low := ?_, high := ?_ }, ?_, inv.alone, inv.framed⟩
    · show s.gTickCount + 1 = BitVec.ofNat 32 (s.now + 1)
      rw [inv.kept.tickCount, BitVec.ofNat_add]
      rfl
    · exact Nat.le_succ_of_le inv.kept.low
    · exact tick_high inv.kept guard
    · obtain same | ⟨⟨quiet, off⟩, -⟩ := guard
      · exact .inl (Nat.le_of_eq (congrArg (· + 1) (seen_eq_now inv.kept same).symm))
      · refine .inr ⟨quiet, fun slot timer there on => ?_⟩
        have disabled := off slot (timerAt_eq_some there).1 timer there
        rw [on] at disabled
        cases disabled
  | init => exact guard.elim
  | add interval start callback block =>
    dsimp only at taken
    by_cases fresh : (block.all fun block => (s.blocks block).isNone) = true
    · rw [if_pos fresh] at taken
      cases taken
      exact addTimer_inv inv guard fresh
    · rw [if_neg fresh] at taken
      cases taken
  | delete timer =>
    cases taken
    exact deleteTimer_inv inv guard
  | start timer =>
    cases taken
    exact startTimer_inv inv guard
  | stop timer =>
    cases taken
    exact stopTimer_inv inv guard
  | reset timer =>
    cases taken
    exact resetTimer_inv inv guard
  | setInterval timer interval =>
    cases taken
    exact setInterval_inv inv guard
  | update =>
    cases taken
    exact updateTimers_inv inv guard
  | ret =>
    cases frames : s.frames with
    | nil =>
      rw [frames] at taken
      cases taken
    | cons frame rest =>
      rw [frames] at taken
      cases taken
      exact reload_inv inv guard frames

/-- The invariant gives the law. -/
theorem law_of_inv (inv : Inv s) : Law s := by
  have settledOnTime (settled : s.Settled) {slot : Nat} {timer : EventTimer}
      (there : s.timerAt slot = some timer) :
      OnTime s.now maxTimers none slot timer (s.watches slot) := by
    have onTime := inv.kept.onTime slot timer there
    unfold State.position State.held at onTime
    rw [settled.1, settled.2] at onTime
    exact onTime
  have waits (settled : s.Settled) {slot : Nat} {timer : EventTimer}
      (there : s.timerAt slot = some timer) (on : timer.enabled = true)
      (positive : 1 ≤ (s.watches slot).period) :
      (s.watches slot).mark ≤ s.now ∧
        s.now < (s.watches slot).mark + (s.watches slot).period := by
    obtain ⟨some, sum, order⟩ := (settledOnTime settled there).remains nofun on positive
    have behind : lag maxTimers slot = 0 := if_pos (timerAt_eq_some there).1
    rw [behind] at sum order
    omega
  refine ⟨inv.kept.sane, inv.kept.firings, ?_, ?_⟩
  · intro settled slot timer there on positive
    exact (waits settled there on positive).2
  · intro settled slot timer there on some steady
    have onTime := settledOnTime settled there
    have period := onTime.steady nofun on steady
    have positive : 0 < timer.interval.toNat :=
      Nat.pos_of_ne_zero fun none => some (BitVec.eq_of_toNat_eq none)
    obtain ⟨low, high⟩ := waits settled there on (period.symm ▸ positive)
    rw [onTime.apart on steady some] at low high
    rw [period] at high
    refine (Nat.div_eq_of_lt_le ?_ ?_).symm
    · omega
    · rw [Nat.add_mul, Nat.one_mul]
      omega

/-- In every run that meets the condition the timers keep time. -/
theorem timers_keep_time (beyond : Nat → Option Nat) (labels : List Label) (last : State)
    (guarded : Guarded step Guard (initial beyond) labels)
    (run : exec step (initial beyond) labels = some last) : Law last :=
  law_of_inv (invariant_of_guarded Inv (fun _ _ _ inv guard taken => step_inv inv guard taken)
    (initial_inv beyond) guarded run)

/-- A timer of two ticks fires at the second, and its callback gives it another interval. -/
theorem timers_keep_time_twice :
    (exec step (initial fun _ => none)
      [.add 2 true 7 (some 0), .tick, .update, .tick, .update, .setInterval 0 3, .tick, .ret,
        .update]).isSome = true ∧
    ∀ last, exec step (initial fun _ => none)
      [.add 2 true 7 (some 0), .tick, .update, .tick, .update, .setInterval 0 3, .tick, .ret,
        .update] = some last → Law last :=
  ⟨by decide, fun last run =>
    timers_keep_time (fun _ => none) _ last (guarded_of_check (by decide)) run⟩

/-- Two ticks before one update: the timer of two ticks has not fired. -/
theorem update_loses_tick : ¬∀ (beyond : Nat → Option Nat) (labels : List Label) (last : State),
    exec step (initial beyond) labels = some last → Law last := by
  intro all
  have late : ∃ last, exec step (initial fun _ => none)
      [.add 2 true 7 (some 0), .tick, .tick, .update] = some last ∧
      last.Settled ∧ last.timerAt 0 = some ⟨2, 0, 1, true, 7⟩ ∧
      (last.watches 0).steady = true ∧
      (last.watches 0).fired ≠ (last.now - (last.watches 0).since) / 2 :=
    ⟨_, rfl, ⟨rfl, rfl⟩, rfl, rfl, by decide⟩
  obtain ⟨last, run, settled, there, steady, wrong⟩ := late
  have law := all _ _ last run
  exact wrong (law.fired settled 0 _ there rfl (by decide) steady)

end OrionBios.Timers
