import OrionBios.Transition.Runs
import Mathlib.Data.BitVec
import Mathlib.Logic.Function.Basic

/-!
# The software timers

The table of pointers, the blocks the timers live in, and the loop that counts them down. A
callback that runs is a frame: whatever it calls comes as the next labels, until it returns and
the loop goes on behind its slot.
-/

namespace OrionBios.Timers

abbrev Word := BitVec 32

/-- `MAX_TIMERS` -/
def maxTimers : Nat := 5

/-- `event_timer_t` -/
structure EventTimer where
  interval : Word
  count : Word
  remaining : Word
  enabled : Bool
  callback : Word

/-- What is kept about a slot beside the code: its last start and its last firing. -/
structure Watch where
  /-- The tick of the last start or restart, and the firings and the interval since. -/
  since : Nat
  fired : Nat
  steady : Bool
  /-- The firings since the count was cleared. -/
  counted : Nat
  /-- The tick of the last start or firing, and the interval that was taken then. -/
  mark : Nat
  period : Nat

def Watch.restarted (watch : Watch) (now : Nat) (interval : Word) : Watch :=
  { watch with since := now, fired := 0, steady := true, mark := now, period := interval.toNat }

structure Firing where
  slot : Nat
  callback : Word
  count : Word
  tick : Nat
  before : Watch

/-- A callback that has not returned: the loop's `i` and `timer`. -/
structure Frame where
  slot : Nat
  block : Nat

inductive Fault where
  | outsideTable
  | freedBlock
  | nullBlock

structure State where
  /-- The pointers of the table, and behind its end whatever is in the memory there. -/
  gTimers : Nat → Option Nat
  blocks : Nat → Option EventTimer
  gTickCount : Word
  lastTick : Word
  frames : List Frame
  fault : Option Fault
  /-- The ticks so far, and how many there were when the last pass of the loop began. -/
  now : Nat
  seen : Nat
  watches : Nat → Watch
  firings : List Firing

namespace State

def fail (s : State) (fault : Fault) : State := { s with fault := some fault }

/-- A timer of the table changes, in the block its pointer leads to. -/
def put (s : State) (slot block : Nat) (timer : EventTimer) (watch : Watch) : State :=
  { s with
    blocks := Function.update s.blocks block (some timer)
    watches := Function.update s.watches slot watch }

def timerAt (s : State) (slot : Nat) : Option EventTimer :=
  if slot < maxTimers then (s.gTimers slot).bind s.blocks else none

/-- `init_timer` clears as many bytes as five timers take, and the table has five pointers. -/
def initTimer (s : State) : State :=
  { s with
    gTickCount := 0
    gTimers := fun slot => if slot < maxTimers then none else s.gTimers slot }.fail .outsideTable

def freeSlot (s : State) : Option Nat :=
  (List.range maxTimers).find? fun slot => (s.gTimers slot).isNone

/-- `add_timer`, with the block that `malloc` gives. -/
def addTimer (s : State) (interval : BitVec 16) (start : Bool) (callback : Word)
    (block : Option Nat) : State × Int :=
  match s.freeSlot with
  | none => (s, -1)
  | some slot =>
    match block with
    | none => (s.fail .nullBlock, slot)
    | some block =>
      let interval := interval.setWidth 32
      let watch := { (s.watches slot).restarted s.now interval with counted := 0 }
      ({ s with gTimers := Function.update s.gTimers slot (some block) }.put slot block
        ⟨interval, 0, interval, start, callback⟩ watch, slot)

/-- `delete_timer` -/
def deleteTimer (s : State) (timer : BitVec 16) : State :=
  match s.gTimers timer.toNat with
  | none => s
  | some block =>
    if timer.toNat < maxTimers then
      match s.blocks block with
      | none => s.fail .freedBlock
      | some _ =>
        { s with
          blocks := Function.update s.blocks block none
          gTimers := Function.update s.gTimers timer.toNat none }
    else s.fail .outsideTable

/-- What `start_timer`, `stop_timer`, `reset_timer` and `set_interval` share: nothing for an empty
slot, else the timer is written. No index is checked. -/
def edit (s : State) (timer : BitVec 16) (change : EventTimer → EventTimer)
    (watched : EventTimer → Watch → Watch) : State :=
  match s.gTimers timer.toNat with
  | none => s
  | some block =>
    if timer.toNat < maxTimers then
      match s.blocks block with
      | none => s.fail .freedBlock
      | some event =>
        s.put timer.toNat block (change event) (watched event (s.watches timer.toNat))
    else s.fail .outsideTable

def startTimer (s : State) (timer : BitVec 16) : State :=
  s.edit timer (fun event => { event with remaining := event.interval, count := 0, enabled := true })
    fun event watch => { watch.restarted s.now event.interval with counted := 0 }

def stopTimer (s : State) (timer : BitVec 16) : State :=
  s.edit timer (fun event => { event with enabled := false }) fun _ watch => watch

def resetTimer (s : State) (timer : BitVec 16) : State :=
  s.edit timer (fun event => { event with remaining := event.interval })
    fun event watch => watch.restarted s.now event.interval

def setInterval (s : State) (timer : BitVec 16) (interval : Word) : State :=
  s.edit timer (fun event => { event with interval := interval }) fun event watch =>
    { watch with steady := watch.steady && decide (interval = event.interval) }

def fire (s : State) (slot block : Nat) (timer : EventTimer) : State :=
  let timer := { timer with count := timer.count + 1 }
  let watch := s.watches slot
  { s.put slot block timer
      { watch with fired := watch.fired + 1, counted := watch.counted + 1, mark := s.seen } with
    frames := ⟨slot, block⟩ :: s.frames
    firings := ⟨slot, timer.callback, timer.count, s.seen, watch⟩ :: s.firings }

/-- The loop of `update_timers` over the slots that are left, up to the first callback. -/
def updateFrom : List Nat → State → State
  | [], s => s
  | slot :: rest, s =>
    match s.gTimers slot with
    | none => updateFrom rest s
    | some block =>
      match s.blocks block with
      | none => s.fail .freedBlock
      | some timer =>
        if timer.enabled then
          let timer := { timer with remaining := timer.remaining - 1 }
          if timer.remaining = 0 then s.fire slot block timer
          else updateFrom rest (s.put slot block timer (s.watches slot))
        else updateFrom rest s

def slotsFrom (slot : Nat) : List Nat := List.range' slot (maxTimers - slot)

/-- `update_timers` makes one pass however many ticks there were. -/
def updateTimers (s : State) : State :=
  if s.lastTick ≠ s.gTickCount then
    updateFrom (slotsFrom 0) { s with lastTick := s.gTickCount, seen := s.now }
  else s

/-- A callback returns: the timer is reloaded through the pointer that was read before. -/
def reload (s : State) (frame : Frame) : State :=
  match s.blocks frame.block with
  | none => s.fail .freedBlock
  | some timer =>
    updateFrom (slotsFrom (frame.slot + 1))
      (s.put frame.slot frame.block { timer with remaining := timer.interval }
        { s.watches frame.slot with period := timer.interval.toNat })

end State

/-- A tick of the clock, a call, or the return of the callback that runs. -/
inductive Label where
  | tick
  | init
  | add (interval : BitVec 16) (start : Bool) (callback : Word) (block : Option Nat)
  | delete (timer : BitVec 16)
  | start (timer : BitVec 16)
  | stop (timer : BitVec 16)
  | reset (timer : BitVec 16)
  | setInterval (timer : BitVec 16) (interval : Word)
  | update
  | ret

/-- Nothing is said about what follows a fault; `malloc` gives no block that is in use. -/
def step (s : State) (label : Label) : Option State :=
  if s.fault.isSome then none
  else
    match label with
    | .tick => some { s with gTickCount := s.gTickCount + 1, now := s.now + 1 }
    | .init => some s.initTimer
    | .add interval start callback block =>
      if block.all fun block => (s.blocks block).isNone then
        some (s.addTimer interval start callback block).1
      else none
    | .delete timer => some (s.deleteTimer timer)
    | .start timer => some (s.startTimer timer)
    | .stop timer => some (s.stopTimer timer)
    | .reset timer => some (s.resetTimer timer)
    | .setInterval timer interval => some (s.setInterval timer interval)
    | .update => some s.updateTimers
    | .ret =>
      match s.frames with
      | [] => none
      | frame :: rest => some ({ s with frames := rest }.reload frame)

/-- The table is empty; what the memory behind it holds is arbitrary. -/
def initial (beyond : Nat → Option Nat) : State where
  gTimers := fun slot => if slot < maxTimers then none else beyond slot
  blocks := fun _ => none
  gTickCount := 0
  lastTick := 0
  frames := []
  fault := none
  now := 0
  seen := 0
  watches := fun _ => ⟨0, 0, true, 0, 0, 0⟩
  firings := []

/-! ## What the timers are for -/

def Firing.Right (firing : Firing) : Prop :=
  (1 ≤ firing.before.period → firing.tick = firing.before.mark + firing.before.period) ∧
    firing.count.toNat = firing.before.counted + 1

/-- The last tick has had its pass, and no callback runs. -/
def State.Settled (s : State) : Prop := s.frames = [] ∧ s.seen = s.now

/-- No stray access, every firing in its place, none missed: a timer waits less than its period,
and one whose interval stayed has fired once for every interval since its start. -/
structure Law (s : State) : Prop where
  sane : s.fault = none
  firings : ∀ firing ∈ s.firings, firing.Right
  waits : s.Settled → ∀ slot timer, s.timerAt slot = some timer → timer.enabled = true →
    1 ≤ (s.watches slot).period → s.now < (s.watches slot).mark + (s.watches slot).period
  fired : s.Settled → ∀ slot timer, s.timerAt slot = some timer → timer.enabled = true →
    timer.interval ≠ 0 → (s.watches slot).steady = true →
    (s.watches slot).fired = (s.now - (s.watches slot).since) / timer.interval.toNat

end OrionBios.Timers
