import OrionBios.PowerControl.Passes
import OrionBios.Transition.Held

/-!
# Off means off

`outputState` and the outputs agree at the end of every pass as long as the CPU opens no
relay. The first relay it opens breaks the agreement, whatever the number of rails that
fail together.
-/

namespace OrionBios.PowerControl

open Transition

structure AllOff (s : Controller) : Prop where
  relay : ∀ i, (s.rails i).relayPin = false
  pwrg : ∀ i, (s.rails i).pwrgPin = false
  mains : s.mainsPin = false

/-- The outputs follow `outputState`. -/
def Consistent (s : Controller) : Prop :=
  s.outputState = true ∧ s.mainsPin = true ∨ s.outputState = false ∧ AllOff s

/-- The rails that lose their relay in this pass. -/
def opened (p : Pass) (s : Controller) : Nat :=
  (opens p (beforeCpu p s) 0).toNat + (opens p (beforeCpu p s) 1).toNat +
    (opens p (beforeCpu p s) 2).toNat

/-- What the pass `p` from `s` to `t` owes to the user who sees ON or OFF. -/
structure FailSafe (s : Controller) (p : Pass) (t : Controller) : Prop where
  off : t.outputState = false → AllOff t
  /-- Once off, nothing turns on before a new press. -/
  stays : s.outputState = false → ¬ pressed p s →
    t.outputState = false ∧ ∀ i, ((s.rails i).relayPin = false → (t.rails i).relayPin = false) ∧
      ((s.rails i).pwrgPin = false → (t.rails i).pwrgPin = false)
  /-- A request that opens relays leaves the system off, or on by the failure of fewer than two. -/
  settled : 0 < opened p s → Consistent t ∧ (2 ≤ opened p s → t.outputState = false)

/-! ## Pins and flags -/

/-- The pins of a rail show its flags. -/
def Rail.Wired (r : Rail) : Prop := r.relayPin = r.relayOn ∧ r.pwrgPin = r.pwrgOn

theorem wired_switchOn {r : Rail} (wired : r.Wired) (frac : ℚ) (now : Nat) :
    (switchOn frac now r).Wired := by
  unfold switchOn
  split_ifs
  · exact wired
  · exact ⟨rfl, rfl⟩
  · exact wired
  · exact wired
  · exact wired

theorem wired_dropPwrg {r : Rail} (wired : r.Wired) (frac : ℚ) (now : Nat) :
    (dropPwrg frac now r).Wired := by
  unfold dropPwrg
  split_ifs
  · exact ⟨wired.1, rfl⟩
  · exact wired
  · exact wired
  · exact wired
  · exact wired

theorem wired_recoverPwrg {r : Rail} (wired : r.Wired) (frac : ℚ) (now : Nat) :
    (recoverPwrg frac now r).Wired := by
  unfold recoverPwrg
  split_ifs
  · exact ⟨wired.1, rfl⟩
  · exact wired
  · exact wired
  · exact wired
  · exact wired

theorem wired_rateStatus {r : Rail} (wired : r.Wired) (nominal : ℚ) :
    (rateStatus nominal r).Wired := by
  unfold rateStatus
  split_ifs
  · exact wired
  · exact wired
  · exact wired
  · exact wired

theorem wired_updatedRail {r : Rail} (wired : r.Wired) (on : Bool) (nominal v : ℚ) (now : Nat) :
    (updatedRail on nominal v now r).Wired := by
  have measured : ({ r with lastVoltage := v } : Rail).Wired := wired
  cases on
  · exact measured
  · apply wired_rateStatus
    apply wired_recoverPwrg
    apply wired_dropPwrg
    exact wired_switchOn measured _ now

/-! ## The invariant -/

def Rail.Down (r : Rail) : Prop :=
  r.relayOn = false ∧ r.pwrgOn = false ∧ r.status = .PWRDOWN

structure Sound (s : Controller) : Prop where
  wired : ∀ i, (s.rails i).Wired
  off : s.outputState = false → s.mainsPin = false ∧ ∀ i, (s.rails i).Down
  on : s.outputState = true → s.mainsPin = true

theorem sound_initial : Sound initialController where
  wired _ := ⟨rfl, rfl⟩
  off _ := ⟨rfl, fun _ => ⟨rfl, rfl, rfl⟩⟩
  on on := Bool.noConfusion on

theorem Sound.allOff {s : Controller} (sound : Sound s) (off : s.outputState = false) : AllOff s where
  relay i := (sound.wired i).1.trans ((sound.off off).2 i).1
  pwrg i := (sound.wired i).2.trans ((sound.off off).2 i).2.1
  mains := (sound.off off).1

theorem Sound.consistent {s : Controller} (sound : Sound s) : Consistent s := by
  cases state : s.outputState with
  | true => exact .inl ⟨state, sound.on state⟩
  | false => exact .inr ⟨state, sound.allOff state⟩

theorem Sound.bounced {s : Controller} (sound : Sound s) (p : Pass) : Sound (bounced p s) where
  wired := sound.wired
  off := sound.off
  on := sound.on

theorem Sound.toggle {s : Controller} (sound : Sound s) : Sound (toggle s) := by
  unfold PowerControl.toggle
  cases state : s.outputState with
  | true =>
    rw [if_pos rfl]
    exact
      { wired := fun i => ⟨rfl, rfl⟩
        off := fun _ => ⟨rfl, fun i => ⟨rfl, rfl, rfl⟩⟩
        on := Bool.noConfusion }
  | false =>
    rw [if_neg Bool.false_ne_true, if_pos ((sound.off state).2 1).2.2]
    exact
      { wired := by
          intro i
          unfold setRail
          by_cases here : i = 1
          · rw [here]
            exact sound.wired 1
          · simp only [Function.update_of_ne here]
            exact sound.wired i
        off := Bool.noConfusion
        on := fun _ => rfl }

theorem Sound.pressButton {s : Controller} (sound : Sound s) (p : Pass) :
    Sound (pressButton p s) := by
  by_cases press : pressed p s
  · rw [pressButton_of_pressed press]
    exact (sound.bounced p).toggle
  · rw [pressButton_of_not_pressed press]
    exact sound.bounced p

theorem Sound.updateRails {s : Controller} (sound : Sound s) (p : Pass) :
    Sound (updateRails p s) := by
  rw [updateRails_eq]
  exact
    { wired := fun i => wired_updatedRail (sound.wired i) _ _ _ _
      off := fun off => by
        refine ⟨(sound.off off).1, fun i => ?_⟩
        have down := (sound.off off).2 i
        simp only [show s.outputState = false from off]
        exact down
      on := sound.on }

theorem Sound.beforeCpu {s : Controller} (sound : Sound s) (p : Pass) : Sound (beforeCpu p s) :=
  (sound.pressButton p).updateRails p

/-! ## Passes in which the CPU opens no relay -/

theorem answered_of_not_opens {p : Pass} {s : Controller} {i : Fin 3} (closed : opens p s i = false) :
    answered p s (s.rails i) = s.rails i := by
  unfold opens at closed
  unfold answered
  rcases Bool.and_eq_false_iff.mp closed with quiet | works
  · obtain ⟨feedback, powerDown⟩ := Bool.or_eq_false_iff.mp quiet
    rw [feedback, powerDown]
    rfl
  · simp only [Rail.cut_of_not_failing works, ite_self]

theorem opened_eq_zero {p : Pass} {s : Controller} :
    opened p s = 0 ↔ ∀ i, opens p (PowerControl.beforeCpu p s) i = false := by
  unfold opened
  constructor
  · intro none i
    match i with
    | 0 => exact Bool.toNat_eq_zero.mp (by omega)
    | 1 => exact Bool.toNat_eq_zero.mp (by omega)
    | 2 => exact Bool.toNat_eq_zero.mp (by omega)
  · intro closed
    rw [closed 0, closed 1, closed 2]
    rfl

theorem loop_outputState_of_closed {p : Pass} {s : Controller} (closed : opened p s = 0) :
    (loop p s).outputState = (PowerControl.pressButton p s).outputState := by
  have none := opened_eq_zero.mp closed
  rw [loop_outputState, none 0, none 1, none 2, beforeCpu_outputState, Bool.xor_false,
    Bool.xor_false, Bool.xor_false]

theorem Sound.loop {s : Controller} (sound : Sound s) {p : Pass} (closed : opened p s = 0) :
    Sound (loop p s) := by
  have before := sound.beforeCpu p
  have rails : ∀ i, (PowerControl.loop p s).rails i = (PowerControl.beforeCpu p s).rails i := fun i => by
    rw [loop_rails, answered_of_not_opens (opened_eq_zero.mp closed i)]
  have state : (PowerControl.loop p s).outputState = (PowerControl.beforeCpu p s).outputState := by
    rw [loop_outputState_of_closed closed, beforeCpu_outputState]
  have mains : (PowerControl.loop p s).mainsPin = (PowerControl.beforeCpu p s).mainsPin := by
    rw [loop_mainsPin, PowerControl.beforeCpu, updateRails_eq]
  exact
    { wired := fun i => by
        rw [rails i]
        exact before.wired i
      off := fun off => by
        rw [state] at off
        refine ⟨mains.trans (before.off off).1, fun i => ?_⟩
        rw [rails i]
        exact (before.off off).2 i
      on := fun on => mains.trans (before.on (state.symm.trans on)) }

theorem Sound.failSafe {s : Controller} (sound : Sound s) {p : Pass} (closed : opened p s = 0) :
    FailSafe s p (PowerControl.loop p s) where
  off := (sound.loop closed).allOff
  stays off quiet := by
    have still : (PowerControl.loop p s).outputState = false := by
      rw [loop_outputState_of_closed closed, pressButton_of_not_pressed quiet]
      exact off
    have allOff := (sound.loop closed).allOff still
    exact ⟨still, fun i => ⟨fun _ => allOff.relay i, fun _ => allOff.pwrg i⟩⟩
  settled some := absurd closed (Nat.ne_of_gt some)

/-! ## Passes in which it opens one -/

theorem Sound.on_of_failing {s : Controller} (sound : Sound s) {i : Fin 3}
    (fails : (s.rails i).failing = true) : s.outputState = true := by
  cases state : s.outputState with
  | true => rfl
  | false =>
    have down := (sound.off state).2 i
    rw [Rail.failing, down.1] at fails
    exact Bool.noConfusion fails

theorem toggles_of_opened (first second third : Bool)
    (some : 0 < first.toNat + second.toNat + third.toNat)
    (on : (true ^^ first ^^ second ^^ third) = true) :
    2 ≤ first.toNat + second.toNat + third.toNat := by
  revert first second third
  decide

theorem Sound.breaks {s : Controller} (sound : Sound s) {p : Pass} (some : 0 < opened p s) :
    ¬ FailSafe s p (PowerControl.loop p s) := by
  intro safe
  have before := sound.beforeCpu p
  have state : (PowerControl.beforeCpu p s).outputState = true := by
    by_contra off
    have none : opened p s = 0 := by
      apply opened_eq_zero.mpr
      intro i
      apply Bool.eq_false_iff.mpr
      intro opensHere
      exact off (before.on_of_failing (Bool.and_eq_true_iff.mp opensHere).2)
    exact absurd none (Nat.ne_of_gt some)
  have mains : (PowerControl.loop p s).mainsPin = true := by
    rw [loop_mainsPin]
    exact (sound.pressButton p).on ((beforeCpu_outputState p s).symm.trans state)
  cases after : (PowerControl.loop p s).outputState with
  | false => exact Bool.noConfusion (mains.symm.trans (safe.off after).mains)
  | true =>
    have two : 2 ≤ opened p s := by
      rw [loop_outputState, state] at after
      exact toggles_of_opened _ _ _ some after
    exact Bool.noConfusion (after.symm.trans ((safe.settled some).2 two))

theorem Sound.failSafe_run {s : Controller} (sound : Sound s) (passes : List Pass) :
    EachStep loopStep FailSafe s passes ↔
      Guarded loopStep (fun s p => opened p s = 0) s passes := by
  refine eachStep_iff_guarded Sound (fun _ _ taken => by cases taken) ?_ ?_ sound
  · intro s p t sound taken
    cases taken
    constructor
    · intro safe
      rcases Nat.eq_zero_or_pos (opened p s) with closed | some
      · exact closed
      · exact absurd safe (sound.breaks some)
    · exact sound.failSafe
  · intro s p t sound closed taken
    cases taken
    exact sound.loop closed

/-- From `setup` on, every pass is fail-safe exactly when the CPU never opens a relay. -/
theorem off_means_off (passes : List Pass) :
    EachStep loopStep FailSafe initialController passes ↔
      Guarded loopStep (fun s p => opened p s = 0) initialController passes :=
  sound_initial.failSafe_run passes

/-! ## A press is debounced -/

/-- A reading of the button's raw level. -/
structure Reading where
  now : Nat
  level : Bool

def Reading.Low (r : Reading) : Prop := r.level = false

structure Watched where
  controller : Controller
  readings : List Reading

def watchedStep (w : Watched) (p : Pass) : Option Watched :=
  some
    { controller := loop p w.controller
      readings :=
        w.readings ++ [{ now := w.controller.millis + p.gaps.button.1, level := p.button }] }

/-- A raw level that is LOW has been LOW since it last changed. -/
def LowHeld (w : Watched) : Prop :=
  w.controller.button.lastRaw = false →
    HeldSince Reading.now Reading.Low w.controller.button.lastChangeTime w.readings

theorem filtered_lastRaw (debounceMs : Nat) (raw : Bool) (now : Nat) (f : Filter) :
    (filtered debounceMs raw now f).lastRaw = f.lastRaw ∧
      (filtered debounceMs raw now f).lastChangeTime = f.lastChangeTime := by
  unfold filtered
  split <;> exact ⟨rfl, rfl⟩

theorem sampled_lastRaw (raw : Bool) (now : Nat) (f : Filter) : (sampled raw now f).lastRaw = raw := by
  unfold sampled
  split
  · next same => exact same.symm
  · rfl

theorem LowHeld.sampled {w : Watched} (held : LowHeld w) (p : Pass) (low : p.button = false) :
    HeldSince Reading.now Reading.Low
      (sampled p.button (w.controller.millis + p.gaps.button.1) w.controller.button).lastChangeTime
      (w.readings ++ [{ now := w.controller.millis + p.gaps.button.1, level := p.button }]) := by
  unfold PowerControl.sampled
  split
  · next same => exact (held (same.symm.trans low)).extend low
  · have first : Reading.Low
        { now := w.controller.millis + p.gaps.button.1, level := p.button } := low
    exact heldSince_start w.readings first

theorem LowHeld.step {w t : Watched} {p : Pass} (held : LowHeld w) (taken : watchedStep w p = some t) :
    LowHeld t := by
  cases taken
  intro low
  have button := loop_button p w.controller
  rw [show (PowerControl.loop p w.controller).button.lastRaw = p.button by
    rw [button, bounced, (filtered_lastRaw _ _ _ _).1, sampled_lastRaw]] at low
  rw [show (PowerControl.loop p w.controller).button.lastChangeTime =
      (PowerControl.sampled p.button (w.controller.millis + p.gaps.button.1)
        w.controller.button).lastChangeTime by
    rw [button, bounced, (filtered_lastRaw _ _ _ _).2]]
  exact held.sampled p low

/-- In every run a press comes at the end of `DEBOUNCE_MS` of LOW readings. -/
theorem press_debounced {passes : List Pass} {w : Watched}
    (run : exec watchedStep { controller := initialController, readings := [] } passes = some w)
    (p : Pass) (press : pressed p w.controller) :
    HeldFor Reading.now Reading.Low DEBOUNCE_MS
      (w.controller.millis + p.gaps.button.1 + p.gaps.button.2)
      (w.readings ++ [{ now := w.controller.millis + p.gaps.button.1, level := p.button }]) := by
  have held : LowHeld w := by
    refine invariant_of_run LowHeld ?_ ?_ run
    · intro w p t held taken
      exact held.step taken
    · exact Bool.noConfusion
  obtain ⟨released, low⟩ := press
  rw [pressButton_button, bounced, filtered] at low
  split at low
  · next long =>
    refine ⟨_, ?_, held.sampled p low⟩
    have some : 0 < DEBOUNCE_MS := by decide
    omega
  · rw [sampled_stableState, released] at low
    exact Bool.noConfusion low

/-- A pass that begins `gap` ms after the last one, with the -5 V rail at nominal. -/
def passAfter (gap : Nat) (button feedback : Bool) (volts12 volts5 : ℚ) : Pass where
  button := button
  voltage
    | 0 => volts12
    | 1 => volts5
    | 2 => 5
  feedback := feedback
  powerDown := true
  lcdFeedback := feedback
  gaps :=
    { button := (gap, 0)
      rail := fun _ => 0
      feedback := (0, 0)
      powerDown := (0, 0)
      lcd := 0
      lcdFeedback := (0, 0) }

/-- The 12 V rail fails and the CPU asks for the cut: the system shows OFF with the mains relay and
the 5 V rail on. -/
theorem cut_leaves_mains_on :
    (exec loopStep initialController
      [passAfter 10 false true 12 5, passAfter 100 false true 12 5, passAfter 100 true true 12 5,
        passAfter 100 true true 10 5, passAfter 100 true false 10 5,
        passAfter 30 true false 10 5]).map
      (fun s => (s.outputState, s.mainsPin, (s.rails 1).relayPin, (s.rails 1).pwrgPin)) =
      some (false, true, true, true) := by
  decide +kernel

end OrionBios.PowerControl
