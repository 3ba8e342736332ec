import OrionBios.PowerControl.FailSafe
import OrionBios.Transition.Held
import Mathlib.Tactic.NormNum

/-!
# Hold times

A monitor beside the controller records every call of `updateRail`, and which relays were
opened in operation. As long as no call returns early on a rail that is being qualified,
the timestamps of a rail tell how long its voltage has held.
-/

namespace OrionBios.PowerControl

open Transition

/-- One call of `updateRail`. -/
structure Evaluation where
  now : Nat
  frac : ℚ
  on : Bool
  deriving DecidableEq

namespace Evaluation

def Qualified (e : Evaluation) : Prop := e.on = true ∧ PCT_ON ≤ e.frac

def Low (e : Evaluation) : Prop := e.on = true ∧ e.frac < PCT_OFF

end Evaluation

/-! ## One evaluation of a rail -/

theorem off_on {flag : Bool} {p : Prop} (off : flag = false) (on : flag = true) : p :=
  Bool.noConfusion (off.symm.trans on)

variable {frac : ℚ} {now : Nat} {r : Rail}

theorem rateStatus_eq (nominal : ℚ) (r : Rail) :
    ∃ status, rateStatus nominal r = { r with status := status } := by
  unfold rateStatus
  split_ifs
  · exact ⟨_, rfl⟩
  · exact ⟨_, rfl⟩
  · exact ⟨_, rfl⟩
  · exact ⟨r.status, rfl⟩

theorem not_low_of_on (high : PCT_ON ≤ frac) : ¬ frac < PCT_OFF := by
  apply not_lt.mpr
  refine le_trans ?_ high
  norm_num [PCT_ON, PCT_OFF]

theorem not_on_of_low (low : frac < PCT_OFF) : ¬ PCT_ON ≤ frac := fun high => not_low_of_on high low

/-- What the three conditions make of a rail. -/
def judged (frac : ℚ) (now : Nat) (r : Rail) : Rail :=
  recoverPwrg frac now (dropPwrg frac now (switchOn frac now r))

variable (frac now)

/-- A rail whose relay is open: the qualification begins, ends, goes on or is given up. -/
theorem judged_of_open (relay : r.relayOn = false) (noDrop : r.pendingOff = false) :
    (PCT_ON ≤ frac ∧ judged frac now r = { r with pendingOn := true, pendingSince := now }) ∨
      (PCT_ON ≤ frac ∧ r.pendingOn = true ∧ r.requiredHold ≤ now - r.pendingSince ∧
        judged frac now r =
          { r with
            relayOn := true
            pwrgOn := true
            relayPin := true
            pwrgPin := true
            pendingOn := false
            hadFault := false }) ∨
      (PCT_ON ≤ frac ∧ r.pendingOn = true ∧ judged frac now r = r) ∨
      judged frac now r = { r with pendingOn := false } := by
  by_cases high : PCT_ON ≤ frac
  · have notLow := not_low_of_on high
    cases pending : r.pendingOn with
    | false =>
      refine .inl ⟨high, ?_⟩
      simp [judged, switchOn, dropPwrg, recoverPwrg, relay, high, pending]
    | true =>
      by_cases long : r.requiredHold ≤ now - r.pendingSince
      · refine .inr (.inl ⟨high, rfl, long, ?_⟩)
        simp [judged, switchOn, dropPwrg, recoverPwrg, relay, high, pending, long, notLow, noDrop]
      · refine .inr (.inr (.inl ⟨high, rfl, ?_⟩))
        simp [judged, switchOn, dropPwrg, recoverPwrg, relay, high, pending, long]
  · refine .inr (.inr (.inr ?_))
    simp [judged, switchOn, dropPwrg, recoverPwrg, relay, high]

theorem judged_of_good (relay : r.relayOn = true) (pwrg : r.pwrgOn = true) :
    (frac < PCT_OFF ∧ judged frac now r = { r with pendingOff := true, pendingSince := now }) ∨
      (frac < PCT_OFF ∧ r.pendingOff = true ∧ QUALIFY_MS ≤ now - r.pendingSince ∧
        judged frac now r =
          { r with pwrgOn := false, pwrgPin := false, pendingOff := false, pendingRecover := false }) ∨
      (frac < PCT_OFF ∧ r.pendingOff = true ∧ judged frac now r = r) ∨
      judged frac now r = { r with pendingOff := false } := by
  by_cases low : frac < PCT_OFF
  · have notHigh := not_on_of_low low
    cases pending : r.pendingOff with
    | false =>
      refine .inl ⟨low, ?_⟩
      simp [judged, switchOn, dropPwrg, recoverPwrg, relay, pwrg, low, pending]
    | true =>
      by_cases long : QUALIFY_MS ≤ now - r.pendingSince
      · refine .inr (.inl ⟨low, rfl, long, ?_⟩)
        simp [judged, switchOn, dropPwrg, recoverPwrg, relay, pwrg, low, pending, long, notHigh]
      · refine .inr (.inr (.inl ⟨low, rfl, ?_⟩))
        simp [judged, switchOn, dropPwrg, recoverPwrg, relay, pwrg, low, pending, long]
  · refine .inr (.inr (.inr ?_))
    simp [judged, switchOn, dropPwrg, recoverPwrg, relay, pwrg, low]

/-- A rail that has lost PWRG: the recovery begins, ends, goes on or is given up. -/
theorem judged_of_failing (relay : r.relayOn = true) (pwrg : r.pwrgOn = false) :
    (PCT_ON ≤ frac ∧
        judged frac now r = { r with pendingRecover := true, pendingRecoverSince := now }) ∨
      (PCT_ON ≤ frac ∧ r.pendingRecover = true ∧ RECOVERY_HOLD_MS ≤ now - r.pendingRecoverSince ∧
        judged frac now r = { r with pwrgOn := true, pwrgPin := true, pendingRecover := false }) ∨
      (PCT_ON ≤ frac ∧ r.pendingRecover = true ∧ judged frac now r = r) ∨
      judged frac now r = { r with pendingRecover := false } := by
  by_cases high : PCT_ON ≤ frac
  · cases pending : r.pendingRecover with
    | false =>
      refine .inl ⟨high, ?_⟩
      simp [judged, switchOn, dropPwrg, recoverPwrg, relay, pwrg, high, pending]
    | true =>
      by_cases long : RECOVERY_HOLD_MS ≤ now - r.pendingRecoverSince
      · refine .inr (.inl ⟨high, rfl, long, ?_⟩)
        simp [judged, switchOn, dropPwrg, recoverPwrg, relay, pwrg, high, pending, long]
      · refine .inr (.inr (.inl ⟨high, rfl, ?_⟩))
        simp [judged, switchOn, dropPwrg, recoverPwrg, relay, pwrg, high, pending, long]
  · refine .inr (.inr (.inr ?_))
    simp [judged, switchOn, dropPwrg, recoverPwrg, relay, pwrg, high]

variable {frac now}

/-! ## What the timestamps of a rail mean -/

/-- The rail after the evaluations `samples`; `faulted` says that its relay was opened in operation
since the last full switch-off. -/
structure RailHeld (samples : List Evaluation) (faulted : Bool) (r : Rail) : Prop where
  wired : r.Wired
  together : r.pwrgOn = true → r.relayOn = true
  start : r.pendingOn = true → r.relayOn = false ∧
    HeldSince Evaluation.now Evaluation.Qualified r.pendingSince samples
  drop : r.pendingOff = true → r.relayOn = true ∧ r.pwrgOn = true ∧
    HeldSince Evaluation.now Evaluation.Low r.pendingSince samples
  recover : r.relayOn = true → r.pwrgOn = false → r.pendingRecover = true →
    HeldSince Evaluation.now Evaluation.Qualified r.pendingRecoverSince samples
  fault : r.relayOn = false → r.hadFault = faulted

/-- What an evaluation `e` may do to a rail. -/
structure Judgement (samples : List Evaluation) (faulted : Bool) (e : Evaluation) (r r' : Rail) :
    Prop where
  held : RailHeld (samples ++ [e]) faulted r'
  relay : r.relayOn = false → r'.relayOn = true →
    HeldFor Evaluation.now Evaluation.Qualified (if faulted then RECOVERY_HOLD_MS else QUALIFY_MS)
      e.now (samples ++ [e])
  pwrg : r.relayOn = true → r.pwrgOn = false → r'.pwrgOn = true →
    HeldFor Evaluation.now Evaluation.Qualified RECOVERY_HOLD_MS e.now (samples ++ [e])
  dropped : r.pwrgOn = true → r'.pwrgOn = false →
    HeldFor Evaluation.now Evaluation.Low QUALIFY_MS e.now (samples ++ [e])
  closed : r.relayOn = true → r'.relayOn = true

theorem heldFor_of_elapsed {good : Evaluation → Prop} {since hold : Nat} {samples : List Evaluation}
    {e : Evaluation} (held : HeldSince Evaluation.now good since samples) (holds : good e)
    (some : 0 < hold) (long : hold ≤ e.now - since) :
    HeldFor Evaluation.now good hold e.now (samples ++ [e]) :=
  ⟨since, by omega, held.extend holds⟩

theorem requiredHold_pos (r : Rail) : 0 < r.requiredHold := by
  unfold Rail.requiredHold
  split
  · decide
  · decide

variable {samples : List Evaluation} {faulted : Bool} {e : Evaluation}

theorem RailHeld.noStart (held : RailHeld samples faulted r) (relay : r.relayOn = true) :
    r.pendingOn = false := by
  apply Bool.eq_false_iff.mpr
  intro pending
  exact off_on (held.start pending).1 relay

theorem RailHeld.noDrop_open (held : RailHeld samples faulted r) (relay : r.relayOn = false) :
    r.pendingOff = false := by
  apply Bool.eq_false_iff.mpr
  intro pending
  exact off_on relay (held.drop pending).1

theorem RailHeld.noDrop_failing (held : RailHeld samples faulted r) (pwrg : r.pwrgOn = false) :
    r.pendingOff = false := by
  apply Bool.eq_false_iff.mpr
  intro pending
  exact off_on pwrg (held.drop pending).2.1

theorem RailHeld.judged_open (held : RailHeld samples faulted r) (on : e.on = true)
    (relay : r.relayOn = false) : Judgement samples faulted e r (judged e.frac e.now r) := by
  have noDrop := held.noDrop_open relay
  have noPwrg : r.pwrgOn = false := by
    apply Bool.eq_false_iff.mpr
    intro pwrg
    exact off_on relay (held.together pwrg)
  have stays : ∀ {r' : Rail}, r'.relayOn = false → RailHeld (samples ++ [e]) faulted r' →
      Judgement samples faulted e r r' := fun still held' =>
    { held := held'
      relay := fun _ closed => off_on still closed
      pwrg := off_on relay
      dropped := off_on noPwrg
      closed := off_on relay }
  rcases judged_of_open e.frac e.now relay noDrop with
    ⟨high, same⟩ | ⟨high, pending, long, same⟩ | ⟨high, pending, same⟩ | same
  · rw [same]
    refine stays relay ?_
    exact
      { wired := held.wired
        together := held.together
        start := fun _ => ⟨relay, heldSince_start samples ⟨on, high⟩⟩
        drop := off_on noDrop
        recover := off_on relay
        fault := held.fault }
  · have hold : r.requiredHold = if faulted then RECOVERY_HOLD_MS else QUALIFY_MS := by
      rw [Rail.requiredHold, held.fault relay]
    rw [same]
    exact
      { held :=
          { wired := ⟨rfl, rfl⟩
            together := fun _ => rfl
            start := Bool.noConfusion
            drop := off_on noDrop
            recover := fun _ => Bool.noConfusion
            fault := Bool.noConfusion }
        relay := fun _ _ => by
          rw [← hold]
          exact heldFor_of_elapsed (held.start pending).2 ⟨on, high⟩ (requiredHold_pos r) long
        pwrg := off_on relay
        dropped := off_on noPwrg
        closed := fun _ => rfl }
  · rw [same]
    refine stays relay ?_
    exact
      { wired := held.wired
        together := held.together
        start := fun _ => ⟨relay, (held.start pending).2.extend ⟨on, high⟩⟩
        drop := off_on noDrop
        recover := off_on relay
        fault := held.fault }
  · rw [same]
    refine stays relay ?_
    exact
      { wired := held.wired
        together := held.together
        start := Bool.noConfusion
        drop := off_on noDrop
        recover := off_on relay
        fault := held.fault }

theorem RailHeld.judged_good (held : RailHeld samples faulted r) (on : e.on = true)
    (relay : r.relayOn = true) (pwrg : r.pwrgOn = true) :
    Judgement samples faulted e r (judged e.frac e.now r) := by
  have noStart := held.noStart relay
  have stays : ∀ {r' : Rail}, r'.relayOn = true → r'.pwrgOn = true →
      RailHeld (samples ++ [e]) faulted r' → Judgement samples faulted e r r' :=
    fun closed still held' =>
      { held := held'
        relay := fun opened => off_on opened relay
        pwrg := fun _ lost => off_on lost pwrg
        dropped := fun _ lost => off_on lost still
        closed := fun _ => closed }
  rcases judged_of_good e.frac e.now relay pwrg with
    ⟨low, same⟩ | ⟨low, pending, long, same⟩ | ⟨low, pending, same⟩ | same
  · rw [same]
    refine stays relay pwrg ?_
    exact
      { wired := held.wired
        together := held.together
        start := off_on noStart
        drop := fun _ => ⟨relay, pwrg, heldSince_start samples ⟨on, low⟩⟩
        recover := fun _ lost => off_on lost pwrg
        fault := held.fault }
  · have long := heldFor_of_elapsed (held.drop pending).2.2 ⟨on, low⟩ (by decide) long
    rw [same]
    exact
      { held :=
          { wired := ⟨held.wired.1, rfl⟩
            together := Bool.noConfusion
            start := off_on noStart
            drop := Bool.noConfusion
            recover := fun _ _ => Bool.noConfusion
            fault := held.fault }
        relay := fun opened => off_on opened relay
        pwrg := fun _ lost => off_on lost pwrg
        dropped := fun _ _ => long
        closed := fun closed => closed }
  · rw [same]
    refine stays relay pwrg ?_
    exact
      { wired := held.wired
        together := held.together
        start := off_on noStart
        drop := fun _ => ⟨relay, pwrg, (held.drop pending).2.2.extend ⟨on, low⟩⟩
        recover := fun _ lost => off_on lost pwrg
        fault := held.fault }
  · rw [same]
    refine stays relay pwrg ?_
    exact
      { wired := held.wired
        together := held.together
        start := off_on noStart
        drop := Bool.noConfusion
        recover := fun _ lost => off_on lost pwrg
        fault := held.fault }

theorem RailHeld.judged_failing (held : RailHeld samples faulted r) (on : e.on = true)
    (relay : r.relayOn = true) (pwrg : r.pwrgOn = false) :
    Judgement samples faulted e r (judged e.frac e.now r) := by
  have noStart := held.noStart relay
  have noDrop := held.noDrop_failing pwrg
  have stays : ∀ {r' : Rail}, r'.relayOn = true → r'.pwrgOn = false →
      RailHeld (samples ++ [e]) faulted r' → Judgement samples faulted e r r' :=
    fun closed still held' =>
      { held := held'
        relay := fun opened => off_on opened relay
        pwrg := fun _ _ back => off_on still back
        dropped := off_on pwrg
        closed := fun _ => closed }
  rcases judged_of_failing e.frac e.now relay pwrg with
    ⟨high, same⟩ | ⟨high, pending, long, same⟩ | ⟨high, pending, same⟩ | same
  · rw [same]
    refine stays relay pwrg ?_
    exact
      { wired := held.wired
        together := held.together
        start := off_on noStart
        drop := off_on noDrop
        recover := fun _ _ _ => heldSince_start samples ⟨on, high⟩
        fault := held.fault }
  · have long := heldFor_of_elapsed (held.recover relay pwrg pending) ⟨on, high⟩ (by decide) long
    rw [same]
    exact
      { held :=
          { wired := ⟨held.wired.1, rfl⟩
            together := fun _ => relay
            start := off_on noStart
            drop := off_on noDrop
            recover := fun _ => Bool.noConfusion
            fault := held.fault }
        relay := fun opened => off_on opened relay
        pwrg := fun _ _ _ => long
        dropped := off_on pwrg
        closed := fun closed => closed }
  · rw [same]
    refine stays relay pwrg ?_
    exact
      { wired := held.wired
        together := held.together
        start := off_on noStart
        drop := off_on noDrop
        recover := fun _ _ _ => (held.recover relay pwrg pending).extend ⟨on, high⟩
        fault := held.fault }
  · rw [same]
    refine stays relay pwrg ?_
    exact
      { wired := held.wired
        together := held.together
        start := off_on noStart
        drop := off_on noDrop
        recover := fun _ _ => Bool.noConfusion
        fault := held.fault }

theorem RailHeld.judged (held : RailHeld samples faulted r) (on : e.on = true) :
    Judgement samples faulted e r (judged e.frac e.now r) := by
  cases relay : r.relayOn with
  | false => exact held.judged_open on relay
  | true =>
    cases pwrg : r.pwrgOn with
    | true => exact held.judged_good on relay pwrg
    | false => exact held.judged_failing on relay pwrg

theorem RailHeld.relabel (held : RailHeld samples faulted r) (v : ℚ) (status : RailStatus) :
    RailHeld samples faulted { r with lastVoltage := v, status := status } where
  wired := held.wired
  together := held.together
  start := held.start
  drop := held.drop
  recover := held.recover
  fault := held.fault

theorem Judgement.relabel {r' : Rail} (judgement : Judgement samples faulted e r r')
    (status : RailStatus) : Judgement samples faulted e r { r' with status := status } where
  held := judgement.held.relabel r'.lastVoltage status
  relay := judgement.relay
  pwrg := judgement.pwrg
  dropped := judgement.dropped
  closed := judgement.closed

theorem nominal_ne_zero (i : Fin 3) : nominal i ≠ 0 := by
  match i with
  | 0 => norm_num [nominal]
  | 1 => norm_num [nominal]
  | 2 => norm_num [nominal]

/-- A call of `updateRail` while the system is on. -/
theorem RailHeld.updated (held : RailHeld samples faulted r) (i : Fin 3) (v : ℚ) (now : Nat) :
    Judgement samples faulted { now := now, frac := v / nominal i, on := true } r
      (updatedRail true (nominal i) v now r) := by
  have measured : RailHeld samples faulted { r with lastVoltage := v } := held.relabel v r.status
  obtain ⟨status, rated⟩ := rateStatus_eq (nominal i)
    (PowerControl.judged (v / nominal i) now { r with lastVoltage := v })
  have result : updatedRail true (nominal i) v now r =
      { PowerControl.judged (v / nominal i) now { r with lastVoltage := v } with
        status := status } := by
    rw [← rated, updatedRail, if_pos rfl, evaluate, if_neg (nominal_ne_zero i), PowerControl.judged]
  have judgement := measured.judged (e := { now := now, frac := v / nominal i, on := true }) rfl
  rw [result]
  exact
    { held := (judgement.relabel status).held
      relay := judgement.relay
      pwrg := judgement.pwrg
      dropped := judgement.dropped
      closed := judgement.closed }

theorem RailHeld.skipped (held : RailHeld samples faulted r) (noStart : r.pendingOn = false)
    (noDrop : r.pendingOff = false) (works : r.failing = false) (nominal v : ℚ) (now : Nat) :
    RailHeld (samples ++ [e]) faulted (updatedRail false nominal v now r) where
  wired := held.wired
  together := held.together
  start pending := off_on noStart pending
  drop pending := off_on noDrop pending
  recover relay pwrg := by
    have fails : r.failing = true := by
      rw [Rail.failing, show r.relayOn = true from relay, show r.pwrgOn = false from pwrg]
      rfl
    exact off_on works fails
  fault := held.fault

theorem RailHeld.reset (r : Rail) (samples : List Evaluation) :
    RailHeld samples false (resetRailInternalState r) where
  wired := ⟨rfl, rfl⟩
  together := Bool.noConfusion
  start := Bool.noConfusion
  drop := Bool.noConfusion
  recover := Bool.noConfusion
  fault _ := rfl

theorem RailHeld.opened (held : RailHeld samples faulted r) (fails : r.failing = true)
    (status : RailStatus) :
    RailHeld samples true
      { r with status := status, relayOn := false, hadFault := true, relayPin := false } := by
  obtain ⟨relay, lost⟩ := Bool.and_eq_true_iff.mp fails
  have pwrg : r.pwrgOn = false := by
    rw [← Bool.not_not r.pwrgOn, lost]
    rfl
  exact
    { wired := ⟨rfl, held.wired.2⟩
      together := off_on pwrg
      start := fun pending => off_on (held.start pending).1 relay
      drop := fun pending => off_on pwrg (held.drop pending).2.1
      recover := Bool.noConfusion
      fault := fun _ => rfl }

/-! ## The monitor -/

structure Monitored where
  controller : Controller
  evaluations : Fin 3 → List Evaluation
  /-- The relays opened in operation since the last full switch-off. -/
  faulted : Fin 3 → Bool

def switchedOff (p : Pass) (s : Controller) : Bool := decide (pressed p s) && s.outputState

def evaluation (i : Fin 3) (p : Pass) (s : Controller) : Evaluation where
  now := evaluatedAt p i (pressButton p s).millis
  frac := p.voltage i / nominal i
  on := (pressButton p s).outputState

def monitoredStep (m : Monitored) (p : Pass) : Option Monitored :=
  some
    { controller := loop p m.controller
      evaluations := fun i => m.evaluations i ++ [evaluation i p m.controller]
      faulted := fun i =>
        m.faulted i && !switchedOff p m.controller || opens p (beforeCpu p m.controller) i }

def initialMonitored : Monitored where
  controller := initialController
  evaluations _ := []
  faulted _ := false

/-- The monitor only watches. -/
theorem exec_monitoredStep (m : Monitored) (passes : List Pass) :
    (exec monitoredStep m passes).map Monitored.controller = exec loopStep m.controller passes := by
  induction passes generalizing m with
  | nil => rfl
  | cons p rest inductionHypothesis => exact inductionHypothesis _

/-- What a pass owes to the CPU board. -/
structure Qualifies (m : Monitored) (p : Pass) (t : Monitored) : Prop where
  relay : ∀ i, (m.controller.rails i).relayPin = false → (t.controller.rails i).relayPin = true →
    HeldFor Evaluation.now Evaluation.Qualified
      (if m.faulted i then RECOVERY_HOLD_MS else QUALIFY_MS)
      (evaluation i p m.controller).now (t.evaluations i)
  pwrg : ∀ i, (m.controller.rails i).pwrgPin = false → (t.controller.rails i).pwrgPin = true →
    HeldFor Evaluation.now Evaluation.Qualified
      (if m.faulted i ∨ (m.controller.rails i).relayPin = true then RECOVERY_HOLD_MS
        else QUALIFY_MS)
      (evaluation i p m.controller).now (t.evaluations i)
  dropped : ∀ i, (m.controller.rails i).pwrgPin = true → (t.controller.rails i).pwrgPin = false →
    switchedOff p m.controller = true ∨
      HeldFor Evaluation.now Evaluation.Low QUALIFY_MS (evaluation i p m.controller).now
        (t.evaluations i)
  together : ∀ i, (t.controller.rails i).pwrgPin = true → (t.controller.rails i).relayPin = true

/-- No call of `updateRail` returns early on a rail that is waiting for a hold time. -/
def NothingSkipped (m : Monitored) (p : Pass) : Prop :=
  (pressButton p m.controller).outputState = false → ∀ i,
    ((pressButton p m.controller).rails i).pendingOn = false ∧
      ((pressButton p m.controller).rails i).pendingOff = false

instance (m : Monitored) (p : Pass) : Decidable (NothingSkipped m p) := by
  unfold NothingSkipped
  infer_instance

/-! ## One pass -/

theorem pressButton_of_switchedOff {p : Pass} {s : Controller} (off : switchedOff p s = true) :
    pressButton p s =
      { bounced p s with
        outputState := false
        rails := fun i => resetRailInternalState (s.rails i)
        mainsPin := false } := by
  obtain ⟨press, on⟩ := Bool.and_eq_true_iff.mp off
  rw [pressButton_of_pressed (of_decide_eq_true press), toggle]
  exact if_pos on

theorem pressButton_rail {p : Pass} {s : Controller} (stays : switchedOff p s = false) (i : Fin 3) :
    ∃ status, (pressButton p s).rails i = { s.rails i with status := status } := by
  by_cases press : pressed p s
  · have off : (bounced p s).outputState = false := by
      unfold switchedOff at stays
      rw [decide_eq_true press] at stays
      exact stays
    rw [pressButton_of_pressed press, toggle, off, if_neg Bool.false_ne_true]
    split
    · by_cases here : i = 1
      · subst here
        exact ⟨_, rfl⟩
      · exact ⟨(s.rails i).status, Function.update_of_ne here _ _⟩
    · exact ⟨(s.rails i).status, rfl⟩
  · rw [pressButton_of_not_pressed press]
    exact ⟨(s.rails i).status, rfl⟩

structure MonitorHeld (m : Monitored) : Prop where
  rails : ∀ i, RailHeld (m.evaluations i) (m.faulted i) (m.controller.rails i)
  /-- A relay without PWRG is opened before the system goes off. -/
  quiet : m.controller.outputState = false → ∀ i, (m.controller.rails i).failing = false

variable {m : Monitored} {p : Pass}

theorem MonitorHeld.pressed (held : MonitorHeld m) (p : Pass) (i : Fin 3) :
    RailHeld (m.evaluations i) (m.faulted i && !switchedOff p m.controller)
      ((pressButton p m.controller).rails i) := by
  cases off : switchedOff p m.controller with
  | true =>
    rw [pressButton_of_switchedOff off, Bool.not_true, Bool.and_false]
    exact RailHeld.reset _ _
  | false =>
    obtain ⟨status, same⟩ := pressButton_rail off i
    rw [same, Bool.not_false, Bool.and_true]
    exact (held.rails i).relabel _ status

theorem MonitorHeld.quiet_pressed (held : MonitorHeld m) (p : Pass)
    (off : (pressButton p m.controller).outputState = false) (i : Fin 3) :
    ((pressButton p m.controller).rails i).failing = false := by
  cases switched : switchedOff p m.controller with
  | true =>
    rw [pressButton_of_switchedOff switched]
    rfl
  | false =>
    obtain ⟨status, same⟩ := pressButton_rail switched i
    rw [same]
    have before : m.controller.outputState = false := by
      by_cases press : PowerControl.pressed p m.controller
      · unfold switchedOff at switched
        rw [decide_eq_true press] at switched
        exact switched
      · rw [pressButton_of_not_pressed press] at off
        exact off
    exact held.quiet before i

theorem MonitorHeld.evaluated (held : MonitorHeld m) (waits : NothingSkipped m p) (i : Fin 3) :
    RailHeld (m.evaluations i ++ [evaluation i p m.controller])
      (m.faulted i && !switchedOff p m.controller) ((beforeCpu p m.controller).rails i) := by
  have pressed := held.pressed p i
  rw [beforeCpu_rails]
  cases on : (pressButton p m.controller).outputState with
  | true =>
    have judgement := pressed.updated i (p.voltage i)
      (evaluatedAt p i (pressButton p m.controller).millis)
    rw [evaluation, on]
    exact judgement.held
  | false =>
    obtain ⟨noStart, noDrop⟩ := waits on i
    exact pressed.skipped noStart noDrop (held.quiet_pressed p on i) _ _ _

theorem answered_of_opens {p : Pass} {s : Controller} {i : Fin 3} (opened : opens p s i = true) :
    ∃ status, answered p s (s.rails i) =
      { s.rails i with status := status, relayOn := false, hadFault := true, relayPin := false } := by
  obtain ⟨requested, fails⟩ := Bool.and_eq_true_iff.mp opened
  have cut : ∀ status, (s.rails i).cut status =
      { s.rails i with status := status, relayOn := false, hadFault := true, relayPin := false } :=
    fun status => if_pos fails
  cases feedback : feedbackActive p s with
  | true =>
    refine ⟨.PWRFAIL, ?_⟩
    have once : ∀ status, ((s.rails i).cut .PWRFAIL).cut status = (s.rails i).cut .PWRFAIL :=
      fun status => Rail.cut_of_not_failing (Rail.failing_cut _ _) status
    simp only [answered, feedback, if_true, once, ite_self]
    exact cut .PWRFAIL
  | false =>
    have powerDown : powerDownActive p s = true := by
      unfold cutRequested at requested
      rw [feedback] at requested
      exact requested
    refine ⟨.PWRDOWN, ?_⟩
    simp only [answered, feedback, powerDown, if_true, Bool.false_eq_true, if_false]
    exact cut .PWRDOWN

theorem answered_pwrg (p : Pass) (s : Controller) (i : Fin 3) :
    (answered p s (s.rails i)).pwrgOn = (s.rails i).pwrgOn := by
  cases opened : opens p s i with
  | false => rw [answered_of_not_opens opened]
  | true =>
    obtain ⟨status, same⟩ := answered_of_opens opened
    rw [same]

theorem answered_relay {p : Pass} {s : Controller} {i : Fin 3}
    (relay : (answered p s (s.rails i)).relayOn = true) :
    answered p s (s.rails i) = s.rails i := by
  cases opened : opens p s i with
  | false => exact answered_of_not_opens opened
  | true =>
    obtain ⟨status, same⟩ := answered_of_opens opened
    rw [same] at relay
    exact Bool.noConfusion relay

theorem answered_failing {p : Pass} {s : Controller} (requested : cutRequested p s = true)
    (i : Fin 3) : (answered p s (s.rails i)).failing = false := by
  cases opened : opens p s i with
  | false =>
    rw [answered_of_not_opens opened]
    unfold opens at opened
    rw [requested] at opened
    exact opened
  | true =>
    obtain ⟨status, same⟩ := answered_of_opens opened
    rw [same]
    rfl

theorem MonitorHeld.step (held : MonitorHeld m) (waits : NothingSkipped m p) {t : Monitored}
    (taken : monitoredStep m p = some t) : MonitorHeld t := by
  cases taken
  exact
    { rails := fun i => by
        have evaluated := held.evaluated waits i
        show RailHeld _ _ ((loop p m.controller).rails i)
        rw [loop_rails]
        cases opened : opens p (beforeCpu p m.controller) i with
        | false =>
          rw [answered_of_not_opens opened]
          show RailHeld _ (_ || opens p (beforeCpu p m.controller) i) _
          rw [opened, Bool.or_false]
          exact evaluated
        | true =>
          obtain ⟨status, same⟩ := answered_of_opens opened
          rw [same]
          show RailHeld _ (_ || opens p (beforeCpu p m.controller) i) _
          rw [opened, Bool.or_true]
          exact evaluated.opened (Bool.and_eq_true_iff.mp opened).2 status
      quiet := fun off i => by
        show ((loop p m.controller).rails i).failing = false
        rw [loop_rails]
        cases requested : cutRequested p (beforeCpu p m.controller) with
        | true => exact answered_failing requested i
        | false =>
          have none : ∀ j, opens p (beforeCpu p m.controller) j = false := fun j => by
            rw [opens, requested, Bool.false_and]
          have before : (pressButton p m.controller).outputState = false := by
            rw [← loop_outputState_of_closed (opened_eq_zero.mpr none)]
            exact off
          rw [answered_of_not_opens (none i), beforeCpu_rails, before]
          exact held.quiet_pressed p before i }

theorem monitorHeld_initial : MonitorHeld initialMonitored where
  rails _ := RailHeld.reset offRail []
  quiet _ _ := rfl

theorem MonitorHeld.judgement (held : MonitorHeld m)
    (on : (pressButton p m.controller).outputState = true) (i : Fin 3) :
    switchedOff p m.controller = false ∧
      Judgement (m.evaluations i) (m.faulted i) (evaluation i p m.controller)
        ((pressButton p m.controller).rails i) ((beforeCpu p m.controller).rails i) := by
  have stays : switchedOff p m.controller = false := by
    apply Bool.eq_false_iff.mpr
    intro off
    rw [pressButton_of_switchedOff off] at on
    exact Bool.noConfusion on
  refine ⟨stays, ?_⟩
  have pressed := held.pressed p i
  rw [stays, Bool.not_false, Bool.and_true] at pressed
  rw [beforeCpu_rails, evaluation, on]
  exact pressed.updated i (p.voltage i) _

theorem beforeCpu_of_off {s : Controller} (off : (pressButton p s).outputState = false) (i : Fin 3) :
    ((beforeCpu p s).rails i).relayOn = ((pressButton p s).rails i).relayOn ∧
      ((beforeCpu p s).rails i).pwrgOn = ((pressButton p s).rails i).pwrgOn := by
  rw [beforeCpu_rails, off]
  exact ⟨rfl, rfl⟩

theorem pressButton_flags (p : Pass) (s : Controller) (i : Fin 3) :
    ((s.rails i).relayOn = false → ((pressButton p s).rails i).relayOn = false) ∧
      ((s.rails i).pwrgOn = false → ((pressButton p s).rails i).pwrgOn = false) ∧
      (switchedOff p s = false → ((pressButton p s).rails i).relayOn = (s.rails i).relayOn ∧
        ((pressButton p s).rails i).pwrgOn = (s.rails i).pwrgOn) := by
  cases switched : switchedOff p s with
  | true =>
    rw [pressButton_of_switchedOff switched]
    exact ⟨fun _ => rfl, fun _ => rfl, Bool.noConfusion⟩
  | false =>
    obtain ⟨status, same⟩ := pressButton_rail switched i
    rw [same]
    exact ⟨id, id, fun _ => ⟨rfl, rfl⟩⟩

theorem beforeCpu_relay {s : Controller} {i : Fin 3} (closed : ((loop p s).rails i).relayOn = true) :
    ((beforeCpu p s).rails i).relayOn = true := by
  rw [loop_rails] at closed
  rw [answered_relay closed] at closed
  exact closed

theorem beforeCpu_pwrg (p : Pass) (s : Controller) (i : Fin 3) :
    ((loop p s).rails i).pwrgOn = ((beforeCpu p s).rails i).pwrgOn := by
  rw [loop_rails, answered_pwrg]

theorem MonitorHeld.relay (held : MonitorHeld m) (i : Fin 3)
    (before : (m.controller.rails i).relayOn = false)
    (closed : ((beforeCpu p m.controller).rails i).relayOn = true) :
    HeldFor Evaluation.now Evaluation.Qualified
      (if m.faulted i then RECOVERY_HOLD_MS else QUALIFY_MS) (evaluation i p m.controller).now
      (m.evaluations i ++ [evaluation i p m.controller]) := by
  have still := (pressButton_flags p m.controller i).1 before
  cases on : (pressButton p m.controller).outputState with
  | true => exact (held.judgement on i).2.relay still closed
  | false =>
    rw [(beforeCpu_of_off on i).1, still] at closed
    exact Bool.noConfusion closed

theorem MonitorHeld.pwrg (held : MonitorHeld m) (waits : NothingSkipped m p) (i : Fin 3)
    (before : (m.controller.rails i).pwrgOn = false)
    (good : ((beforeCpu p m.controller).rails i).pwrgOn = true) :
    HeldFor Evaluation.now Evaluation.Qualified
      (if m.faulted i ∨ (m.controller.rails i).relayOn = true then RECOVERY_HOLD_MS
        else QUALIFY_MS)
      (evaluation i p m.controller).now (m.evaluations i ++ [evaluation i p m.controller]) := by
  have still := (pressButton_flags p m.controller i).2.1 before
  cases on : (pressButton p m.controller).outputState with
  | false =>
    rw [(beforeCpu_of_off on i).2, still] at good
    exact Bool.noConfusion good
  | true =>
    obtain ⟨stays, judgement⟩ := held.judgement on i
    have same := ((pressButton_flags p m.controller i).2.2 stays).1
    cases relay : (m.controller.rails i).relayOn with
    | true =>
      rw [if_pos (.inr rfl)]
      exact judgement.pwrg (same.trans relay) still good
    | false =>
      have closed := (held.evaluated waits i).together good
      simpa using held.relay i relay closed

theorem MonitorHeld.dropped (held : MonitorHeld m) (i : Fin 3)
    (before : (m.controller.rails i).pwrgOn = true)
    (lost : ((beforeCpu p m.controller).rails i).pwrgOn = false) :
    switchedOff p m.controller = true ∨
      HeldFor Evaluation.now Evaluation.Low QUALIFY_MS (evaluation i p m.controller).now
        (m.evaluations i ++ [evaluation i p m.controller]) := by
  cases stays : switchedOff p m.controller with
  | true => exact .inl rfl
  | false =>
    have still := ((pressButton_flags p m.controller i).2.2 stays).2.trans before
    cases on : (pressButton p m.controller).outputState with
    | true => exact .inr ((held.judgement on i).2.dropped still lost)
    | false =>
      rw [(beforeCpu_of_off on i).2, still] at lost
      exact Bool.noConfusion lost

theorem MonitorHeld.qualifies (held : MonitorHeld m) (waits : NothingSkipped m p) {t : Monitored}
    (taken : monitoredStep m p = some t) : Qualifies m p t := by
  have after := held.step waits taken
  cases taken
  exact
    { relay := fun i before closed => by
        have open' := (held.rails i).wired.1.symm.trans before
        have closed' := (after.rails i).wired.1.symm.trans closed
        exact held.relay i open' (beforeCpu_relay closed')
      pwrg := fun i before good => by
        have bad := (held.rails i).wired.2.symm.trans before
        have good' := (after.rails i).wired.2.symm.trans good
        rw [(held.rails i).wired.1]
        exact held.pwrg waits i bad ((beforeCpu_pwrg p m.controller i).symm.trans good')
      dropped := fun i before lost => by
        have good := (held.rails i).wired.2.symm.trans before
        have bad := (after.rails i).wired.2.symm.trans lost
        exact held.dropped i good ((beforeCpu_pwrg p m.controller i).symm.trans bad)
      together := fun i good => by
        have wired := (after.rails i).wired
        rw [wired.1]
        apply (after.rails i).together
        rw [← wired.2]
        exact good }

/-- In every run in which no rail is skipped while it waits, relays and PWRG go on only after their
hold times, and PWRG goes off only after a lasting drop. -/
theorem power_qualified (passes : List Pass)
    (guarded : Guarded monitoredStep NothingSkipped initialMonitored passes) :
    EachStep monitoredStep Qualifies initialMonitored passes := by
  refine eachStep_of_guarded MonitorHeld ?_ ?_ monitorHeld_initial guarded
  · intro m p t held waits taken
    exact held.step waits taken
  · intro m p t held waits taken
    exact held.qualifies waits taken

/-- A cold start, a drop of the 12 V rail, the cut, and a start with the recovery hold. -/
theorem power_qualified_restart :
    EachStep monitoredStep Qualifies initialMonitored
      [passAfter 10 false true 12 5, passAfter 100 false true 12 5, passAfter 100 true true 12 5,
        passAfter 100 true true 10 5, passAfter 100 true false 10 5, passAfter 30 true false 10 5,
        passAfter 10 false true 12 5, passAfter 100 false true 12 5,
        passAfter 10000 true true 12 5] :=
  power_qualified _ (guarded_of_check (by decide +kernel))

/-- The 12 V rail comes up late, and the CPU cuts the 5 V rail meanwhile. -/
def lateRail : List Pass :=
  [passAfter 10 false true 0 5, passAfter 100 false true 0 5, passAfter 100 true true 0 5,
    passAfter 100 true true 0 4, passAfter 100 true false 12 4, passAfter 30 true false 12 4,
    passAfter 10 false true 0 4]

/-- After the press that follows, its relay closes at once: the request pending from before the cut
was never withdrawn. -/
theorem stale_request_closes_relay :
    ¬ EachStep monitoredStep Qualifies initialMonitored
      (lateRail ++ [passAfter 100 false true 12 4]) := by
  intro each
  have seen : (exec monitoredStep initialMonitored lateRail).map (fun m =>
      ((m.controller.rails 0).relayPin,
        ((loop (passAfter 100 false true 12 4) m.controller).rails 0).relayPin,
        m.evaluations 0, evaluation 0 (passAfter 100 false true 12 4) m.controller)) =
      some (false, true,
        [⟨10, 0, false⟩, ⟨110, 0, true⟩, ⟨210, 0, true⟩, ⟨310, 0, true⟩, ⟨410, 1, true⟩,
          ⟨440, 1, true⟩] ++ [⟨450, 0, false⟩], ⟨550, 1, true⟩) := by
    decide +kernel
  obtain ⟨m, run, facts⟩ := Option.map_eq_some_iff.mp seen
  simp only [Prod.mk.injEq] at facts
  obtain ⟨before, after, samples, last⟩ := facts
  have qualifies : HeldFor _ _ _ _
      (m.evaluations 0 ++ [evaluation 0 (passAfter 100 false true 12 4) m.controller]) :=
    (eachStep_append each run _ rfl).1.relay 0 before after
  rw [samples, last, List.append_assoc] at qualifies
  refine not_heldFor_of_bad ?_ ?_ qualifies
  · rintro ⟨on, _⟩
    exact Bool.noConfusion on
  · split <;> decide

end OrionBios.PowerControl
