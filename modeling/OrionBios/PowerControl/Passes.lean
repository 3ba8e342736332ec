import OrionBios.PowerControl.Model
import OrionBios.Transition.Runs

/-!
# What one pass does

Closed forms of the parts of `loop`: what happens to one rail, to `outputState` and to
the outputs. Everything later is proved from these equations.
-/

namespace OrionBios.PowerControl

/-! ## The button -/

def pressed (p : Pass) (s : Controller) : Prop :=
  s.button.stableState = true ∧ (pressButton p s).button.stableState = false

instance (p : Pass) (s : Controller) : Decidable (pressed p s) := by
  unfold pressed
  infer_instance

def bounced (p : Pass) (s : Controller) : Controller :=
  { s with
    button :=
      filtered DEBOUNCE_MS p.button (s.millis + p.gaps.button.1 + p.gaps.button.2)
        (sampled p.button (s.millis + p.gaps.button.1) s.button)
    millis := s.millis + p.gaps.button.1 + p.gaps.button.2 }

@[simp] theorem sampled_stableState (raw : Bool) (now : Nat) (f : Filter) :
    (sampled raw now f).stableState = f.stableState := by
  unfold sampled
  split <;> rfl

@[simp] theorem toggle_button (s : Controller) : (toggle s).button = s.button := by
  unfold toggle
  split
  · rfl
  split <;> rfl

theorem pressButton_eq (p : Pass) (s : Controller) :
    pressButton p s =
      if (sampled p.button (s.millis + p.gaps.button.1) s.button).stableState ∧
          ¬ (bounced p s).button.stableState then
        toggle (bounced p s)
      else bounced p s := rfl

@[simp] theorem pressButton_button (p : Pass) (s : Controller) :
    (pressButton p s).button = (bounced p s).button := by
  rw [pressButton_eq]
  split
  · exact toggle_button _
  · rfl

theorem pressButton_of_pressed {p : Pass} {s : Controller} (press : pressed p s) :
    pressButton p s = toggle (bounced p s) := by
  unfold pressed at press
  rw [pressButton_button] at press
  rw [pressButton_eq, sampled_stableState]
  apply if_pos
  rw [Bool.not_eq_true]
  exact press

theorem pressButton_of_not_pressed {p : Pass} {s : Controller} (quiet : ¬ pressed p s) :
    pressButton p s = bounced p s := by
  unfold pressed at quiet
  rw [pressButton_button] at quiet
  rw [pressButton_eq, sampled_stableState]
  apply if_neg
  rw [Bool.not_eq_true]
  exact quiet

/-! ## The rails -/

/-- The clock when rail `i` is evaluated. -/
def evaluatedAt (p : Pass) (i : Fin 3) (millis : Nat) : Nat :=
  match i with
  | 0 => millis + p.gaps.rail 0
  | 1 => millis + p.gaps.rail 0 + p.gaps.rail 1
  | 2 => millis + p.gaps.rail 0 + p.gaps.rail 1 + p.gaps.rail 2

def updatedRail (on : Bool) (nominal v : ℚ) (now : Nat) (r : Rail) : Rail :=
  if on then evaluate nominal v now { r with lastVoltage := v } else { r with lastVoltage := v }

theorem updateRail_eq (i : Fin 3) (v : ℚ) (gap : Nat) (s : Controller) :
    updateRail i v gap s =
      { s with
        rails := Function.update s.rails i
          (updatedRail s.outputState (nominal i) v (s.millis + gap) (s.rails i))
        millis := s.millis + gap } := by
  unfold updateRail updatedRail wait setRail
  cases s.outputState <;> rfl

theorem updateRails_eq (p : Pass) (s : Controller) :
    updateRails p s =
      { s with
        rails := fun i =>
          updatedRail s.outputState (nominal i) (p.voltage i) (evaluatedAt p i s.millis) (s.rails i)
        millis := evaluatedAt p 2 s.millis } := by
  unfold updateRails
  rw [updateRail_eq, updateRail_eq, updateRail_eq]
  congr 1
  funext i
  match i with
  | 0 => rfl
  | 1 => rfl
  | 2 => rfl

/-! ## Requests of the CPU -/

/-- What a request makes of one rail. -/
def Rail.cut (status : RailStatus) (r : Rail) : Rail :=
  if r.failing then
    { r with status := status, relayOn := false, hadFault := true, relayPin := false }
  else r

theorem cutRail_eq (status : RailStatus) (i : Fin 3) (s : Controller) :
    cutRail status i s =
      { s with
        rails := Function.update s.rails i ((s.rails i).cut status)
        outputState := s.outputState ^^ (s.rails i).failing } := by
  unfold cutRail Rail.cut
  cases (s.rails i).failing
  · simp
  · simp [setRail]

theorem cutRails_eq (status : RailStatus) (s : Controller) :
    cutRails status s =
      { s with
        rails := fun i => (s.rails i).cut status
        outputState :=
          s.outputState ^^ (s.rails 0).failing ^^ (s.rails 1).failing ^^ (s.rails 2).failing } := by
  unfold cutRails
  rw [cutRail_eq, cutRail_eq, cutRail_eq]
  congr 1
  funext i
  match i with
  | 0 => rfl
  | 1 => rfl
  | 2 => rfl

theorem Rail.cut_of_not_failing {r : Rail} (works : r.failing = false) (status : RailStatus) :
    r.cut status = r := by
  unfold Rail.cut
  rw [works]
  rfl

theorem Rail.failing_cut (status : RailStatus) (r : Rail) : (r.cut status).failing = false := by
  cases fails : r.failing
  · rw [Rail.cut_of_not_failing fails, fails]
  · rw [Rail.cut, fails]
    rfl

/-- The controller when the handlers of the CPU's requests are called. -/
def beforeCpu (p : Pass) (s : Controller) : Controller := updateRails p (pressButton p s)

/-- Both inputs of the CPU have been read. -/
def cpuRead (p : Pass) (s : Controller) : Controller :=
  readCpuPowerDownFiltered p.powerDown p.gaps.powerDown
    (readCpuFeedbackFiltered p.feedback p.gaps.feedback s)

/-- A request is active: the filtered level is LOW. -/
def feedbackActive (p : Pass) (s : Controller) : Bool := !(cpuRead p s).cpuFb.stableState

def powerDownActive (p : Pass) (s : Controller) : Bool := !(cpuRead p s).cpuPD.stableState

def cutRequested (p : Pass) (s : Controller) : Bool := feedbackActive p s || powerDownActive p s

/-- What the two handlers make of a rail. -/
def answered (p : Pass) (s : Controller) (r : Rail) : Rail :=
  let r := if feedbackActive p s then r.cut .PWRFAIL else r
  if powerDownActive p s then r.cut .PWRDOWN else r

/-- Rail `i` loses its relay to a request. -/
def opens (p : Pass) (s : Controller) (i : Fin 3) : Bool :=
  cutRequested p s && (s.rails i).failing

/-- A handler once the level is known. -/
def answer (active : Bool) (status : RailStatus) (s : Controller) : Controller :=
  { s with
    rails := fun i => if active then (s.rails i).cut status else s.rails i
    outputState :=
      s.outputState ^^ (active && (s.rails 0).failing) ^^ (active && (s.rails 1).failing) ^^
        (active && (s.rails 2).failing) }

theorem handler_eq_answer (level : Bool) (status : RailStatus) (s : Controller) :
    (if level then s else cutRails status s) = answer (!level) status s := by
  cases level
  · exact cutRails_eq status s
  · simp [answer]

theorem failing_ite_cut (active : Bool) (status : RailStatus) (r : Rail) :
    (if active then r.cut status else r).failing = (!active && r.failing) := by
  cases active
  · rfl
  · exact Rail.failing_cut status r

theorem answer_answer (first second : Bool) (status status' : RailStatus) (s : Controller) :
    (answer second status' (answer first status s)).outputState =
      (s.outputState ^^ ((first || second) && (s.rails 0).failing) ^^
        ((first || second) && (s.rails 1).failing) ^^
          ((first || second) && (s.rails 2).failing)) := by
  simp only [answer, failing_ite_cut]
  generalize (s.rails 0).failing = fails0
  generalize (s.rails 1).failing = fails1
  generalize (s.rails 2).failing = fails2
  generalize s.outputState = on
  revert first second fails0 fails1 fails2 on
  decide

theorem handleCpu_eq (p : Pass) (s : Controller) :
    handleCpu p s =
      { cpuRead p s with
        rails := fun i => answered p s (s.rails i)
        outputState := s.outputState ^^ opens p s 0 ^^ opens p s 1 ^^ opens p s 2 } := by
  have feedback : handleCpuFeedback p.feedback p.gaps.feedback s =
      answer (feedbackActive p s) .PWRFAIL
        (readCpuFeedbackFiltered p.feedback p.gaps.feedback s) :=
    handler_eq_answer _ .PWRFAIL _
  have both : handleCpu p s =
      answer (powerDownActive p s) .PWRDOWN (answer (feedbackActive p s) .PWRFAIL (cpuRead p s)) := by
    unfold handleCpu
    rw [feedback]
    exact handler_eq_answer _ .PWRDOWN _
  rw [both]
  have outputState := answer_answer (feedbackActive p s) (powerDownActive p s) .PWRFAIL .PWRDOWN
    (cpuRead p s)
  show Controller.mk .. = Controller.mk ..
  congr 1

/-! ## The whole pass -/

theorem updateLcd_frame (raw : Bool) (gap : Nat) (gaps : Nat × Nat) (s : Controller) :
    ∃ cpuFb lastLcdUpdate millis, updateLcd raw gap gaps s =
      { s with cpuFb := cpuFb, lastLcdUpdate := lastLcdUpdate, millis := millis } := by
  by_cases due : LCD_UPDATE_MS ≤ s.millis + gap - s.lastLcdUpdate
  · exact ⟨_, _, _, if_pos due⟩
  · exact ⟨_, _, _, if_neg due⟩

theorem loop_frame (p : Pass) (s : Controller) :
    (loop p s).rails = (handleCpu p (beforeCpu p s)).rails ∧
      (loop p s).outputState = (handleCpu p (beforeCpu p s)).outputState ∧
      (loop p s).mainsPin = (handleCpu p (beforeCpu p s)).mainsPin ∧
      (loop p s).button = (handleCpu p (beforeCpu p s)).button := by
  obtain ⟨cpuFb, lastLcdUpdate, millis, display⟩ :=
    updateLcd_frame p.lcdFeedback p.gaps.lcd p.gaps.lcdFeedback
      (updateAnyRelayIndicator (handleCpu p (beforeCpu p s)))
  have pass : loop p s = _ := display
  rw [pass]
  exact ⟨rfl, rfl, rfl, rfl⟩

theorem loop_rails (p : Pass) (s : Controller) (i : Fin 3) :
    (loop p s).rails i = answered p (beforeCpu p s) ((beforeCpu p s).rails i) := by
  rw [(loop_frame p s).1, handleCpu_eq]

theorem loop_outputState (p : Pass) (s : Controller) :
    (loop p s).outputState =
      ((beforeCpu p s).outputState ^^ opens p (beforeCpu p s) 0 ^^ opens p (beforeCpu p s) 1 ^^
        opens p (beforeCpu p s) 2) := by
  rw [(loop_frame p s).2.1, handleCpu_eq]

theorem loop_mainsPin (p : Pass) (s : Controller) :
    (loop p s).mainsPin = (pressButton p s).mainsPin := by
  rw [(loop_frame p s).2.2.1, handleCpu_eq, beforeCpu, updateRails_eq]
  rfl

theorem loop_button (p : Pass) (s : Controller) : (loop p s).button = (bounced p s).button := by
  rw [(loop_frame p s).2.2.2, handleCpu_eq, beforeCpu, updateRails_eq, ← pressButton_button]
  rfl

theorem beforeCpu_rails (p : Pass) (s : Controller) (i : Fin 3) :
    (beforeCpu p s).rails i =
      updatedRail (pressButton p s).outputState (nominal i) (p.voltage i)
        (evaluatedAt p i (pressButton p s).millis) ((pressButton p s).rails i) := by
  rw [beforeCpu, updateRails_eq]

theorem beforeCpu_outputState (p : Pass) (s : Controller) :
    (beforeCpu p s).outputState = (pressButton p s).outputState := by
  rw [beforeCpu, updateRails_eq]

/-- The steps of a run are the passes of `loop`. -/
def loopStep (s : Controller) (p : Pass) : Option Controller := some (loop p s)

end OrionBios.PowerControl
