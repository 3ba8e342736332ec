import Mathlib.Algebra.GroupWithZero.Nat
import Mathlib.Data.Rat.Defs
import Mathlib.Data.Fintype.Basic
import Mathlib.Logic.Function.Basic

/-!
# The power controller

One pass of `loop` is one step. A pass sees the levels of its input pins, the voltages
of the rails, and how much time goes by before each reading of `millis`; the clock is
not bounded, and voltages are exact rationals. Levels are Booleans with `true` for HIGH.
-/

namespace OrionBios.PowerControl

def PCT_ON : ℚ := 95 / 100
def PCT_OFF : ℚ := 90 / 100

def QUALIFY_MS : Nat := 100
def RECOVERY_HOLD_MS : Nat := 10000
def DEBOUNCE_MS : Nat := 100
def CPU_FEEDBACK_DEBOUNCE_MS : Nat := 30
def CPU_POWERDOWN_DEBOUNCE_MS : Nat := 30
def LCD_UPDATE_MS : Nat := 500

scoped instance railsNonzero : NeZero 3 := ⟨by decide⟩

/-- The rails of 12 V, 5 V and -5 V; the last one is measured by its magnitude. -/
def nominal : Fin 3 → ℚ
  | 0 => 12
  | 1 => 5
  | 2 => 5

inductive RailStatus where
  | PWRUP | PWRFAIL | PWRDOWN
  deriving DecidableEq, Repr

structure Rail where
  relayOn : Bool
  pwrgOn : Bool
  pendingOn : Bool
  pendingOff : Bool
  /-- When `pendingOn` or `pendingOff` was set. -/
  pendingSince : Nat
  pendingRecover : Bool
  pendingRecoverSince : Nat
  /-- The relay was opened in operation. -/
  hadFault : Bool
  lastVoltage : ℚ
  status : RailStatus
  /-- The two output pins. -/
  relayPin : Bool
  pwrgPin : Bool
  deriving DecidableEq

/-- A filtered input pin: the level taken as real, the last raw level and when it changed. -/
structure Filter where
  stableState : Bool
  lastRaw : Bool
  lastChangeTime : Nat
  deriving DecidableEq, Repr

structure Controller where
  rails : Fin 3 → Rail
  /-- The system is commanded on. -/
  outputState : Bool
  button : Filter
  cpuFb : Filter
  cpuPD : Filter
  /-- `PIN_RELAY_POWER_ON`, the relay of the mains. -/
  mainsPin : Bool
  anyRelayPin : Bool
  lastLcdUpdate : Nat
  millis : Nat

/-- The time that goes by before each reading of `millis` in a pass. -/
structure Gaps where
  button : Nat × Nat
  rail : Fin 3 → Nat
  feedback : Nat × Nat
  powerDown : Nat × Nat
  lcd : Nat
  lcdFeedback : Nat × Nat
  deriving DecidableEq

/-- What one pass of `loop` sees of the world. -/
structure Pass where
  button : Bool
  voltage : Fin 3 → ℚ
  feedback : Bool
  powerDown : Bool
  /-- The level of `PIN_CPU_FEEDBACK` when the display is written. -/
  lcdFeedback : Bool
  gaps : Gaps
  deriving DecidableEq

def wait (gap : Nat) (s : Controller) : Controller := { s with millis := s.millis + gap }

def setRail (i : Fin 3) (r : Rail) (s : Controller) : Controller :=
  { s with rails := Function.update s.rails i r }

/-! ## Filtered inputs -/

/-- The first reading of a level: a change restarts the time. -/
def sampled (raw : Bool) (now : Nat) (f : Filter) : Filter :=
  if raw = f.lastRaw then f else { f with lastChangeTime := now, lastRaw := raw }

/-- The second reading: a level that has lasted is taken as real. -/
def filtered (debounceMs : Nat) (raw : Bool) (now : Nat) (f : Filter) : Filter :=
  if debounceMs ≤ now - f.lastChangeTime then { f with stableState := raw } else f

def readCpuFeedbackFiltered (raw : Bool) (gaps : Nat × Nat) (s : Controller) : Controller :=
  let s := wait gaps.1 s
  let s := { s with cpuFb := sampled raw s.millis s.cpuFb }
  let s := wait gaps.2 s
  { s with cpuFb := filtered CPU_FEEDBACK_DEBOUNCE_MS raw s.millis s.cpuFb }

def readCpuPowerDownFiltered (raw : Bool) (gaps : Nat × Nat) (s : Controller) : Controller :=
  let s := wait gaps.1 s
  let s := { s with cpuPD := sampled raw s.millis s.cpuPD }
  let s := wait gaps.2 s
  { s with cpuPD := filtered CPU_POWERDOWN_DEBOUNCE_MS raw s.millis s.cpuPD }

/-! ## The button -/

def resetRailInternalState (r : Rail) : Rail :=
  { r with
    relayOn := false
    pwrgOn := false
    pendingOn := false
    pendingOff := false
    pendingRecover := false
    hadFault := false
    status := .PWRDOWN
    relayPin := false
    pwrgPin := false }

def toggle (s : Controller) : Controller :=
  if s.outputState then
    { s with
      outputState := false
      rails := fun i => resetRailInternalState (s.rails i)
      mainsPin := false }
  else if (s.rails 1).status = .PWRDOWN then
    setRail 1 { s.rails 1 with status := .PWRUP } { s with outputState := true, mainsPin := true }
  else { s with outputState := true }

def dbounce (raw : Bool) (gaps : Nat × Nat) (s : Controller) : Controller :=
  let s := wait gaps.1 s
  let s := { s with button := sampled raw s.millis s.button }
  let s := wait gaps.2 s
  let t := { s with button := filtered DEBOUNCE_MS raw s.millis s.button }
  if s.button.stableState ∧ ¬ t.button.stableState then toggle t else t

/-! ## The rails -/

def Rail.requiredHold (r : Rail) : Nat := if r.hadFault then RECOVERY_HOLD_MS else QUALIFY_MS

/-- The relay is closed when the voltage has stayed at 95 % for the hold time. -/
def switchOn (frac : ℚ) (now : Nat) (r : Rail) : Rail :=
  if r.relayOn then r
  else if PCT_ON ≤ frac then
    if ¬ r.pendingOn then { r with pendingOn := true, pendingSince := now }
    else if r.requiredHold ≤ now - r.pendingSince then
      { r with
        relayOn := true
        pwrgOn := true
        relayPin := true
        pwrgPin := true
        pendingOn := false
        hadFault := false }
    else r
  else { r with pendingOn := false }

/-- PWRG drops below 90 %; the relay stays closed. -/
def dropPwrg (frac : ℚ) (now : Nat) (r : Rail) : Rail :=
  if r.relayOn ∧ r.pwrgOn then
    if frac < PCT_OFF then
      if ¬ r.pendingOff then { r with pendingOff := true, pendingSince := now }
      else if QUALIFY_MS ≤ now - r.pendingSince then
        { r with pwrgOn := false, pwrgPin := false, pendingOff := false }
      else r
    else { r with pendingOff := false }
  else r

/-- PWRG comes back after the hold-off. -/
def recoverPwrg (frac : ℚ) (now : Nat) (r : Rail) : Rail :=
  if r.relayOn ∧ ¬ r.pwrgOn then
    if PCT_ON ≤ frac then
      if ¬ r.pendingRecover then { r with pendingRecover := true, pendingRecoverSince := now }
      else if RECOVERY_HOLD_MS ≤ now - r.pendingRecoverSince then
        { r with pwrgOn := true, pwrgPin := true, pendingRecover := false }
      else r
    else { r with pendingRecover := false }
  else r

def rateStatus (nominal : ℚ) (r : Rail) : Rail :=
  if r.lastVoltage < 1 then { r with status := .PWRDOWN }
  else if 1 < r.lastVoltage ∧ r.lastVoltage < nominal * 90 / 100 then { r with status := .PWRFAIL }
  else if nominal * 90 / 100 < r.lastVoltage then { r with status := .PWRUP }
  else r

/-- What `updateRail` does of a rail while the system is on. -/
def evaluate (nominal v : ℚ) (now : Nat) (r : Rail) : Rail :=
  let frac := if nominal = 0 then 0 else v / nominal
  rateStatus nominal (recoverPwrg frac now (dropPwrg frac now (switchOn frac now r)))

def updateRail (i : Fin 3) (v : ℚ) (gap : Nat) (s : Controller) : Controller :=
  let s := wait gap s
  let r := { s.rails i with lastVoltage := v }
  if s.outputState then setRail i (evaluate (nominal i) v s.millis r) s else setRail i r s

/-! ## Requests of the CPU -/

def Rail.failing (r : Rail) : Bool := r.relayOn && !r.pwrgOn

/-- The body of the loop over the rails in both handlers. -/
def cutRail (status : RailStatus) (i : Fin 3) (s : Controller) : Controller :=
  if (s.rails i).failing then
    setRail i { s.rails i with status := status, relayOn := false, hadFault := true, relayPin := false }
      { s with outputState := !s.outputState }
  else s

def cutRails (status : RailStatus) (s : Controller) : Controller :=
  cutRail status 2 (cutRail status 1 (cutRail status 0 s))

def handleCpuFeedback (raw : Bool) (gaps : Nat × Nat) (s : Controller) : Controller :=
  let s := readCpuFeedbackFiltered raw gaps s
  if s.cpuFb.stableState then s else cutRails .PWRFAIL s

def handleCpuPowerDown (raw : Bool) (gaps : Nat × Nat) (s : Controller) : Controller :=
  let s := readCpuPowerDownFiltered raw gaps s
  if s.cpuPD.stableState then s else cutRails .PWRDOWN s

/-! ## One pass -/

def updateAnyRelayIndicator (s : Controller) : Controller :=
  { s with anyRelayPin := (s.rails 0).relayOn || (s.rails 1).relayOn || (s.rails 2).relayOn }

/-- The display reads the filtered feedback once more. -/
def updateLcd (raw : Bool) (gap : Nat) (gaps : Nat × Nat) (s : Controller) : Controller :=
  let s := wait gap s
  if LCD_UPDATE_MS ≤ s.millis - s.lastLcdUpdate then
    readCpuFeedbackFiltered raw gaps { s with lastLcdUpdate := s.millis }
  else s

def pressButton (p : Pass) (s : Controller) : Controller := dbounce p.button p.gaps.button s

def updateRails (p : Pass) (s : Controller) : Controller :=
  updateRail 2 (p.voltage 2) (p.gaps.rail 2)
    (updateRail 1 (p.voltage 1) (p.gaps.rail 1) (updateRail 0 (p.voltage 0) (p.gaps.rail 0) s))

def handleCpu (p : Pass) (s : Controller) : Controller :=
  handleCpuPowerDown p.powerDown p.gaps.powerDown (handleCpuFeedback p.feedback p.gaps.feedback s)

def loop (p : Pass) (s : Controller) : Controller :=
  updateLcd p.lcdFeedback p.gaps.lcd p.gaps.lcdFeedback
    (updateAnyRelayIndicator (handleCpu p (updateRails p (pressButton p s))))

def offRail : Rail where
  relayOn := false
  pwrgOn := false
  pendingOn := false
  pendingOff := false
  pendingSince := 0
  pendingRecover := false
  pendingRecoverSince := 0
  hadFault := false
  lastVoltage := 0
  status := .PWRDOWN
  relayPin := false
  pwrgPin := false

def releasedPin : Filter where
  stableState := true
  lastRaw := true
  lastChangeTime := 0

/-- The controller after `setup`. -/
def initialController : Controller where
  rails := fun _ => offRail
  outputState := false
  button := releasedPin
  cpuFb := releasedPin
  cpuPD := releasedPin
  mainsPin := false
  anyRelayPin := false
  lastLcdUpdate := 0
  millis := 0

end OrionBios.PowerControl
