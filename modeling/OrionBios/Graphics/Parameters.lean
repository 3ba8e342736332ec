import OrionBios.Graphics.Bus

/-!
# The parameters of the drawing commands

Each parameter is made of two bytes with a register each. The handler takes the other half of some
parameters from the cursor position.
-/

namespace OrionBios.Graphics

variable {s : Registers} {data : Byte} {word : Word}

/-! ## Halves of a word -/

def upper (word : Word) : Byte := word.extractLsb' 8 8

def lower (word : Word) : Byte := word.extractLsb' 0 8

theorem toNat_halves (word : Word) : word.toNat = 256 * (upper word).toNat + (lower word).toNat := by
  have bound := word.isLt
  unfold upper lower
  rw [BitVec.extractLsb'_toNat, BitVec.extractLsb'_toNat, Nat.shiftRight_eq_div_pow,
    Nat.shiftRight_zero]
  omega

theorem toNat_eq_halves {h l : Byte} :
    word.toNat = 256 * h.toNat + l.toNat ↔ upper word = h ∧ lower word = l := by
  have highBound := h.isLt
  have lowBound := l.isLt
  have lowerBound := (lower word).isLt
  rw [toNat_halves, ← BitVec.toNat_inj, ← BitVec.toNat_inj]
  omega

theorem lowMask : ∀ i (inside : i < 16), (0x00FF#16)[i] = decide (i < 8) := by decide

theorem highMask : ∀ i (inside : i < 16), (0xFF00#16)[i] = decide (8 ≤ i) := by decide

@[simp] theorem upper_highOver (data : Byte) (word : Word) : upper (highOver data word) = data := by
  apply BitVec.eq_of_getLsbD_eq
  intro i inside
  have width : 8 + i < 16 := by omega
  have high : ¬ 8 + i < 8 := by omega
  simp [upper, highOver, inside, width, high, lowMask]

@[simp] theorem lower_highOver (data : Byte) (word : Word) :
    lower (highOver data word) = lower word := by
  apply BitVec.eq_of_getLsbD_eq
  intro i inside
  have width : i < 16 := by omega
  simp [lower, highOver, inside, width, lowMask]

@[simp] theorem upper_lowUnder (word : Word) (data : Byte) :
    upper (lowUnder word data) = upper word := by
  apply BitVec.eq_of_getLsbD_eq
  intro i inside
  have width : 8 + i < 16 := by omega
  simp [upper, lowUnder, inside, width, highMask]

@[simp] theorem lower_lowUnder (word : Word) (data : Byte) : lower (lowUnder word data) = data := by
  apply BitVec.eq_of_getLsbD_eq
  intro i inside
  have width : i < 16 := by omega
  have low : ¬ 8 ≤ i := by omega
  simp [lower, lowUnder, inside, width, low, highMask]

/-! ## Parameters -/

inductive Parameter where
  | X | Y | X1 | Y1 | WIDTH | HEIGHT
  deriving DecidableEq

namespace Parameter

def highRegister : Parameter → Register
  | X => .D_REG_X_HIGH
  | Y => .D_REG_Y_HIGH
  | X1 => .D_REG_X1_HIGH
  | Y1 => .D_REG_Y1_HIGH
  | WIDTH => .D_REG_WIDTH_HIGH
  | HEIGHT => .D_REG_HEIGHT_HIGH

def lowRegister : Parameter → Register
  | X => .D_REG_X_LOW
  | Y => .D_REG_Y_LOW
  | X1 => .D_REG_X1_LOW
  | Y1 => .D_REG_Y1_LOW
  | WIDTH => .D_REG_WIDTH_LOW
  | HEIGHT => .D_REG_HEIGHT_LOW

/-- The parameter whose lower half the handler keeps when the upper half is written. -/
def lowerFrom : Parameter → Parameter
  | X | X1 | WIDTH | HEIGHT => X
  | Y | Y1 => Y

/-- The parameter whose upper half the handler keeps when the lower half is written. -/
def upperFrom : Parameter → Parameter
  | X | X1 => X
  | Y | Y1 => Y
  | WIDTH => WIDTH
  | HEIGHT => HEIGHT

def zeroedByHome : Parameter → Bool
  | X | Y => true
  | _ => false

end Parameter

def Registers.value (s : Registers) : Parameter → Word
  | .X => s.cursorX
  | .Y => s.cursorY
  | .X1 => s.cursorX1
  | .Y1 => s.cursorY1
  | .WIDTH => s.primitiveWidth
  | .HEIGHT => s.primitiveHeight

/-! ## Writes -/

/-- A write of the processor to a register of the controller. -/
structure Write where
  reg : BitVec 6
  data : Byte

def Write.packet (w : Write) : Packet := ⟨0, w.reg, w.data⟩

/-- The registers after some writes, the last first. -/
def after : List Write → Registers
  | [] => .start
  | w :: earlier => (gerenciar (after earlier) w.packet).1

def Write.homes (w : Write) : Bool :=
  registerOf w.reg == some .D_RUN_CMD &&
    (commandOf w.data == some .CMD_CLEAR_SCREEN || commandOf w.data == some .CMD_GO_HOME)

theorem value_write (s : Registers) (w : Write) (p : Parameter) :
    (gerenciar s w.packet).1.value p =
      if registerOf w.reg = some p.highRegister then highOver w.data (s.value p.lowerFrom)
      else if registerOf w.reg = some p.lowRegister then lowUnder (s.value p.upperFrom) w.data
      else if w.homes && p.zeroedByHome then 0
      else s.value p := by
  unfold gerenciar Write.homes Write.packet
  cases registerOf w.reg with
  | none => rfl
  | some register =>
    cases register with
    | D_RUN_CMD =>
      simp only [writeRegister]
      cases commandOf w.data with
      | none => cases p <;> rfl
      | some command => cases command <;> cases p <;> rfl
    | _ => cases p <;> rfl

/-! ## The law of a parameter -/

/-- The last byte that was written to a half of a parameter, 0 if none was or a home command came
after it; the last write first. -/
def lastByte (p : Parameter) (half : Register) : List Write → Byte
  | [] => 0
  | w :: earlier =>
    if registerOf w.reg = some half then w.data
    else if w.homes && p.zeroedByHome then 0
    else lastByte p half earlier

def lastHigh (p : Parameter) : List Write → Byte := lastByte p p.highRegister

def lastLow (p : Parameter) : List Write → Byte := lastByte p p.lowRegister

/-- A parameter has the value that the bytes of its own registers say. -/
def Follows (writes : List Write) (p : Parameter) : Prop :=
  ((after writes).value p).toNat =
    256 * (lastHigh p writes).toNat + (lastLow p writes).toNat

/-- The other half that the handler kept at the last write was the parameter's own. -/
def Coherent : List Write → Parameter → Prop
  | [], _ => True
  | w :: earlier, p =>
    if registerOf w.reg = some p.highRegister then lastLow p.lowerFrom earlier = lastLow p earlier
    else if registerOf w.reg = some p.lowRegister then
      lastHigh p.upperFrom earlier = lastHigh p earlier
    else (w.homes && p.zeroedByHome) = true ∨ Coherent earlier p

variable {p : Parameter} {w : Write} {earlier : List Write}

theorem highRegister_ne_lowRegister (p q : Parameter) : p.highRegister ≠ q.lowRegister := by
  cases p <;> cases q <;> decide

theorem lastHigh_cons :
    lastHigh p (w :: earlier) =
      if registerOf w.reg = some p.highRegister then w.data
      else if w.homes && p.zeroedByHome then 0
      else lastHigh p earlier := rfl

theorem lastLow_cons :
    lastLow p (w :: earlier) =
      if registerOf w.reg = some p.lowRegister then w.data
      else if w.homes && p.zeroedByHome then 0
      else lastLow p earlier := rfl

theorem homes_of_high (high : registerOf w.reg = some p.highRegister) : w.homes = false := by
  unfold Write.homes
  rw [high]
  cases p <;> rfl

theorem homes_of_low (low : registerOf w.reg = some p.lowRegister) : w.homes = false := by
  unfold Write.homes
  rw [low]
  cases p <;> rfl

theorem upper_value (own : p.upperFrom = p) (writes : List Write) :
    upper ((after writes).value p) = lastHigh p writes := by
  induction writes with
  | nil => cases p <;> decide
  | cons w earlier inductionHypothesis =>
    show upper ((gerenciar (after earlier) w.packet).1.value p) = _
    rw [value_write, lastHigh_cons, own]
    by_cases high : registerOf w.reg = some p.highRegister
    · rw [if_pos high, if_pos high, upper_highOver]
    · rw [if_neg high, if_neg high]
      by_cases low : registerOf w.reg = some p.lowRegister
      · rw [if_pos low, upper_lowUnder, homes_of_low low]
        exact inductionHypothesis
      · rw [if_neg low]
        cases w.homes && p.zeroedByHome with
        | true =>
          rw [if_pos rfl, if_pos rfl]
          decide
        | false => exact inductionHypothesis

theorem lower_value (own : p.lowerFrom = p) (writes : List Write) :
    lower ((after writes).value p) = lastLow p writes := by
  induction writes with
  | nil => cases p <;> decide
  | cons w earlier inductionHypothesis =>
    show lower ((gerenciar (after earlier) w.packet).1.value p) = _
    rw [value_write, lastLow_cons, own]
    by_cases high : registerOf w.reg = some p.highRegister
    · have other : ¬ registerOf w.reg = some p.lowRegister := fun low =>
        highRegister_ne_lowRegister p p (Option.some.inj (high.symm.trans low))
      rw [if_pos high, if_neg other, lower_highOver, homes_of_high high]
      exact inductionHypothesis
    · rw [if_neg high]
      by_cases low : registerOf w.reg = some p.lowRegister
      · rw [if_pos low, if_pos low, lower_lowUnder]
      · rw [if_neg low, if_neg low]
        cases w.homes && p.zeroedByHome with
        | true => rfl
        | false => exact inductionHypothesis

theorem lowerFrom_own (p : Parameter) : p.lowerFrom.lowerFrom = p.lowerFrom := by
  cases p <;> rfl

theorem upperFrom_own (p : Parameter) : p.upperFrom.upperFrom = p.upperFrom := by
  cases p <;> rfl

theorem follows_iff_halves {writes : List Write} :
    Follows writes p ↔
      upper ((after writes).value p) = lastHigh p writes ∧
        lower ((after writes).value p) = lastLow p writes := toNat_eq_halves

/-- A parameter has its own value exactly when the handler kept its own other half. -/
theorem follows_iff (writes : List Write) (p : Parameter) :
    Follows writes p ↔ Coherent writes p := by
  rw [follows_iff_halves]
  induction writes with
  | nil =>
    refine ⟨fun _ => trivial, fun _ => ?_⟩
    cases p <;> decide
  | cons w earlier inductionHypothesis =>
    unfold Coherent
    show upper ((gerenciar (after earlier) w.packet).1.value p) = _ ∧
      lower ((gerenciar (after earlier) w.packet).1.value p) = _ ↔ _
    rw [value_write, lastHigh_cons, lastLow_cons]
    by_cases high : registerOf w.reg = some p.highRegister
    · have other : ¬ registerOf w.reg = some p.lowRegister := fun low =>
        highRegister_ne_lowRegister p p (Option.some.inj (high.symm.trans low))
      rw [if_pos high, if_pos high, if_pos high, if_neg other, upper_highOver, lower_highOver,
        homes_of_high high, lower_value (lowerFrom_own p)]
      exact and_iff_right rfl
    · rw [if_neg high, if_neg high, if_neg high]
      by_cases low : registerOf w.reg = some p.lowRegister
      · rw [if_pos low, if_pos low, if_pos low, upper_lowUnder, lower_lowUnder, homes_of_low low,
          upper_value (upperFrom_own p)]
        exact and_iff_left rfl
      · rw [if_neg low, if_neg low, if_neg low]
        cases w.homes && p.zeroedByHome with
        | true =>
          rw [if_pos rfl, if_pos rfl, if_pos rfl]
          exact ⟨fun _ => .inl rfl, fun _ => ⟨by decide, by decide⟩⟩
        | false =>
          refine inductionHypothesis.trans ⟨.inr, fun coherent => ?_⟩
          exact coherent.resolve_left Bool.false_ne_true

/-! ## Drawing commands -/

def Command.draws : Command → Bool
  | .CMD_CLEAR_SCREEN | .CMD_SET_CUR_POS | .CMD_GO_HOME => false
  | _ => true

def Write.draws (w : Write) : Bool :=
  registerOf w.reg == some .D_RUN_CMD && (commandOf w.data).any Command.draws

/-- A property of the writes before each of the drawing commands, the last write first. -/
def AtDrawings (property : List Write → Prop) (writes : List Write) : Prop :=
  ∀ earlier command later, writes = earlier ++ command :: later → command.draws = true →
    property earlier.reverse

/-- At each drawing command of a run all the parameters have their own values exactly when each of
them kept its own other half. -/
theorem parameters_follow (writes : List Write) :
    AtDrawings (fun earlier => ∀ p, Follows earlier p) writes ↔
      AtDrawings (fun earlier => ∀ p, Coherent earlier p) writes := by
  constructor
  · intro follows earlier command later split draws p
    exact (follows_iff _ p).mp (follows earlier command later split draws p)
  · intro coherent earlier command later split draws p
    exact (follows_iff _ p).mpr (coherent earlier command later split draws p)

/-- A line of 0x140 pixels at X = 5: the upper half of the width is written last. -/
def widthLast : List Write := [⟨0x17, 0x05⟩, ⟨0x10, 0x40⟩, ⟨0x0F, 0x01⟩, ⟨0x1E, 0xBD⟩]

/-- The line is drawn with 0x105 pixels. -/
theorem width_takes_cursor : ¬ AtDrawings (fun earlier => ∀ p, Follows earlier p) widthLast := by
  intro follows
  have width := follows (widthLast.take 3) ⟨0x1E, 0xBD⟩ [] rfl rfl .WIDTH
  exact absurd width (by unfold Follows; decide)

end OrionBios.Graphics
