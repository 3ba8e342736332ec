import OrionBios.Machine.DataRegisters

/-!
# The division runtime

`__divsi3`, `__modsi3`, `__udivsi3` and `__umodsi3`: the same two texts for signed and unsigned
numbers, with a divisor of 16 bits. The compiler chooses the registers of the three operands; they
are not among those that the text changes, but the result may share one with an input.
-/

namespace OrionBios.Libc.Division

open Machine.DataRegisters

/-! ## The text -/

/-- The registers `%0`, `%1` and `%2`. -/
structure Operands (clobbered : List Register) where
  c : Register
  a : Register
  b : Register
  apart : ∀ register ∈ [c, a, b], register ∉ clobbered

abbrev d0 : Register := 0
abbrev d1 : Register := 1
abbrev d2 : Register := 2
abbrev d3 : Register := 3

def quotientText (a b c : Register) : List Instruction :=
  [ .clrL d0, .clrL d1,
    .moveW a d0,  -- low a
    .moveW b d1,  -- low b
    .moveL a d2, .clrW d2, .swap d2,  -- high a
    .divu d1 d2,
    .moveW d2 d3, .swap d3, .clrW d3,  -- high result
    .clrW d2,  -- remainder << 16
    .addL d2 d0,  -- (remainder << 16) + low a
    .divu d1 d0,
    .swap d0, .clrW d0, .swap d0,  -- throw away the remainder
    .addL d3 d0, .moveL d0 c ]

def remainderText (a b c : Register) : List Instruction :=
  [ .clrL d0, .clrL d1, .moveW a d0, .moveW b d1, .moveL a d2, .clrW d2, .swap d2,
    .divu d1 d2,
    .clrW d2, .addL d2 d0,
    .divu d1 d0,
    .clrW d0, .swap d0, .moveW d0 c ]

/-- What the function returns: the register `%0` behind the text. -/
def returned {clobbered : List Register} (text : Register → Register → Register → List Instruction)
    (operands : Operands clobbered) (registers : Registers) : Option Long :=
  (run (text operands.a operands.b operands.c) registers).map fun after => after operands.c

def divsi3 (operands : Operands [d0, d1, d2, d3]) (registers : Registers) : Option Long :=
  returned quotientText operands registers

def modsi3 (operands : Operands [d0, d1, d2]) (registers : Registers) : Option Long :=
  returned remainderText operands registers

def udivsi3 (operands : Operands [d0, d1, d2, d3]) (registers : Registers) : Option Long :=
  returned quotientText operands registers

def umodsi3 (operands : Operands [d0, d1, d2]) (registers : Registers) : Option Long :=
  returned remainderText operands registers

/-! ## The pieces of the text -/

section Text

variable {registers : Registers} {a b c : Register}

/-- The low half in `d0`, the divisor in `d1` and the high half in `d2`. -/
def spread (a b : Register) : List Instruction :=
  [.clrL d0, .clrL d1, .moveW a d0, .moveW b d1, .moveL a d2, .clrW d2, .swap d2]

def divideLow : List Instruction := [.clrW d2, .addL d2 d0, .divu d1 d0]

/-- Registers that hold what the two divisions need. -/
structure Spread (dividend : Long) (divisor : Half) (before after : Registers) : Prop where
  d0 : after d0 = (0 : Half) ++ low dividend
  d1 : after d1 = (0 : Half) ++ divisor
  d2 : after d2 = (0 : Half) ++ high dividend
  others : ∀ register ∉ [Division.d0, Division.d1, Division.d2], after register = before register

theorem high_zero : high 0#32 = 0#16 := rfl

theorem apart_spread {register : Register} (apart : register ∉ [d0, d1, d2]) :
    register ≠ 0 ∧ register ≠ 1 ∧ register ≠ 2 := by
  simpa only [List.mem_cons, List.not_mem_nil, or_false, not_or] using apart

theorem run_spread (apartA : a ∉ [d0, d1, d2]) (apartB : b ∉ [d0, d1, d2]) :
    ∃ after, run (spread a b) registers = some after ∧
      Spread (registers a) (low (registers b)) registers after := by
  obtain ⟨a0, a1, a2⟩ := apart_spread apartA
  obtain ⟨b0, b1, b2⟩ := apart_spread apartB
  refine ⟨_, rfl, ?_, ?_, ?_, fun register apart => ?_⟩
  · simp [d0, d1, d2, Function.update_apply, a0, a1, high_zero]
  · simp [d0, d1, d2, Function.update_apply, b0, b1, high_zero]
  · simp [d0, d1, d2, Function.update_apply, a0, a1]
  · obtain ⟨r0, r1, r2⟩ := apart_spread apart
    simp [Function.update_apply, r0, r1, r2]

/-- The first division: the remainder above the quotient. -/
theorem run_divideHigh {before after : Registers} {dividend : Long} {divisor : Half}
    (spread : Spread dividend divisor before after) (nonzero : divisor ≠ 0) :
    run [.divu d1 d2] after = some (Function.update after d2
      (BitVec.ofNat 16 ((high dividend).toNat % divisor.toNat) ++
        BitVec.ofNat 16 ((high dividend).toNat / divisor.toNat))) := by
  have positive : 0 < divisor.toNat := Nat.pos_of_ne_zero fun zero =>
    nonzero (BitVec.eq_of_toNat_eq zero)
  have number : ((0 : Half) ++ high dividend : Long).toNat = (high dividend).toNat := by
    rw [toNat_append]
    exact Nat.zero_add _
  have fits : (high dividend).toNat < divisor.toNat * 0x10000 :=
    Nat.lt_of_lt_of_le (high dividend).isLt (Nat.le_mul_of_pos_left _ positive)
  rw [run, exec, spread.d1, spread.d2, low_append, divide_fits nonzero (number ▸ fits), number]
  rfl

theorem run_divideHigh_zero {before after : Registers} {dividend : Long}
    (spread : Spread dividend 0 before after) : run [.divu d1 d2] after = none := by
  rw [run, exec, spread.d1, low_append, divide_zero]
  rfl

/-- The second division begins with what the first has left, and the quotient fits. -/
theorem run_divideLow {before : Registers} {remainder lower divisor : Half}
    (isLower : before d0 = (0 : Half) ++ lower) (isDivisor : before d1 = (0 : Half) ++ divisor)
    (isRemainder : high (before d2) = remainder) (less : remainder < divisor) :
    run divideLow before =
      some (Function.update (Function.update before d2 (remainder ++ (0 : Half))) d0
        (BitVec.ofNat 16 ((remainder.toNat * 0x10000 + lower.toNat) % divisor.toNat) ++
          BitVec.ofNat 16 ((remainder.toNat * 0x10000 + lower.toNat) / divisor.toNat))) := by
  have lowerLess := lower.isLt
  rw [BitVec.lt_def] at less
  have nonzero : divisor ≠ 0 := by
    rintro rfl
    exact absurd less (Nat.not_lt_zero _)
  have sum : before d0 + (remainder ++ (0 : Half)) = remainder ++ lower := by
    rw [isLower, BitVec.add_comm, append_add]
  have fits : (remainder ++ lower : Long).toNat < divisor.toNat * 0x10000 := by
    rw [toNat_append]
    omega
  have source : low (Function.update (Function.update before d2 (remainder ++ (0 : Half))) d0
      (remainder ++ lower) d1) = divisor := by
    rw [Function.update_of_ne (by decide : d1 ≠ d0), Function.update_of_ne (by decide : d1 ≠ d2),
      isDivisor, low_append]
  rw [divideLow, run, exec, isRemainder, Option.bind_some, run, exec, Option.bind_some,
    Function.update_of_ne (by decide : d0 ≠ d2), Function.update_self, sum, run, exec, source,
    Function.update_self, divide_fits nonzero fits, toNat_append, Option.map_some,
    Function.update_idem]
  rfl

theorem run_keepHigh {before : Registers} {remainder quotient : Half}
    (isHigh : before d2 = remainder ++ quotient) :
    run [.moveW d2 d3, .swap d3, .clrW d3] before =
      some (Function.update before d3 (quotient ++ (0 : Half))) := by
  simp [run, exec, isHigh]

theorem run_join {before : Registers} {remainder quotient upper : Half}
    (isLow : before d0 = remainder ++ quotient) (isHigh : before d3 = upper ++ (0 : Half)) :
    (run [.swap d0, .clrW d0, .swap d0, .addL d3 d0, .moveL d0 c] before).map
      (fun after => after c) = some (upper ++ quotient) := by
  have sum : (0 : Half) ++ quotient + (upper ++ (0 : Half)) = (upper ++ quotient : Long) := by
    rw [BitVec.add_comm, append_add]
  simp +decide [run, exec, isLow, isHigh, Function.update_of_ne, ← sum]

theorem run_remainder {before : Registers} {remainder quotient : Half}
    (isLow : before d0 = remainder ++ quotient) (apart : c ≠ d0) :
    (run [.clrW d0, .swap d0, .moveW d0 c] before).map (fun after => after c) =
      some (high (before c) ++ remainder) := by
  simp [run, exec, isLow, Function.update_of_ne apart]

end Text

/-! ## What the texts compute -/

section Texts

variable {registers : Registers} {a b c : Register}

theorem high_low_number (dividend : Long) :
    (high dividend).toNat * 0x10000 + (low dividend).toNat = dividend.toNat := by
  rw [← toNat_append, high_append_low]

section Halves

variable {dividend : Long} {divisor : Half}

theorem remainder_less (positive : 0 < divisor.toNat) :
    (BitVec.ofNat 16 ((high dividend).toNat % divisor.toNat)).toNat =
        (high dividend).toNat % divisor.toNat ∧
      BitVec.ofNat 16 ((high dividend).toNat % divisor.toNat) < divisor := by
  have less := Nat.mod_lt (high dividend).toNat positive
  have number : (BitVec.ofNat 16 ((high dividend).toNat % divisor.toNat)).toNat =
      (high dividend).toNat % divisor.toNat := by
    rw [BitVec.toNat_ofNat, Nat.mod_eq_of_lt (Nat.lt_trans less divisor.isLt)]
  rw [BitVec.lt_def, number]
  exact ⟨rfl, less⟩

theorem quotient_joined (positive : 0 < divisor.toNat) :
    BitVec.ofNat 16 ((high dividend).toNat / divisor.toNat) ++ BitVec.ofNat 16
        (((high dividend).toNat % divisor.toNat * 0x10000 + (low dividend).toNat) /
          divisor.toNat) =
      BitVec.ofNat 32 (dividend.toNat / divisor.toNat) := by
  have lowLess := (low dividend).isLt
  have highLess := (high dividend).isLt
  have remainderLess := Nat.mod_lt (high dividend).toNat positive
  have quotientLess : (high dividend).toNat / divisor.toNat < 0x10000 :=
    Nat.lt_of_le_of_lt (Nat.div_le_self _ _) highLess
  have restLess : ((high dividend).toNat % divisor.toNat * 0x10000 + (low dividend).toNat) /
      divisor.toNat < 0x10000 := by
    refine Nat.div_lt_of_lt_mul ?_
    omega
  have dividendLess : dividend.toNat / divisor.toNat < 2 ^ 32 :=
    Nat.lt_of_le_of_lt (Nat.div_le_self _ _) dividend.isLt
  apply BitVec.eq_of_toNat_eq
  rw [toNat_append, BitVec.toNat_ofNat, BitVec.toNat_ofNat, BitVec.toNat_ofNat,
    Nat.mod_eq_of_lt quotientLess, Nat.mod_eq_of_lt restLess, Nat.mod_eq_of_lt dividendLess,
    ← (long_division _ _ _ positive).1, high_low_number]

end Halves

theorem run_quotientText (apartA : a ∉ [d0, d1, d2]) (apartB : b ∉ [d0, d1, d2]) :
    (run (quotientText a b c) registers).map (fun after => after c) =
      if low (registers b) = 0 then none
      else some (BitVec.ofNat 32 ((registers a).toNat / (low (registers b)).toNat)) := by
  obtain ⟨before, runs, spread⟩ := @run_spread registers a b apartA apartB
  have text : quotientText a b c = Division.spread a b ++ ([.divu d1 d2] ++
      ([.moveW d2 d3, .swap d3, .clrW d3] ++ (divideLow ++
        [.swap d0, .clrW d0, .swap d0, .addL d3 d0, .moveL d0 c]))) := rfl
  rw [text, run_append, runs, Option.bind_some, run_append]
  by_cases zero : low (registers b) = 0
  · rw [zero] at spread
    rw [run_divideHigh_zero spread, if_pos zero]
    rfl
  · have positive : 0 < (low (registers b)).toNat := Nat.pos_of_ne_zero fun none =>
      zero (BitVec.eq_of_toNat_eq none)
    rw [run_divideHigh spread zero, Option.bind_some, run_append, if_neg zero,
      run_keepHigh (Function.update_self d2 _ _), Option.bind_some, run_append]
    obtain ⟨number, less⟩ := @remainder_less (registers a) _ positive
    rw [@run_divideLow _ _ (low (registers a)) (low (registers b))
      (by simp +decide [Function.update_of_ne, spread.d0])
      (by simp +decide [Function.update_of_ne, spread.d1])
      (by simp +decide [Function.update_of_ne]) less, Option.bind_some,
      @run_join _ _ _ _ (BitVec.ofNat 16 ((high (registers a)).toNat / (low (registers b)).toNat))
        (Function.update_self d0 _ _) (by simp +decide [Function.update_of_ne]), number,
      quotient_joined positive]

theorem run_remainderText (apartA : a ∉ [d0, d1, d2]) (apartB : b ∉ [d0, d1, d2])
    (apartC : c ∉ [d0, d1, d2]) :
    (run (remainderText a b c) registers).map (fun after => after c) =
      if low (registers b) = 0 then none
      else some (high (registers c) ++
        BitVec.ofNat 16 ((registers a).toNat % (low (registers b)).toNat)) := by
  obtain ⟨before, runs, spread⟩ := @run_spread registers a b apartA apartB
  have text : remainderText a b c = Division.spread a b ++ ([.divu d1 d2] ++ (divideLow ++
      [.clrW d0, .swap d0, .moveW d0 c])) := rfl
  rw [text, run_append, runs, Option.bind_some, run_append]
  by_cases zero : low (registers b) = 0
  · rw [zero] at spread
    rw [run_divideHigh_zero spread, if_pos zero]
    rfl
  · have positive : 0 < (low (registers b)).toNat := Nat.pos_of_ne_zero fun none =>
      zero (BitVec.eq_of_toNat_eq none)
    obtain ⟨number, less⟩ := @remainder_less (registers a) _ positive
    obtain ⟨c0, -, c2⟩ := apart_spread apartC
    rw [run_divideHigh spread zero, Option.bind_some, run_append, if_neg zero,
      @run_divideLow _ _ (low (registers a)) (low (registers b))
        (by simp +decide [Function.update_of_ne, spread.d0])
        (by simp +decide [Function.update_of_ne, spread.d1]) (by simp) less, Option.bind_some,
      run_remainder (Function.update_self d0 _ _) c0, Function.update_of_ne c0,
      Function.update_of_ne c2, Function.update_of_ne c2, spread.others c apartC, number,
      ← (long_division _ _ _ positive).2, high_low_number]

end Texts

section Returned

variable {registers : Registers}

theorem returned_quotient {operands : Operands [d0, d1, d2, d3]} :
    returned quotientText operands registers =
      if low (registers operands.b) = 0 then none
      else some (BitVec.ofNat 32
        ((registers operands.a).toNat / (low (registers operands.b)).toNat)) := by
  have outside : ∀ register ∈ [operands.c, operands.a, operands.b], register ∉ [d0, d1, d2] :=
    fun register member within =>
      operands.apart register member (List.mem_append_left [d3] within)
  exact run_quotientText (outside _ (by simp)) (outside _ (by simp))

theorem returned_remainder {operands : Operands [d0, d1, d2]} :
    returned remainderText operands registers =
      if low (registers operands.b) = 0 then none
      else some (high (registers operands.c) ++ BitVec.ofNat 16
        ((registers operands.a).toNat % (low (registers operands.b)).toNat)) :=
  run_remainderText (operands.apart _ (by simp)) (operands.apart _ (by simp))
    (operands.apart _ (by simp))

end Returned

/-! ## When that is right -/

section Quotients

variable {dividend divisor : Nat}

theorem quotient_low (positive : 0 < divisor % 0x10000) :
    dividend / (divisor % 0x10000) = dividend / divisor ↔
      divisor < 0x10000 ∨ dividend < divisor % 0x10000 := by
  constructor
  · intro same
    by_contra neither
    obtain ⟨large, notLess⟩ := not_or.mp neither
    have atLeast : 0 < dividend / divisor := by
      rw [← same]
      exact Nat.div_pos (Nat.not_lt.mp notLess) positive
    -- The true quotient fits twice into the dividend by the low half.
    have whole : dividend / divisor * divisor ≤ dividend := Nat.div_mul_le_self _ _
    have double : 2 * (dividend / divisor) * (divisor % 0x10000) ≤ dividend := by
      have step : 2 * (divisor % 0x10000) ≤ divisor := by omega
      calc 2 * (dividend / divisor) * (divisor % 0x10000)
          = dividend / divisor * (2 * (divisor % 0x10000)) := by
            rw [Nat.mul_comm 2, Nat.mul_assoc]
        _ ≤ dividend / divisor * divisor := Nat.mul_le_mul_left _ step
        _ ≤ dividend := whole
    have more := (Nat.le_div_iff_mul_le positive).mpr double
    omega
  · rintro (small | less)
    · rw [Nat.mod_eq_of_lt small]
    · have less' : dividend < divisor := Nat.lt_of_lt_of_le less (Nat.mod_le _ _)
      rw [Nat.div_eq_of_lt less, Nat.div_eq_of_lt less']

/-- Two negative numbers: the complements divide to the same quotient only where it is 2^16, and
then without a remainder. -/
theorem quotient_complements (positive : 0 < divisor) (dividendLess : dividend ≤ 0x80000000)
    (lowDivides : (0x100000000 - divisor) % 0x10000 ≠ 0) (divisorLess : divisor ≤ 0x80000000) :
    (0x100000000 - dividend) / ((0x100000000 - divisor) % 0x10000) = dividend / divisor ↔
      dividend = 0x10000 * divisor := by
  constructor
  · intro same
    have first := Nat.div_add_mod dividend divisor
    have second := Nat.div_add_mod (0x100000000 - dividend) ((0x100000000 - divisor) % 0x10000)
    have firstLess := Nat.mod_lt dividend positive
    have secondLess := Nat.mod_lt (0x100000000 - dividend) (Nat.pos_of_ne_zero lowDivides)
    rw [same] at second
    have atLeast : 0x8000 ≤ dividend / divisor := by
      rw [← same]
      refine (Nat.le_div_iff_mul_le (Nat.pos_of_ne_zero lowDivides)).mpr ?_
      have := Nat.mod_lt (0x100000000 - divisor) (by decide : 0x10000 > 0)
      omega
    have small : divisor ≤ 0x10000 := by
      have whole := Nat.mul_le_of_le_div _ _ _ atLeast
      omega
    have complement : (0x100000000 - divisor) % 0x10000 = 0x10000 - divisor := by omega
    rw [complement, Nat.sub_mul] at second
    rw [complement] at secondLess lowDivides
    have within : divisor * (dividend / divisor) ≤ 0x10000 * (dividend / divisor) :=
      Nat.mul_le_mul_right _ small
    have total : 0x10000 * (dividend / divisor) + (dividend % divisor +
        (0x100000000 - dividend) % (0x10000 - divisor)) = 0x100000000 := by omega
    have rest : dividend % divisor + (0x100000000 - dividend) % (0x10000 - divisor) < 0x10000 := by
      omega
    have isQuotient : dividend / divisor = 0x10000 := by omega
    rw [isQuotient] at first total
    omega
  · rintro rfl
    have complement : (0x100000000 - divisor) % 0x10000 = 0x10000 - divisor := by omega
    have isWhole : 0x100000000 - 0x10000 * divisor = 0x10000 * (0x10000 - divisor) := by omega
    rw [complement, isWhole, Nat.mul_div_cancel _ positive, Nat.mul_div_cancel _ (by omega)]

end Quotients

theorem signed_cases (value : Long) :
    value.toNat < 0x80000000 ∧ value.toInt = value.toNat ∨
      0x80000000 ≤ value.toNat ∧ value.toInt = -((0x100000000 - value.toNat : Nat) : Int) := by
  have less := value.isLt
  rw [BitVec.toInt_eq_toNat_cond]
  split
  · exact .inl ⟨by omega, rfl⟩
  · exact .inr ⟨by omega, by omega⟩

/-- `__udivsi3` is right: the divisor has 16 bits, or both quotients are zero. -/
structure UdivRight (a b : Long) : Prop where
  divides : low b ≠ 0
  small : b.toNat < 0x10000 ∨ a.toNat < (low b).toNat

theorem udivsi3_iff (operands : Operands [d0, d1, d2, d3]) (registers : Registers) :
    udivsi3 operands registers = some (registers operands.a / registers operands.b) ↔
      UdivRight (registers operands.a) (registers operands.b) := by
  generalize isA : registers operands.a = a
  generalize isB : registers operands.b = b
  rw [udivsi3, returned_quotient, isA, isB]
  by_cases zero : low b = 0
  · rw [if_pos zero]
    exact ⟨fun none => absurd none (Option.some_ne_none _).symm, fun right =>
      absurd zero right.divides⟩
  · have positive : 0 < b.toNat % 0x10000 := by
      rw [← toNat_low]
      exact Nat.pos_of_ne_zero fun none => zero (BitVec.eq_of_toNat_eq none)
    have less : a.toNat / (low b).toNat < 2 ^ 32 :=
      Nat.lt_of_le_of_lt (Nat.div_le_self _ _) a.isLt
    have numbers : BitVec.ofNat 32 (a.toNat / (low b).toNat) = a / b ↔
        a.toNat / (low b).toNat = a.toNat / b.toNat := by
      rw [← BitVec.toNat_inj, BitVec.toNat_ofNat, Nat.mod_eq_of_lt less, BitVec.toNat_udiv]
    rw [if_neg zero, Option.some_inj, numbers, toNat_low, quotient_low positive, ← toNat_low]
    exact ⟨fun small => ⟨zero, small⟩, fun right => right.small⟩

/-! ## Remainders -/

theorem low_positive {b : Long} (divides : low b ≠ 0) : 0 < (low b).toNat :=
  Nat.pos_of_ne_zero fun none => divides (BitVec.eq_of_toNat_eq none)

theorem mod_eq_iff_dvd {number divisor rest : Nat} (below : rest < divisor) (le : rest ≤ number) :
    number % divisor = rest ↔ divisor ∣ number - rest := by
  constructor
  · rintro rfl
    exact Nat.dvd_sub_mod number
  · rintro ⟨times, product⟩
    have number : number = divisor * times + rest := by omega
    rw [number, Nat.mul_add_mod, Nat.mod_eq_of_lt below]

theorem lowRemainder_toNat {a b : Long} (divides : low b ≠ 0) :
    (BitVec.ofNat 16 (a.toNat % (low b).toNat)).toNat = a.toNat % (low b).toNat := by
  have less := Nat.mod_lt a.toNat (low_positive divides)
  rw [BitVec.toNat_ofNat, Nat.mod_eq_of_lt (Nat.lt_trans less (low b).isLt)]

theorem lowRemainder_below {a b : Long} (divides : low b ≠ 0) :
    BitVec.ofNat 16 (a.toNat % (low b).toNat) < low b := by
  rw [BitVec.lt_def, lowRemainder_toNat divides]
  exact Nat.mod_lt _ (low_positive divides)

theorem lowRemainder_eq_iff {a b : Long} {l : Half} (below : l < low b) (le : l.toNat ≤ a.toNat) :
    BitVec.ofNat 16 (a.toNat % (low b).toNat) = l ↔ (low b).toNat ∣ a.toNat - l.toNat := by
  have divides : low b ≠ 0 := by
    intro zero
    rw [zero] at below
    exact absurd below BitVec.not_lt_zero
  rw [← mod_eq_iff_dvd (BitVec.lt_def.mp below) le, ← BitVec.toNat_inj, lowRemainder_toNat divides]

/-- `__umodsi3` is right. The upper half of the result is what its register held. For a larger
divisor the dividends are those with a remainder of that upper half, and a low half below the
divisor's, for which the low half of the divisor divides the rest. -/
inductive UmodRight (before a b : Long) : Prop
  | small (divides : low b ≠ 0) (divisor : b.toNat < 0x10000) (clear : high before = 0)
  | large (divisor : 0x10000 ≤ b.toNat) (q : Nat) (l : Half)
      (dividend : a.toNat = q * b.toNat + (high before ++ l : Long).toNat)
      (within : (high before ++ l : Long).toNat < b.toNat) (below : l < low b)
      (divides : (low b).toNat ∣ 0x10000 * (q * (high b).toNat + (high before).toNat))

theorem dividend_rest {a b : Long} {q : Nat} {upper l : Half}
    (dividend : a.toNat = q * b.toNat + (upper ++ l : Long).toNat) :
    a.toNat - l.toNat =
      q * (low b).toNat + 0x10000 * (q * (high b).toNat + upper.toNat) := by
  have halves : q * b.toNat = q * ((high b).toNat * 0x10000) + q * (low b).toNat := by
    rw [← high_low_number b, Nat.mul_add]
  rw [toNat_append, halves, ← Nat.mul_assoc] at dividend
  omega

theorem umodsi3_iff (operands : Operands [d0, d1, d2]) (registers : Registers) :
    umodsi3 operands registers = some (registers operands.a % registers operands.b) ↔
      UmodRight (registers operands.c) (registers operands.a) (registers operands.b) := by
  generalize isA : registers operands.a = a
  generalize isB : registers operands.b = b
  rw [umodsi3, returned_remainder, isA, isB]
  by_cases zero : low b = 0
  · rw [if_pos zero]
    refine ⟨fun none => absurd none (Option.some_ne_none _).symm, fun right => ?_⟩
    cases right with
    | small divides => exact absurd zero divides
    | large _ q l _ _ below =>
        rw [zero] at below
        exact absurd below BitVec.not_lt_zero
  · have positive : 0 < b.toNat := by
      have lowPositive := low_positive zero
      rw [toNat_low] at lowPositive
      omega
    rw [if_neg zero, Option.some_inj]
    constructor
    · intro same
      have number : (high (registers operands.c) ++
          BitVec.ofNat 16 (a.toNat % (low b).toNat) : Long).toNat = a.toNat % b.toNat := by
        rw [same, BitVec.toNat_umod]
      have dividend := (Nat.div_add_mod' a.toNat b.toNat).symm
      rw [← number] at dividend
      have less := Nat.mod_lt a.toNat positive
      by_cases small : b.toNat < 0x10000
      · refine .small zero small (BitVec.eq_of_toNat_eq ?_)
        rw [toNat_append] at number
        change (high (registers operands.c)).toNat = 0
        omega
      refine .large (Nat.not_lt.mp small) (a.toNat / b.toNat) _ dividend ?_ (lowRemainder_below zero) ?_
      · rw [number]
        exact less
      · have le : (BitVec.ofNat 16 (a.toNat % (low b).toNat)).toNat ≤ a.toNat := by
          rw [lowRemainder_toNat zero]
          exact Nat.mod_le _ _
        have rest := (lowRemainder_eq_iff (lowRemainder_below zero) le).mp rfl
        rw [dividend_rest dividend] at rest
        exact (Nat.dvd_add_right (Nat.dvd_mul_left _ _)).mp rest
    · intro right
      cases right with
      | small _ small clear =>
          apply BitVec.eq_of_toNat_eq
          rw [toNat_append, clear, lowRemainder_toNat zero, BitVec.toNat_umod, toNat_low,
            Nat.mod_eq_of_lt small]
          exact Nat.zero_add _
      | large _ q l dividend within below divides =>
          have le : l.toNat ≤ a.toNat := by
            rw [dividend, toNat_append]
            omega
          have isLow : BitVec.ofNat 16 (a.toNat % (low b).toNat) = l := by
            rw [lowRemainder_eq_iff below le, dividend_rest dividend]
            exact Nat.dvd_add (Nat.dvd_mul_left _ _) divides
          apply BitVec.eq_of_toNat_eq
          rw [isLow, BitVec.toNat_umod, dividend, Nat.mul_add_mod', Nat.mod_eq_of_lt within]

/-- `__divsi3` is right. -/
inductive SdivRight (a b : Long) : Prop
  | positive (dividend : 0 ≤ a.toInt) (divisor : 0 < b.toInt) (divides : low b ≠ 0)
      (small : b.toInt < 0x10000 ∨ a.toNat < (low b).toNat)
  | zero (dividend : 0 ≤ a.toInt) (divisor : b.toInt < 0) (divides : low b ≠ 0)
      (small : a.toInt < -b.toInt) (less : a.toNat < (low b).toNat)
  | one (isOne : b = 1)
  | whole (divisor : b.toInt < 0) (dividend : a.toInt = 0x10000 * b.toInt)

section Signed

variable {a b : Long}

theorem quotient_toInt (less : a.toNat / (low b).toNat < 0x80000000) :
    (BitVec.ofNat 32 (a.toNat / (low b).toNat)).toInt = (a.toNat / (low b).toNat : Nat) := by
  rw [BitVec.toInt_eq_toNat_of_lt] <;> rw [BitVec.toNat_ofNat, Nat.mod_eq_of_lt (by omega)]
  omega

theorem sdiv_positive (divides : low b ≠ 0) (isA : a.toInt = a.toNat) (isB : b.toInt = b.toNat)
    (aLess : a.toNat < 0x80000000) :
    (BitVec.ofNat 32 (a.toNat / (low b).toNat)).toInt = a.toInt.tdiv b.toInt ↔ SdivRight a b := by
  have positive := low_positive divides
  have bPositive : 0 < b.toNat := by
    rw [toNat_low] at positive
    omega
  have less := Nat.div_le_self a.toNat (low b).toNat
  rw [quotient_toInt (by omega), isA, isB, ← Int.ofNat_tdiv, Int.ofNat_inj, toNat_low,
    quotient_low (toNat_low b ▸ positive), ← toNat_low]
  constructor
  · exact fun small => .positive (by omega) (by omega) divides (by omega)
  · intro right
    cases right with
    | positive _ _ _ small => omega
    | zero _ negative => omega
    | one isOne => exact .inl (isOne ▸ (by decide : (1 : Long).toNat < 0x10000))
    | whole negative => omega

theorem natCast_eq_neg {first second : Nat} :
    (first : Int) = -(second : Int) ↔ first = 0 ∧ second = 0 := by
  omega

theorem sdiv_zero (divides : low b ≠ 0) (isA : a.toInt = a.toNat)
    (isB : b.toInt = -((0x100000000 - b.toNat : Nat) : Int)) (aLess : a.toNat < 0x80000000) :
    (BitVec.ofNat 32 (a.toNat / (low b).toNat)).toInt = a.toInt.tdiv b.toInt ↔ SdivRight a b := by
  have positive := low_positive divides
  have bLess := b.isLt
  have less := Nat.div_le_self a.toNat (low b).toNat
  rw [quotient_toInt (by omega), isA, isB, Int.tdiv_neg, ← Int.ofNat_tdiv]
  constructor
  · intro same
    obtain ⟨first, second⟩ := natCast_eq_neg.mp same
    have firstLess := (Nat.div_eq_zero_iff_lt positive).mp first
    have secondLess := (Nat.div_eq_zero_iff_lt (by omega)).mp second
    exact .zero (by omega) (by omega) divides (by omega) firstLess
  · intro right
    cases right with
    | positive _ dividing => omega
    | zero _ _ _ small firstLess =>
        rw [Nat.div_eq_of_lt firstLess, Nat.div_eq_of_lt (by omega)]
        rfl
    | one isOne => exact absurd (isOne ▸ isB) (by decide)
    | whole negative dividend => omega

theorem sdiv_one (divides : low b ≠ 0)
    (isA : a.toInt = -((0x100000000 - a.toNat : Nat) : Int)) (isB : b.toInt = b.toNat)
    (aLeast : 0x80000000 ≤ a.toNat) :
    (BitVec.ofNat 32 (a.toNat / (low b).toNat)).toInt = a.toInt.tdiv b.toInt ↔ SdivRight a b := by
  have positive := low_positive divides
  have aLess := a.isLt
  rw [isA, isB, Int.neg_tdiv, ← Int.ofNat_tdiv]
  constructor
  · intro same
    by_cases lowOne : (low b).toNat = 1
    · -- The quotient is the dividend, and so it is for no other divisor.
      rw [lowOne, Nat.div_one, BitVec.ofNat_toNat, BitVec.setWidth_eq, isA] at same
      refine .one (BitVec.eq_of_toNat_eq ?_)
      by_contra notOne
      have bPositive : 1 < b.toNat := by
        rw [toNat_low] at lowOne
        have : b.toNat ≠ 1 := notOne
        omega
      have smaller := Nat.div_lt_self (by omega : 0 < 0x100000000 - a.toNat) bPositive
      omega
    · have less : a.toNat / (low b).toNat < 0x80000000 := by
        refine Nat.div_lt_of_lt_mul ?_
        omega
      have atLeast : 0 < a.toNat / (low b).toNat := by
        refine Nat.div_pos ?_ positive
        have := (low b).isLt
        omega
      rw [quotient_toInt less] at same
      exact absurd (natCast_eq_neg.mp same).1 (Nat.ne_of_gt atLeast)
  · intro right
    cases right with
    | positive notNegative => omega
    | zero notNegative => omega
    | one isOne =>
        subst isOne
        have lowOne : (low 1).toNat = 1 := rfl
        have isOne : (1 : Long).toNat = 1 := rfl
        rw [lowOne, isOne, Nat.div_one, Nat.div_one, BitVec.ofNat_toNat, BitVec.setWidth_eq, isA]
    | whole negative => omega

theorem sdiv_whole (divides : low b ≠ 0)
    (isA : a.toInt = -((0x100000000 - a.toNat : Nat) : Int))
    (isB : b.toInt = -((0x100000000 - b.toNat : Nat) : Int)) (aLeast : 0x80000000 ≤ a.toNat)
    (bLeast : 0x80000000 ≤ b.toNat) :
    (BitVec.ofNat 32 (a.toNat / (low b).toNat)).toInt = a.toInt.tdiv b.toInt ↔ SdivRight a b := by
  have positive := low_positive divides
  have aLess := a.isLt
  have bLess := b.isLt
  have isLow : (low b).toNat = (0x100000000 - (0x100000000 - b.toNat)) % 0x10000 := by
    rw [toNat_low]
    congr 1
    omega
  have isDividend : a.toNat = 0x100000000 - (0x100000000 - a.toNat) := by omega
  rw [isA, isB, Int.neg_tdiv_neg, ← Int.ofNat_tdiv]
  by_cases lowOne : (low b).toNat = 1
  · rw [lowOne, Nat.div_one, BitVec.ofNat_toNat, BitVec.setWidth_eq, isA]
    rw [toNat_low] at lowOne
    constructor
    · intro same
      have none := (natCast_eq_neg.mp same.symm).2
      omega
    · intro right
      cases right with
      | positive notNegative => omega
      | zero notNegative => omega
      | one isOne => exact absurd (isOne ▸ isB) (by decide)
      | whole _ dividend => omega
  · have less : a.toNat / (low b).toNat < 0x80000000 := by
      refine Nat.div_lt_of_lt_mul ?_
      omega
    have complements := quotient_complements (by omega : 0 < 0x100000000 - b.toNat)
      (by omega : 0x100000000 - a.toNat ≤ 0x80000000) (by omega) (by omega)
    rw [quotient_toInt less, Int.ofNat_inj, isLow]
    conv => lhs; lhs; rw [isDividend]
    rw [complements]
    constructor
    · exact fun multiple => .whole (by omega) (by omega)
    · intro right
      cases right with
      | positive notNegative => omega
      | zero notNegative => omega
      | one isOne => exact absurd (isOne ▸ isB) (by decide)
      | whole _ dividend => omega

end Signed

theorem divsi3_iff (operands : Operands [d0, d1, d2, d3]) (registers : Registers) :
    (divsi3 operands registers).map BitVec.toInt =
        some ((registers operands.a).toInt.tdiv (registers operands.b).toInt) ↔
      SdivRight (registers operands.a) (registers operands.b) := by
  generalize isA : registers operands.a = a
  generalize isB : registers operands.b = b
  rw [divsi3, returned_quotient, isA, isB]
  have aLess := a.isLt
  have bLess := b.isLt
  by_cases zero : low b = 0
  · rw [if_pos zero]
    refine ⟨fun none => absurd none (Option.some_ne_none _).symm, fun right => ?_⟩
    have lowZero : b.toNat % 0x10000 = 0 := by
      rw [← toNat_low, zero]
      rfl
    cases right with
    | positive _ _ divides => exact absurd zero divides
    | zero _ _ divides => exact absurd zero divides
    | one isOne => exact absurd (isOne ▸ zero) (by decide)
    | whole divisor dividend =>
        have multiple : b.toNat ≤ 0xFFFF0000 := by omega
        rcases signed_cases b with ⟨_, isB'⟩ | ⟨_, isB'⟩ <;>
          rcases signed_cases a with ⟨_, isA'⟩ | ⟨_, isA'⟩ <;>
            omega
  · rw [if_neg zero, Option.map_some, Option.some_inj]
    rcases signed_cases a with ⟨aLess, isA'⟩ | ⟨aLeast, isA'⟩ <;>
      rcases signed_cases b with ⟨bLess, isB'⟩ | ⟨bLeast, isB'⟩
    · exact sdiv_positive zero isA' isB' aLess
    · exact sdiv_zero zero isA' isB' aLess
    · exact sdiv_one zero isA' isB' aLeast
    · exact sdiv_whole zero isA' isB' aLeast bLeast

/-- `__modsi3` is right. As for unsigned numbers the upper half of the result is what its register
held; a negative dividend is divided as the number 2^32 above it. -/
inductive SmodRight (before a b : Long) : Prop
  | small (dividend : 0 ≤ a.toInt) (divisor : 0 < b.toInt) (less : b.toInt < 0x10000)
      (clear : high before = 0)
  | positive (q : Nat) (l : Half)
      (dividend : a.toInt = q * b.toInt.natAbs + (high before ++ l : Long).toNat)
      (within : (high before ++ l : Long).toNat < b.toInt.natAbs) (below : l < low b)
      (divides : (low b).toNat ∣ q * b.toInt.natAbs + 0x10000 * (high before).toNat)
  | multiple (q : Nat) (dividend : a.toInt = -(q * b.toInt.natAbs : Nat)) (sign : a.toInt < 0)
      (clear : high before = 0) (nonzero : low b ≠ 0)
      (divides : (low b).toNat ∣ 0x100000000 - q * b.toInt.natAbs)
  | negative (q : Nat) (l : Half)
      (dividend : a.toInt = (high before ++ l : Long).toInt - (q * b.toInt.natAbs : Nat))
      (sign : (high before ++ l : Long).toInt < 0)
      (within : -(high before ++ l : Long).toInt < b.toInt.natAbs) (below : l < low b)
      (divides : ((low b).toNat : Int) ∣
        0x10000 * (high before).toNat - (q * b.toInt.natAbs : Nat))

section Remainders

variable {a b : Long}

theorem tmod_of_nonneg {dividend : Nat} (divisor : Int) :
    (dividend : Int).tmod divisor = (dividend % divisor.natAbs : Nat) := by
  rcases Int.natAbs_eq divisor with same | same
  · conv => lhs; rw [same]
    rw [Int.ofNat_tmod]
  · conv => lhs; rw [same]
    rw [Int.tmod_neg, Int.ofNat_tmod]

theorem tmod_of_neg {dividend : Nat} (divisor : Int) :
    (-(dividend : Int)).tmod divisor = -(dividend % divisor.natAbs : Nat) := by
  rw [Int.neg_tmod, tmod_of_nonneg]

theorem natAbs_positive (nonzero : low b ≠ 0) : 0 < b.toInt.natAbs := by
  refine Int.natAbs_pos.mpr fun zero => nonzero ?_
  have isZero : b = 0 := BitVec.eq_of_toInt_eq (zero.trans rfl)
  rw [isZero]
  rfl

theorem smod_positive {upper l : Half} (nonzero : low b ≠ 0) (isA : a.toInt = a.toNat) :
    (upper ++ l : Long).toInt = a.toInt.tmod b.toInt ↔
      ∃ q : Nat, a.toInt = q * b.toInt.natAbs + (upper ++ l : Long).toNat ∧
        (upper ++ l : Long).toNat < b.toInt.natAbs := by
  have positive := natAbs_positive nonzero
  have aLess := a.isLt
  rw [isA, tmod_of_nonneg]
  constructor
  · intro same
    have number : (upper ++ l : Long).toNat = a.toNat % b.toInt.natAbs := by
      rcases signed_cases (upper ++ l : Long) with ⟨_, value⟩ | ⟨_, value⟩ <;> omega
    refine ⟨a.toNat / b.toInt.natAbs, ?_, ?_⟩
    · rw [number]
      exact_mod_cast (Nat.div_add_mod' a.toNat b.toInt.natAbs).symm
    · rw [number]
      exact Nat.mod_lt _ positive
  · rintro ⟨q, dividend, within⟩
    have number : a.toNat = q * b.toInt.natAbs + (upper ++ l : Long).toNat := by
      exact_mod_cast dividend
    have rest : a.toNat % b.toInt.natAbs = (upper ++ l : Long).toNat := by
      rw [number, Nat.mul_add_mod', Nat.mod_eq_of_lt within]
    have bLess : b.toInt.natAbs ≤ 0x80000000 := by
      have bound := b.isLt
      rcases signed_cases b with ⟨_, value⟩ | ⟨_, value⟩ <;> omega
    rw [rest]
    rcases signed_cases (upper ++ l : Long) with ⟨_, value⟩ | ⟨_, value⟩ <;> omega

/-- A negative dividend: it is a multiple of the divisor, or the result is negative too. -/
theorem smod_negative {upper l : Half} (nonzero : low b ≠ 0)
    (isA : a.toInt = -((0x100000000 - a.toNat : Nat) : Int)) :
    (upper ++ l : Long).toInt = a.toInt.tmod b.toInt ↔
      (∃ q : Nat, a.toInt = -(q * b.toInt.natAbs : Nat) ∧ upper = 0 ∧ l = 0) ∨
      ∃ q : Nat, a.toInt = (upper ++ l : Long).toInt - (q * b.toInt.natAbs : Nat) ∧
        (upper ++ l : Long).toInt < 0 ∧ -(upper ++ l : Long).toInt < b.toInt.natAbs := by
  have positive := natAbs_positive nonzero
  have whole := Nat.div_add_mod' (0x100000000 - a.toNat) b.toInt.natAbs
  have less := Nat.mod_lt (0x100000000 - a.toNat) positive
  rw [isA, tmod_of_neg]
  constructor
  · intro same
    rcases Nat.eq_zero_or_pos ((0x100000000 - a.toNat) % b.toInt.natAbs) with none | some
    · refine .inl ⟨(0x100000000 - a.toNat) / b.toInt.natAbs, by omega, ?_⟩
      have isZero : (upper ++ l : Long) = (0 : Half) ++ (0 : Half) := by
        apply BitVec.eq_of_toInt_eq
        rw [same, none]
        rfl
      have halves := congrArg high isZero
      have halves' := congrArg low isZero
      rw [high_append, high_append] at halves
      rw [low_append, low_append] at halves'
      exact ⟨halves, halves'⟩
    · exact .inr ⟨(0x100000000 - a.toNat) / b.toInt.natAbs, by omega, by omega, by omega⟩
  · rintro (⟨q, dividend, rfl, rfl⟩ | ⟨q, dividend, sign, within⟩)
    · have number : 0x100000000 - a.toNat = q * b.toInt.natAbs := by omega
      rw [number, Nat.mul_mod_left]
      rfl
    · have number : 0x100000000 - a.toNat =
          q * b.toInt.natAbs + (upper ++ l : Long).toInt.natAbs := by omega
      rw [number, Nat.mul_add_mod', Nat.mod_eq_of_lt (by omega)]
      omega

theorem positive_rest {upper l : Half} {q : Nat} (isA : a.toInt = a.toNat)
    (dividend : a.toInt = q * b.toInt.natAbs + (upper ++ l : Long).toNat) :
    l.toNat ≤ a.toNat ∧ a.toNat - l.toNat = q * b.toInt.natAbs + 0x10000 * upper.toNat := by
  have number : a.toNat = q * b.toInt.natAbs + (upper ++ l : Long).toNat := by
    exact_mod_cast isA ▸ dividend
  rw [toNat_append] at number
  omega

theorem negative_rest {upper l : Half} {q : Nat} (aLeast : 0x80000000 ≤ a.toNat)
    (isA : a.toInt = -((0x100000000 - a.toNat : Nat) : Int))
    (dividend : a.toInt = (upper ++ l : Long).toInt - (q * b.toInt.natAbs : Nat))
    (sign : (upper ++ l : Long).toInt < 0) :
    l.toNat ≤ a.toNat ∧ ((a.toNat - l.toNat : Nat) : Int) =
      0x10000 * upper.toNat - (q * b.toInt.natAbs : Nat) := by
  have aLess := a.isLt
  have whole : (upper ++ l : Long).toNat = upper.toNat * 0x10000 + l.toNat :=
    toNat_append upper l
  generalize q * b.toInt.natAbs = product at dividend ⊢
  rcases signed_cases (upper ++ l : Long) with ⟨_, value⟩ | ⟨least, value⟩
  · omega
  · have less := (upper ++ l : Long).isLt
    omega

theorem smod_nonneg_iff {before : Long} (nonzero : low b ≠ 0) (isA : a.toInt = a.toNat) :
    (high before ++ BitVec.ofNat 16 (a.toNat % (low b).toNat) : Long).toInt =
        a.toInt.tmod b.toInt ↔ SmodRight before a b := by
  rw [smod_positive nonzero isA]
  constructor
  · rintro ⟨q, dividend, within⟩
    obtain ⟨le, rest⟩ := positive_rest isA dividend
    have divides := (lowRemainder_eq_iff (lowRemainder_below nonzero) le).mp rfl
    exact .positive q _ dividend within (lowRemainder_below nonzero) (rest ▸ divides)
  · intro right
    cases right with
    | small _ divisor less clear =>
        have isB : b.toInt.natAbs = (low b).toNat := by
          rw [toNat_low]
          rcases signed_cases b with ⟨_, value⟩ | ⟨_, value⟩ <;> omega
        rw [toNat_append, clear, lowRemainder_toNat nonzero, isB]
        have isZero : (0 : Half).toNat * 0x10000 + a.toNat % (low b).toNat =
            a.toNat % (low b).toNat := Nat.zero_add _
        rw [isZero, isA]
        refine ⟨a.toNat / (low b).toNat, ?_, Nat.mod_lt _ (low_positive nonzero)⟩
        exact_mod_cast (Nat.div_add_mod' a.toNat (low b).toNat).symm
    | positive q l dividend within below divides =>
        obtain ⟨le, rest⟩ := positive_rest isA dividend
        have isLow := (lowRemainder_eq_iff below le).mpr (rest ▸ divides)
        rw [isLow]
        exact ⟨q, dividend, within⟩
    | multiple _ _ sign => omega
    | negative q l dividend sign => omega

theorem smod_neg_iff {before : Long} (nonzero : low b ≠ 0) (aLeast : 0x80000000 ≤ a.toNat)
    (isA : a.toInt = -((0x100000000 - a.toNat : Nat) : Int)) :
    (high before ++ BitVec.ofNat 16 (a.toNat % (low b).toNat) : Long).toInt =
        a.toInt.tmod b.toInt ↔ SmodRight before a b := by
  have aLess := a.isLt
  have below := @lowRemainder_below a b nonzero
  have complement (q : Nat) (dividend : a.toInt = -(q * b.toInt.natAbs : Nat)) :
      a.toNat - (0 : Half).toNat = 0x100000000 - q * b.toInt.natAbs := by
    generalize q * b.toInt.natAbs = product at dividend ⊢
    have zero : (0 : Half).toNat = 0 := rfl
    omega
  rw [smod_negative nonzero isA]
  constructor
  · rintro (⟨q, dividend, clear, isLow⟩ | ⟨q, dividend, sign, within⟩)
    · have divides := (lowRemainder_eq_iff (isLow ▸ below) (Nat.zero_le _)).mp isLow
      exact .multiple q dividend (by omega) clear nonzero (complement q dividend ▸ divides)
    · obtain ⟨le, rest⟩ := negative_rest aLeast isA dividend sign
      have divides := (lowRemainder_eq_iff below le).mp rfl
      exact .negative q _ dividend sign within below (rest ▸ Int.natCast_dvd_natCast.mpr divides)
  · intro right
    cases right with
    | small notNegative => omega
    | positive q l dividend =>
        have notNegative : 0 ≤ (q : Int) * b.toInt.natAbs :=
          Int.mul_nonneg (Int.natCast_nonneg q) (Int.natCast_nonneg _)
        omega
    | multiple q dividend _ clear _ divides =>
        have isLow := (@lowRemainder_eq_iff a b 0 (BitVec.lt_def.mpr (low_positive nonzero))
          (Nat.zero_le _)).mpr (complement q dividend ▸ divides)
        exact .inl ⟨q, dividend, clear, isLow⟩
    | negative q l dividend sign within below divides =>
        obtain ⟨le, rest⟩ := negative_rest aLeast isA dividend sign
        have isLow := (lowRemainder_eq_iff below le).mpr
          (Int.natCast_dvd_natCast.mp (rest ▸ divides))
        rw [isLow]
        exact .inr ⟨q, dividend, sign, within⟩

theorem modsi3_iff (operands : Operands [d0, d1, d2]) (registers : Registers) :
    (modsi3 operands registers).map BitVec.toInt =
        some ((registers operands.a).toInt.tmod (registers operands.b).toInt) ↔
      SmodRight (registers operands.c) (registers operands.a) (registers operands.b) := by
  generalize isA : registers operands.a = a
  generalize isB : registers operands.b = b
  rw [modsi3, returned_remainder, isA, isB]
  by_cases zero : low b = 0
  · rw [if_pos zero]
    refine ⟨fun none => absurd none (Option.some_ne_none _).symm, fun right => ?_⟩
    have lowZero : (low b).toNat = 0 := by
      rw [zero]
      rfl
    cases right with
    | small _ divisor less =>
        rw [toNat_low] at lowZero
        rcases signed_cases b with ⟨_, value⟩ | ⟨_, value⟩ <;> omega
    | positive _ _ _ _ below =>
        rw [zero] at below
        exact absurd below BitVec.not_lt_zero
    | multiple _ _ _ _ nonzero => exact absurd zero nonzero
    | negative _ _ _ _ _ below =>
        rw [zero] at below
        exact absurd below BitVec.not_lt_zero
  · rw [if_neg zero, Option.map_some, Option.some_inj]
    rcases signed_cases a with ⟨_, value⟩ | ⟨least, value⟩
    · exact smod_nonneg_iff zero value
    · exact smod_neg_iff zero least value

end Remainders

/-! ## The runtime -/

/-- What the compiler expects. -/
structure DivisionRuntime : Prop where
  udiv : ∀ operands registers, registers operands.b ≠ 0 →
    udivsi3 operands registers = some (registers operands.a / registers operands.b)
  umod : ∀ operands registers, registers operands.b ≠ 0 →
    umodsi3 operands registers = some (registers operands.a % registers operands.b)
  sdiv : ∀ operands registers, registers operands.b ≠ 0 →
    (divsi3 operands registers).map BitVec.toInt =
      some ((registers operands.a).toInt.tdiv (registers operands.b).toInt)
  smod : ∀ operands registers, registers operands.b ≠ 0 →
    (modsi3 operands registers).map BitVec.toInt =
      some ((registers operands.a).toInt.tmod (registers operands.b).toInt)

/-- For every function the operands with which it is right. -/
theorem division_iff (quotient : Operands [d0, d1, d2, d3]) (remainder : Operands [d0, d1, d2])
    (registers : Registers) :
    (udivsi3 quotient registers = some (registers quotient.a / registers quotient.b) ↔
      UdivRight (registers quotient.a) (registers quotient.b)) ∧
    (umodsi3 remainder registers = some (registers remainder.a % registers remainder.b) ↔
      UmodRight (registers remainder.c) (registers remainder.a) (registers remainder.b)) ∧
    ((divsi3 quotient registers).map BitVec.toInt =
        some ((registers quotient.a).toInt.tdiv (registers quotient.b).toInt) ↔
      SdivRight (registers quotient.a) (registers quotient.b)) ∧
    ((modsi3 remainder registers).map BitVec.toInt =
        some ((registers remainder.a).toInt.tmod (registers remainder.b).toInt) ↔
      SmodRight (registers remainder.c) (registers remainder.a) (registers remainder.b)) :=
  ⟨udivsi3_iff quotient registers, umodsi3_iff remainder registers, divsi3_iff quotient registers,
    modsi3_iff remainder registers⟩

def someOperands : Operands [d0, d1, d2, d3] := ⟨4, 5, 6, by decide⟩

/-- A divisor of 2^16 is trapped. -/
theorem division_traps : ¬DivisionRuntime := by
  intro runtime
  have right := runtime.udiv someOperands (fun register => if register = 6 then 0x10000 else 1)
    (by decide)
  exact absurd right (by decide)

end OrionBios.Libc.Division
