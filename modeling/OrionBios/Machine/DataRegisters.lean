import Mathlib.Logic.Function.Basic
import Mathlib.Algebra.GroupWithZero.Nat

/-!
# Data registers

The instructions of the 68000 that work on data registers alone. A word instruction leaves the upper
half of its destination as it is.
-/

namespace OrionBios.Machine.DataRegisters

abbrev Half := BitVec 16

abbrev Long := BitVec 32

abbrev Register := Fin 8

abbrev Registers := Register → Long

/-! ## Halves -/

def low (value : Long) : Half := value.setWidth 16

def high (value : Long) : Half := value.extractLsb' 16 16

variable {upper lower other : Half} {value : Long}

theorem toNat_append (upper lower : Half) :
    (upper ++ lower : Long).toNat = upper.toNat * 0x10000 + lower.toNat := by
  rw [BitVec.toNat_append, ← Nat.shiftLeft_add_eq_or_of_lt lower.isLt, Nat.shiftLeft_eq]

theorem toNat_low (value : Long) : (low value).toNat = value.toNat % 0x10000 :=
  BitVec.toNat_setWidth 16 value

theorem toNat_high (value : Long) : (high value).toNat = value.toNat / 0x10000 := by
  rw [high, BitVec.extractLsb'_toNat, Nat.shiftRight_eq_div_pow]
  exact Nat.mod_eq_of_lt (Nat.div_lt_of_lt_mul value.isLt)

@[simp] theorem low_append : low (upper ++ lower) = lower := by
  have lowerLess := lower.isLt
  apply BitVec.eq_of_toNat_eq
  rw [toNat_low, toNat_append]
  omega

@[simp] theorem high_append : high (upper ++ lower) = upper := by
  have lowerLess := lower.isLt
  apply BitVec.eq_of_toNat_eq
  rw [toNat_high, toNat_append]
  omega

theorem high_append_low (value : Long) : high value ++ low value = value := by
  apply BitVec.eq_of_toNat_eq
  rw [toNat_append, toNat_high, toNat_low, Nat.div_add_mod']

theorem append_inj {upper' lower' : Half} (same : upper ++ lower = upper' ++ lower') :
    upper = upper' ∧ lower = lower' := by
  have uppers := congrArg high same
  have lowers := congrArg low same
  rw [high_append, high_append] at uppers
  rw [low_append, low_append] at lowers
  exact ⟨uppers, lowers⟩

theorem append_add (upper lower : Half) :
    (upper ++ (0 : Half) : Long) + ((0 : Half) ++ lower) = upper ++ lower := by
  have upperLess := upper.isLt
  have lowerLess := lower.isLt
  have none : (0 : Half).toNat = 0 := rfl
  apply BitVec.eq_of_toNat_eq
  rw [BitVec.toNat_add, toNat_append, toNat_append, toNat_append, none, Nat.mod_eq_of_lt (by omega)]
  omega

/-! ## The instructions -/

inductive Instruction where
  | clrL (destination : Register)
  | clrW (destination : Register)
  | moveL (source destination : Register)
  | moveW (source destination : Register)
  | swap (destination : Register)
  | addL (source destination : Register)
  | divu (source destination : Register)
  | mulu (source destination : Register)

/-- `divu`: the remainder and the quotient, or the dividend where the quotient has no room; zero is
trapped. -/
def divide (divisor : Half) (dividend : Long) : Option Long :=
  if divisor = 0 then none
  else if dividend.toNat / divisor.toNat < 0x10000 then
    some (BitVec.ofNat 16 (dividend.toNat % divisor.toNat) ++
      BitVec.ofNat 16 (dividend.toNat / divisor.toNat))
  else some dividend

/-- `mulu`: the whole product of two low halves. -/
def multiply (first second : Half) : Long := first.setWidth 32 * second.setWidth 32

def exec (registers : Registers) : Instruction → Option Registers
  | .clrL destination => some (Function.update registers destination 0)
  | .clrW destination =>
      some (Function.update registers destination (high (registers destination) ++ (0 : Half)))
  | .moveL source destination =>
      some (Function.update registers destination (registers source))
  | .moveW source destination =>
      some (Function.update registers destination
        (high (registers destination) ++ low (registers source)))
  | .swap destination =>
      some (Function.update registers destination
        (low (registers destination) ++ high (registers destination)))
  | .addL source destination =>
      some (Function.update registers destination (registers destination + registers source))
  | .divu source destination =>
      (divide (low (registers source)) (registers destination)).map
        (Function.update registers destination)
  | .mulu source destination =>
      some (Function.update registers destination
        (multiply (low (registers source)) (low (registers destination))))

def run : List Instruction → Registers → Option Registers
  | [], registers => some registers
  | instruction :: rest, registers => (exec registers instruction).bind (run rest)

theorem run_append (first second : List Instruction) (registers : Registers) :
    run (first ++ second) registers = (run first registers).bind (run second) := by
  induction first generalizing registers with
  | nil => rfl
  | cons instruction rest inductionHypothesis =>
      rw [List.cons_append, run, run]
      cases exec registers instruction with
      | none => rfl
      | some after => exact inductionHypothesis after

theorem divide_fits {divisor : Half} {dividend : Long} (nonzero : divisor ≠ 0)
    (fits : dividend.toNat < divisor.toNat * 0x10000) :
    divide divisor dividend = some (BitVec.ofNat 16 (dividend.toNat % divisor.toNat) ++
      BitVec.ofNat 16 (dividend.toNat / divisor.toNat)) := by
  rw [divide, if_neg nonzero, if_pos (Nat.div_lt_of_lt_mul fits)]

theorem divide_zero (dividend : Long) : divide 0 dividend = none := if_pos rfl

theorem toNat_multiply (first second : Half) :
    (multiply first second).toNat = first.toNat * second.toNat := by
  have fits : first.toNat * second.toNat < 2 ^ 16 * 2 ^ 16 :=
    Nat.mul_lt_mul'' first.isLt second.isLt
  rw [multiply, BitVec.toNat_mul, BitVec.toNat_setWidth_of_le (by decide),
    BitVec.toNat_setWidth_of_le (by decide)]
  exact Nat.mod_eq_of_lt fits

/-! ## Two divisions make a long one -/

theorem long_division (upper lower radix : Nat) {divisor : Nat} (positive : 0 < divisor) :
    (upper * radix + lower) / divisor =
        upper / divisor * radix + (upper % divisor * radix + lower) / divisor ∧
      (upper * radix + lower) % divisor = (upper % divisor * radix + lower) % divisor := by
  have split : upper * radix + lower =
      divisor * (upper / divisor * radix) + (upper % divisor * radix + lower) := by
    conv => lhs; rw [← Nat.div_add_mod upper divisor]
    rw [Nat.add_mul, Nat.mul_assoc, Nat.add_assoc]
  rw [split, Nat.mul_add_div positive, Nat.mul_add_mod]
  exact ⟨rfl, rfl⟩

end OrionBios.Machine.DataRegisters
