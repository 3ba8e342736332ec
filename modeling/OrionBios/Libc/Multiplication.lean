import OrionBios.Libc.Division
import Mathlib.Tactic.Ring

/-!
# The multiplication runtime

`__mulsi3`, which makes a product of 32 bits from three of halves. As for the division the compiler
chooses the registers of the operands.
-/

namespace OrionBios.Libc.Multiplication

open Machine.DataRegisters Division

/-! ## The text -/

def productText (a b c : Register) : List Instruction :=
  [ .moveL a d0,  -- low a
    .moveL d0 d1, .swap d1,  -- high a
    .moveL b d2,  -- low b
    .moveL d2 d3, .swap d3,  -- high b
    .mulu d2 d0,
    .mulu d1 d2,
    .moveW a d1, .mulu d3 d1,
    .swap d1, .clrW d1,
    .swap d2, .clrW d2,
    .addL d2 d0, .addL d1 d0, .moveL d0 c ]

def mulsi3 (operands : Operands [d0, d1, d2, d3]) (registers : Registers) : Option Long :=
  returned productText operands registers

/-! ## The three products -/

/-- The products of the halves, as the last additions find them. -/
def partialSum (a b : Long) : Long :=
  multiply (low b) (low a) + (low (multiply (high a) (low b)) ++ (0 : Half)) +
    (low (multiply (high b) (low a)) ++ (0 : Half))

theorem apart_product {register : Register} (apart : register ∉ [d0, d1, d2, d3]) :
    register ≠ 0 ∧ register ≠ 1 ∧ register ≠ 2 ∧ register ≠ 3 := by
  simpa only [List.mem_cons, List.not_mem_nil, or_false, not_or] using apart

theorem run_productText {registers : Registers} {a b c : Register} (apartA : a ∉ [d0, d1, d2, d3])
    (apartB : b ∉ [d0, d1, d2, d3]) :
    (run (productText a b c) registers).map (fun after => after c) =
      some (partialSum (registers a) (registers b)) := by
  obtain ⟨a0, a1, a2, a3⟩ := apart_product apartA
  obtain ⟨b0, b1, -, -⟩ := apart_product apartB
  simp [productText, run, exec, d0, d1, d2, d3, a0, a1, a2, a3, b0, b1, partialSum]

/-- The product of the high halves lies beyond 32 bits, as do the upper halves of the mixed ones. -/
theorem partialSum_eq (a b : Long) : partialSum a b = a * b := by
  have none : (0 : Half).toNat = 0 := rfl
  have product : a.toNat * b.toNat =
      (high a).toNat * (high b).toNat * 0x100000000 +
        ((high a).toNat * (low b).toNat + (high b).toNat * (low a).toNat) * 0x10000 +
        (low b).toNat * (low a).toNat := by
    rw [← high_low_number a, ← high_low_number b]
    ring
  apply BitVec.eq_of_toNat_eq
  rw [partialSum, BitVec.toNat_add, BitVec.toNat_add, toNat_append, toNat_append, toNat_low,
    toNat_low, toNat_multiply, toNat_multiply, toNat_multiply, none, BitVec.toNat_mul, product]
  omega

/-- The product modulo 2^32, for unsigned and for signed numbers. -/
theorem mulsi3_product (operands : Operands [d0, d1, d2, d3]) (registers : Registers) :
    ∃ product, mulsi3 operands registers = some product ∧
      product.toNat = (registers operands.a).toNat * (registers operands.b).toNat % 2 ^ 32 ∧
      product.toInt =
        ((registers operands.a).toInt * (registers operands.b).toInt).bmod (2 ^ 32) := by
  refine ⟨registers operands.a * registers operands.b, ?_, BitVec.toNat_mul _ _,
    BitVec.toInt_mul _ _⟩
  rw [mulsi3, returned, run_productText (operands.apart _ (by simp)) (operands.apart _ (by simp)),
    partialSum_eq]

end OrionBios.Libc.Multiplication
