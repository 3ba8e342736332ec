import Mathlib.Algebra.CharP.Two
import Mathlib.Algebra.Field.ZMod
import Mathlib.Algebra.Polynomial.Div
import Mathlib.Data.BitVec

/-!
# Shift registers as remainders of polynomials

A register of `w` bits holds a polynomial over two elements of degree below `w`, with the
highest coefficient in the lowest bit. One clock multiplies it by `X` modulo the polynomial
of the feedback, and a message clocked in leaves the remainder of the whole message.
-/

namespace OrionBios.Crc

open Polynomial

variable {w : Nat} (feedback : BitVec w)

/-- One clock of the register. -/
def shift (c : BitVec w) : BitVec w :=
  if c.getLsbD 0 then feedback ^^^ (c >>> 1) else c >>> 1

/-! ## Linearity -/

theorem shift_xor (a b : BitVec w) :
    shift feedback (a ^^^ b) = shift feedback a ^^^ shift feedback b := by
  unfold shift
  rw [BitVec.getLsbD_xor, BitVec.ushiftRight_xor_distrib]
  cases a.getLsbD 0 <;> cases b.getLsbD 0
  · rfl
  · simp only [Bool.false_xor, if_true, Bool.false_eq_true, if_false]
    ac_rfl
  · simp only [Bool.xor_false, if_true, Bool.false_eq_true, if_false]
    ac_rfl
  · simp only [Bool.xor_self, if_true, Bool.false_eq_true, if_false]
    calc a >>> 1 ^^^ b >>> 1
        = (feedback ^^^ feedback) ^^^ (a >>> 1 ^^^ b >>> 1) := by
          rw [BitVec.xor_self, BitVec.zero_xor]
      _ = _ := by ac_rfl

theorem shifts_xor (n : Nat) (a b : BitVec w) :
    (shift feedback)^[n] (a ^^^ b) = (shift feedback)^[n] a ^^^ (shift feedback)^[n] b := by
  induction n generalizing a b with
  | zero => rfl
  | succ n inductionHypothesis =>
      rw [Function.iterate_succ_apply, Function.iterate_succ_apply, Function.iterate_succ_apply,
        shift_xor, inductionHypothesis]

theorem shifts_clear (n : Nat) {c : BitVec w} (clear : ∀ i < n, c.getLsbD i = false) :
    (shift feedback)^[n] c = c >>> n := by
  induction n with
  | zero => rfl
  | succ n inductionHypothesis =>
      rw [Function.iterate_succ_apply',
        inductionHypothesis fun i less => clear i (Nat.lt_succ_of_lt less)]
      unfold shift
      rw [BitVec.getLsbD_ushiftRight, Nat.add_zero, clear n (Nat.lt_succ_self n), if_neg
        Bool.false_ne_true, BitVec.shiftRight_add]

/-- The low byte goes through the feedback, and the rest only moves down. -/
theorem shifts_byte (c : BitVec w) :
    (shift feedback)^[8] c =
      (shift feedback)^[8] ((c.setWidth 8).setWidth w) ^^^ (c >>> 8) := by
  have split : c = (c.setWidth 8).setWidth w ^^^ (c ^^^ (c.setWidth 8).setWidth w) := by
    rw [BitVec.xor_comm c, ← BitVec.xor_assoc, BitVec.xor_self, BitVec.zero_xor]
  have clear : ∀ i < 8, (c ^^^ (c.setWidth 8).setWidth w).getLsbD i = false := by
    intro i less
    rw [BitVec.getLsbD_xor, BitVec.getLsbD_setWidth, BitVec.getLsbD_setWidth]
    by_cases inside : i < w
    · simp [less, inside]
    · simp [inside, BitVec.getLsbD_of_ge c i (Nat.not_lt.mp inside)]
  have moved : ((c.setWidth 8).setWidth w) >>> 8 = 0#w := by
    apply BitVec.eq_of_getLsbD_eq
    intro i less
    rw [BitVec.getLsbD_ushiftRight, BitVec.getLsbD_setWidth, BitVec.getLsbD_setWidth]
    simp
  conv_lhs => rw [split]
  rw [shifts_xor, shifts_clear feedback 8 clear, BitVec.ushiftRight_xor_distrib, moved,
    BitVec.xor_zero]

/-! ## The polynomial in a register -/

/-- The polynomial that a register holds. -/
noncomputable def value (c : BitVec w) : (ZMod 2)[X] :=
  ∑ i ∈ Finset.range w, if c.getLsbD i then X ^ (w - 1 - i) else 0

/-- The polynomial of the feedback, with the coefficient of the bit that leaves. -/
noncomputable def modulus : (ZMod 2)[X] := X ^ w + value feedback

theorem value_coeff (c : BitVec w) (j : Nat) :
    (value c).coeff j = if j < w ∧ c.getLsbD (w - 1 - j) then 1 else 0 := by
  unfold value
  rw [finsetSum_coeff]
  by_cases inside : j < w
  · rw [Finset.sum_eq_single (w - 1 - j)]
    · have same : w - 1 - (w - 1 - j) = j := by omega
      rw [same]
      cases c.getLsbD (w - 1 - j) <;> simp [inside]
    · intro i member other
      have less := Finset.mem_range.mp member
      cases c.getLsbD i
      · simp
      · rw [if_pos rfl, coeff_X_pow, if_neg (by omega)]
    · intro outside
      exact absurd (Finset.mem_range.mpr (by omega)) outside
  · rw [if_neg fun both => inside both.1]
    apply Finset.sum_eq_zero
    intro i member
    have less := Finset.mem_range.mp member
    cases c.getLsbD i
    · simp
    · rw [if_pos rfl, coeff_X_pow, if_neg (by omega)]

/-- A register is the only one that holds its polynomial. -/
theorem value_injective : Function.Injective (value : BitVec w → (ZMod 2)[X]) := by
  intro a b same
  apply BitVec.eq_of_getLsbD_eq
  intro i less
  have coefficient := congrArg (fun p => p.coeff (w - 1 - i)) same
  simp only [value_coeff] at coefficient
  have back : w - 1 - (w - 1 - i) = i := by omega
  have inside : w - 1 - i < w := by omega
  rw [back] at coefficient
  cases left : a.getLsbD i <;> cases right : b.getLsbD i <;> simp_all

theorem degree_value_lt (c : BitVec w) : (value c).degree < w := by
  rw [degree_lt_iff_coeff_zero]
  intro j above
  rw [value_coeff, if_neg fun both => absurd both.1 (Nat.not_lt.mpr above)]

theorem monic_modulus : (modulus feedback).Monic := monic_X_pow_add (degree_value_lt feedback)

theorem degree_modulus : (modulus feedback).degree = w := by
  unfold modulus
  rw [degree_add_eq_left_of_degree_lt]
  · exact degree_X_pow w
  · rw [degree_X_pow]
    exact degree_value_lt feedback

theorem value_xor (a b : BitVec w) : value (a ^^^ b) = value a + value b := by
  ext j
  rw [coeff_add, value_coeff, value_coeff, value_coeff, BitVec.getLsbD_xor]
  by_cases inside : j < w
  · cases a.getLsbD (w - 1 - j) <;> cases b.getLsbD (w - 1 - j) <;>
      simp [inside, CharTwo.add_self_eq_zero]
  · simp [inside]

theorem value_remainder (c : BitVec w) : value c %ₘ modulus feedback = value c := by
  rw [modByMonic_eq_self_iff (monic_modulus feedback), degree_modulus]
  exact degree_value_lt c

/-- A clock multiplies by `X`; the bit that leaves takes the modulus with it. -/
theorem value_shift (positive : 0 < w) (c : BitVec w) :
    X * value c = value (shift feedback c) + if c.getLsbD 0 then modulus feedback else 0 := by
  have moved : X * value c = value (c >>> 1) + if c.getLsbD 0 then X ^ w else 0 := by
    ext j
    cases j with
    | zero =>
        rw [coeff_X_mul_zero, coeff_add, value_coeff, BitVec.getLsbD_ushiftRight]
        have top : 1 + (w - 1 - 0) = w := by omega
        have apart : ¬ 0 = w := by omega
        rw [top, BitVec.getLsbD_of_ge c w (Nat.le_refl w)]
        cases c.getLsbD 0
        · simp
        · rw [if_pos rfl, coeff_X_pow, if_neg apart]
          simp
    | succ j =>
        rw [coeff_X_mul, coeff_add, value_coeff, value_coeff, BitVec.getLsbD_ushiftRight]
        rcases Nat.lt_trichotomy (j + 1) w with inside | last | outside
        · have same : 1 + (w - 1 - (j + 1)) = w - 1 - j := by omega
          have below : j < w := by omega
          have apart : ¬ j + 1 = w := by omega
          rw [same]
          cases c.getLsbD 0 <;> simp [inside, below, coeff_X_pow, apart]
        · have same : w - 1 - j = 0 := by omega
          have below : j < w := by omega
          rw [same]
          cases c.getLsbD 0 <;> simp [below, coeff_X_pow, last]
        · have above : ¬ j < w := by omega
          have above' : ¬ j + 1 < w := by omega
          have apart : ¬ j + 1 = w := by omega
          cases c.getLsbD 0 <;> simp [above, above', coeff_X_pow, apart]
  rw [moved]
  unfold shift
  cases c.getLsbD 0
  · simp
  · rw [if_pos rfl, if_pos rfl, if_pos rfl, value_xor, modulus]
    calc value (c >>> 1) + X ^ w
        = (value feedback + value feedback) + (value (c >>> 1) + X ^ w) := by
          rw [CharTwo.add_self_eq_zero, zero_add]
      _ = _ := by ring

theorem shift_remainder (positive : 0 < w) (c : BitVec w) :
    (X * value c) %ₘ modulus feedback = value (shift feedback c) := by
  rw [value_shift feedback positive, add_modByMonic, value_remainder]
  cases c.getLsbD 0
  · simp
  · rw [if_pos rfl, modByMonic_self (monic_modulus feedback), add_zero]

theorem shifts_remainder (positive : 0 < w) (n : Nat) (c : BitVec w) :
    (X ^ n * value c) %ₘ modulus feedback = value ((shift feedback)^[n] c) := by
  induction n with
  | zero =>
      rw [pow_zero, one_mul, value_remainder]
      rfl
  | succ n inductionHypothesis =>
      rw [Function.iterate_succ_apply', ← shift_remainder feedback positive,
        ← inductionHypothesis, pow_succ', mul_assoc, mul_modByMonic X (X ^ n * value c),
        mul_modByMonic X ((X ^ n * value c) %ₘ _),
        (modByMonic_eq_self_iff (monic_modulus feedback)).mpr
          (degree_modByMonic_lt (X ^ n * value c) (monic_modulus feedback))]

/-! ## Messages -/

def clockByte (c : BitVec w) (byte : BitVec 8) : BitVec w :=
  (shift feedback)^[8] (c ^^^ byte.setWidth w)

/-- The bits of a message, the first one highest and each byte from its lowest bit. -/
noncomputable def message : List (BitVec 8) → (ZMod 2)[X]
  | [] => 0
  | byte :: bytes => X ^ (8 * bytes.length) * value byte + message bytes

theorem value_setWidth (wide : 8 ≤ w) (byte : BitVec 8) :
    value (byte.setWidth w) = X ^ (w - 8) * value byte := by
  ext j
  rw [value_coeff, coeff_X_pow_mul', BitVec.getLsbD_setWidth]
  by_cases low : w - 8 ≤ j
  · rw [if_pos low, value_coeff]
    have same : 8 - 1 - (j - (w - 8)) = w - 1 - j ∨ w ≤ j := by omega
    rcases same with same | above
    · rw [same]
      by_cases inside : j < w
      · have below : w - 1 - j < w := by omega
        have below' : j - (w - 8) < 8 := by omega
        simp [inside, below, below']
      · have above' : ¬ j - (w - 8) < 8 := by omega
        simp [inside, above']
    · have above' : ¬ j < w := by omega
      have above'' : ¬ j - (w - 8) < 8 := by omega
      simp [above', above'']
  · rw [if_neg low, BitVec.getLsbD_of_ge byte _ (by omega)]
    simp

theorem clockByte_remainder (wide : 8 ≤ w) (c : BitVec w) (byte : BitVec 8) :
    (X ^ 8 * value c + X ^ w * value byte) %ₘ modulus feedback =
      value (clockByte feedback c byte) := by
  unfold clockByte
  rw [← shifts_remainder feedback (by omega), value_xor, value_setWidth wide]
  have exponent : (X ^ w : (ZMod 2)[X]) = X ^ 8 * X ^ (w - 8) := by
    rw [← pow_add]
    congr 1
    omega
  rw [exponent, mul_add, mul_assoc]

theorem clocked_remainder (wide : 8 ≤ w) (bytes : List (BitVec 8)) (c : BitVec w) :
    (X ^ (8 * bytes.length) * value c + X ^ w * message bytes) %ₘ modulus feedback =
      value (bytes.foldl (clockByte feedback) c) := by
  induction bytes generalizing c with
  | nil =>
      rw [message, mul_zero, add_zero, List.length_nil, Nat.mul_zero, pow_zero, one_mul,
        value_remainder]
      rfl
  | cons byte bytes inductionHypothesis =>
      rw [List.foldl_cons, ← inductionHypothesis, message, List.length_cons]
      apply modByMonic_eq_of_dvd_sub (monic_modulus feedback)
      have reduced := dvd_modByMonic_sub (X ^ 8 * value c + X ^ w * value byte)
        (modulus feedback)
      rw [clockByte_remainder feedback wide] at reduced
      have scaled := (dvd_mul_of_dvd_right reduced (X ^ (8 * bytes.length))).neg_right
      refine scaled.trans (dvd_of_eq ?_)
      rw [Nat.mul_succ, pow_add]
      ring

end OrionBios.Crc
