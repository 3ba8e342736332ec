import Mathlib.Data.BitVec
import Mathlib.Tactic.Common

/-!
# Byte memory of a 32-bit big-endian machine

Memory is a function from addresses to bytes. A word is four consecutive bytes,
most significant first, as the 68000 stores it. Address sums wrap at 2^32, so a
range of bytes is given by the distance from its first byte.
-/

namespace OrionBios.Machine

abbrev Word := BitVec 32

abbrev Address := Word

abbrev Memory := Address → BitVec 8

def load32 (memory : Memory) (address : Address) : Word :=
  (memory address ++ memory (address + 1)) ++ (memory (address + 2) ++ memory (address + 3))

def store8 (memory : Memory) (address : Address) (byte : BitVec 8) : Memory :=
  fun other => if other = address then byte else memory other

def store32 (memory : Memory) (address : Address) (value : Word) : Memory :=
  fun other =>
    if other = address then value.extractLsb' 24 8
    else if other = address + 1 then value.extractLsb' 16 8
    else if other = address + 2 then value.extractLsb' 8 8
    else if other = address + 3 then value.extractLsb' 0 8
    else memory other

/-- The byte `other` is one of the `length` bytes from `address` on. -/
def Within (address : Address) (length : Nat) (other : Address) : Prop :=
  (other - address).toNat < length

instance (address : Address) (length : Nat) (other : Address) :
    Decidable (Within address length other) := Nat.decLt _ _

variable {memory : Memory} {address other : Address} {value : Word}

theorem store8_outside {byte : BitVec 8} (outside : ¬ Within address 1 other) :
    store8 memory address byte other = memory other := by
  have apart : other ≠ address := by
    rintro rfl
    simp [Within] at outside
  rw [store8, if_neg apart]

theorem store32_outside (outside : ¬ Within address 4 other) :
    store32 memory address value other = memory other := by
  unfold Within at outside
  unfold store32
  rw [if_neg (by bv_omega), if_neg (by bv_omega), if_neg (by bv_omega), if_neg (by bv_omega)]

theorem load32_congr {memory' : Memory}
    (same : ∀ other, Within address 4 other → memory' other = memory other) :
    load32 memory' address = load32 memory address := by
  have first : memory' address = memory address := same _ (by simp [Within])
  have second : memory' (address + 1) = memory (address + 1) := same _ (by simp [Within])
  have third : memory' (address + 2) = memory (address + 2) := same _ (by simp [Within])
  have fourth : memory' (address + 3) = memory (address + 3) := same _ (by simp [Within])
  unfold load32
  rw [first, second, third, fourth]

theorem load32_store32_same : load32 (store32 memory address value) address = value := by
  have upper : value.extractLsb' 24 8 ++ value.extractLsb' 16 8 = value.extractLsb' 16 16 :=
    BitVec.extractLsb'_append_extractLsb'_eq_extractLsb' (by rfl)
  have lower : value.extractLsb' 8 8 ++ value.extractLsb' 0 8 = value.extractLsb' 0 16 :=
    BitVec.extractLsb'_append_extractLsb'_eq_extractLsb' (by rfl)
  have whole : value.extractLsb' 16 16 ++ value.extractLsb' 0 16 = value :=
    BitVec.extractLsb'_append_extractLsb'
  have bytes : load32 (store32 memory address value) address =
      (value.extractLsb' 24 8 ++ value.extractLsb' 16 8) ++
        (value.extractLsb' 8 8 ++ value.extractLsb' 0 8) := by
    unfold load32 store32
    simp
  rw [bytes, upper, lower, whole]

theorem load32_store32_apart
    (apart : ∀ byte, Within other 4 byte → ¬ Within address 4 byte) :
    load32 (store32 memory address value) other = load32 memory other := by
  apply load32_congr
  intro byte within
  exact store32_outside (apart byte within)

/-- Two words at ascending addresses that do not run over the end of memory share no byte. -/
theorem words_apart (below : address.toNat + 4 ≤ other.toNat) (fits : other.toNat + 4 ≤ 2 ^ 32)
    {byte : Address} : ¬ (Within address 4 byte ∧ Within other 4 byte) := by
  unfold Within
  rintro ⟨inFirst, inSecond⟩
  bv_omega

/-- Rounding down with the mask `-unit` removes what the mask `unit - 1` keeps. -/
theorem and_neg_add_and (value unit : Word) :
    (value &&& -unit).toNat + (value &&& (unit - 1)).toNat = value.toNat := by
  have mask : -unit = ~~~(unit - 1) := by
    rw [BitVec.not_eq_neg_add, BitVec.neg_sub]
    bv_omega
  have disjoint : (value &&& -unit) &&& (value &&& (unit - 1)) = 0 := by
    rw [mask]
    generalize unit - 1 = low
    ext index
    simp
    grind
  have whole : (value &&& -unit) ||| (value &&& (unit - 1)) = value := by
    rw [mask]
    generalize unit - 1 = low
    ext index
    simp only [BitVec.getElem_or, BitVec.getElem_and, BitVec.getElem_not]
    grind
  calc (value &&& -unit).toNat + (value &&& (unit - 1)).toNat
      = ((value &&& -unit) + (value &&& (unit - 1))).toNat :=
        (BitVec.toNat_add_of_and_eq_zero disjoint).symm
    _ = ((value &&& -unit) ||| (value &&& (unit - 1))).toNat := by
        rw [BitVec.add_eq_or_of_and_eq_zero _ _ disjoint]
    _ = value.toNat := by rw [whole]

end OrionBios.Machine
