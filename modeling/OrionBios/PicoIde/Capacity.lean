import OrionBios.PicoIde.SdDriver
import Mathlib.Tactic.IntervalCases
import Mathlib.Tactic.Positivity

/-!
# The capacity in the CSD

The register is one number of 128 bits, and its fields are cut out of it where the SD
specification has them. The firmware rebuilds them from the bytes.
-/

namespace OrionBios.PicoIde

/-- The register, with its first byte on top. -/
def register (csd : Csd) : BitVec 128 :=
  (csd 0).setWidth 128 <<< 120 ||| (csd 1).setWidth 128 <<< 112 |||
    (csd 2).setWidth 128 <<< 104 ||| (csd 3).setWidth 128 <<< 96 |||
    (csd 4).setWidth 128 <<< 88 ||| (csd 5).setWidth 128 <<< 80 |||
    (csd 6).setWidth 128 <<< 72 ||| (csd 7).setWidth 128 <<< 64 |||
    (csd 8).setWidth 128 <<< 56 ||| (csd 9).setWidth 128 <<< 48 |||
    (csd 10).setWidth 128 <<< 40 ||| (csd 11).setWidth 128 <<< 32 |||
    (csd 12).setWidth 128 <<< 24 ||| (csd 13).setWidth 128 <<< 16 |||
    (csd 14).setWidth 128 <<< 8 ||| (csd 15).setWidth 128

namespace Csd

def CSD_STRUCTURE (csd : Csd) : BitVec 2 := (register csd).extractLsb' 126 2

def READ_BL_LEN (csd : Csd) : BitVec 4 := (register csd).extractLsb' 80 4

def C_SIZE (csd : Csd) : BitVec 12 := (register csd).extractLsb' 62 12

def C_SIZE_MULT (csd : Csd) : BitVec 3 := (register csd).extractLsb' 47 3

/-- `C_SIZE` of version 2. -/
def C_SIZE_2 (csd : Csd) : BitVec 22 := (register csd).extractLsb' 48 22

/-- The capacity in sectors of 512 bytes, for the two versions that have one. -/
def capacity (csd : Csd) : Option Nat :=
  if csd.CSD_STRUCTURE = 0 then
    some ((csd.C_SIZE.toNat + 1) * 2 ^ (csd.C_SIZE_MULT.toNat + 2) * 2 ^ csd.READ_BL_LEN.toNat / 512)
  else if csd.CSD_STRUCTURE = 1 then some ((csd.C_SIZE_2.toNat + 1) * 1024)
  else none

/-- A register of version 1 has one of the three block lengths of the specification. -/
def Wellformed (csd : Csd) : Prop :=
  csd.CSD_STRUCTURE = 0 → 9 ≤ csd.READ_BL_LEN.toNat ∧ csd.READ_BL_LEN.toNat ≤ 11

/-- The firmware's number is the capacity, and 0 stands for another version only. -/
structure Counted (csd : Csd) : Prop where
  exact : ∀ sectors, csd.capacity = some sectors → (csdToSectors csd).toNat = sectors
  zero : csdToSectors csd = 0 → csd.capacity = none

/-! ## The fields -/

theorem version_eq (csd : Csd) : csd 0 >>> 6 = csd.CSD_STRUCTURE.setWidth 8 := by
  apply BitVec.eq_of_getLsbD_eq
  intro i less
  interval_cases i <;> simp [CSD_STRUCTURE, register]

theorem blockLength_eq (csd : Csd) :
    (csd 5).zeroExtend 32 &&& 0x0F = csd.READ_BL_LEN.setWidth 32 := by
  apply BitVec.eq_of_getLsbD_eq
  intro i less
  interval_cases i <;> simp [READ_BL_LEN, register]

theorem size_eq (csd : Csd) :
    (csd 6 &&& 0x03).zeroExtend 32 <<< 10 ||| (csd 7).zeroExtend 32 <<< 2 |||
      (csd 8 >>> 6).zeroExtend 32 = csd.C_SIZE.setWidth 32 := by
  apply BitVec.eq_of_getLsbD_eq
  intro i less
  interval_cases i <;> simp [C_SIZE, register]

theorem multiplier_eq (csd : Csd) :
    (csd 9 &&& 0x03).zeroExtend 32 <<< 1 ||| (csd 10 >>> 7).zeroExtend 32 =
      csd.C_SIZE_MULT.setWidth 32 := by
  apply BitVec.eq_of_getLsbD_eq
  intro i less
  interval_cases i <;> simp [C_SIZE_MULT, register]

theorem size2_eq (csd : Csd) :
    (csd 7 &&& 0x3F).zeroExtend 32 <<< 16 ||| (csd 8).zeroExtend 32 <<< 8 |||
      (csd 9).zeroExtend 32 = csd.C_SIZE_2.setWidth 32 := by
  apply BitVec.eq_of_getLsbD_eq
  intro i less
  interval_cases i <;> simp [C_SIZE_2, register]

end Csd

/-! ## The two versions -/

theorem csdToSectors_two {csd : Csd} (two : csd.CSD_STRUCTURE = 1) :
    (csdToSectors csd).toNat = (csd.C_SIZE_2.toNat + 1) * 1024 % 2 ^ 32 := by
  have version : csd 0 >>> 6 = 1 := by
    rw [csd.version_eq, two]
    rfl
  have bound := csd.C_SIZE_2.isLt
  simp only [csdToSectors, if_pos version, csd.size2_eq]
  rw [BitVec.toNat_mul, BitVec.toNat_add, BitVec.toNat_setWidth_of_le (by decide)]
  have small : (csd.C_SIZE_2.toNat + 1) % 2 ^ 32 = csd.C_SIZE_2.toNat + 1 :=
    Nat.mod_eq_of_lt (by omega)
  show (csd.C_SIZE_2.toNat + 1) % 2 ^ 32 * 1024 % 2 ^ 32 = _
  rw [small]

theorem pow_bounds {m n : Nat} (le : m ≤ n) : 2 ^ m ≤ 2 ^ n := Nat.pow_le_pow_right (by decide) le

theorem csdToSectors_one {csd : Csd} (one : csd.CSD_STRUCTURE = 0)
    (length : csd.READ_BL_LEN.toNat ≤ 11) :
    (csdToSectors csd).toNat =
      (csd.C_SIZE.toNat + 1) * 2 ^ (csd.C_SIZE_MULT.toNat + 2) * 2 ^ csd.READ_BL_LEN.toNat / 512 := by
  have version : csd 0 >>> 6 = 0 := by
    rw [csd.version_eq, one]
    rfl
  have other : ¬ csd 0 >>> 6 = 1 := by
    rw [version]
    decide
  have size := csd.C_SIZE.isLt
  have multiplier := csd.C_SIZE_MULT.isLt
  have first : 2 ^ (csd.C_SIZE_MULT.toNat + 2) ≤ 2 ^ 9 := pow_bounds (by omega)
  have second : 2 ^ csd.READ_BL_LEN.toNat ≤ 2 ^ 11 := pow_bounds length
  have inner : (csd.C_SIZE.toNat + 1) * 2 ^ (csd.C_SIZE_MULT.toNat + 2) ≤ 2 ^ 12 * 2 ^ 9 :=
    Nat.mul_le_mul (by omega) first
  have product := Nat.mul_le_mul inner second
  simp only [csdToSectors, if_neg other, if_pos version, csd.size_eq, csd.blockLength_eq,
    csd.multiplier_eq]
  have sizeNat : (csd.C_SIZE.setWidth 32 + 1).toNat = csd.C_SIZE.toNat + 1 := by
    rw [BitVec.toNat_add, BitVec.toNat_setWidth_of_le (by decide)]
    exact Nat.mod_eq_of_lt (by show _ + 1 < _; omega)
  have multNat : (csd.C_SIZE_MULT.setWidth 32 + 2).toNat = csd.C_SIZE_MULT.toNat + 2 := by
    rw [BitVec.toNat_add, BitVec.toNat_setWidth_of_le (by decide)]
    exact Nat.mod_eq_of_lt (by show _ + 2 < _; omega)
  have lengthNat : (csd.READ_BL_LEN.setWidth 32).toNat = csd.READ_BL_LEN.toNat :=
    BitVec.toNat_setWidth_of_le (by decide)
  rw [multNat, lengthNat, BitVec.truncate, BitVec.toNat_setWidth, BitVec.toNat_udiv,
    BitVec.toNat_shiftLeft, BitVec.toNat_shiftLeft, BitVec.zeroExtend,
    BitVec.toNat_setWidth_of_le (by decide), sizeNat, Nat.shiftLeft_eq, Nat.shiftLeft_eq,
    Nat.mod_eq_of_lt (a := (csd.C_SIZE.toNat + 1) * 2 ^ (csd.C_SIZE_MULT.toNat + 2)) (by omega),
    Nat.mod_eq_of_lt (b := 2 ^ 64) (by omega)]
  exact Nat.mod_eq_of_lt (by show _ / 512 < _; omega)

/-- The firmware counts the sectors of a card, unless it is one of 2 TiB. -/
theorem csd_counted_iff (csd : Csd) (wellformed : csd.Wellformed) :
    csd.Counted ↔ ¬ (csd.CSD_STRUCTURE = 1 ∧ csd.C_SIZE_2 = 0x3FFFFF) := by
  constructor
  · rintro counted ⟨two, last⟩
    have capacity : csd.capacity = some ((csd.C_SIZE_2.toNat + 1) * 1024) := by
      rw [Csd.capacity, if_neg (by rw [two]; decide), if_pos two]
    have exact := counted.exact _ capacity
    rw [csdToSectors_two two, last] at exact
    exact absurd exact (by decide)
  · intro smaller
    have exact : ∀ sectors, csd.capacity = some sectors →
        (csdToSectors csd).toNat = sectors ∧ 0 < sectors := by
      intro sectors capacity
      unfold Csd.capacity at capacity
      split at capacity
      case isTrue one =>
        cases capacity
        obtain ⟨least, most⟩ := wellformed one
        refine ⟨csdToSectors_one one most, ?_⟩
        have block : 2 ^ 9 ≤ 2 ^ csd.READ_BL_LEN.toNat := pow_bounds least
        have blocks : 0 < (csd.C_SIZE.toNat + 1) * 2 ^ (csd.C_SIZE_MULT.toNat + 2) := by
          positivity
        have product := Nat.mul_le_mul blocks block
        omega
      case isFalse =>
        split at capacity
        case isTrue two =>
          cases capacity
          have below : csd.C_SIZE_2.toNat ≠ 0x3FFFFF := fun last =>
            smaller ⟨two, BitVec.eq_of_toNat_eq last⟩
          have bound := csd.C_SIZE_2.isLt
          rw [csdToSectors_two two]
          exact ⟨Nat.mod_eq_of_lt (by omega), by omega⟩
        case isFalse => cases capacity
    refine ⟨fun sectors capacity => (exact sectors capacity).1, fun none => ?_⟩
    by_contra some
    obtain ⟨sectors, capacity⟩ := Option.ne_none_iff_exists'.mp some
    obtain ⟨number, positive⟩ := exact sectors capacity
    rw [none] at number
    exact absurd positive (by rw [← number]; decide)

/-- A card of 32 GB. -/
def sdhc32 : Csd := fun i =>
  [0x40, 0x0E, 0, 0x32, 0x5B, 0x59, 0, 0, 0xEE, 0xFF, 0x7F, 0x80, 0x0A, 0x40, 0, 0x01].getD i.val 0

theorem csd_counted_iff_sdhc32 : sdhc32.Counted :=
  (csd_counted_iff sdhc32 (fun one => absurd one (by decide))).mpr (by decide)

/-- A card of version 2 with the largest size. -/
def largest : Csd := fun i => if i = 0 then 0x40 else 0xFF

/-- It is taken for a card of another version. -/
theorem largest_counts_as_none : ¬ ∀ csd : Csd, csd.Wellformed → csd.Counted := by
  intro counts
  have counted := counts largest fun one => absurd one (by decide)
  exact absurd (counted.zero (by decide)) (by decide)

end OrionBios.PicoIde
