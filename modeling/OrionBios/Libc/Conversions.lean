import OrionBios.Libc.Numerals

/-!
# What the conversions without division write

`itox`, `itooct`, `itoudec` and `itodec` write canonical numerals into twelve bytes. The loops that
subtract are followed here to their own end, not for a given number of rounds.
-/

namespace OrionBios.Libc.Conversions

open Machine Digits

/-! ## The loops that subtract -/

/-- `while (value >= power) { value -= power; digit++; }` -/
inductive SubtractRun (power : Word) : Word → Nat → Word → Nat → Prop
  | stop {value : Word} {digit : Nat} (less : ¬power ≤ value) :
      SubtractRun power value digit value digit
  | again {value rest : Word} {digit counted : Nat} (enough : power ≤ value)
      (further : SubtractRun power (value - power) (digit + 1) rest counted) :
      SubtractRun power value digit rest counted

/-- The loop over the table of powers, with the digits that it counts. -/
inductive TableRun : List Word → Word → List Nat → Prop
  | nil {value : Word} : TableRun [] value []
  | cons {power value rest : Word} {powers : List Word} {digit : Nat} {digits : List Nat}
      (subtracted : SubtractRun power value 0 rest digit) (further : TableRun powers rest digits) :
      TableRun (power :: powers) value (digit :: digits)

/-- The loops end, no digit is larger than 9, and the significant digits are stored. -/
structure Counted (value : Word) (digits : List Nat) : Prop where
  run : TableRun powers value digits
  small : ∀ digit ∈ digits, digit ≤ 9
  stored : ∀ (size ptr : Nat) (started : Bool) (str : Vector CChar size),
    tableLoop powers value ptr started str =
      (storeText ptr ((significant started digits).map digitChar) str).map fun str =>
        (ptr + (significant started digits).length, str)

theorem subtractRun_div {power value : Word} (positive : 0 < power.toNat) (digit : Nat) :
    SubtractRun power value digit (BitVec.ofNat 32 (value.toNat % power.toNat))
      (digit + value.toNat / power.toNat) := by
  generalize count : value.toNat / power.toNat = rounds
  induction rounds generalizing value digit with
  | zero =>
      have less := (Nat.div_eq_zero_iff_lt positive).mp count
      have notEnough : ¬power ≤ value := by
        rw [BitVec.le_def]
        exact Nat.not_le.mpr less
      rw [Nat.mod_eq_of_lt less, BitVec.ofNat_toNat, BitVec.setWidth_eq]
      exact .stop notEnough
  | succ rounds inductionHypothesis =>
      have enough : power.toNat ≤ value.toNat := by
        by_contra less
        rw [Nat.div_eq_of_lt (Nat.not_le.mp less)] at count
        contradiction
      have next : (value - power).toNat = value.toNat - power.toNat :=
        BitVec.toNat_sub_of_le (BitVec.le_def.mpr enough)
      have fewer : (value - power).toNat / power.toNat = rounds := by
        rw [Nat.div_eq_sub_div positive enough] at count
        rw [next]
        exact Nat.succ.inj count
      have further := inductionHypothesis (digit + 1) fewer
      rw [next, ← Nat.mod_eq_sub_mod enough, Nat.add_assoc, Nat.add_comm 1] at further
      exact .again (BitVec.le_def.mpr enough) further

theorem tableRun_places {place : Nat} (bound : place ≤ 10) {value : Word}
    (less : value.toNat < 10 ^ place) :
    TableRun (powersBelow place) value (places 10 place value.toNat) := by
  induction place generalizing value with
  | zero => exact .nil
  | succ place inductionHypothesis =>
      have power := @toNat_power place (by omega)
      have positive : 0 < 10 ^ place := Nat.pow_pos (by decide)
      have digit : value.toNat / 10 ^ place < 10 := by
        rw [Nat.pow_succ] at less
        exact Nat.div_lt_of_lt_mul less
      have rest := toNat_remainder value (10 ^ place)
      have subtracted := @subtractRun_div (BitVec.ofNat 32 (10 ^ place)) value
        (by rw [power]; exact positive) 0
      have further := @inductionHypothesis (by omega) (BitVec.ofNat 32 (value.toNat % 10 ^ place))
        (by rw [rest]; exact Nat.mod_lt _ positive)
      rw [power, Nat.zero_add] at subtracted
      rw [rest, places_mod] at further
      rw [powersBelow, places, Nat.mod_eq_of_lt digit]
      exact .cons subtracted further

theorem places_small (place number : Nat) : ∀ digit ∈ places 10 place number, digit ≤ 9 := by
  intro digit member
  induction place with
  | zero => exact absurd member List.not_mem_nil
  | succ place inductionHypothesis =>
      rcases List.mem_cons.mp member with rfl | later
      · exact Nat.le_of_lt_succ (Nat.mod_lt _ (by decide))
      · exact inductionHypothesis later

theorem counted_places (value : Word) : Counted value (places 10 10 value.toNat) := by
  have less : value.toNat < 10 ^ 10 := Nat.lt_trans value.isLt (by decide)
  refine ⟨?_, places_small 10 value.toNat, fun size ptr started str => ?_⟩
  · rw [powers_eq]
    exact tableRun_places (Nat.le_refl 10) less
  · rw [tableLoop_stores, powers_eq, tableText_eq (Nat.le_refl 10) less started, List.length_map]

/-! ## What stands in the array -/

variable {size : Nat}

/-- The call has a result, so that every store is inside the array. In it stand a sign, a canonical
numeral and the terminator, twelve bytes at most; the bytes behind them are as they were. -/
structure Written (call : Vector CChar size → Option (Vector CChar size)) (sign : List CChar)
    (base number : Nat) (str : Vector CChar size) : Prop where
  stored : ∃ digits after, Canonical base number digits ∧ call str = some after ∧
    (sign ++ digits.map digitChar ++ [0]).length ≤ 12 ∧
      after.toList = sign ++ digits.map digitChar ++ [0] ++
        str.toList.drop (sign ++ digits.map digitChar ++ [0]).length

/-- What `itodec` subtracts from. -/
def magnitude (value : Word) : Word := if value.toInt < 0 then -value else value

theorem written_text {call : Vector CChar size → Option (Vector CChar size)}
    {text sign : List CChar} {base number : Nat} {str : Vector CChar size}
    (stores : call str = storeText 0 (text ++ [0]) str) (room : 12 ≤ size) (large : 1 < base)
    (isText : text = sign ++ numberText base number) (short : text.length ≤ 11) :
    Written call sign base number str := by
  have length : (text ++ [0]).length = text.length + 1 := List.length_append
  have split : str.toList = [] ++ str.toList.take (text ++ [0]).length ++
      str.toList.drop (text ++ [0]).length := (List.take_append_drop _ _).symm
  obtain ⟨after, stored, whole⟩ := @storeText_inside _ (text ++ [0]) [] _ _ str split
    (by rw [List.length_take, length, str.length_toList]; omega)
  refine ⟨_, after, numeral_canonical large, stores.trans stored, ?_, ?_⟩
  · rw [← numberText, ← isText]
    omega
  · rw [← numberText, ← isText]
    exact whole

theorem itodecText_signed (value : Word) :
    itodecText value =
      (if value.toInt < 0 then [0x2D] else []) ++ numberText 10 value.toInt.natAbs :=
  itodecText_eq value

/-- The four conversions, whatever the value, and the two runs of subtractions. -/
theorem conversions_written (value : Word) (str : Vector CChar size) (room : 12 ≤ size) :
    Written (itodec value) (if value.toInt < 0 then [0x2D] else []) 10 value.toInt.natAbs str ∧
      Written (itoudec value) [] 10 value.toNat str ∧
      Written (itox value) [] 16 value.toNat str ∧
      Written (itooct value) [] 8 value.toNat str ∧
      (∃ digits, Counted (magnitude value) digits) ∧ ∃ digits, Counted value digits := by
  have decimal : value.toNat < 10 ^ 10 := Nat.lt_trans value.isLt (by decide)
  have octal : value.toNat < 8 ^ 11 := Nat.lt_trans value.isLt (by decide)
  refine ⟨?_, ?_, ?_, ?_, ⟨_, counted_places (magnitude value)⟩, ⟨_, counted_places value⟩⟩
  · exact written_text (itodec_stores value str) room (by decide) (itodecText_signed value)
      (itodecText_eq value ▸ signedText_length value)
  · refine written_text (itoudec_stores value str) room (by decide) (itoudecText_eq value) ?_
    rw [itoudecText_eq]
    exact Nat.le_succ_of_le (numberText_length (by decide) (by decide) decimal)
  · refine written_text (itox_stores value str) room (by decide) (itoxText_eq value) ?_
    rw [itoxText_eq]
    exact Nat.le_trans (numberText_length (by decide) (by decide) value.isLt) (by decide : 8 ≤ 11)
  · refine written_text (itooct_stores value str) room (by decide) (itooctText_eq value) ?_
    rw [itooctText_eq]
    exact numberText_length (by decide) (by decide) octal

/-- The most negative number, in an array of twelve bytes. -/
theorem conversions_written_least :
    Written (itodec 0x80000000) [0x2D] 10 2147483648 (Vector.replicate 12 0x55) ∧
      Written (itoudec 0x80000000) [] 10 2147483648 (Vector.replicate 12 0x55) ∧
      Written (itox 0x80000000) [] 16 2147483648 (Vector.replicate 12 0x55) ∧
      Written (itooct 0x80000000) [] 8 2147483648 (Vector.replicate 12 0x55) ∧
      (∃ digits, Counted (magnitude 0x80000000) digits) ∧ ∃ digits, Counted 0x80000000 digits :=
  conversions_written 0x80000000 (Vector.replicate 12 0x55) (by decide)

end OrionBios.Libc.Conversions
