import OrionBios.Libc.Numerals
import OrionBios.Libc.StrtoulEnd
import Mathlib.Data.List.TakeWhile

/-!
# `utoa`, and `strtoul` behind it

The digits are written in reverse order and turned round in place. What is written is read back in
the same base, whatever letters it begins with.
-/

namespace OrionBios.Libc

open Machine Digits

variable {size : Nat}

/-! ## The function -/

/-- The array `digits`: the characters `0` to `9` and `a` to `z`. -/
def digitTable : List CChar :=
  smallDigits ++ [0x67, 0x68, 0x69, 0x6A, 0x6B, 0x6C, 0x6D, 0x6E, 0x6F, 0x70, 0x71, 0x72, 0x73,
    0x74, 0x75, 0x76, 0x77, 0x78, 0x79, 0x7A]

def digitLetter (remainder : Nat) : CChar := digitTable.getD remainder 0

/-- The loop over the digits, the lowest first, and where it stops. -/
def writeDigits (base : Word) : Nat → Word → Nat → Vector CChar size →
    Option (Nat × Vector CChar size)
  | 0, _, _, _ => none
  | rounds + 1, value, i, str =>
      (store str i (digitLetter (value % base).toNat)).bind fun str =>
        if value / base ≠ 0 then writeDigits base rounds (value / base) (i + 1) str
        else some (i + 1, str)

def reverseLoop : Nat → Nat → Nat → Vector CChar size → Option (Vector CChar size)
  | 0, _, _, _ => none
  | rounds + 1, j, i, str =>
      if j < i then
        (store str j (str.toList.getD i 0)).bind fun swapped =>
          (store swapped i (str.toList.getD j 0)).bind (reverseLoop rounds (j + 1) (i - 1))
      else some str

/-- Whether the string is returned, not NULL; and the string. -/
def utoa (value : Word) (str : Vector CChar size) (base : Word) :
    Option (Bool × Vector CChar size) :=
  if base.toInt < 2 ∨ base.toInt > 36 then (store str 0 0).map fun str => (false, str)
  else
    (writeDigits base 33 value 0 str).bind fun written =>
      (store written.2 written.1 0).bind fun terminated =>
        (reverseLoop written.1 0 (written.1 - 1) terminated).map fun str => (true, str)

/-! ## What it writes -/

/-- The numeral in the letters of `utoa`. -/
def numeralText (base number : Nat) : List CChar := (numeral base number).map digitLetter

theorem numeralText_length (base number : Nat) :
    (numeralText base number).length = (numeral base number).length := List.length_map _

theorem writeDigits_last {base value : Word} (last : value.toNat / base.toNat = 0)
    (positive : 0 < base.toNat) (rounds i : Nat) (str : Vector CChar size) :
    writeDigits base (rounds + 1) value i str =
      (storeText i (numeralText base.toNat value.toNat).reverse str).map fun str =>
        (i + (numeral base.toNat value.toNat).length, str) := by
  have small := (Nat.div_eq_zero_iff_lt positive).mp last
  have stops : ¬value / base ≠ 0 := by
    intro further
    exact further (BitVec.eq_of_toNat_eq (by rw [BitVec.toNat_udiv]; exact last))
  rw [writeDigits, BitVec.toNat_umod, Nat.mod_eq_of_lt small, numeralText, numeral_small small]
  simp only [if_neg stops, List.map_cons, List.map_nil, List.reverse_singleton, storeText]
  cases store str i (digitLetter value.toNat) <;> rfl

theorem writeDigits_eq {base : Word} (large : 1 < base.toNat) {rounds : Nat} {value : Word}
    (enough : value.toNat < 2 ^ rounds) (i : Nat) (str : Vector CChar size) :
    writeDigits base (rounds + 1) value i str =
      (storeText i (numeralText base.toNat value.toNat).reverse str).map fun str =>
        (i + (numeral base.toNat value.toNat).length, str) := by
  have positive := Nat.zero_lt_of_lt large
  induction rounds generalizing value i str with
  | zero =>
      have zero : value.toNat = 0 := Nat.lt_one_iff.mp enough
      exact writeDigits_last (by rw [zero, Nat.zero_div]) positive 0 i str
  | succ rounds inductionHypothesis =>
      by_cases last : value.toNat / base.toNat = 0
      · exact writeDigits_last last positive _ i str
      · have further : value / base ≠ 0 := by
          intro zero
          apply last
          rw [← BitVec.toNat_udiv, zero]
          rfl
        have halved : (value / base).toNat < 2 ^ rounds := by
          rw [BitVec.toNat_udiv]
          refine Nat.div_lt_of_lt_mul (Nat.lt_of_lt_of_le enough ?_)
          rw [Nat.pow_succ, Nat.mul_comm]
          exact Nat.mul_le_mul_right _ large
        rw [writeDigits, numeralText, numeral_concat large last, List.map_append,
          List.reverse_append, List.map_singleton, List.reverse_singleton, List.singleton_append,
          storeText, BitVec.toNat_umod]
        cases store str i (digitLetter (value.toNat % base.toNat)) with
        | none => rfl
        | some after =>
            rw [Option.bind_some, Option.bind_some, if_pos further, inductionHypothesis halved,
              BitVec.toNat_udiv, numeralText, List.length_append, List.length_singleton,
              Nat.add_assoc, Nat.add_comm 1]

theorem set_swap {before middle behind : List CChar} {x y : CChar} :
    ((before ++ (x :: (middle ++ [y])) ++ behind).set before.length y).set
        (before.length + middle.length + 1) x =
      (before ++ [y]) ++ middle ++ (x :: behind) := by
  have length : before.length + middle.length + 1 = (before ++ [y] ++ middle).length := by
    simp only [List.length_append, List.length_singleton]
    omega
  have first : (before ++ (x :: (middle ++ [y])) ++ behind).set before.length y =
      (before ++ [y] ++ middle) ++ (y :: behind) := by
    rw [List.append_assoc, List.set_append_right _ _ (Nat.le_refl _), Nat.sub_self]
    simp
  rw [first, length, List.set_append_right _ _ (Nat.le_refl _), Nat.sub_self, List.set_cons_zero]

/-- The part of the string from `j` to `i` is turned round. -/
theorem reverseLoop_eq {before middle behind : List CChar} {rounds i : Nat}
    {str : Vector CChar size} (stands : str.toList = before ++ middle ++ behind)
    (last : i + 1 = before.length + middle.length) (enough : middle.length < 2 * rounds) :
    ∃ after, reverseLoop rounds before.length i str = some after ∧
      after.toList = before ++ middle.reverse ++ behind := by
  induction rounds generalizing before middle behind i str with
  | zero => exact absurd enough (Nat.not_lt_zero _)
  | succ rounds inductionHypothesis =>
      rw [reverseLoop]
      by_cases apart : before.length < i
      · rw [if_pos apart]
        obtain ⟨x, rest, rfl⟩ := List.exists_cons_of_length_pos (by omega : 0 < middle.length)
        rw [List.length_cons] at last enough
        obtain ⟨inner, y, rfl⟩ : ∃ inner y, rest = inner ++ [y] :=
          ⟨_, _, (List.dropLast_append_getLast (List.ne_nil_of_length_pos (by omega))).symm⟩
        rw [List.length_append, List.length_singleton] at last enough
        obtain rfl : i = before.length + inner.length + 1 := by omega
        have long := str.length_toList
        rw [stands] at long
        simp only [List.length_append, List.length_cons, List.length_nil] at long
        have isFirst : str.toList.getD before.length 0 = x := by
          rw [stands]
          simp
        have isLast : str.toList.getD (before.length + inner.length + 1) 0 = y := by
          rw [stands, List.getD_eq_getElem?_getD]
          simp [Nat.add_assoc]
        obtain ⟨swapped, stored, now⟩ := @store_inside _ str before.length y (by omega)
        obtain ⟨both, storedToo, nowToo⟩ :=
          @store_inside _ swapped (before.length + inner.length + 1) x (by omega)
        rw [now, stands, set_swap] at nowToo
        obtain ⟨after, reversed, whole⟩ := @inductionHypothesis _ _ _
          (before.length + inner.length) both nowToo
          (by rw [List.length_append, List.length_singleton]; omega) (by omega)
        refine ⟨after, ?_, ?_⟩
        · rw [isLast, stored, Option.bind_some, isFirst, storedToo, Option.bind_some, ← reversed,
            List.length_append, List.length_singleton]
          rfl
        · rw [whole]
          simp
      · rw [if_neg apart]
        have alone : middle.reverse = middle := by
          cases middle with
          | nil => rfl
          | cons x rest =>
              rw [List.length_cons] at last
              rw [List.length_eq_zero_iff.mp (by omega : rest.length = 0), List.reverse_singleton]
        exact ⟨str, rfl, by rw [alone, stands]⟩

theorem utoa_eq {base : Word} (large : 1 < base.toNat) (small : base.toNat ≤ 36) (value : Word)
    {str : Vector CChar size} (room : (numeral base.toNat value.toNat).length < size) :
    ∃ after, utoa value str base = some (true, after) ∧
      after.toList = numeralText base.toNat value.toNat ++
        0 :: str.toList.drop ((numeral base.toNat value.toNat).length + 1) := by
  have supported : ¬(base.toInt < 2 ∨ base.toInt > 36) := by
    rw [BitVec.toInt_eq_toNat_cond, if_pos (by omega)]
    omega
  have length := numeralText_length base.toNat value.toNat
  have positive := List.length_pos_iff.mpr (@numeral_ne_nil base.toNat value.toNat)
  have long := str.length_toList
  generalize isText : numeralText base.toNat value.toNat = text at *
  generalize isCount : (numeral base.toNat value.toNat).length = count at *
  have split : str.toList = [] ++ str.toList.take count ++ str.toList.drop count :=
    (List.take_append_drop _ _).symm
  obtain ⟨written, stored, whole⟩ := @storeText_inside _ text.reverse [] _ _ str split
    (by rw [List.length_take, List.length_reverse]; omega)
  obtain ⟨terminated, zero, stands⟩ := @store_inside _ written count 0 room
  have next : str.toList.drop count = str.toList[count] :: str.toList.drop (count + 1) :=
    List.drop_eq_getElem_cons (by omega)
  have ends : terminated.toList = [] ++ text.reverse ++ 0 :: str.toList.drop (count + 1) := by
    rw [stands, whole, next, List.nil_append, List.set_append_right _ _ (by simp; omega)]
    simp [length]
  obtain ⟨after, reversed, final⟩ := @reverseLoop_eq _ _ _ _ count (count - 1) _ ends
    (by rw [List.length_nil, List.length_reverse]; omega) (by rw [List.length_reverse]; omega)
  refine ⟨after, ?_, ?_⟩
  · rw [utoa, if_neg supported, writeDigits_eq large value.isLt, isText]
    rw [show storeText 0 text.reverse str = some written from stored, isCount, Option.map_some,
      Option.bind_some, Nat.zero_add, zero, Option.bind_some, ← List.length_nil, reversed]
    rfl
  · rw [final, List.reverse_reverse, List.nil_append]

/-! ## What `strtoul` reads -/

theorem digitOf_letter {digit : Nat} (small : digit < 36) :
    digitOf (digitLetter digit) = some (digit : Int) := by
  revert digit
  decide

theorem letter_starts {digit : Nat} (small : digit < 36) :
    isBlank (digitLetter digit) = false ∧ digitLetter digit ≠ 0x2D ∧ digitLetter digit ≠ 0x2B := by
  revert digit
  decide

theorem letter_unmarked {digit : Nat} (small : digit < 16) :
    digitLetter digit ≠ 0x78 ∧ digitLetter digit ≠ 0x58 := by
  revert digit
  decide

section Reading

variable {base : Nat} {row : List Nat}

theorem signed_letters (small : ∀ digit ∈ row, digit < 36) :
    signed (row.map digitLetter) = (false, row.map digitLetter) := by
  cases row with
  | nil => rfl
  | cons digit rest =>
      obtain ⟨noBlank, noMinus, noPlus⟩ := letter_starts (small digit List.mem_cons_self)
      rw [signed, List.map_cons, List.dropWhile_cons, if_neg (by rw [noBlank]; decide), takeSign,
        List.head?_cons, if_neg fun same => noMinus (Option.some.inj same),
        if_neg fun same => noPlus (Option.some.inj same)]

theorem based_letters (positive : base ≠ 0) (small : ∀ digit ∈ row, digit < 36)
    (inside : ∀ digit ∈ row, digit < base) :
    based (row.map digitLetter) base = (base, row.map digitLetter) := by
  have plain : ¬Marked base (row.map digitLetter) := by
    rintro ⟨zero | isHex, -, marks⟩
    · exact positive zero
    · have second : ∀ c, (row.map digitLetter).tail.head? = some c → c ≠ 0x78 ∧ c ≠ 0x58 := by
        intro c isSecond
        obtain ⟨digit, member, rfl⟩ :=
          List.mem_map.mp (List.mem_of_mem_tail (List.mem_of_head? isSecond))
        exact letter_unmarked (isHex ▸ inside digit member)
      rcases marks with smallX | capitalX
      · exact (second _ smallX).1 rfl
      · exact (second _ capitalX).2 rfl
  rw [based, signed_letters small, takeBase_plain plain, plainBase, if_neg positive]

theorem inBase_letter {digit : Nat} (small : digit < 36) (inside : digit < base) :
    inBase base (digitLetter digit) = true := by
  rw [inBase_some (digitOf_letter small), decide_eq_true_eq]
  exact Int.ofNat_lt.mpr inside

theorem digitValue_letter {digit : Nat} (small : digit < 36) :
    digitValue (digitLetter digit) = digit := by
  rw [digitValue, digitOf_letter small]
  rfl

theorem strtoulEnd_letters (most : base ≤ 36) (some : row ≠ [])
    (inside : ∀ digit ∈ row, digit < base) :
    strtoulEnd (row.map digitLetter) base =
      .some (wordOf false (spelled base 0 row), row.length) := by
  have small : ∀ digit ∈ row, digit < 36 := fun digit member =>
    Nat.lt_of_lt_of_le (inside digit member) most
  have positive : base ≠ 0 := by
    obtain ⟨digit, member⟩ := List.exists_mem_of_ne_nil row some
    exact Nat.ne_of_gt (Nat.zero_lt_of_lt (inside digit member))
  have isBased := based_letters positive small inside
  have all : ∀ c ∈ row.map digitLetter, inBase base c = true := by
    intro c member
    obtain ⟨digit, isDigit, rfl⟩ := List.mem_map.mp member
    exact inBase_letter (small digit isDigit) (inside digit isDigit)
  have whole : digitsOf (row.map digitLetter) base = row.map digitLetter := by
    rw [digitsOf, isBased]
    exact List.takeWhile_eq_self_iff.mpr all
  have nothing : behind (row.map digitLetter) base = [] := by
    rw [behind, isBased]
    exact List.dropWhile_eq_nil_iff.mpr all
  have values : (row.map digitLetter).map digitValue = row := by
    have reads : ∀ digit ∈ row, (digitValue ∘ digitLetter) digit = id digit :=
      fun digit member => digitValue_letter (small digit member)
    rw [List.map_map, List.map_congr_left reads, List.map_id]
  rw [strtoulEnd_digits (by rw [whole]; simpa using some), signed_letters small, nothing, numberOf,
    whole, isBased, values, List.length_map]
  rfl

end Reading

/-! ## There and back -/

/-- In every base the shortest numeral is written, and read back to its terminator. -/
theorem utoa_strtoul (n base : Word) (least : 2 ≤ base.toNat) (most : base.toNat ≤ 36)
    (str : Vector CChar size) (room : (numeral base.toNat n.toNat).length < size) :
    ∃ row after, Canonical base.toNat n.toNat row ∧
      (∀ others, others ≠ [] → (∀ digit ∈ others, digit < base.toNat) →
        spelled base.toNat 0 others = n.toNat → row.length ≤ others.length) ∧
      utoa n str base = some (true, after) ∧
      after.toList = row.map digitLetter ++ 0 :: str.toList.drop (row.length + 1) ∧
      strtoulEnd (row.map digitLetter) base.toNat = some (n, row.length) := by
  have canonical := @numeral_canonical base.toNat n.toNat least
  obtain ⟨after, written, stands⟩ := utoa_eq least most n room
  refine ⟨_, after, canonical, fun others => numeral_shortest least, written, stands, ?_⟩
  rw [strtoulEnd_letters most canonical.nonempty canonical.small, canonical.spells, wordOf,
    if_pos n.isLt, BitVec.ofNat_toNat, BitVec.setWidth_eq]
  rfl

/-- A number in base 16 that begins with a letter. -/
theorem utoa_strtoul_hex :
    ∃ row after, Canonical 16 0xB0 row ∧
      (∀ others, others ≠ [] → (∀ digit ∈ others, digit < 16) → spelled 16 0 others = 0xB0 →
        row.length ≤ others.length) ∧
      utoa 0xB0 (Vector.replicate 33 0x79) 16 = some (true, after) ∧
      after.toList = row.map digitLetter ++
        0 :: (Vector.replicate 33 (0x79 : CChar)).toList.drop (row.length + 1) ∧
      strtoulEnd (row.map digitLetter) 16 = some (0xB0, row.length) :=
  utoa_strtoul 0xB0 16 (by decide) (by decide) (Vector.replicate 33 0x79)
    (Nat.lt_of_le_of_lt (numeral_length (by decide) (by decide) (by decide : 0xB0 < 16 ^ 2))
      (by decide))

end OrionBios.Libc
