import OrionBios.Libc.Digits
import OrionBios.Libc.Strtoul

/-!
# Numbers as text

`itox`, `itodec`, `itooct` and `itoudec`, which do not divide, and `pad_zeros`. A store behind an
array has no result.
-/

namespace OrionBios.Libc

open Machine Digits

variable {size : Nat}

def store (array : Vector CChar size) (index : Nat) (c : CChar) : Option (Vector CChar size) :=
  if inside : index < size then some (array.set index c inside) else none

/-! ## The conversions -/

/-- The loop of `itox` and `itooct`, from the highest place: where `ptr` is behind it, and the
array. Zeros in front are left out. -/
def shiftLoop (bits : Nat) (mask : Word) (letter : Nat → CChar) (value : Word) :
    Nat → Nat → Bool → Vector CChar size → Option (Nat × Vector CChar size)
  | 0, ptr, _, str => some (ptr, str)
  | place + 1, ptr, started, str =>
      let digit := ((value >>> (bits * place)) &&& mask).toNat
      if digit ≠ 0 ∨ started then
        (store str ptr (letter digit)).bind (shiftLoop bits mask letter value place (ptr + 1) true)
      else shiftLoop bits mask letter value place ptr started str

/-- The first branch of all four: `*ptr++ = '0'; *ptr = 0`. -/
def storeZero (str : Vector CChar size) : Option (Vector CChar size) :=
  (store str 0 0x30).bind fun str => store str 1 0

def itox (value : Word) (str : Vector CChar size) : Option (Vector CChar size) :=
  if value = 0 then storeZero str
  else
    (shiftLoop 4 0xF (fun digit => smallDigits.getD digit 0) value 8 0 false str).bind
      fun (ptr, str) => store str ptr 0

def itooct (value : Word) (str : Vector CChar size) : Option (Vector CChar size) :=
  if value = 0 then storeZero str
  else
    (shiftLoop 3 0x7 (fun digit => 0x30 + BitVec.ofNat 8 digit) value 11 0 false str).bind
      fun (ptr, str) => store str ptr 0

def powers : List Word := [1000000000, 100000000, 10000000, 1000000, 100000, 10000, 1000, 100, 10, 1]

/-- The subtractions of one power; nine are enough. -/
def subtractLoop (power : Word) : Nat → Word → Nat → Word × Nat
  | 0, value, digit => (value, digit)
  | rounds + 1, value, digit =>
      if power ≤ value then subtractLoop power rounds (value - power) (digit + 1)
      else (value, digit)

def tableLoop : List Word → Word → Nat → Bool → Vector CChar size →
    Option (Nat × Vector CChar size)
  | [], _, ptr, _, str => some (ptr, str)
  | power :: rest, value, ptr, started, str =>
      let (value, digit) := subtractLoop power 10 value 0
      if digit ≠ 0 ∨ started then
        (store str ptr (0x30 + BitVec.ofNat 8 digit)).bind (tableLoop rest value (ptr + 1) true)
      else tableLoop rest value ptr started str

def itodec (value : Word) (str : Vector CChar size) : Option (Vector CChar size) :=
  if value = 0 then storeZero str
  else if value.toInt < 0 then
    (store str 0 0x2D).bind fun str =>
      (tableLoop powers (-value) 1 false str).bind fun (ptr, str) => store str ptr 0
  else (tableLoop powers value 0 false str).bind fun (ptr, str) => store str ptr 0

def itoudec (value : Word) (str : Vector CChar size) : Option (Vector CChar size) :=
  if value = 0 then storeZero str
  else (tableLoop powers value 0 false str).bind fun (ptr, str) => store str ptr 0

/-! ## The characters that they store -/

def shiftText (bits : Nat) (mask : Word) (letter : Nat → CChar) (value : Word) :
    Nat → Bool → List CChar
  | 0, _ => []
  | place + 1, started =>
      let digit := ((value >>> (bits * place)) &&& mask).toNat
      if digit ≠ 0 ∨ started then letter digit :: shiftText bits mask letter value place true
      else shiftText bits mask letter value place started

def tableText : List Word → Word → Bool → List CChar
  | [], _, _ => []
  | power :: rest, value, started =>
      let (value, digit) := subtractLoop power 10 value 0
      if digit ≠ 0 ∨ started then (0x30 + BitVec.ofNat 8 digit) :: tableText rest value true
      else tableText rest value started

def itoxText (value : Word) : List CChar :=
  if value = 0 then [0x30] else shiftText 4 0xF (fun digit => smallDigits.getD digit 0) value 8 false

def itooctText (value : Word) : List CChar :=
  if value = 0 then [0x30]
  else shiftText 3 0x7 (fun digit => 0x30 + BitVec.ofNat 8 digit) value 11 false

def itodecText (value : Word) : List CChar :=
  if value = 0 then [0x30]
  else if value.toInt < 0 then 0x2D :: tableText powers (-value) false
  else tableText powers value false

def itoudecText (value : Word) : List CChar :=
  if value = 0 then [0x30] else tableText powers value false

def storeText (index : Nat) : List CChar → Vector CChar size → Option (Vector CChar size)
  | [], array => some array
  | c :: rest, array => (store array index c).bind (storeText (index + 1) rest)

theorem storeText_append (index : Nat) (text more : List CChar) (array : Vector CChar size) :
    storeText index (text ++ more) array =
      (storeText index text array).bind (storeText (index + text.length) more) := by
  induction text generalizing index array with
  | nil => rfl
  | cons c rest inductionHypothesis =>
      rw [List.cons_append, storeText, storeText, Option.bind_assoc, List.length_cons,
        Nat.add_comm rest.length, ← Nat.add_assoc]
      exact congrArg _ (funext fun stored => inductionHypothesis (index + 1) stored)

theorem shiftLoop_stores {bits : Nat} {mask : Word} {letter : Nat → CChar} {value : Word}
    (place ptr : Nat) (started : Bool) (str : Vector CChar size) :
    shiftLoop bits mask letter value place ptr started str =
      (storeText ptr (shiftText bits mask letter value place started) str).map fun str =>
        (ptr + (shiftText bits mask letter value place started).length, str) := by
  induction place generalizing ptr started str with
  | zero => rfl
  | succ place inductionHypothesis =>
      rw [shiftLoop, shiftText]
      split
      · rw [storeText, List.length_cons, Option.map_bind]
        refine congrArg _ (funext fun stored => ?_)
        rw [inductionHypothesis, Nat.add_assoc, Nat.add_comm 1]
        rfl
      · exact inductionHypothesis ptr started str

theorem tableLoop_stores (powers : List Word) (value : Word) (ptr : Nat) (started : Bool)
    (str : Vector CChar size) :
    tableLoop powers value ptr started str =
      (storeText ptr (tableText powers value started) str).map fun str =>
        (ptr + (tableText powers value started).length, str) := by
  induction powers generalizing value ptr started str with
  | nil => rfl
  | cons power rest inductionHypothesis =>
      rw [tableLoop, tableText]
      dsimp only
      split
      · rw [storeText, List.length_cons, Option.map_bind]
        refine congrArg _ (funext fun stored => ?_)
        rw [inductionHypothesis, Nat.add_assoc, Nat.add_comm 1]
        rfl
      · exact inductionHypothesis _ ptr started str

/-- Behind the characters of a loop `*ptr = 0`. -/
theorem terminated (ptr : Nat) (text : List CChar) (str : Vector CChar size) :
    ((storeText ptr text str).map fun str => (ptr + text.length, str)).bind
        (fun (ptr, str) => store str ptr 0) = storeText ptr (text ++ [0]) str := by
  rw [storeText_append, Option.bind_map]
  refine congrArg _ (funext fun stored => ?_)
  exact (Option.bind_fun_some _).symm

theorem storeZero_stores (str : Vector CChar size) :
    storeZero str = storeText 0 ([0x30] ++ [0]) str := by
  rw [storeZero, List.singleton_append, storeText]
  refine congrArg _ (funext fun stored => ?_)
  exact (Option.bind_fun_some _).symm

theorem itox_stores (value : Word) (str : Vector CChar size) :
    itox value str = storeText 0 (itoxText value ++ [0]) str := by
  rw [itox, itoxText]
  split
  · exact storeZero_stores str
  · rw [shiftLoop_stores, terminated]

theorem itooct_stores (value : Word) (str : Vector CChar size) :
    itooct value str = storeText 0 (itooctText value ++ [0]) str := by
  rw [itooct, itooctText]
  split
  · exact storeZero_stores str
  · rw [shiftLoop_stores, terminated]

theorem itodec_stores (value : Word) (str : Vector CChar size) :
    itodec value str = storeText 0 (itodecText value ++ [0]) str := by
  rw [itodec, itodecText]
  split
  · exact storeZero_stores str
  · split
    · refine congrArg _ (funext fun signed => ?_)
      rw [tableLoop_stores, terminated]
      rfl
    · rw [tableLoop_stores, terminated]

theorem itoudec_stores (value : Word) (str : Vector CChar size) :
    itoudec value str = storeText 0 (itoudecText value ++ [0]) str := by
  rw [itoudec, itoudecText]
  split
  · exact storeZero_stores str
  · rw [tableLoop_stores, terminated]

/-! ## What they write -/

def digitChar (digit : Nat) : CChar := smallDigits.getD digit 0

def numberText (base number : Nat) : List CChar := (numeral base number).map digitChar

def signedText (number : Int) : List CChar :=
  (if number < 0 then [0x2D] else []) ++ numberText 10 number.natAbs

theorem digitChar_decimal {digit : Nat} (small : digit < 10) :
    0x30 + BitVec.ofNat 8 digit = digitChar digit := by
  revert digit
  decide

/-- What a loop that leaves out the zeros in front emits. -/
def significant (started : Bool) (digits : List Nat) : List Nat :=
  if started then digits else digits.dropWhile (· = 0)

theorem significant_cons (started : Bool) (digit : Nat) (rest : List Nat) :
    significant started (digit :: rest) =
      if digit ≠ 0 ∨ started then digit :: significant true rest else significant started rest := by
  cases started with
  | true => exact (if_pos (Or.inr rfl)).symm
  | false =>
      by_cases zero : digit = 0
      · rw [if_neg (fun either => either.elim (· zero) Bool.noConfusion), zero]
        rfl
      · have stops : (digit :: rest).dropWhile (· = 0) = digit :: rest :=
          List.dropWhile_cons_of_neg (by rw [decide_eq_false zero]; exact Bool.false_ne_true)
        rw [if_pos (Or.inl zero)]
        exact stops

theorem shiftText_eq {bits : Nat} {mask : Word} {letter : Nat → CChar} {value : Word}
    (isMask : ∀ number : Word, (number &&& mask).toNat = number.toNat % 2 ^ bits)
    (isLetter : ∀ digit < 2 ^ bits, letter digit = digitChar digit) (place : Nat)
    (started : Bool) :
    shiftText bits mask letter value place started =
      (significant started (places (2 ^ bits) place value.toNat)).map digitChar := by
  induction place generalizing started with
  | zero => cases started <;> rfl
  | succ place inductionHypothesis =>
      have digit : ((value >>> (bits * place)) &&& mask).toNat =
          value.toNat / (2 ^ bits) ^ place % 2 ^ bits := by
        rw [isMask, BitVec.toNat_ushiftRight, Nat.shiftRight_eq_div_pow, Nat.pow_mul]
      rw [shiftText, places, significant_cons, digit, inductionHypothesis, inductionHypothesis,
        isLetter _ (Nat.mod_lt _ (Nat.two_pow_pos bits))]
      split <;> rfl

theorem subtractLoop_eq {power : Word} (positive : 0 < power.toNat) {rounds : Nat} {value : Word}
    {digit : Nat} (enough : value.toNat / power.toNat ≤ rounds) :
    subtractLoop power rounds value digit =
      (BitVec.ofNat 32 (value.toNat % power.toNat), digit + value.toNat / power.toNat) := by
  induction rounds generalizing value digit with
  | zero =>
      have none : value.toNat / power.toNat = 0 := Nat.le_zero.mp enough
      have less := (Nat.div_eq_zero_iff_lt positive).mp none
      rw [subtractLoop, none, Nat.mod_eq_of_lt less, BitVec.ofNat_toNat, BitVec.setWidth_eq]
      rfl
  | succ rounds inductionHypothesis =>
      rw [subtractLoop]
      by_cases again : power ≤ value
      · have less : (value - power).toNat = value.toNat - power.toNat :=
          BitVec.toNat_sub_of_le again
        rw [BitVec.le_def] at again
        have quotient := Nat.div_eq_sub_div positive again
        rw [if_pos (BitVec.le_def.mpr again), inductionHypothesis (by rw [less]; omega), less,
          ← Nat.mod_eq_sub_mod again, quotient]
        congr 1
        omega
      · rw [BitVec.le_def, Nat.not_le] at again
        rw [if_neg (by rw [BitVec.le_def]; omega), Nat.mod_eq_of_lt again,
          Nat.div_eq_of_lt again, BitVec.ofNat_toNat, BitVec.setWidth_eq]
        rfl

/-- The powers below a place, the largest first. -/
def powersBelow : Nat → List Word
  | 0 => []
  | place + 1 => BitVec.ofNat 32 (10 ^ place) :: powersBelow place

theorem powers_eq : powers = powersBelow 10 := by decide

theorem toNat_power {place : Nat} (bound : place ≤ 9) :
    (BitVec.ofNat 32 (10 ^ place)).toNat = 10 ^ place := by
  have fits : 10 ^ place < 2 ^ 32 :=
    Nat.lt_of_le_of_lt (Nat.pow_le_pow_right (by decide) bound) (by decide)
  rw [BitVec.toNat_ofNat, Nat.mod_eq_of_lt fits]

theorem toNat_remainder (value : Word) (power : Nat) :
    (BitVec.ofNat 32 (value.toNat % power)).toNat = value.toNat % power := by
  rw [BitVec.toNat_ofNat]
  exact Nat.mod_eq_of_lt (Nat.lt_of_le_of_lt (Nat.mod_le _ _) value.isLt)

theorem tableText_eq {place : Nat} (bound : place ≤ 10) {value : Word}
    (less : value.toNat < 10 ^ place) (started : Bool) :
    tableText (powersBelow place) value started =
      (significant started (places 10 place value.toNat)).map digitChar := by
  induction place generalizing value started with
  | zero => cases started <;> rfl
  | succ place inductionHypothesis =>
      have power := @toNat_power place (by omega)
      have positive : 0 < (BitVec.ofNat 32 (10 ^ place)).toNat := by
        rw [power]
        exact Nat.pow_pos (by decide)
      have digit : value.toNat / 10 ^ place < 10 := by
        rw [Nat.pow_succ] at less
        exact Nat.div_lt_of_lt_mul less
      have rest := toNat_remainder value (10 ^ place)
      have restLess : (BitVec.ofNat 32 (value.toNat % 10 ^ place)).toNat < 10 ^ place := by
        rw [rest]
        exact Nat.mod_lt _ (power ▸ positive)
      rw [powersBelow, tableText, subtractLoop_eq positive (by rw [power]; omega), power]
      dsimp only
      rw [Nat.zero_add, places, Nat.mod_eq_of_lt digit, significant_cons,
        inductionHypothesis (by omega) restLess, inductionHypothesis (by omega) restLess, rest,
        places_mod, digitChar_decimal digit]
      split <;> rfl

theorem significant_numeral {base place number : Nat} (large : 1 < base)
    (less : number < base ^ place) (positive : number ≠ 0) :
    (significant false (places base place number)).map digitChar = numberText base number := by
  have written : significant false (places base place number) = numeral base number := by
    rw [numeral_of_pos positive]
    exact places_dropWhile large less
  rw [written, numberText]

theorem numberText_zero (base : Nat) : numberText base 0 = [0x30] := by
  rw [numberText, numeral_zero]
  rfl

theorem itoxText_eq (value : Word) : itoxText value = numberText 16 value.toNat := by
  have mask : ∀ number : Word, (number &&& 0xF).toNat = number.toNat % 2 ^ 4 := fun number => by
    rw [BitVec.toNat_and]
    exact Nat.and_two_pow_sub_one_eq_mod _ 4
  by_cases zero : value = 0
  · rw [itoxText, if_pos zero, zero]
    exact (numberText_zero 16).symm
  · have positive : value.toNat ≠ 0 := fun none => zero (BitVec.eq_of_toNat_eq none)
    rw [itoxText, if_neg zero]
    exact (shiftText_eq mask (fun _ _ => rfl) 8 false).trans
      (significant_numeral (by decide) value.isLt positive)

theorem itooctText_eq (value : Word) : itooctText value = numberText 8 value.toNat := by
  have mask : ∀ number : Word, (number &&& 0x7).toNat = number.toNat % 2 ^ 3 := fun number => by
    rw [BitVec.toNat_and]
    exact Nat.and_two_pow_sub_one_eq_mod _ 3
  by_cases zero : value = 0
  · rw [itooctText, if_pos zero, zero]
    exact (numberText_zero 8).symm
  · have positive : value.toNat ≠ 0 := fun none => zero (BitVec.eq_of_toNat_eq none)
    have less : value.toNat < 8 ^ 11 := Nat.lt_trans value.isLt (by decide)
    rw [itooctText, if_neg zero, shiftText_eq mask fun digit small => digitChar_decimal (by omega)]
    exact significant_numeral (by decide) less positive

theorem tableText_powers (value : Word) (positive : value.toNat ≠ 0) :
    tableText powers value false = numberText 10 value.toNat := by
  have less : value.toNat < 10 ^ 10 := Nat.lt_trans value.isLt (by decide)
  rw [powers_eq, tableText_eq (Nat.le_refl 10) less]
  exact significant_numeral (by decide) less positive

theorem itoudecText_eq (value : Word) : itoudecText value = numberText 10 value.toNat := by
  by_cases zero : value = 0
  · rw [itoudecText, if_pos zero, zero]
    exact (numberText_zero 10).symm
  · rw [itoudecText, if_neg zero]
    exact tableText_powers value fun none => zero (BitVec.eq_of_toNat_eq none)

/-- The negation wraps only where the number does not depend on it. -/
theorem toNat_negative {value : Word} (negative : value.toInt < 0) :
    (-value).toNat = value.toInt.natAbs := by
  have less := value.isLt
  rw [BitVec.toNat_neg, BitVec.toInt_eq_toNat_cond] at *
  split at negative <;> rename_i half
  · omega
  · rw [if_neg half]
    omega

theorem itodecText_eq (value : Word) : itodecText value = signedText value.toInt := by
  have less := value.isLt
  by_cases zero : value = 0
  · rw [itodecText, if_pos zero, zero]
    exact (numberText_zero 10).symm
  · have positive : value.toNat ≠ 0 := fun none => zero (BitVec.eq_of_toNat_eq none)
    rw [itodecText, if_neg zero, signedText]
    by_cases negative : value.toInt < 0
    · have isAbs := toNat_negative negative
      rw [if_pos negative, if_pos negative, tableText_powers (-value) (by omega), isAbs]
      rfl
    · have isAbs : value.toNat = value.toInt.natAbs := by
        rw [BitVec.toInt_eq_toNat_cond] at *
        split at negative <;> rename_i half
        · rw [if_pos half]
          omega
        · omega
      rw [if_neg negative, if_neg negative, tableText_powers value positive, isAbs]
      rfl

/-! ## In the array -/

/-- The string that stands in an array. -/
def cstring (array : Vector CChar size) : List CChar := array.toList.takeWhile (· ≠ 0)

/-- The loop that moves characters to the right, the last one first. -/
def moveRight (distance : Nat) : Nat → Vector CChar size → Option (Vector CChar size)
  | 0, array => some array
  | count + 1, array =>
      (store array (count + distance) (array.toList.getD count 0)).bind (moveRight distance count)

def padZeros (width : Word) (array : Vector CChar size) : Option (Vector CChar size) :=
  let len := (cstring array).length
  if width.toInt ≤ len then some array
  else (moveRight (width.toInt.toNat - len) (len + 1) array).bind
    (storeText 0 (List.replicate (width.toInt.toNat - len) 0x30))

/-- What a numeric conversion leaves in its array. -/
def numeric (convert : Word → Vector CChar size → Option (Vector CChar size)) (value : Word)
    (zeroPad : Bool) (width : Word) (array : Vector CChar size) : Option (Vector CChar size) :=
  (convert value array).bind fun array =>
    if zeroPad ∧ 0 < width.toInt then padZeros width array else some array

theorem store_inside {array : Vector CChar size} {index : Nat} {c : CChar} (inside : index < size) :
    ∃ after, store array index c = some after ∧ after.toList = array.toList.set index c :=
  ⟨_, dif_pos inside, Vector.toList_set ..⟩

theorem store_outside {array : Vector CChar size} {index : Nat} {c : CChar}
    (outside : size ≤ index) : store array index c = none := dif_neg (Nat.not_lt.mpr outside)

theorem storeText_inside {text before behind replaced : List CChar} {array : Vector CChar size}
    (stands : array.toList = before ++ replaced ++ behind) (same : replaced.length = text.length) :
    ∃ after, storeText before.length text array = some after ∧
      after.toList = before ++ text ++ behind := by
  induction text generalizing before replaced array with
  | nil =>
      rw [List.length_eq_zero_iff.mp same] at stands
      exact ⟨array, rfl, stands⟩
  | cons c rest inductionHypothesis =>
      obtain ⟨old, others, rfl⟩ := List.exists_cons_of_length_eq_add_one same
      have inside : before.length < size := by
        rw [← array.length_toList, stands]
        simp only [List.length_append, List.length_cons]
        omega
      obtain ⟨after, stored, now⟩ := @store_inside _ array before.length c inside
      have next : after.toList = (before ++ [c]) ++ others ++ behind := by
        rw [now, stands, List.append_assoc, List.set_append_right _ _ (Nat.le_refl _), Nat.sub_self]
        simp
      obtain ⟨last, rest', whole⟩ := inductionHypothesis next (Nat.succ.inj same)
      refine ⟨last, ?_, ?_⟩
      · rw [storeText, stored, Option.bind_some, ← rest', List.length_append, List.length_singleton]
      · rw [whole]
        simp

theorem moveRight_outside {distance count : Nat} {array : Vector CChar size}
    (outside : size ≤ count + distance) : moveRight distance (count + 1) array = none := by
  rw [moveRight, store_outside outside]
  rfl

/-- The characters stand behind the distance; what is before it and behind them stays. -/
theorem moveRight_inside {distance count : Nat} {array : Vector CChar size}
    (inside : count + distance ≤ size) :
    ∃ after, moveRight distance count array = some after ∧
      ∀ index, after.toList.getD index 0 =
        if distance ≤ index ∧ index < count + distance then array.toList.getD (index - distance) 0
        else array.toList.getD index 0 := by
  induction count generalizing array with
  | zero => exact ⟨array, rfl, fun index => (if_neg (by omega)).symm⟩
  | succ count inductionHypothesis =>
      obtain ⟨next, stored, now⟩ := @store_inside _ array (count + distance)
        (array.toList.getD count 0) (by omega)
      obtain ⟨after, moved, stands⟩ := @inductionHypothesis next (by omega)
      refine ⟨after, ?_, fun index => ?_⟩
      · rw [moveRight, stored, Option.bind_some, moved]
      · have length := array.length_toList
        have old : ∀ other, next.toList.getD other 0 =
            if other = count + distance then array.toList.getD count 0
            else array.toList.getD other 0 := fun other => by
          rw [now, List.getD_eq_getElem?_getD, List.getElem?_set]
          split
          · next same =>
              rw [if_pos (by omega), if_pos same.symm]
              rfl
          · next different => rw [if_neg (Ne.symm different), List.getD_eq_getElem?_getD]
        rw [stands, old, old]
        by_cases last : index = count + distance
        · subst last
          rw [if_neg (by omega), if_pos rfl, if_pos (by omega), Nat.add_sub_cancel]
        · rw [if_neg last]
          split
          · rw [if_neg (by omega), if_pos (by omega)]
          · rw [if_neg (by omega)]

/-! ### Padding -/

theorem cstring_eq {array : Vector CChar size} {text behind : List CChar}
    (stands : array.toList = text ++ 0 :: behind) (letters : ∀ c ∈ text, c ≠ 0) :
    cstring array = text := by
  rw [cstring, stands, List.takeWhile_append_of_pos fun c member => decide_eq_true (letters c member),
    List.takeWhile_cons_of_neg (by decide), List.append_nil]

def padded (zeroPad : Bool) (width : Word) (text : List CChar) : List CChar :=
  if zeroPad then List.replicate (width.toInt.toNat - text.length) 0x30 ++ text else text

theorem padZeros_outside {array : Vector CChar size} {width : Word}
    (outside : size ≤ width.toInt) (longer : (cstring array).length < width.toInt) :
    padZeros width array = none := by
  have moved : moveRight (width.toInt.toNat - (cstring array).length) ((cstring array).length + 1)
      array = none := moveRight_outside (by omega)
  rw [padZeros, if_neg (by omega), moved]
  rfl

theorem padZeros_inside {array : Vector CChar size} {width : Word} {text behind : List CChar}
    (stands : array.toList = text ++ 0 :: behind) (letters : ∀ c ∈ text, c ≠ 0)
    (inside : width.toInt < size) :
    (padZeros width array).map cstring = some (padded true width text) := by
  have isText := cstring_eq stands letters
  rw [padZeros, isText, padded, if_pos rfl]
  by_cases enough : width.toInt ≤ text.length
  · have none : width.toInt.toNat - text.length = 0 := by omega
    rw [if_pos enough, none, Option.map_some, isText]
    rfl
  · rw [if_neg enough]
    generalize count : width.toInt.toNat - text.length = distance
    obtain ⟨after, moved, now⟩ := @moveRight_inside _ distance (text.length + 1) array (by omega)
    have long : distance + text.length + 1 ≤ after.toList.length := by
      rw [after.length_toList]
      omega
    have shifted : (after.toList.drop distance).take (text.length + 1) = text ++ [0] := by
      refine List.ext_getElem ?_ fun index less _ => ?_
      · rw [List.length_take, List.length_drop, List.length_append, List.length_singleton]
        omega
      · rw [List.length_take] at less
        have place := now (distance + index)
        rw [if_pos (by omega), Nat.add_sub_cancel_left, stands, List.getD_eq_getElem?_getD,
          List.getD_eq_getElem?_getD, List.append_cons] at place
        rw [List.getElem_take, List.getElem_drop, ← Option.some_inj, ← List.getElem?_eq_getElem,
          ← List.getElem?_eq_getElem]
        rw [List.getElem?_append_left (by simp; omega)] at place
        rw [List.getElem?_eq_getElem (by omega), List.getElem?_eq_getElem (by simp; omega)] at *
        exact congrArg some place
    have split : after.toList = [] ++ after.toList.take distance ++ after.toList.drop distance :=
      (List.take_append_drop distance _).symm
    obtain ⟨last, filled, whole⟩ := @storeText_inside _ (List.replicate distance 0x30) [] _ _ after
      split (by rw [List.length_take, List.length_replicate]; omega)
    have final : last.toList = (List.replicate distance 0x30 ++ text) ++
        0 :: (after.toList.drop distance).drop (text.length + 1) := by
      rw [whole, List.nil_append, List.append_assoc, ← List.take_append_drop (text.length + 1)
        (after.toList.drop distance), shifted, List.append_assoc, List.drop_append]
      simp
    have others : ∀ c ∈ List.replicate distance 0x30 ++ text, c ≠ 0 := by
      intro c member
      rcases List.mem_append.mp member with zero | letter
      · rw [List.eq_of_mem_replicate zero]
        decide
      · exact letters c letter
    rw [moved, Option.bind_some]
    rw [show storeText 0 _ after = some last from filled, Option.map_some, cstring_eq final others]

theorem storeText_string {text : List CChar} (short : text.length < size)
    (array : Vector CChar size) :
    ∃ written behind, storeText 0 (text ++ [0]) array = some written ∧
      written.toList = text ++ 0 :: behind := by
  have length := array.length_toList
  have split : array.toList = [] ++ array.toList.take (text.length + 1) ++
      array.toList.drop (text.length + 1) := (List.take_append_drop _ _).symm
  obtain ⟨written, stored, whole⟩ := @storeText_inside _ (text ++ [0]) [] _ _ array split
    (by rw [List.length_take, List.length_append, List.length_singleton]; omega)
  refine ⟨written, array.toList.drop (text.length + 1), stored, ?_⟩
  rw [whole, List.nil_append, List.append_assoc]
  rfl

theorem storeText_outside {text : List CChar} {index : Nat} {array : Vector CChar size}
    (within : index ≤ size) (outside : size < index + text.length) :
    storeText index text array = none := by
  induction text generalizing index array with
  | nil => exact absurd outside (Nat.not_lt.mpr within)
  | cons c rest inductionHypothesis =>
      rw [storeText]
      by_cases inside : index < size
      · obtain ⟨after, stored, -⟩ := @store_inside _ array index c inside
        rw [stored, Option.bind_some]
        rw [List.length_cons] at outside
        exact inductionHypothesis inside (by omega)
      · rw [store_outside (Nat.not_lt.mp inside)]
        rfl

theorem numeric_eq {convert : Word → Vector CChar size → Option (Vector CChar size)} {value : Word}
    {text : List CChar} (stores : ∀ array, convert value array = storeText 0 (text ++ [0]) array)
    (letters : ∀ c ∈ text, c ≠ 0) (short : text.length < size) (zeroPad : Bool) (width : Word)
    (array : Vector CChar size) :
    (numeric convert value zeroPad width array).map cstring =
      if zeroPad ∧ (size : Int) ≤ width.toInt then none else some (padded zeroPad width text) := by
  obtain ⟨written, behind, stored, stands⟩ := storeText_string short array
  rw [numeric, stores, stored, Option.bind_some]
  cases zeroPad with
  | false =>
      rw [if_neg (fun both => Bool.noConfusion both.1), if_neg (fun both => Bool.noConfusion both.1),
        Option.map_some, cstring_eq stands letters]
      rfl
  | true =>
      by_cases positive : 0 < width.toInt
      · rw [if_pos ⟨rfl, positive⟩]
        by_cases outside : (size : Int) ≤ width.toInt
        · rw [if_pos ⟨rfl, outside⟩, padZeros_outside outside
            (by rw [cstring_eq stands letters]; omega)]
          rfl
        · rw [if_neg (fun both => outside both.2)]
          exact padZeros_inside stands letters (by omega)
      · have none : width.toInt.toNat - text.length = 0 := by omega
        rw [if_neg (fun both => positive both.2), if_neg (by omega), Option.map_some,
          cstring_eq stands letters, padded, if_pos rfl, none]
        rfl

/-! ## The numerals as strings -/

theorem digitChar_ne_zero {digit : Nat} (small : digit < 16) : digitChar digit ≠ 0 := by
  revert digit
  decide

theorem numberText_letters {base : Nat} (large : 1 < base) (small : base ≤ 16) (number : Nat) :
    ∀ c ∈ numberText base number, c ≠ 0 := by
  intro c member
  obtain ⟨digit, isDigit, rfl⟩ := List.mem_map.mp member
  exact digitChar_ne_zero (Nat.lt_of_lt_of_le (numeral_lt large digit isDigit) small)

theorem numberText_length {base place number : Nat} (large : 1 < base) (some : 0 < place)
    (less : number < base ^ place) : (numberText base number).length ≤ place := by
  rw [numberText, List.length_map]
  exact numeral_length large some less

theorem signedText_letters (number : Int) : ∀ c ∈ signedText number, c ≠ 0 := by
  intro c member
  rcases List.mem_append.mp member with sign | digit
  · split at sign
    · rw [List.mem_singleton.mp sign]
      decide
    · exact absurd sign List.not_mem_nil
  · exact numberText_letters (by decide) (by decide) _ c digit

theorem signedText_length (value : Word) : (signedText value.toInt).length ≤ 11 := by
  have bound := value.isLt
  have less : value.toInt.natAbs < 10 ^ 10 := by
    rw [BitVec.toInt_eq_toNat_cond]
    split <;> omega
  have digits := numberText_length (by decide) (by decide) less
  rw [signedText, List.length_append]
  split
  · rw [List.length_singleton]
    omega
  · rw [List.length_nil]
    omega

end OrionBios.Libc
