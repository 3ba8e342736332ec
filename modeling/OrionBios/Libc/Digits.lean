import Mathlib.Data.Nat.Digits.Lemmas

/-!
# Numerals

The digits of a number in the order in which they are written.
-/

namespace OrionBios.Digits

/-- The digits as they are written; zero has one. -/
def numeral (base number : Nat) : List Nat :=
  if number = 0 then [0] else (Nat.digits base number).reverse

/-- All digits below a place, with the zeros at the front. -/
def places (base : Nat) : Nat → Nat → List Nat
  | 0, _ => []
  | place + 1, number => number / base ^ place % base :: places base place number

/-- The number that digits spell behind those of another. -/
def spelled (base : Nat) (number : Nat) (digits : List Nat) : Nat :=
  digits.foldl (fun number digit => number * base + digit) number

variable {base number place : Nat}

/-! ## Written digits -/

theorem places_concat (base place number : Nat) :
    places base (place + 1) number = places base place (number / base) ++ [number % base] := by
  induction place with
  | zero => rw [places, places, places, Nat.pow_zero, Nat.div_one, List.nil_append]
  | succ place inductionHypothesis =>
      rw [places, inductionHypothesis, places, List.cons_append, Nat.div_div_eq_div_mul,
        Nat.pow_succ']

theorem places_mod (base place number : Nat) :
    places base place (number % base ^ place) = places base place number := by
  induction place generalizing number with
  | zero => rfl
  | succ place inductionHypothesis =>
      rw [places_concat, places_concat, Nat.pow_succ', Nat.mod_mul_right_div_self,
        inductionHypothesis, Nat.mod_mul_right_mod]

theorem places_length : (places base place number).length = place := by
  induction place with
  | zero => rfl
  | succ place inductionHypothesis => rw [places, List.length_cons, inductionHypothesis]

theorem places_dropWhile (large : 1 < base) (less : number < base ^ place) :
    (places base place number).dropWhile (· = 0) = (Nat.digits base number).reverse := by
  induction place generalizing number with
  | zero =>
      rw [Nat.pow_zero, Nat.lt_one_iff] at less
      rw [less, Nat.digits_zero]
      rfl
  | succ place inductionHypothesis =>
      rw [Nat.pow_succ] at less
      have shorter := inductionHypothesis (Nat.div_lt_of_lt_mul (Nat.mul_comm _ base ▸ less))
      rw [places_concat, List.dropWhile_append, shorter]
      by_cases none : number / base = 0
      · rw [none, Nat.digits_zero]
        have small := (Nat.div_eq_zero_iff_lt (Nat.zero_lt_of_lt large)).mp none
        rw [Nat.mod_eq_of_lt small]
        by_cases zero : number = 0
        · rw [zero, Nat.digits_zero]
          rfl
        · rw [Nat.digits_of_lt base number zero small]
          simp [zero]
      · have positive : number ≠ 0 := fun zero => none (by rw [zero, Nat.zero_div])
        have notEmpty : (Nat.digits base (number / base)).reverse.isEmpty = false := by
          rw [List.isEmpty_reverse, List.isEmpty_eq_false_iff]
          exact Nat.digits_ne_nil_iff_ne_zero.mpr none
        rw [notEmpty, Nat.digits_eq_cons_digits_div large positive, List.reverse_cons]
        rfl

theorem numeral_of_pos (positive : number ≠ 0) :
    numeral base number = (Nat.digits base number).reverse := if_neg positive

theorem numeral_zero : numeral base 0 = [0] := if_pos rfl

theorem numeral_small (small : number < base) : numeral base number = [number] := by
  by_cases zero : number = 0
  · rw [zero, numeral_zero]
  · rw [numeral_of_pos zero, Nat.digits_of_lt base number zero small, List.reverse_singleton]

theorem numeral_concat (large : 1 < base) (further : number / base ≠ 0) :
    numeral base number = numeral base (number / base) ++ [number % base] := by
  have positive : number ≠ 0 := by
    rintro rfl
    exact further (Nat.zero_div base)
  rw [numeral_of_pos positive, numeral_of_pos further, Nat.digits_eq_cons_digits_div large positive,
    List.reverse_cons]

theorem numeral_lt (large : 1 < base) : ∀ digit ∈ numeral base number, digit < base := by
  intro digit member
  by_cases zero : number = 0
  · rw [zero, numeral_zero, List.mem_singleton] at member
    omega
  · rw [numeral_of_pos zero, List.mem_reverse] at member
    exact Nat.digits_lt_base large member

theorem numeral_ne_nil : numeral base number ≠ [] := by
  by_cases zero : number = 0
  · rw [zero, numeral_zero]
    exact List.cons_ne_nil _ _
  · rw [numeral_of_pos zero, Ne, List.reverse_eq_nil_iff]
    exact Nat.digits_ne_nil_iff_ne_zero.mpr zero

theorem numeral_length (large : 1 < base) (some : 0 < place) (less : number < base ^ place) :
    (numeral base number).length ≤ place := by
  by_cases zero : number = 0
  · rw [zero, numeral_zero]
    exact some
  · rw [numeral_of_pos zero, ← places_dropWhile large less]
    exact Nat.le_trans (List.dropWhile_sublist _).length_le (Nat.le_of_eq places_length)

/-! ## Spelled numbers -/

theorem spelled_nil : spelled base number [] = number := rfl

theorem spelled_cons (digit : Nat) (rest : List Nat) :
    spelled base number (digit :: rest) = spelled base (number * base + digit) rest := rfl

theorem spelled_append (first second : List Nat) :
    spelled base number (first ++ second) = spelled base (spelled base number first) second :=
  List.foldl_append

theorem spelled_reverse (digits : List Nat) :
    spelled base 0 digits.reverse = Nat.ofDigits base digits := by
  have reading : (fun digit number => number * base + digit) =
      fun digit number => ((digit : Nat) : Nat) + base * number := by
    funext digit number
    rw [Nat.add_comm, Nat.mul_comm]
  rw [spelled, List.foldl_reverse, reading]
  exact (Nat.ofDigits_eq_foldr base _).symm

theorem spelled_digits : spelled base 0 (Nat.digits base number).reverse = number := by
  rw [spelled_reverse, Nat.ofDigits_digits]

theorem spelled_numeral : spelled base 0 (numeral base number) = number := by
  by_cases zero : number = 0
  · rw [zero, numeral_zero, spelled_cons, spelled_nil, Nat.zero_mul]
  · rw [numeral_of_pos zero, spelled_digits]

theorem le_spelled (positive : 0 < base) (digits : List Nat) :
    number ≤ spelled base number digits := by
  induction digits generalizing number with
  | nil => exact Nat.le_refl number
  | cons digit rest inductionHypothesis =>
      rw [spelled_cons]
      exact Nat.le_trans (Nat.le_trans (Nat.le_mul_of_pos_right _ positive)
        (Nat.le_add_right _ digit)) inductionHypothesis

theorem spelled_lt {digits : List Nat} (large : 1 < base) (small : ∀ digit ∈ digits, digit < base) :
    spelled base 0 digits < base ^ digits.length := by
  rw [← List.reverse_reverse digits, spelled_reverse, List.length_reverse]
  exact Nat.ofDigits_lt_base_pow_length large fun digit member =>
    small digit (List.mem_reverse.mp member)

theorem spelled_front (number : Nat) (digits : List Nat) :
    spelled base number digits = number * base ^ digits.length + spelled base 0 digits := by
  induction digits generalizing number with
  | nil => rw [spelled_nil, spelled_nil, List.length_nil, Nat.pow_zero, Nat.mul_one, Nat.add_zero]
  | cons digit rest inductionHypothesis =>
      rw [spelled_cons, spelled_cons, inductionHypothesis, inductionHypothesis (0 * base + digit),
        List.length_cons, Nat.pow_succ', ← Nat.mul_assoc, Nat.add_mul, Nat.zero_mul, Nat.zero_add,
        Nat.add_assoc]

theorem spelled_strictMono (positive : 0 < base) {less more : Nat} (lt : less < more)
    (digits : List Nat) : spelled base less digits < spelled base more digits := by
  rw [spelled_front less, spelled_front more]
  exact Nat.add_lt_add_right (Nat.mul_lt_mul_of_pos_right lt (Nat.pow_pos positive)) _

/-! ### The same digits in another base

Digits of a larger base, of which another reads those that it has. -/

section Bases

variable {small large : Nat}

theorem spelled_takeWhile_le (less : small < large) (number : Nat) (digits : List Nat) :
    spelled small number (digits.takeWhile (· < small)) ≤ spelled large number digits := by
  have positive := Nat.zero_lt_of_lt less
  induction digits generalizing number with
  | nil => exact Nat.le_refl number
  | cons digit rest inductionHypothesis =>
      rw [List.takeWhile_cons, spelled_cons]
      split
      · rw [spelled_cons]
        refine Nat.le_trans (inductionHypothesis _) ?_
        rcases Nat.lt_or_eq_of_le (Nat.mul_le_mul_left number (Nat.le_of_lt less)) with lt | equal
        · exact Nat.le_of_lt (spelled_strictMono positive (Nat.add_lt_add_right lt digit) rest)
        · rw [equal]
      · exact Nat.le_trans (Nat.le_trans (Nat.le_mul_of_pos_right number positive)
          (Nat.le_add_right _ digit)) (le_spelled positive rest)

theorem spelled_takeWhile_front (some : 0 < small) (less : small < large) {number : Nat}
    (front : 0 < number) {digits : List Nat} (nonempty : digits ≠ []) :
    spelled small number (digits.takeWhile (· < small)) < spelled large number digits := by
  have positive := Nat.zero_lt_of_lt less
  cases digits with
  | nil => exact absurd rfl nonempty
  | cons digit rest =>
      rw [List.takeWhile_cons, spelled_cons]
      by_cases inside : digit < small
      · rw [if_pos (decide_eq_true inside), spelled_cons]
        exact Nat.lt_of_le_of_lt (spelled_takeWhile_le less _ rest)
          (spelled_strictMono positive
            (Nat.add_lt_add_right (Nat.mul_lt_mul_of_pos_left less front) digit) rest)
      · have atLeast := Nat.le_mul_of_pos_right number positive
        rw [if_neg fun isSmall => inside (of_decide_eq_true isSmall), spelled_nil]
        exact Nat.lt_of_lt_of_le (by omega) (le_spelled positive rest)

/-- A number with more than one digit, or one too large for the smaller base, is worth more. -/
theorem spelled_takeWhile_lt (some : 0 < small) (less : small < large) {digits : List Nat}
    (more : small ≤ spelled large 0 digits) :
    spelled small 0 (digits.takeWhile (· < small)) < spelled large 0 digits := by
  induction digits with
  | nil => exact absurd more (Nat.not_le.mpr some)
  | cons digit rest inductionHypothesis =>
      rw [spelled_cons, Nat.zero_mul, Nat.zero_add] at more ⊢
      rw [List.takeWhile_cons]
      by_cases inside : digit < small
      · rw [if_pos (decide_eq_true inside), spelled_cons, Nat.zero_mul, Nat.zero_add]
        by_cases zero : digit = 0
        · rw [zero] at more ⊢
          exact inductionHypothesis more
        · refine spelled_takeWhile_front some less (Nat.pos_of_ne_zero zero) ?_
          rintro rfl
          exact absurd more (Nat.not_le.mpr inside)
      · rw [if_neg fun isSmall => inside (of_decide_eq_true isSmall), spelled_nil]
        exact Nat.lt_of_lt_of_le (by omega) (le_spelled (Nat.zero_lt_of_lt less) rest)

theorem spelled_small (less : small < large) {digits : List Nat}
    (few : spelled large number digits < small) :
    spelled small number digits = spelled large number digits ∧
      ∀ digit ∈ digits, digit < small := by
  induction digits generalizing number with
  | nil => exact ⟨rfl, fun digit member => absurd member List.not_mem_nil⟩
  | cons digit rest inductionHypothesis =>
      rw [spelled_cons] at few
      have bounded := Nat.lt_of_le_of_lt (le_spelled (Nat.zero_lt_of_lt less) rest) few
      have zero : number = 0 := by
        by_contra positive
        have atLeast := Nat.le_mul_of_pos_left large (Nat.pos_of_ne_zero positive)
        omega
      obtain ⟨same, others⟩ := inductionHypothesis few
      rw [spelled_cons, spelled_cons, zero, Nat.zero_mul, Nat.zero_mul]
      rw [zero, Nat.zero_mul] at same bounded
      refine ⟨same, fun other member => ?_⟩
      rcases List.mem_cons.mp member with rfl | later
      · omega
      · exact others other later

end Bases

/-! ## Canonical numerals -/

/-- Digits that spell a number, without a zero in front. -/
structure Canonical (base number : Nat) (digits : List Nat) : Prop where
  nonempty : digits ≠ []
  small : ∀ digit ∈ digits, digit < base
  spells : spelled base 0 digits = number
  noZero : digits.head? = some 0 → digits = [0]

theorem numeral_canonical (large : 1 < base) : Canonical base number (numeral base number) where
  nonempty := numeral_ne_nil
  small := numeral_lt large
  spells := spelled_numeral
  noZero := by
    intro zeroFirst
    by_cases zero : number = 0
    · rw [zero, numeral_zero]
    · rw [numeral_of_pos zero, List.head?_reverse] at zeroFirst
      have some : Nat.digits base number ≠ [] := Nat.digits_ne_nil_iff_ne_zero.mpr zero
      have last := Nat.getLast_digit_ne_zero base zero
      rw [List.getLast?_eq_some_getLast some] at zeroFirst
      exact absurd (Option.some.inj zeroFirst) last

theorem numeral_shortest {digits : List Nat} (large : 1 < base) (nonempty : digits ≠ [])
    (small : ∀ digit ∈ digits, digit < base) (spells : spelled base 0 digits = number) :
    (numeral base number).length ≤ digits.length :=
  numeral_length large (List.length_pos_iff.mpr nonempty) (spells ▸ spelled_lt large small)

end OrionBios.Digits
