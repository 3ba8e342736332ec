import OrionBios.Libc.Printf

/-!
# Numbers with zeros in front

`%0N` with a numeric conversion: the zeros go in front of the whole numeral, and the width is not
compared with the size of the buffer.
-/

namespace OrionBios.Libc

open Machine Digits

/-! ## What it should be -/

inductive Conversion where
  | d
  | i
  | u
  | x
  | X
  | o
deriving DecidableEq

namespace Conversion

def letter : Conversion → CChar
  | d => 0x64
  | i => 0x69
  | u => 0x75
  | x => 0x78
  | X => 0x58
  | o => 0x6F

def isSigned : Conversion → Bool
  | d => true
  | i => true
  | _ => false

def capitalChar (digit : Nat) : CChar :=
  if digit < 10 then digitChar digit else capitalDigits.getD (digit - 10) 0

def sign (conversion : Conversion) (value : Word) : List CChar :=
  if conversion.isSigned ∧ value.toInt < 0 then [0x2D] else []

def digits : Conversion → Word → List CChar
  | d, value => numberText 10 value.toInt.natAbs
  | i, value => numberText 10 value.toInt.natAbs
  | u, value => numberText 10 value.toNat
  | x, value => numberText 16 value.toNat
  | X, value => (numeral 16 value.toNat).map capitalChar
  | o, value => numberText 8 value.toNat

def standard (conversion : Conversion) (width : Nat) (value : Word) : List CChar :=
  conversion.sign value ++ (List.replicate
    (width - ((conversion.sign value).length + (conversion.digits value).length)) 0x30 ++
      conversion.digits value)

/-- The numeral that the code makes. -/
def convert : Conversion → Word → List CChar
  | d => itodecText
  | i => itodecText
  | u => itoudecText
  | x => itoxText
  | X => itoxText
  | o => itooctText

/-- `%0` with a width and the letter. -/
def paddedFormat (conversion : Conversion) (width : List (Fin 10)) : List CChar :=
  0x25 :: 0x30 :: (width.map (fun digit => digitChar digit.val) ++ [conversion.letter])

def widthOf (width : List (Fin 10)) : Nat := spelled 10 0 (width.map Fin.val)

/-- Both functions write the number as they should. -/
def Pads (conversion : Conversion) (width : List (Fin 10)) (value : Word) : Prop :=
  ∀ buffer,
    printf buffer (conversion.paddedFormat width) [.int value] =
        some ⟨conversion.standard (widthOf width) value,
          BitVec.ofNat 32 (conversion.standard (widthOf width) value).length, []⟩ ∧
      sprintf buffer (conversion.paddedFormat width) [.int value] =
        some ⟨conversion.standard (widthOf width) value,
          BitVec.ofNat 32 (conversion.standard (widthOf width) value).length, []⟩

/-- The width has room in the buffer, a negative number needs no zeros, and a capital conversion
has no letters. -/
structure Simple (conversion : Conversion) (width : Nat) (value : Word) : Prop where
  room : width ≤ 31
  sign : conversion.isSigned = true → 0 ≤ value.toInt ∨
    width ≤ (conversion.sign value).length + (conversion.digits value).length
  capital : conversion = X → ∀ digit ∈ numeral 16 value.toNat, digit < 10

/-! ## What the code does -/

variable {conversion : Conversion} {value : Word}

theorem readDigit_padded (number : Nat) (digit : Fin 10) :
    isDigit (digitChar digit.val) = true ∧
      readDigit true (BitVec.ofNat 32 number) (digitChar digit.val) =
        .flags true (BitVec.ofNat 32 (number * 10 + digit.val)) := by
  have letters : ∀ digit : Fin 10, isDigit (digitChar digit.val) = true ∧
      (digitChar digit.val = 0x30 → digit.val = 0) ∧
        BitVec.ofInt 32 ((digitChar digit.val).toInt - 0x30) = BitVec.ofNat 32 digit.val := by
    decide
  obtain ⟨isDigit, isZero, number'⟩ := letters digit
  refine ⟨isDigit, ?_⟩
  rw [readDigit, number', BitVec.ofNat_add, BitVec.ofNat_mul]
  split
  · next both => rw [both.2, isZero both.1]; rfl
  · rfl

theorem letter_facts : ∀ conversion : Conversion, isDigit conversion.letter = false ∧
    conversion.letter ≠ 0x6C ∧ caseOf conversion.letter ≠ .other := by
  intro conversion
  cases conversion <;> decide

theorem pieces_width (skipsLong : Bool) (width : List (Fin 10)) (number : Nat) :
    pieces skipsLong (.flags true (BitVec.ofNat 32 number))
        (width.map (fun digit => digitChar digit.val) ++ [conversion.letter]) =
      [.conversion true (BitVec.ofNat 32 (spelled 10 number (width.map Fin.val))) false
        conversion.letter] := by
  induction width generalizing number with
  | nil =>
      obtain ⟨notDigit, notLong, -⟩ := letter_facts conversion
      rw [List.map_nil, List.nil_append, pieces, notDigit, if_neg Bool.false_ne_true,
        if_neg fun both => notLong both.2]
      rfl
  | cons digit rest inductionHypothesis =>
      obtain ⟨isDigit, reads⟩ := readDigit_padded number digit
      rw [List.map_cons, List.cons_append, pieces, if_pos isDigit, reads, inductionHypothesis]
      rfl

theorem pieces_padded (skipsLong : Bool) (width : List (Fin 10)) :
    pieces skipsLong .text (conversion.paddedFormat width) =
      [.conversion true (BitVec.ofNat 32 (widthOf width)) false conversion.letter] :=
  pieces_width skipsLong width 0

theorem knownText_letter (zeroPad : Bool) (width : Word) (args : List Arg) :
    knownText zeroPad width args (caseOf conversion.letter) =
      knownText.numberCase zeroPad width args conversion.convert := by
  cases conversion <;> rfl

theorem convert_length (conversion : Conversion) (value : Word) :
    (conversion.convert value).length ≤ 11 := by
  cases conversion with
  | d => exact (itodec_text value).2
  | i => exact (itodec_text value).2
  | u => exact (itoudec_text value).2
  | x => exact (itox_text value).2
  | X => exact (itox_text value).2
  | o => exact (itooct_text value).2

theorem run_padded (buffer : Vector CChar 32) (width : List (Fin 10)) :
    printf buffer (conversion.paddedFormat width) [.int value] =
        (if 32 ≤ (BitVec.ofNat 32 (widthOf width)).toInt then none
        else some (padded true (BitVec.ofNat 32 (widthOf width)) (conversion.convert value))).map
          (fun out => ⟨out, BitVec.ofNat 32 out.length, []⟩) ∧
      sprintf buffer (conversion.paddedFormat width) [.int value] =
        (if 32 ≤ (BitVec.ofNat 32 (widthOf width)).toInt then none
        else some (padded true (BitVec.ofNat 32 (widthOf width)) (conversion.convert value))).map
          (fun out => ⟨out, BitVec.ofNat 32 out.length, []⟩) := by
  obtain ⟨-, -, isKnown⟩ := letter_facts conversion
  have none : flagZeros true conversion.letter = 0 := if_neg isKnown
  have number : knownText.numberCase true (BitVec.ofNat 32 (widthOf width)) [.int value]
      conversion.convert = if 32 ≤ (BitVec.ofNat 32 (widthOf width)).toInt then Option.none
        else some (padded true (BitVec.ofNat 32 (widthOf width)) (conversion.convert value), []) := by
    rw [knownText.numberCase]
    exact if_congr (and_iff_right rfl) rfl rfl
  rw [printf_eq, sprintf_eq, pieces_padded, pieces_padded, emission, emission, uncounted, uncounted,
    none, Printf.text, Sprintf.text, if_neg isKnown, if_neg isKnown, knownText_letter, number]
  split
  · exact ⟨rfl, rfl⟩
  · simp only [emission, Option.bind_some, Option.map_some, List.append_nil]
    exact ⟨congrArg some (congrArg (Result.mk _ · _) (BitVec.sub_zero _)), trivial⟩

theorem signed_sign {conversion : Conversion} (signed : conversion.isSigned = true) (value : Word) :
    conversion.sign value = if value.toInt < 0 then [0x2D] else [] :=
  if_congr (and_iff_right signed) rfl rfl

theorem convert_eq (notCapital : conversion ≠ X) (value : Word) :
    conversion.convert value = conversion.sign value ++ conversion.digits value := by
  cases conversion with
  | d => rw [convert, itodecText_eq, signedText, signed_sign rfl, digits]
  | i => rw [convert, itodecText_eq, signedText, signed_sign rfl, digits]
  | u => exact itoudecText_eq value
  | x => exact itoxText_eq value
  | X => exact absurd rfl notCapital
  | o => exact itooctText_eq value

theorem convert_lengths (conversion : Conversion) (value : Word) :
    (conversion.convert value).length =
      (conversion.sign value).length + (conversion.digits value).length := by
  by_cases capital : conversion = X
  · subst capital
    have none : sign X value = [] := if_neg fun both => Bool.noConfusion both.1
    rw [none, convert, itoxText_eq, digits, numberText, List.length_map, List.length_map]
    exact (Nat.zero_add _).symm
  · rw [convert_eq capital, List.length_append]

theorem standard_length (conversion : Conversion) (width : Nat) (value : Word) :
    (conversion.standard width value).length = max width (conversion.convert value).length := by
  rw [standard, List.length_append, List.length_append, List.length_replicate, convert_lengths]
  omega

theorem padded_length (width : Word) (text : List CChar) :
    (padded true width text).length = max width.toInt.toNat text.length := by
  rw [padded, if_pos rfl, List.length_append, List.length_replicate]
  omega

theorem capitalChar_eq {digit : Nat} (small : digit < 16) :
    digitChar digit = capitalChar digit ↔ digit < 10 := by
  revert digit
  decide

/-- With a width that has room, the numeral is right where it needs no zeros between sign and digits
and no capital letter. -/
theorem padded_eq_standard {width : Nat} {word : Word} (isWidth : word.toInt = width) :
    padded true word (conversion.convert value) = conversion.standard width value ↔
      (conversion.isSigned = true → 0 ≤ value.toInt ∨
        width ≤ (conversion.sign value).length + (conversion.digits value).length) ∧
        (conversion = X → ∀ digit ∈ numeral 16 value.toNat, digit < 10) := by
  have count : word.toInt.toNat = width := by rw [isWidth, Int.toNat_natCast]
  rw [padded, if_pos rfl, count, standard, ← convert_lengths]
  by_cases capital : conversion = X
  · subst capital
    have none : sign X value = [] := if_neg fun both => Bool.noConfusion both.1
    rw [none, List.nil_append, List.append_cancel_left_eq, convert, itoxText_eq, digits, numberText]
    constructor
    · intro same
      refine ⟨fun signed => Bool.noConfusion signed, fun _ digit member => ?_⟩
      have here := List.map_inj_left.mp same digit member
      exact (capitalChar_eq (numeral_lt (by decide) digit member)).mp here
    · rintro ⟨-, small⟩
      refine List.map_congr_left fun digit member => ?_
      exact (capitalChar_eq (numeral_lt (by decide) digit member)).mpr (small rfl digit member)
  · generalize isLength : (conversion.convert value).length = length
    rw [convert_eq capital]
    by_cases negative : conversion.isSigned = true ∧ value.toInt < 0
    · have isSign : conversion.sign value = [0x2D] := if_pos negative
      rw [isSign]
      constructor
      · intro same
        refine ⟨fun _ => .inr (Nat.le_of_not_lt fun less => ?_),
          fun isCapital => absurd isCapital capital⟩
        -- the first character is a zero, and should be the sign
        obtain ⟨zeros, isCount⟩ := Nat.exists_eq_add_of_lt less
        have some : width - length = zeros + 1 := by omega
        rw [some, List.replicate_succ] at same
        exact absurd (List.cons.inj same).1 (by decide)
      · rintro ⟨enough, -⟩
        have none : width - length = 0 := by
          rcases enough negative.1 with notNegative | fits
          · exact absurd negative.2 (Int.not_lt.mpr notNegative)
          · exact Nat.sub_eq_zero_of_le fits
        rw [none]
        rfl
    · have isSign : conversion.sign value = [] := if_neg negative
      rw [isSign]
      refine ⟨fun _ => ⟨fun signed => .inl ?_, fun isCapital => absurd isCapital capital⟩,
        fun _ => rfl⟩
      by_contra less
      exact negative ⟨signed, Int.not_le.mp less⟩

/-- A width that wraps around is too long for what is written, and one from 32 on for the buffer. -/
theorem width_room {width : Nat} (value : Word)
    (inside : (BitVec.ofNat 32 width).toInt < 32)
    (same : padded true (BitVec.ofNat 32 width) (conversion.convert value) =
      conversion.standard width value) : width ≤ 31 := by
  have lengths := congrArg List.length same
  have short := convert_length conversion value
  rw [padded_length, standard_length] at lengths
  omega

theorem toInt_width {width : Nat} (room : width ≤ 31) :
    (BitVec.ofNat 32 width).toInt = width := by
  rw [BitVec.toInt_eq_toNat_of_lt] <;> rw [BitVec.toNat_ofNat, Nat.mod_eq_of_lt (by omega)]
  omega

/-- Both functions pad a number as they should exactly if it is simple. -/
theorem pads_iff (conversion : Conversion) (width : List (Fin 10)) (value : Word) :
    conversion.Pads width value ↔ conversion.Simple (widthOf width) value := by
  constructor
  · intro pads
    obtain ⟨printed, -⟩ := pads (Vector.replicate 32 0)
    rw [(run_padded _ _).1] at printed
    by_cases outside : 32 ≤ (BitVec.ofNat 32 (widthOf width)).toInt
    · rw [if_pos outside] at printed
      cases printed
    · rw [if_neg outside, Option.map_some] at printed
      have same := congrArg Result.out (Option.some.inj printed)
      have room := width_room value (Int.not_le.mp outside) same
      obtain ⟨sign, capital⟩ := (padded_eq_standard (toInt_width room)).mp same
      exact ⟨room, sign, capital⟩
  · rintro ⟨room, sign, capital⟩ buffer
    have isWidth := toInt_width room
    have inside : ¬32 ≤ (BitVec.ofNat 32 (widthOf width)).toInt := by omega
    have same := (padded_eq_standard isWidth).mpr ⟨sign, capital⟩
    rw [(run_padded buffer width).1, (run_padded buffer width).2, if_neg inside, same]
    exact ⟨rfl, rfl⟩

/-- `%05d` of -12 has its zeros in front of the sign. -/
theorem sign_behind_zeros : ¬∀ conversion width value, Pads conversion width value := by
  intro all
  have printed := (all d [5] (-12) (Vector.replicate 32 0)).1
  have left : printf (Vector.replicate 32 0) (paddedFormat d [5]) [.int (-12)] =
      some ⟨[0x30, 0x30, 0x2D, 0x31, 0x32], 5, []⟩ := by decide +kernel
  have same := congrArg Result.out (Option.some.inj (left.symm.trans printed))
  exact absurd same (by decide +kernel)

end Conversion

end OrionBios.Libc
