import OrionBios.Libc.Scanf

/-!
# Scanning what has been printed

Fields that are printed with single spaces between them are scanned with the same format.
-/

namespace OrionBios.Libc

open Machine Digits

/-! ## Fields -/

/-- A string without whitespace. The string, its printed copy and its scanned copy are in 32-bit
memory together. -/
structure Token where
  text : List CChar
  notEmpty : text ≠ []
  letters : ∀ c ∈ text, c ≠ 0 ∧ scIsspace c = false
  short : text.length < 2 ^ 31

inductive Field where
  | d (value : Word)
  | u (value : Word)
  | x (value : Word)
  | o (value : Word)
  | s (token : Token)

namespace Field

def letter : Field → CChar
  | d _ => 0x64
  | u _ => 0x75
  | x _ => 0x78
  | o _ => 0x6F
  | s _ => 0x73

def arg : Field → Arg
  | d value => .int value
  | u value => .int value
  | x value => .int value
  | o value => .int value
  | s token => .str (some token.text)

def stored : Field → Stored
  | d value => .int value
  | u value => .int value
  | x value => .int value
  | o value => .int value
  | s token => .string token.text

/-- What is printed. -/
def text : Field → List CChar
  | d value => signedText value.toInt
  | u value => numberText 10 value.toNat
  | x value => numberText 16 value.toNat
  | o value => numberText 8 value.toNat
  | s token => token.text

end Field

/-- The conversions with single spaces between them. -/
def fieldFormat (fields : List Field) : List CChar :=
  [0x20].intercalate (fields.map fun field => [0x25, field.letter])

def fieldText (fields : List Field) : List CChar := [0x20].intercalate (fields.map Field.text)

/-! ## Printing -/

section Printing

variable {field : Field}

theorem pieces_field (field : Field) (more : List CChar) :
    pieces false .text (0x25 :: field.letter :: more) =
      .conversion false 0 false field.letter :: pieces false .text more := by
  cases field <;> rfl

theorem text_field (field : Field) (args : List Arg) :
    Sprintf.text false 0 field.letter (field.arg :: args) = some (field.text, args) := by
  have number : ∀ (convert : Word → List CChar) (value : Word),
      knownText.numberCase false 0 (.int value :: args) convert = some (convert value, args) :=
    fun convert value => by
      rw [knownText.numberCase, nextInt, Option.bind_some,
        if_neg fun both => Bool.noConfusion both.1]
      rfl
  cases field with
  | d value => exact (number itodecText value).trans (by rw [itodecText_eq]; rfl)
  | u value => exact (number itoudecText value).trans (by rw [itoudecText_eq]; rfl)
  | x value => exact (number itoxText value).trans (by rw [itoxText_eq]; rfl)
  | o value => exact (number itooctText value).trans (by rw [itooctText_eq]; rfl)
  | s token => rfl

theorem emission_fields (fields : List Field) :
    emission Sprintf.text (pieces false .text (fieldFormat fields)) (fields.map Field.arg) =
      some (fieldText fields, []) := by
  induction fields with
  | nil => rfl
  | cons field rest inductionHypothesis =>
      cases rest with
      | nil =>
          rw [fieldFormat, fieldText, List.map_singleton, List.map_singleton, List.map_singleton,
            List.intercalate_singleton, List.intercalate_singleton, pieces_field, emission,
            text_field]
          exact congrArg (fun out => some (out, [])) (List.append_nil _)
      | cons next others =>
          have format : fieldFormat (field :: next :: others) =
              0x25 :: field.letter :: 0x20 :: fieldFormat (next :: others) :=
            List.intercalate_cons_cons
          have text : fieldText (field :: next :: others) =
              field.text ++ [0x20] ++ fieldText (next :: others) := List.intercalate_cons_cons
          have space : pieces false .text (0x20 :: fieldFormat (next :: others)) =
              .text 0x20 :: pieces false .text (fieldFormat (next :: others)) := rfl
          rw [format, text, pieces_field, space, List.map_cons, emission, text_field,
            Option.bind_some, emission, inductionHypothesis, List.append_assoc]
          rfl

end Printing

/-! ## Scanning -/

section Scanning

/-- The end of a field. -/
def Stops (rest : List CChar) : Prop := rest = [] ∨ ∃ more, rest = 0x20 :: more

variable {rest : List CChar}

theorem digitChar_facts : ∀ digit < 16, scDigval (digitChar digit) = digit ∧
    scIsspace (digitChar digit) = false ∧ digitChar digit ≠ 0x2D ∧ digitChar digit ≠ 0x2B ∧
      digitChar digit ≠ 0x78 ∧ digitChar digit ≠ 0x58 := by decide

theorem digitRun_digits {base : Nat} (small : base ≤ 16) (stops : Stops rest) {digits : List Nat}
    (bounded : ∀ digit ∈ digits, digit < base) {remaining : Int} (room : digits.length ≤ remaining)
    (number count : Nat) :
    digitRun base remaining (digits.map digitChar ++ rest) (BitVec.ofNat 64 number) count =
      (BitVec.ofNat 64 (spelled base number digits), count + digits.length) := by
  induction digits generalizing remaining number count with
  | nil =>
      rcases stops with rfl | ⟨more, rfl⟩
      · rfl
      · exact if_neg fun all => absurd all.2.1 (by decide)
  | cons digit others inductionHypothesis =>
      have less := bounded digit List.mem_cons_self
      obtain ⟨isDigit, -⟩ := digitChar_facts digit (Nat.lt_of_lt_of_le less small)
      rw [List.length_cons] at room
      rw [List.map_cons, List.cons_append, digitRun, isDigit,
        if_pos ⟨by omega, by omega, by omega⟩, BitVec.ofInt_natCast, BitVec.ofInt_natCast,
        ← BitVec.ofNat_mul, ← BitVec.ofNat_add, inductionHypothesis
          (fun other member => bounded other (List.mem_cons_of_mem _ member)) (by omega),
        spelled_cons, List.length_cons]
      congr 1
      omega

theorem stringRun_token {text : List CChar} (letters : ∀ c ∈ text, c ≠ 0 ∧ scIsspace c = false)
    (stops : Stops rest) {remaining : Int} (room : text.length ≤ remaining) :
    stringRun remaining (text ++ rest) = text := by
  induction text generalizing remaining with
  | nil =>
      rcases stops with rfl | ⟨more, rfl⟩
      · rfl
      · exact if_neg fun all => absurd all.2 (by decide)
  | cons c others inductionHypothesis =>
      rw [List.length_cons] at room
      rw [List.cons_append, stringRun, if_pos ⟨by omega, (letters c List.mem_cons_self).2⟩,
        inductionHypothesis (fun other member => letters other (List.mem_cons_of_mem _ member))
          (by omega)]

/-- No `x` stands behind a digit. -/
theorem look_one (stops : Stops rest) {digits : List Nat} (some : digits ≠ [])
    (bounded : ∀ digit ∈ digits, digit < 16) :
    (digits.map digitChar ++ rest).getD 1 0 ≠ 0x78 ∧
      (digits.map digitChar ++ rest).getD 1 0 ≠ 0x58 := by
  obtain ⟨first, others, rfl⟩ := List.exists_cons_of_ne_nil some
  rw [List.map_cons, List.cons_append, List.getD_cons_succ]
  cases others with
  | nil =>
      rcases stops with rfl | ⟨more, rfl⟩
      · exact ⟨by decide, by decide⟩
      · rw [List.map_nil, List.nil_append, List.getD_cons_zero]
        exact ⟨by decide, by decide⟩
  | cons second others =>
      have less := bounded second (List.mem_cons_of_mem _ List.mem_cons_self)
      obtain ⟨-, -, -, -, notSmall, notCapital⟩ := digitChar_facts second less
      rw [List.map_cons, List.cons_append, List.getD_cons_zero]
      exact ⟨notSmall, notCapital⟩

theorem scanNumber_digits {base : Nat} {conv : CChar} (isBase : baseOf conv = base)
    (large : 8 ≤ base) (small : base ≤ 16) (notPointer : conv ≠ 0x70) (stops : Stops rest)
    (number : Nat) (short : (numeral base number).length ≤ 11) (moved : Nat) (count : Word)
    (stored : List Stored) :
    scanNumber false .n conv INT_MAX ⟨numberText base number ++ rest, moved, count, stored⟩ =
      .next ⟨rest, moved + (numeral base number).length, count + 1,
        stored ++ [.int (BitVec.ofNat 32 number)]⟩ := by
  have bounded : ∀ digit ∈ numeral base number, digit < base := numeral_lt (by omega)
  have bounded16 : ∀ digit ∈ numeral base number, digit < 16 := fun digit member =>
    Nat.lt_of_lt_of_le (bounded digit member) small
  obtain ⟨notSmall, notCapital⟩ := look_one stops numeral_ne_nil bounded16
  obtain ⟨first, others, isNumeral⟩ := List.exists_cons_of_ne_nil
    (@numeral_ne_nil base number)
  have less := bounded16 first (by rw [isNumeral]; exact List.mem_cons_self)
  obtain ⟨-, -, notMinus, notPlus, -, -⟩ := digitChar_facts first less
  have look : (numberText base number ++ rest).getD 0 0 = digitChar first := by
    rw [numberText, isNumeral]
    rfl
  have one : (numberText base number ++ rest).getD 1 0 ≠ 0x78 ∧
      (numberText base number ++ rest).getD 1 0 ≠ 0x58 := ⟨notSmall, notCapital⟩
  have room : ((numeral base number).length : Int) ≤ INT_MAX := by
    have largest : INT_MAX = 0x7FFFFFFF := rfl
    omega
  have runs : digitRun base INT_MAX (numberText base number ++ rest) 0 0 =
      (BitVec.ofNat 64 number, (numeral base number).length) := by
    have whole := digitRun_digits small stops bounded room 0 0
    rw [spelled_numeral, Nat.zero_add] at whole
    exact whole
  have notZero : (base : Int) ≠ 0 := by omega
  have some : (numeral base number).length ≠ 0 := by
    rw [isNumeral]
    exact Nat.succ_ne_zero _
  have behind : (numberText base number ++ rest).drop (numeral base number).length = rest :=
    List.drop_left' (by rw [numberText, List.length_map])
  simp only [scanNumber, Scan.look, look, notMinus, notPlus, decide_false, Bool.or_self,
    Bool.false_and, one.1, one.2, Bool.and_false, Bool.false_eq_true, if_false, isBase, notZero,
    runs, some, Scan.advance, behind, notPointer, Scan.store, narrow, Scan.counted]
  rw [BitVec.setWidth_ofNat_of_le (by decide)]

theorem scanNumber_minus (stops : Stops rest) (number : Nat)
    (short : (numeral 10 number).length ≤ 11) (moved : Nat) (count : Word)
    (stored : List Stored) :
    scanNumber false .n 0x64 INT_MAX
        ⟨0x2D :: (numberText 10 number ++ rest), moved, count, stored⟩ =
      .next ⟨rest, moved + 1 + (numeral 10 number).length, count + 1,
        stored ++ [.int (-BitVec.ofNat 32 number)]⟩ := by
  have room : ((numeral 10 number).length : Int) ≤ INT_MAX - 1 := by
    have largest : INT_MAX = 0x7FFFFFFF := rfl
    omega
  have runs : digitRun 10 (INT_MAX - 1) (numberText 10 number ++ rest) 0 0 =
      (BitVec.ofNat 64 number, (numeral 10 number).length) := by
    have whole := digitRun_digits (by decide : 10 ≤ 16) stops (numeral_lt (by decide)) room 0 0
    rw [spelled_numeral, Nat.zero_add] at whole
    exact whole
  have some : (numeral 10 number).length ≠ 0 := fun none =>
    numeral_ne_nil (List.length_eq_zero_iff.mp none)
  have behind : (numberText 10 number ++ rest).drop (numeral 10 number).length = rest :=
    List.drop_left' (by rw [numberText, List.length_map])
  have isSign : (decide (1 < INT_MAX)) = true := rfl
  have isBase : baseOf 0x64 = 10 := rfl
  have notZero : ¬(10 : Int) = 0 := by decide
  have notHex : ¬(10 : Int) = 16 := by decide
  have notPointer : ¬(0x64 : CChar) = 0x70 := by decide
  simp only [scanNumber, Scan.look, List.getD_cons_zero, decide_true, Bool.true_or, isSign,
    Bool.true_and, if_true, Scan.advance, List.drop_succ_cons, List.drop_zero, isBase, notZero,
    notHex, decide_false, Bool.or_self, Bool.false_and, Bool.false_eq_true, if_false, runs, some,
    behind, notPointer, Scan.store, narrow, Scan.counted]
  rw [BitVec.setWidth_neg_of_le (by decide), BitVec.setWidth_ofNat_of_le (by decide)]

theorem numeral_short {base : Nat} (large : 8 ≤ base) (value : Word) :
    (numeral base value.toNat).length ≤ 11 := by
  have less : value.toNat < base ^ 11 :=
    Nat.lt_of_lt_of_le (Nat.lt_trans value.isLt (by decide : 2 ^ 32 < 8 ^ 11))
      (Nat.pow_le_pow_left large 11)
  exact numeral_length (by omega) (by decide) less

theorem abs_short (value : Word) : (numeral 10 value.toInt.natAbs).length ≤ 11 := by
  have bound := value.isLt
  have less : value.toInt.natAbs < 10 ^ 10 := by
    rw [BitVec.toInt_eq_toNat_cond]
    split <;> omega
  exact Nat.le_succ_of_le (numeral_length (by decide) (by decide) less)

theorem skipSpaces_stay {c : CChar} {more : List CChar} (notSpace : scIsspace c = false)
    (moved : Nat) (count : Word) (stored : List Stored) :
    (⟨c :: more, moved, count, stored⟩ : Scan).skipSpaces = ⟨c :: more, moved, count, stored⟩ := by
  have none : (c :: more).takeWhile scIsspace = [] :=
    List.takeWhile_cons_of_neg (by rw [notSpace]; exact Bool.false_ne_true)
  rw [Scan.skipSpaces, none]
  rfl

theorem scanConversion_number {conv : CChar}
    (isNumber : conv = 0x64 ∨ conv = 0x75 ∨ conv = 0x78 ∨ conv = 0x6F) {c : CChar}
    {more : List CChar} (notSpace : scIsspace c = false) (moved : Nat) (count : Word)
    (stored : List Stored) :
    scanConversion false 0 .n conv ⟨c :: more, moved, count, stored⟩ =
      scanNumber false .n conv INT_MAX ⟨c :: more, moved, count, stored⟩ := by
  have stays := @skipSpaces_stay c more notSpace moved count stored
  rcases isNumber with rfl | rfl | rfl | rfl
  all_goals
    unfold scanConversion
    dsimp only
    rw [stays]
    rfl

theorem scanConversion_string {c : CChar} {more : List CChar} (notSpace : scIsspace c = false)
    (moved : Nat) (count : Word) (stored : List Stored) :
    scanConversion false 0 .n 0x73 ⟨c :: more, moved, count, stored⟩ =
      .next ((((⟨c :: more, moved, count, stored⟩ : Scan).store
        (.string (stringRun INT_MAX (c :: more)))).advance
          (stringRun INT_MAX (c :: more)).length).counted false) := by
  have stays := @skipSpaces_stay c more notSpace moved count stored
  unfold scanConversion
  dsimp only
  rw [stays]
  rfl

/-- The first character of a numeral. -/
theorem numberText_begins {base : Nat} (large : 1 < base) (small : base ≤ 16) (number : Nat) :
    ∃ c others, numberText base number = c :: others ∧ scIsspace c = false := by
  obtain ⟨first, others, isNumeral⟩ := List.exists_cons_of_ne_nil (@numeral_ne_nil base number)
  have less := numeral_lt large first (by rw [isNumeral]; exact List.mem_cons_self)
  refine ⟨digitChar first, others.map digitChar, by rw [numberText, isNumeral]; rfl, ?_⟩
  exact (digitChar_facts first (Nat.lt_of_lt_of_le less small)).2.1

theorem text_begins (field : Field) :
    ∃ c others, field.text = c :: others ∧ scIsspace c = false := by
  cases field with
  | d value =>
      rw [Field.text, signedText]
      split
      · exact ⟨0x2D, _, rfl, by decide⟩
      · exact numberText_begins (by decide) (by decide) _
  | u value => exact numberText_begins (by decide) (by decide) _
  | x value => exact numberText_begins (by decide) (by decide) _
  | o value => exact numberText_begins (by decide) (by decide) _
  | s token =>
      obtain ⟨c, others, isText⟩ := List.exists_cons_of_ne_nil token.notEmpty
      exact ⟨c, others, isText, (token.letters c (by rw [isText]; exact List.mem_cons_self)).2⟩

theorem scanConversion_field (field : Field) (stops : Stops rest) (moved : Nat) (count : Word)
    (stored : List Stored) :
    ∃ moved', scanConversion false 0 .n field.letter ⟨field.text ++ rest, moved, count, stored⟩ =
      .next ⟨rest, moved', count + 1, stored ++ [field.stored]⟩ := by
  obtain ⟨c, others, begins, notSpace⟩ := text_begins field
  have number : ∀ {conv : CChar}, (conv = 0x64 ∨ conv = 0x75 ∨ conv = 0x78 ∨ conv = 0x6F) →
      scanConversion false 0 .n conv ⟨field.text ++ rest, moved, count, stored⟩ =
        scanNumber false .n conv INT_MAX ⟨field.text ++ rest, moved, count, stored⟩ := by
    intro conv isNumber
    rw [begins]
    exact scanConversion_number isNumber notSpace moved count stored
  cases field with
  | d value =>
      rw [Field.letter, number (.inl rfl), Field.text, signedText]
      by_cases negative : value.toInt < 0
      · have isValue : -BitVec.ofNat 32 value.toInt.natAbs = value := by
          have isInt : value.toInt = -(value.toInt.natAbs : Int) := by omega
          rw [← BitVec.ofInt_natCast, ← BitVec.ofInt_neg, ← isInt, BitVec.ofInt_toInt]
        rw [if_pos negative, List.cons_append, List.nil_append, List.cons_append,
          scanNumber_minus stops _ (abs_short value), isValue]
        exact ⟨_, rfl⟩
      · have isValue : BitVec.ofNat 32 value.toInt.natAbs = value := by
          have isInt : value.toInt = (value.toInt.natAbs : Int) := by omega
          rw [← BitVec.ofInt_natCast, ← isInt, BitVec.ofInt_toInt]
        rw [if_neg negative, List.nil_append, @scanNumber_digits _ 10 _ rfl (by decide)
          (by decide) (by decide) stops _ (abs_short value), isValue]
        exact ⟨_, rfl⟩
  | u value =>
      rw [Field.letter, number (.inr (.inl rfl)), Field.text, @scanNumber_digits _ 10 _ rfl
        (by decide) (by decide) (by decide) stops _ (numeral_short (by decide) value),
        BitVec.ofNat_toNat, BitVec.setWidth_eq]
      exact ⟨_, rfl⟩
  | x value =>
      rw [Field.letter, number (.inr (.inr (.inl rfl))), Field.text, @scanNumber_digits _ 16 _ rfl
        (by decide) (by decide) (by decide) stops _ (numeral_short (by decide) value),
        BitVec.ofNat_toNat, BitVec.setWidth_eq]
      exact ⟨_, rfl⟩
  | o value =>
      rw [Field.letter, number (.inr (.inr (.inr rfl))), Field.text, @scanNumber_digits _ 8 _ rfl
        (by decide) (by decide) (by decide) stops _ (numeral_short (by decide) value),
        BitVec.ofNat_toNat, BitVec.setWidth_eq]
      exact ⟨_, rfl⟩
  | s token =>
      have room : (token.text.length : Int) ≤ INT_MAX := by
        have largest : INT_MAX = 0x7FFFFFFF := rfl
        have short := token.short
        omega
      have runs := stringRun_token token.letters stops room
      have behind : (token.text ++ rest).drop token.text.length = rest := List.drop_left' rfl
      have isText : token.text ++ rest = c :: (others ++ rest) := congrArg (· ++ rest) begins
      rw [Field.letter, Field.text, isText, scanConversion_string notSpace, ← isText, runs]
      refine ⟨moved + token.text.length, ?_⟩
      rw [Scan.store, Scan.advance, behind]
      rfl

theorem scanLoop_field (field : Field) (stops : Stops rest) (fmt : List CChar) (moved : Nat)
    (count : Word) (stored : List Stored) :
    ∃ moved', scanLoop .text (0x25 :: field.letter :: fmt)
        ⟨field.text ++ rest, moved, count, stored⟩ =
      scanLoop .text fmt ⟨rest, moved', count + 1, stored ++ [field.stored]⟩ := by
  obtain ⟨moved', converts⟩ := scanConversion_field field stops moved count stored
  refine ⟨moved', ?_⟩
  have step : scanStep .percent field.letter = .letter false 0 .n := by cases field <;> rfl
  rw [scanLoop, if_neg (by decide), if_pos rfl, scanLoop, step]
  · dsimp only
    rw [converts]
  · exact nofun

theorem fieldText_begins (field : Field) (others : List Field) :
    ∃ c more, fieldText (field :: others) = c :: more ∧ scIsspace c = false := by
  obtain ⟨c, letters, begins, notSpace⟩ := text_begins field
  cases others with
  | nil => exact ⟨c, letters, List.intercalate_singleton.trans begins, notSpace⟩
  | cons next others =>
      refine ⟨c, letters ++ 0x20 :: fieldText (next :: others), ?_, notSpace⟩
      have text : fieldText (field :: next :: others) =
          field.text ++ [0x20] ++ fieldText (next :: others) := List.intercalate_cons_cons
      rw [text, begins, List.append_assoc]
      rfl

theorem scanLoop_space {c : CChar} {more : List CChar} (notSpace : scIsspace c = false)
    (fmt : List CChar) (moved : Nat) (count : Word) (stored : List Stored) :
    scanLoop .text (0x20 :: fmt) ⟨0x20 :: c :: more, moved, count, stored⟩ =
      scanLoop .text fmt ⟨c :: more, moved + 1, count, stored⟩ := by
  have one : (0x20 :: c :: more).takeWhile scIsspace = [0x20] := by
    rw [List.takeWhile_cons_of_pos (by decide),
      List.takeWhile_cons_of_neg (by rw [notSpace]; exact Bool.false_ne_true)]
  rw [scanLoop, if_pos (by decide), Scan.skipSpaces, one]
  rfl

theorem scanLoop_fields (fields : List Field) (moved : Nat) (count : Word)
    (stored : List Stored) :
    (scanLoop .text (fieldFormat fields) ⟨fieldText fields, moved, count, stored⟩).1 =
        count + BitVec.ofNat 32 fields.length ∧
      (scanLoop .text (fieldFormat fields) ⟨fieldText fields, moved, count, stored⟩).2.stored =
        stored ++ fields.map Field.stored := by
  induction fields generalizing moved count stored with
  | nil => exact ⟨(BitVec.add_zero _).symm, (List.append_nil _).symm⟩
  | cons field rest inductionHypothesis =>
      cases rest with
      | nil =>
          have format : fieldFormat [field] = 0x25 :: field.letter :: [] :=
            List.intercalate_singleton
          have text : fieldText [field] = field.text ++ [] :=
            List.intercalate_singleton.trans (List.append_nil _).symm
          obtain ⟨moved', scans⟩ := scanLoop_field field (.inl rfl) [] moved count stored
          rw [format, text, scans]
          exact ⟨rfl, rfl⟩
      | cons next others =>
          have format : fieldFormat (field :: next :: others) =
              0x25 :: field.letter :: 0x20 :: fieldFormat (next :: others) :=
            List.intercalate_cons_cons
          have text : fieldText (field :: next :: others) =
              field.text ++ 0x20 :: fieldText (next :: others) :=
            List.intercalate_cons_cons.trans (List.append_assoc _ _ _)
          obtain ⟨c, more, begins, notSpace⟩ := fieldText_begins next others
          obtain ⟨moved', scans⟩ := @scanLoop_field _ field (.inr ⟨fieldText (next :: others), rfl⟩)
            (0x20 :: fieldFormat (next :: others)) moved count stored
          obtain ⟨returned, all⟩ :=
            inductionHypothesis (moved' + 1) (count + 1) (stored ++ [field.stored])
          rw [format, text, scans, begins, scanLoop_space notSpace, ← begins, returned, all]
          refine ⟨?_, List.append_assoc _ _ _⟩
          rw [List.length_cons (a := field), Nat.add_comm _ 1, BitVec.ofNat_add, BitVec.add_assoc]
          rfl

end Scanning

/-- What is printed is scanned again, with the same format. -/
theorem scan_undoes_print (fields : List Field) (buffer : Vector CChar 32) :
    ∃ out, sprintf buffer (fieldFormat fields) (fields.map Field.arg) =
        some ⟨out, BitVec.ofNat 32 out.length, []⟩ ∧
      vsscanf out (fieldFormat fields) =
        (BitVec.ofNat 32 fields.length, fields.map Field.stored) := by
  obtain ⟨returned, stored⟩ := scanLoop_fields fields 0 0 []
  refine ⟨fieldText fields, ?_, ?_⟩
  · rw [sprintf_eq, emission_fields]
    rfl
  · exact Prod.ext (returned.trans (BitVec.zero_add _)) stored

end OrionBios.Libc
