import OrionBios.Libc.Utoa

/-!
# `itoa` and `strtol`

`itoa` puts a sign before a negative decimal number and lets `utoa` begin at the same place;
`strtol` reads decimal digits and nothing else. A number that the standard functions would write and
read is given by a spelling.
-/

namespace OrionBios.Libc

open Machine Digits

variable {size : Nat}

/-! ## The functions -/

/-- Whether the string is returned, not NULL; and the string. -/
def itoa (value : Word) (str : Vector CChar size) (base : Word) :
    Option (Bool × Vector CChar size) :=
  if base.toInt < 2 ∨ base.toInt > 36 then (store str 0 0).map fun str => (false, str)
  else if base = 10 ∧ value.toInt < 0 then
    -- `str` and not `&str[i]`: the digits begin where the sign stands
    (store str 0 0x2D).bind fun str => (utoa (-value) str base).map fun written => (true, written.2)
  else (utoa value str base).map fun written => (true, written.2)

def strtolLoop : List CChar → Word → Word
  | [], resultado => resultado
  | c :: str, resultado =>
      if 0x30 ≤ c.toInt ∧ c.toInt ≤ 0x39 then
        strtolLoop str (resultado * 10 + BitVec.ofInt 32 (c.toInt - 0x30))
      else resultado

/-- The value, and what is stored to the end pointer; neither that nor the base is looked at. -/
def strtol (str : List CChar) (_endptr : Bool) (_base : Word) : Word × Option Nat :=
  (strtolLoop str 0, none)

/-! ## What they promise -/

def signedNumeral (value base : Word) : List CChar :=
  if base = 10 ∧ value.toInt < 0 then 0x2D :: numeralText 10 value.toInt.natAbs
  else numeralText base.toNat value.toNat

def ItoaWrites (value base : Word) (str : Vector CChar size) : Prop :=
  ∃ after, itoa value str base = some (true, after) ∧
    after.toList = signedNumeral value base ++
      0 :: str.toList.drop ((signedNumeral value base).length + 1)

/-- A number as the standard lets it be written: blanks, a sign, a prefix in base 16, and digits. -/
structure Spelling (base : Nat) where
  blanks : List CChar
  sign : List CChar
  mark : List CChar
  row : List CChar
  areBlanks : ∀ c ∈ blanks, isBlank c = true
  isSign : sign = [] ∨ sign = [0x2B] ∨ sign = [0x2D]
  isMark : mark = [] ∨ base = 16 ∧ (mark = [0x30, 0x78] ∨ mark = [0x30, 0x58])
  nonempty : row ≠ []
  inside : ∀ c ∈ row, inBase base c = true

namespace Spelling

variable {base : Nat}

def value (spelling : Spelling base) : Int :=
  (if spelling.sign = [0x2D] then -1 else 1) * (spelled base 0 (spelling.row.map digitValue) : Int)

/-- What stands before the digits. -/
def front (spelling : Spelling base) : List CChar :=
  spelling.blanks ++ spelling.sign ++ spelling.mark

/-- What may follow the digits: no other digit, and no letter that would make a zero a prefix. -/
def Behind (spelling : Spelling base) (rest : List CChar) : Prop :=
  (∀ c ∈ rest.head?, inBase base c = false) ∧
    (spelling.mark = [] → ¬Marked base (spelling.row ++ rest))

end Spelling

/-- Whatever follows, the number is read, and its end is stored where a pointer is given. -/
def StrtolReads (value base : Word) (endptr : Bool) (spelling : Spelling base.toNat) : Prop :=
  ∀ rest, spelling.Behind rest →
    strtol (spelling.front ++ (spelling.row ++ rest)) endptr base =
      (value, if endptr then some (spelling.front.length + spelling.row.length) else none)

/-! ## `itoa` -/

theorem supported {base : Word} (least : 2 ≤ base.toNat) (most : base.toNat ≤ 36) :
    ¬(base.toInt < 2 ∨ base.toInt > 36) := by
  rw [BitVec.toInt_eq_toNat_cond, if_pos (by omega)]
  omega

theorem digitLetter_sign {digit : Nat} (small : digit < 36) : digitLetter digit ≠ 0x2D :=
  (letter_starts small).2.1

theorem itoaWrites_iff (value base : Word) (least : 2 ≤ base.toNat) (most : base.toNat ≤ 36)
    (str : Vector CChar size) (room : (signedNumeral value base).length < size) :
    ItoaWrites value base str ↔ ¬(base = 10 ∧ value.toInt < 0) := by
  rw [ItoaWrites, itoa, if_neg (supported least most), signedNumeral]
  rw [signedNumeral] at room
  by_cases negative : base = 10 ∧ value.toInt < 0
  · rw [if_pos negative] at room ⊢
    rw [if_pos negative]
    refine iff_of_false ?_ (not_not.mpr negative)
    rintro ⟨after, written, stands⟩
    obtain ⟨signed, stored, -⟩ := @store_inside _ str 0 0x2D (Nat.zero_lt_of_lt room)
    have isBase : base.toNat = 10 := by rw [negative.1]; rfl
    have shorter : (numeral base.toNat (-value).toNat).length < size := by
      rw [isBase, toNat_negative negative.2, ← numeralText_length]
      exact Nat.lt_of_succ_lt room
    obtain ⟨digits, again, begins⟩ := @utoa_eq _ base least most (-value) signed shorter
    rw [stored, Option.bind_some, again, Option.map_some] at written
    rw [← (Prod.mk.inj (Option.some.inj written)).2, begins] at stands
    -- the first character is a digit, where the sign should be
    obtain ⟨digit, others, isRow⟩ :=
      List.exists_cons_of_ne_nil (@numeral_ne_nil base.toNat (-value).toNat)
    have small : digit < base.toNat :=
      numeral_lt least digit (by rw [isRow]; exact List.mem_cons_self)
    rw [numeralText, isRow, List.map_cons, List.cons_append, List.cons_append] at stands
    exact digitLetter_sign (Nat.lt_of_lt_of_le small most) (List.cons.inj stands).1
  · rw [if_neg negative] at room ⊢
    rw [if_neg negative]
    refine iff_of_true ?_ negative
    rw [numeralText_length] at room ⊢
    obtain ⟨after, written, stands⟩ := utoa_eq least most value room
    exact ⟨after, by rw [written]; rfl, stands⟩

/-! ## `strtol` -/

/-- The number that the decimal digits at the very beginning spell. -/
def decimalStart (str : List CChar) : Nat :=
  spelled 10 0 ((str.takeWhile (inBase 10)).map digitValue)

theorem inBase_ten (c : CChar) :
    (inBase 10 c = true ↔ 0x30 ≤ c.toInt ∧ c.toInt ≤ 0x39) ∧
      (inBase 10 c = true → BitVec.ofInt 32 (c.toInt - 0x30) = BitVec.ofNat 32 (digitValue c)) := by
  by_cases decimal : 0x30 ≤ c.toInt ∧ c.toInt ≤ 0x39
  · have isDigit : digitOf c = some (c.toInt - 0x30) := if_pos decimal
    rw [inBase_some isDigit, decide_eq_true_eq, digitValue, isDigit, Option.getD_some,
      ← BitVec.ofInt_natCast, Int.toNat_of_nonneg (by omega)]
    exact ⟨iff_of_true (by omega) decimal, fun _ => rfl⟩
  · have outside : ¬inBase 10 c = true := by
      intro inside
      obtain ⟨isDigit, small⟩ := digitOf_inBase inside
      rw [digitOf, if_neg decimal] at isDigit
      split at isDigit
      · have := Option.some.inj isDigit
        omega
      · split at isDigit
        · have := Option.some.inj isDigit
          omega
        · contradiction
    exact ⟨iff_of_false outside decimal, fun inside => absurd inside outside⟩

theorem strtolLoop_eq (str : List CChar) (number : Nat) :
    strtolLoop str (BitVec.ofNat 32 number) =
      BitVec.ofNat 32 (spelled 10 number ((str.takeWhile (inBase 10)).map digitValue)) := by
  induction str generalizing number with
  | nil => rfl
  | cons c str inductionHypothesis =>
      obtain ⟨decimal, value⟩ := inBase_ten c
      rw [strtolLoop, List.takeWhile_cons]
      by_cases inside : inBase 10 c = true
      · have next : BitVec.ofNat 32 number * 10 + BitVec.ofNat 32 (digitValue c) =
            BitVec.ofNat 32 (number * 10 + digitValue c) := by
          rw [BitVec.ofNat_add, BitVec.ofNat_mul]
          rfl
        rw [if_pos (decimal.mp inside), if_pos inside, value inside, next, inductionHypothesis,
          List.map_cons, spelled_cons]
      · rw [if_neg (fun range => inside (decimal.mpr range)), if_neg inside]
        rfl

theorem strtol_eq (str : List CChar) (endptr : Bool) (base : Word) :
    strtol str endptr base = (BitVec.ofNat 32 (decimalStart str), none) :=
  congrArg (fun value => (value, none)) (strtolLoop_eq str 0)

/-! ### The parts of a spelling -/

theorem blank_outside {c : CChar} (blank : isBlank c = true) : inBase 10 c = false := by
  simp only [isBlank, Bool.or_eq_true, decide_eq_true_eq] at blank
  rcases blank with ((((rfl | rfl) | rfl) | rfl) | rfl) | rfl <;> rfl

theorem decimalStart_outside {c : CChar} (outside : inBase 10 c = false) (str : List CChar) :
    decimalStart (c :: str) = 0 := by
  rw [decimalStart, List.takeWhile_cons, if_neg (by rw [outside]; decide)]
  rfl

namespace Spelling

variable {base : Nat} {spelling : Spelling base} {rest : List CChar}

theorem decimalStart_front (some : spelling.front ≠ []) (rest : List CChar) :
    decimalStart (spelling.front ++ rest) = 0 := by
  rw [front] at some ⊢
  cases blanks : spelling.blanks with
  | cons c others =>
      have blank := spelling.areBlanks c (by rw [blanks]; exact List.mem_cons_self)
      exact decimalStart_outside (blank_outside blank) _
  | nil =>
      rw [blanks] at some
      rcases spelling.isSign with none | plus | minus
      · rw [none] at some ⊢
        rcases spelling.isMark with none | ⟨-, small | capital⟩
        · exact absurd none some
        · rw [small]
          rfl
        · rw [capital]
          rfl
      · rw [plus]
        rfl
      · rw [minus]
        rfl

theorem value_plain (none : spelling.front = []) :
    spelling.value = (spelled base 0 (spelling.row.map digitValue) : Int) := by
  have noSign : spelling.sign ≠ [0x2D] := by
    intro minus
    rw [front, minus] at none
    simp at none
  rw [value, if_neg noSign, Int.one_mul]

theorem behind_nil (least : 2 ≤ base) : spelling.Behind [] := by
  refine ⟨fun c member => (Option.some_ne_none c member.symm).elim, fun _ => ?_⟩
  rw [List.append_nil]
  rintro ⟨zero | rfl, -, marks⟩
  · omega
  · have second : ∀ c, spelling.row.tail.head? = some c → inBase 16 c = true := fun c isSecond =>
      spelling.inside c (List.mem_of_mem_tail (List.mem_of_head? isSecond))
    rcases marks with small | capital
    · exact absurd (second _ small) (by decide)
    · exact absurd (second _ capital) (by decide)

theorem takeWhile_row (large : 10 ≤ base) (follows : spelling.Behind rest) :
    (spelling.row ++ rest).takeWhile (inBase 10) = spelling.row.takeWhile (inBase 10) := by
  have stops : rest.takeWhile (inBase 10) = [] := by
    cases rest with
    | nil => rfl
    | cons c others =>
        have outside := follows.1 c rfl
        refine List.takeWhile_cons_of_neg fun inside => ?_
        obtain ⟨isDigit, small⟩ := digitOf_inBase inside
        rw [inBase_some isDigit, decide_eq_false_iff_not] at outside
        omega
  rw [List.takeWhile_append, stops, List.append_nil]
  split
  · next all => exact ((List.takeWhile_prefix _).eq_of_length all).symm
  · rfl

theorem map_takeWhile {row : List CChar} (inside : ∀ c ∈ row, inBase base c = true) :
    (row.takeWhile (inBase 10)).map digitValue = (row.map digitValue).takeWhile (· < 10) := by
  induction row with
  | nil => rfl
  | cons c row inductionHypothesis =>
      have others := inductionHypothesis fun other member =>
        inside other (List.mem_cons_of_mem c member)
      have same : inBase 10 c = decide (digitValue c < 10) := by
        rw [inBase_some (digitOf_inBase (inside c List.mem_cons_self)).1]
        exact decide_eq_decide.mpr Int.ofNat_lt
      rw [List.map_cons, List.takeWhile_cons, List.takeWhile_cons, same]
      split
      · rw [List.map_cons, others]
      · rfl

theorem decimalStart_row (large : 10 ≤ base) (none : spelling.front = [])
    (follows : spelling.Behind rest) :
    decimalStart (spelling.front ++ (spelling.row ++ rest)) =
      spelled 10 0 ((spelling.row.map digitValue).takeWhile (· < 10)) := by
  rw [none, List.nil_append, decimalStart, takeWhile_row large follows,
    map_takeWhile spelling.inside]

end Spelling

/-! ### When `strtol` reads it -/

/-- Nothing stands before the digits, and they are decimal ones or there is but one; or the number
is zero, which is also what `strtol` returns where it finds no digit. -/
def ReadsDecimal (value base : Word) (spelling : Spelling base.toNat) : Prop :=
  (spelling.front = [] ∧ (base.toNat = 10 ∨ 10 < base.toNat ∧ value.toInt < 10)) ∨
    (spelling.front ≠ [] ∧ value = 0)

section Reads

variable {value base : Word} {spelling : Spelling base.toNat}

theorem StrtolReads.value_eq {rest : List CChar} (reads : StrtolReads value base false spelling)
    (follows : spelling.Behind rest) :
    BitVec.ofNat 32 (decimalStart (spelling.front ++ (spelling.row ++ rest))) = value :=
  (Prod.mk.inj ((strtol_eq _ _ _).symm.trans (reads rest follows))).1

theorem toNat_plain (isValue : spelling.value = value.toInt) (none : spelling.front = []) :
    value.toNat = spelled base.toNat 0 (spelling.row.map digitValue) ∧ value.toNat < 2 ^ 31 := by
  rw [spelling.value_plain none] at isValue
  have bound := value.isLt
  have signed := @BitVec.toInt_eq_toNat_cond _ value
  split at signed <;> omega

theorem nine_further {number : Nat} (bound : number < 2 ^ 31) :
    ¬number * 10 + 9 ≡ number [MOD 2 ^ 32] := by
  intro same
  have multiple : 2 ^ 32 ∣ 9 * (number + 1) := by
    refine Nat.modEq_zero_iff_dvd.mp (Nat.ModEq.add_right_cancel' number ?_)
    rw [Nat.zero_add, show 9 * (number + 1) + number = number * 10 + 9 by omega]
    exact same
  have whole : 2 ^ 32 ∣ number + 1 :=
    (by decide : Nat.Coprime (2 ^ 32) 9).dvd_of_dvd_mul_left multiple
  have large := Nat.le_of_dvd (Nat.succ_pos _) whole
  omega

theorem smaller_base (isValue : spelling.value = value.toInt) (least : 2 ≤ base.toNat)
    (small : base.toNat < 10) (none : spelling.front = []) :
    ¬StrtolReads value base false spelling := by
  intro reads
  have decimal : ∀ c ∈ spelling.row, inBase 10 c = true := by
    intro c member
    obtain ⟨isDigit, less⟩ := digitOf_inBase (spelling.inside c member)
    rw [inBase_some isDigit, decide_eq_true_eq]
    omega
  have nineFollows : spelling.Behind [0x39] := by
    have nine : inBase base.toNat 0x39 = decide ((9 : Int) < base.toNat) :=
      inBase_some (by decide : digitOf 0x39 = some 9)
    refine ⟨fun c isNine => ?_, fun _ marked => ?_⟩
    · rw [← Option.some.inj isNine, nine, decide_eq_false_iff_not]
      omega
    · rcases marked.1 with zero | hex <;> omega
  have ended := reads.value_eq (spelling.behind_nil least)
  have further := reads.value_eq nineFollows
  have nineDecimal : ∀ c ∈ spelling.row ++ [0x39], inBase 10 c = true := by
    intro c member
    rcases List.mem_append.mp member with digit | nine
    · exact decimal c digit
    · rw [List.mem_singleton.mp nine]
      decide
  rw [none, List.nil_append, List.append_nil, decimalStart,
    List.takeWhile_eq_self_iff.mpr decimal] at ended
  rw [none, List.nil_append, decimalStart, List.takeWhile_eq_self_iff.mpr nineDecimal,
    List.map_append, spelled_append, List.map_singleton, spelled_cons, spelled_nil] at further
  -- ten times the number and nine would be the number again
  have number := congrArg BitVec.toNat ended
  have again := congrArg BitVec.toNat further
  have nineValue : digitValue 0x39 = 9 := by decide
  have bound := (toNat_plain isValue none).2
  rw [BitVec.toNat_ofNat] at number again
  rw [nineValue] at again
  generalize spelled 10 0 (spelling.row.map digitValue) = decimal at number again
  have scaled := ((Nat.mod_modEq decimal (2 ^ 32)).mul_right 10).add_right 9
  have lengthened := Nat.mod_modEq (decimal * 10 + 9) (2 ^ 32)
  rw [number] at scaled
  rw [again] at lengthened
  exact nine_further bound (scaled.trans lengthened.symm)

theorem larger_base (isValue : spelling.value = value.toInt) (none : spelling.front = [])
    (large : 10 ≤ base.toNat) :
    StrtolReads value base false spelling ↔
      base.toNat = 10 ∨ 10 < base.toNat ∧ value.toInt < 10 := by
  obtain ⟨number, bound⟩ := toNat_plain isValue none
  have isInt : value.toInt = value.toNat := BitVec.toInt_eq_toNat_of_lt (by omega)
  have least : 2 ≤ base.toNat := Nat.le_trans (by decide) large
  have all : ∀ c ∈ spelling.row.map digitValue, c < base.toNat := by
    intro digit member
    obtain ⟨c, isRow, rfl⟩ := List.mem_map.mp member
    exact (digitOf_inBase (spelling.inside c isRow)).2
  constructor
  · intro reads
    have ended := reads.value_eq (spelling.behind_nil least)
    have same := congrArg BitVec.toNat ended
    rw [BitVec.toNat_ofNat, spelling.decimalStart_row large none (spelling.behind_nil least)] at same
    rcases Nat.eq_or_lt_of_le large with ten | more
    · exact .inl ten.symm
    · refine .inr ⟨more, ?_⟩
      by_contra many
      have fewer := @spelled_takeWhile_lt 10 base.toNat (by decide) more
        (spelling.row.map digitValue) (by omega)
      rw [Nat.mod_eq_of_lt (by omega)] at same
      omega
  · intro decimal rest follows
    have same : spelled 10 0 ((spelling.row.map digitValue).takeWhile (· < 10)) = value.toNat := by
      rcases decimal with ten | ⟨more, few⟩
      · have inTen := congrArg (fun base => spelled base 0 (spelling.row.map digitValue)) ten
        rw [number, List.takeWhile_eq_self_iff.mpr fun digit member =>
          decide_eq_true (Nat.lt_of_lt_of_eq (all digit member) ten)]
        exact inTen.symm
      · obtain ⟨equal, small⟩ := @spelled_small 0 10 base.toNat more
          (spelling.row.map digitValue) (by omega)
        rw [number, ← equal, List.takeWhile_eq_self_iff.mpr fun digit member =>
          decide_eq_true (small digit member)]
    rw [strtol_eq, spelling.decimalStart_row large none follows, same, BitVec.ofNat_toNat,
      BitVec.setWidth_eq]
    rfl

theorem strtolReads_iff (isValue : spelling.value = value.toInt) (least : 2 ≤ base.toNat)
    (endptr : Bool) :
    StrtolReads value base endptr spelling ↔ endptr = false ∧ ReadsDecimal value base spelling := by
  cases endptr with
  | true =>
      refine iff_of_false (fun reads => ?_) fun both => Bool.noConfusion both.1
      have stored := (Prod.mk.inj (reads [] (spelling.behind_nil least))).2
      rw [if_pos rfl] at stored
      exact Option.some_ne_none _ stored.symm
  | false =>
      rw [ReadsDecimal]
      by_cases none : spelling.front = []
      · have alone : ∀ other, (spelling.front = [] ∧ other) ∨ (spelling.front ≠ [] ∧ value = 0) ↔
            other := fun other =>
          ⟨fun either => either.elim And.right fun front => absurd none front.1,
            fun holds => .inl ⟨none, holds⟩⟩
        rw [alone, and_iff_right rfl]
        by_cases large : 10 ≤ base.toNat
        · exact larger_base isValue none large
        · exact iff_of_false (smaller_base isValue least (Nat.not_le.mp large) none)
            (by omega)
      · have alone : ∀ other, (spelling.front = [] ∧ other) ∨ (spelling.front ≠ [] ∧ value = 0) ↔
            value = 0 := fun other =>
          ⟨fun either => either.elim (fun front => absurd front.1 none) And.right,
            fun zero => .inr ⟨none, zero⟩⟩
        rw [alone, and_iff_right rfl]
        constructor
        · intro reads
          have ended := reads.value_eq (spelling.behind_nil least)
          rw [spelling.decimalStart_front none] at ended
          exact ended.symm
        · intro zero rest _
          rw [strtol_eq, spelling.decimalStart_front none, zero]
          rfl

end Reads

/-! ## Both functions -/

/-- Which numbers `itoa` writes, and which spellings `strtol` reads. -/
theorem itoa_strtol_iff (value base : Word) (least : 2 ≤ base.toNat) (most : base.toNat ≤ 36)
    (str : Vector CChar size) (room : (signedNumeral value base).length < size) (endptr : Bool)
    (spelling : Spelling base.toNat) (isValue : spelling.value = value.toInt) :
    (ItoaWrites value base str ↔ ¬(base = 10 ∧ value.toInt < 0)) ∧
      (StrtolReads value base endptr spelling ↔
        endptr = false ∧ ReadsDecimal value base spelling) :=
  ⟨itoaWrites_iff value base least most str room, strtolReads_iff isValue least endptr⟩

/-- The number 40961 behind a blank. -/
def blankNumber : Spelling 10 where
  blanks := [0x20]
  sign := []
  mark := []
  row := [0x34, 0x30, 0x39, 0x36, 0x31]
  areBlanks := by decide
  isSign := .inl rfl
  isMark := .inl rfl
  nonempty := by decide
  inside := by decide

theorem signedNumeral_room {value base : Word} (least : 2 ≤ base.toNat) :
    (signedNumeral value base).length < 34 := by
  have bound := value.isLt
  have digits : ∀ number < 2 ^ 32, ∀ radix, 2 ≤ radix → (numeral radix number).length ≤ 32 :=
    fun number less radix large => numeral_length large (by decide)
      (Nat.lt_of_lt_of_le less (Nat.pow_le_pow_left large 32))
  rw [signedNumeral]
  split
  · next negative =>
      have magnitude := @BitVec.toInt_eq_toNat_cond _ value
      have small := digits value.toInt.natAbs (by split at magnitude <;> omega) 10 (by decide)
      rw [List.length_cons, numeralText_length]
      omega
  · rw [numeralText_length]
    exact Nat.lt_of_le_of_lt (digits value.toNat bound base.toNat least) (by decide)

theorem itoa_strtol_iff_number :
    (ItoaWrites 40961 10 (Vector.replicate 34 0) ↔
        ¬((10 : Word) = 10 ∧ (40961 : Word).toInt < 0)) ∧
      (StrtolReads 40961 10 false blankNumber ↔
        false = false ∧ ReadsDecimal 40961 10 blankNumber) :=
  itoa_strtol_iff 40961 10 (by decide) (by decide) (Vector.replicate 34 0)
    (signedNumeral_room (by decide)) false blankNumber (by decide)

/-- -5 is not written with its sign, and `-5` not read. -/
theorem sign_lost :
    ¬ItoaWrites (-5) 10 (Vector.replicate 34 0) ∧ (strtol [0x2D, 0x35] false 10).1 = 0 := by
  refine ⟨fun writes => ?_, rfl⟩
  exact (itoaWrites_iff (-5) 10 (by decide) (by decide) (Vector.replicate 34 0)
    (signedNumeral_room (by decide))).mp writes ⟨rfl, by decide⟩

end OrionBios.Libc
