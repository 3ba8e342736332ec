import OrionBios.Libc.Digits
import OrionBios.Machine.Memory

/-!
# `strtoul`

The string is given by its bytes before the terminator; `char` is signed, so a byte from 0x80 on is
negative and no digit. The pointer to the end is left out, which the commands do not ask for.
-/

namespace OrionBios.Libc

open Machine Digits

abbrev CChar := BitVec 8

def ULONG_MAX : Word := BitVec.allOnes 32

/-- A blank, a tabulator, or one of the four characters that end a line or a page. -/
def isBlank (c : CChar) : Bool := c = 0x20 || c = 0x09 || c = 0x0A || c = 0x0D || c = 0x0B || c = 0x0C

/-- The value of a digit, in whatever base it is one. -/
def digitOf (c : CChar) : Option Int :=
  if 0x30 ≤ c.toInt ∧ c.toInt ≤ 0x39 then some (c.toInt - 0x30)
  else if 0x61 ≤ c.toInt ∧ c.toInt ≤ 0x7A then some (c.toInt - 0x61 + 10)
  else if 0x41 ≤ c.toInt ∧ c.toInt ≤ 0x5A then some (c.toInt - 0x41 + 10)
  else none

/-- The loop over the digits. A negative `any` says that the number was too large. -/
def strtoulLoop (base : Nat) : List CChar → Word → Int → Word × Int
  | [], acc, any => (acc, any)
  | c :: rest, acc, any =>
      match digitOf c with
      | none => (acc, any)
      | some digit =>
          if (base : Int) ≤ digit then (acc, any)
          else if any < 0 then strtoulLoop base rest acc any
          else if acc.toNat > ULONG_MAX.toNat / base ∨
              acc.toNat = ULONG_MAX.toNat / base ∧ digit > (ULONG_MAX.toNat % base : Nat) then
            strtoulLoop base rest ULONG_MAX (-1)
          else strtoulLoop base rest (acc * BitVec.ofNat 32 base + BitVec.ofInt 32 digit) 1

def takeSign (s : List CChar) : Bool × List CChar :=
  if s.head? = some 0x2D then (true, s.tail)
  else if s.head? = some 0x2B then (false, s.tail)
  else (false, s)

/-- The base, and the string behind a prefix `0x`. -/
def takeBase (base : Nat) (s : List CChar) : Nat × List CChar :=
  if (base = 0 ∨ base = 16) ∧ s.head? = some 0x30 ∧
      (s.tail.head? = some 0x78 ∨ s.tail.head? = some 0x58) then (16, s.drop 2)
  else if base = 0 then (if s.head? = some 0x30 then 8 else 10, s)
  else (base, s)

def strtoul (nptr : List CChar) (base : Nat) : Word :=
  let (neg, s) := takeSign (nptr.dropWhile isBlank)
  let (base, s) := takeBase base s
  let (acc, any) := strtoulLoop base s 0 0
  if neg ∧ any > 0 then -acc else acc

/-! ## The number -/

def inBase (radix : Nat) (c : CChar) : Bool :=
  match digitOf c with
  | none => false
  | some digit => decide (digit < radix)

theorem inBase_none {radix : Nat} {c : CChar} (other : digitOf c = none) :
    inBase radix c = false := by
  rw [inBase, other]

theorem inBase_some {radix : Nat} {c : CChar} {digit : Int} (isDigit : digitOf c = some digit) :
    inBase radix c = decide (digit < radix) := by
  rw [inBase, isDigit]

def digitValue (c : CChar) : Nat := ((digitOf c).getD 0).toNat

theorem digitOf_nonneg {c : CChar} {digit : Int} (isDigit : digitOf c = some digit) :
    0 ≤ digit := by
  rw [digitOf] at isDigit
  split at isDigit
  · rw [← Option.some.inj isDigit]
    omega
  · split at isDigit
    · rw [← Option.some.inj isDigit]
      omega
    · split at isDigit
      · rw [← Option.some.inj isDigit]
        omega
      · contradiction

theorem digitOf_inBase {radix : Nat} {c : CChar} (inside : inBase radix c = true) :
    digitOf c = some (digitValue c : Int) ∧ digitValue c < radix := by
  rw [digitValue]
  cases isDigit : digitOf c with
  | none =>
      rw [inBase_none isDigit] at inside
      contradiction
  | some digit =>
      have nonneg := digitOf_nonneg isDigit
      rw [inBase_some isDigit, decide_eq_true_eq] at inside
      rw [Option.getD_some, Int.toNat_of_nonneg nonneg]
      exact ⟨rfl, by omega⟩

theorem strtoulLoop_full {any : Int} (full : any < 0) (radix : Nat) (d : List CChar)
    (acc : Word) : strtoulLoop radix d acc any = (acc, any) := by
  induction d with
  | nil => rfl
  | cons c rest inductionHypothesis =>
      rw [strtoulLoop]
      split
      · rfl
      · split
        · rfl
        · exact inductionHypothesis

theorem overflow_iff {radix acc digit : Nat} (small : digit < radix) (most : Nat) :
    (acc > most / radix ∨ acc = most / radix ∧ digit > most % radix) ↔
      most < acc * radix + digit := by
  have parts := Nat.div_add_mod' most radix
  have less := Nat.mod_lt most (Nat.zero_lt_of_lt small)
  constructor
  · rintro (above | ⟨equal, more⟩)
    · have larger := Nat.mul_le_mul_right radix (Nat.succ_le_of_lt above)
      rw [Nat.succ_mul] at larger
      omega
    · rw [equal]
      omega
  · intro exceeds
    by_cases above : acc > most / radix
    · exact .inl above
    · by_cases equal : acc = most / radix
      · rw [equal] at exceeds
        exact .inr ⟨equal, by omega⟩
      · have below : acc + 1 ≤ most / radix := by omega
        have smaller := Nat.mul_le_mul_right radix below
        rw [Nat.succ_mul] at smaller
        omega

/-- What the loop has when it stops: the number, or the largest one. -/
def total (number : Nat) : Word × Int :=
  if number < 2 ^ 32 then (BitVec.ofNat 32 number, 1) else (ULONG_MAX, -1)

theorem strtoulLoop_spelled {radix : Nat} (positive : 0 < radix) (d : List CChar) (acc : Word)
    {any : Int} (fine : 0 ≤ any) :
    strtoulLoop radix d acc any =
      if d.takeWhile (inBase radix) = [] then (acc, any)
      else total (spelled radix acc.toNat ((d.takeWhile (inBase radix)).map digitValue)) := by
  induction d generalizing acc any with
  | nil => rfl
  | cons c rest inductionHypothesis =>
      rw [strtoulLoop, List.takeWhile_cons]
      by_cases inside : inBase radix c = true
      · obtain ⟨isDigit, small⟩ := digitOf_inBase inside
        rw [isDigit, if_pos inside, if_neg (List.cons_ne_nil _ _), List.map_cons, spelled_cons]
        dsimp only
        have most : ULONG_MAX.toNat = 2 ^ 32 - 1 := rfl
        have exceeds := @overflow_iff radix acc.toNat _ small ULONG_MAX.toNat
        have le := @le_spelled radix (acc.toNat * radix + digitValue c) positive
          ((rest.takeWhile (inBase radix)).map digitValue)
        rw [if_neg (by omega), if_neg (by omega)]
        by_cases large : ULONG_MAX.toNat < acc.toNat * radix + digitValue c
        · -- what follows makes the number no smaller
          rw [if_pos ((exceeds.mpr large).imp_right (And.imp_right Int.ofNat_lt.mpr)),
            strtoulLoop_full (by decide), total, if_neg (by omega)]
        · have next : (acc * BitVec.ofNat 32 radix + BitVec.ofInt 32 (digitValue c : Int)).toNat =
              acc.toNat * radix + digitValue c := by
            rw [BitVec.ofInt_natCast, BitVec.toNat_add, BitVec.toNat_mul, BitVec.toNat_ofNat,
              BitVec.toNat_ofNat, Nat.mul_mod_mod, ← Nat.add_mod]
            exact Nat.mod_eq_of_lt (by omega)
          have fits := fun test => large
            (exceeds.mp (Or.imp_right (And.imp_right Int.ofNat_lt.mp) test))
          rw [if_neg fits, inductionHypothesis _ (by decide), next]
          by_cases last : rest.takeWhile (inBase radix) = []
          · rw [if_pos last, last, List.map_nil, spelled_nil, total, if_pos (by omega), ← next,
              BitVec.ofNat_toNat, BitVec.setWidth_eq]
          · exact if_neg last
      · rw [if_neg inside, if_pos rfl]
        cases isDigit : digitOf c with
        | none => rfl
        | some digit =>
            rw [inBase_some isDigit, decide_eq_true_eq] at inside
            dsimp only
            rw [if_pos (Int.not_lt.mp inside)]

/-! ## Hexadecimal digits -/

/-- The characters `0` to `9` and `a` to `f`. -/
def smallDigits : List CChar :=
  [0x30, 0x31, 0x32, 0x33, 0x34, 0x35, 0x36, 0x37, 0x38, 0x39, 0x61, 0x62, 0x63, 0x64, 0x65, 0x66]

/-- The characters `A` to `F`. -/
def capitalDigits : List CChar := [0x41, 0x42, 0x43, 0x44, 0x45, 0x46]

def IsHex (c : CChar) : Prop := c ∈ smallDigits ∨ c ∈ capitalDigits

instance (c : CChar) : Decidable (IsHex c) := inferInstanceAs (Decidable (_ ∨ _))

def hexValue (c : CChar) : Nat :=
  if c ∈ capitalDigits then 10 + capitalDigits.idxOf c else smallDigits.idxOf c

/-- The number that hexadecimal digits spell behind those of another number. -/
def hexNumberFrom (number : Nat) (digits : List CChar) : Nat :=
  digits.foldl (fun number c => 16 * number + hexValue c) number

def hexNumber (digits : List CChar) : Nat := hexNumberFrom 0 digits

theorem hexNumberFrom_cons (number : Nat) (c : CChar) (rest : List CChar) :
    hexNumberFrom number (c :: rest) = hexNumberFrom (16 * number + hexValue c) rest := rfl

theorem IsHex.all (p : CChar → Bool) (all : (smallDigits ++ capitalDigits).all p = true)
    {c : CChar} (hex : IsHex c) : p c = true :=
  List.all_eq_true.mp all c (List.mem_append.mpr hex)

theorem hexValue_lt {c : CChar} (hex : IsHex c) : hexValue c < 16 :=
  of_decide_eq_true (IsHex.all (fun c => decide (hexValue c < 16)) (by decide) hex)

theorem digitOf_hex {c : CChar} (hex : IsHex c) : digitOf c = some (hexValue c : Int) :=
  of_decide_eq_true
    (IsHex.all (fun c => decide (digitOf c = some (hexValue c : Int))) (by decide) hex)

theorem isBlank_hex {c : CChar} (hex : IsHex c) : isBlank c = false :=
  of_decide_eq_true (IsHex.all (fun c => decide (isBlank c = false)) (by decide) hex)

theorem digitValue_hex {c : CChar} (hex : IsHex c) : digitValue c = hexValue c := by
  rw [digitValue, digitOf_hex hex]
  rfl

theorem inBase_hex {c : CChar} (hex : IsHex c) : inBase 16 c = true := by
  rw [inBase_some (digitOf_hex hex), decide_eq_true_eq]
  exact Int.ofNat_lt.mpr (hexValue_lt hex)

theorem hexNumberFrom_eq {digits : List CChar} (hex : ∀ c ∈ digits, IsHex c) (number : Nat) :
    hexNumberFrom number digits = spelled 16 number (digits.map digitValue) := by
  induction digits generalizing number with
  | nil => rfl
  | cons c rest inductionHypothesis =>
      rw [hexNumberFrom_cons, List.map_cons, spelled_cons,
        digitValue_hex (hex c List.mem_cons_self), Nat.mul_comm]
      exact inductionHypothesis (fun other member => hex other (List.mem_cons_of_mem c member)) _

theorem strtoulLoop_hex {digits : List CChar} (hex : ∀ c ∈ digits, IsHex c) (acc : Word) (any : Int)
    (fine : 0 ≤ any) :
    (strtoulLoop 16 digits acc any).1 =
      BitVec.ofNat 32 (min (hexNumberFrom acc.toNat digits) (2 ^ 32 - 1)) := by
  have bounded := acc.isLt
  have all := @List.takeWhile_append_of_pos _ (inBase 16) digits [] fun c member =>
    inBase_hex (hex c member)
  rw [List.append_nil, List.takeWhile_nil, List.append_nil] at all
  rw [strtoulLoop_spelled (by decide) digits acc fine, all, hexNumberFrom_eq hex]
  by_cases none : digits = []
  · rw [if_pos none, none, List.map_nil, spelled_nil, Nat.min_eq_left (by omega),
      BitVec.ofNat_toNat, BitVec.setWidth_eq]
  · rw [if_neg none, total]
    split
    · rw [Nat.min_eq_left (by omega)]
    · rw [Nat.min_eq_right (by omega)]
      rfl

/-- A string of hexadecimal digits gives the number it spells, or the largest there is. -/
theorem strtoul_hex {digits : List CChar} (hex : ∀ c ∈ digits, IsHex c) :
    strtoul digits 16 = BitVec.ofNat 32 (min (hexNumber digits) (2 ^ 32 - 1)) := by
  have noBlank : digits.dropWhile isBlank = digits := by
    cases digits with
    | nil => rfl
    | cons c rest => rw [List.dropWhile_cons, isBlank_hex (hex c List.mem_cons_self)]; rfl
  have differs : ∀ other : CChar, ¬ IsHex other → other ∉ digits := fun other notHex member =>
    notHex (hex other member)
  have head : ∀ other : CChar, ¬ IsHex other → digits.head? ≠ some other := by
    intro other notHex same
    exact differs other notHex (List.mem_of_head? same)
  have second : ∀ other : CChar, ¬ IsHex other → digits.tail.head? ≠ some other := by
    intro other notHex same
    exact differs other notHex (List.mem_of_mem_tail (List.mem_of_head? same))
  have noSign : takeSign digits = (false, digits) := by
    rw [takeSign, if_neg (head 0x2D (by decide)), if_neg (head 0x2B (by decide))]
  have noPrefix : takeBase 16 digits = (16, digits) := by
    rw [takeBase, if_neg, if_neg (by decide)]
    rintro ⟨-, -, small | capital⟩
    · exact second 0x78 (by decide) small
    · exact second 0x58 (by decide) capital
  rw [strtoul, noBlank, noSign]
  simp only [noPrefix]
  rw [if_neg (by simp)]
  exact strtoulLoop_hex hex 0 0 (by decide)

end OrionBios.Libc
