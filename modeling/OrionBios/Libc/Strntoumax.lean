import Mathlib.Data.List.TakeWhile
import OrionBios.Libc.StrtoulStandard

/-!
# `strntoumax`

It reads a counted string; where it agrees with `strtoul` on the whole of a string.
-/

namespace OrionBios.Libc

open Machine Digits

/-! ## The function -/

/-- Only the blank, as `isspace.c` has it. -/
def isspace (c : CChar) : Bool := c = 0x20

/-- Digits up to `f`; each difference wraps before it is compared. -/
def digitval (ch : CChar) : Int :=
  if (BitVec.ofInt 32 ((ch.toNat : Int) - 0x30)).toNat < 10 then
    (BitVec.ofInt 32 ((ch.toNat : Int) - 0x30)).toNat
  else if (BitVec.ofInt 32 ((ch.toNat : Int) - 0x61)).toNat < 6 then
    (BitVec.ofInt 32 ((ch.toNat : Int) - 0x61)).toNat + 10
  else if (BitVec.ofInt 32 ((ch.toNat : Int) - 0x41)).toNat < 6 then
    (BitVec.ofInt 32 ((ch.toNat : Int) - 0x41)).toNat + 10
  else -1

def optionalSign : List CChar → Bool × List CChar
  | [] => (false, [])
  | c :: rest => if c = 0x2D ∨ c = 0x2B then (decide (c = 0x2D), rest) else (false, c :: rest)

/-- `0x` with a character behind it, whatever that is. -/
def HasMark (p : List CChar) : Prop :=
  2 < p.length ∧ p[0]? = some 0x30 ∧ (p[1]? = some 0x78 ∨ p[1]? = some 0x58)

instance (p : List CChar) : Decidable (HasMark p) := inferInstanceAs (Decidable (_ ∧ _))

def skipMark (base : Nat) (p : List CChar) : Nat × List CChar :=
  if base = 0 then
    if HasMark p then (16, p.drop 2)
    else if 1 < p.length ∧ p[0]? = some 0x30 then (8, p.drop 1)
    else (10, p)
  else if base = 16 then (16, if HasMark p then p.drop 2 else p)
  else (base, p)

/-- The last loop: the number, and what is left of the string. -/
def digitsLoop (base : Nat) : List CChar → BitVec 64 → BitVec 64 × List CChar
  | [], v => (v, [])
  | c :: rest, v =>
      if 0 ≤ digitval c ∧ digitval c < base then
        digitsLoop base rest (v * BitVec.ofNat 64 base + BitVec.ofInt 64 (digitval c))
      else (v, c :: rest)

/-- The value for the first `n` characters, and how far the end pointer is from the start. -/
def strntoumax (nptr : List CChar) (base n : Nat) : BitVec 64 × Nat :=
  let p := (nptr.take n).dropWhile isspace
  let (minus, p) := optionalSign p
  let (base, p) := skipMark base p
  let (v, p) := digitsLoop base p 0
  (if minus then -v else v, (nptr.take n).length - p.length)

/-! ## What it reads -/

variable {base radix : Nat} {t s : List CChar}

theorem optionalSign_eq (p : List CChar) : optionalSign p = takeSign p := by
  cases p with
  | nil => rfl
  | cons c rest =>
      rw [optionalSign, takeSign, List.head?_cons, List.tail_cons]
      by_cases minus : c = 0x2D
      · rw [if_pos (.inl minus), if_pos (congrArg some minus), decide_eq_true minus]
      · rw [if_neg fun same => minus (Option.some.inj same)]
        by_cases plus : c = 0x2B
        · rw [if_pos (.inr plus), if_pos (congrArg some plus), decide_eq_false minus]
        · rw [if_neg fun either => either.elim minus plus,
            if_neg fun same => plus (Option.some.inj same)]

/-- The digits that both functions know. -/
def isCommon (radix : Nat) (c : CChar) : Bool := inBase radix c && inBase 16 c

theorem digitval_eq (c : CChar) :
    digitval c = if inBase 16 c = true then (digitValue c : Int) else -1 := by
  revert c
  decide

theorem digitval_common {c : CChar} :
    0 ≤ digitval c ∧ digitval c < radix ↔ isCommon radix c = true := by
  rw [isCommon, Bool.and_eq_true, digitval_eq]
  by_cases hex : inBase 16 c = true
  · obtain ⟨isDigit, -⟩ := digitOf_inBase hex
    rw [if_pos hex, inBase_some isDigit, decide_eq_true_eq]
    exact ⟨fun both => ⟨both.2, hex⟩, fun both => ⟨Int.natCast_nonneg _, both.1⟩⟩
  · rw [if_neg hex]
    exact ⟨fun both => absurd both.1 (by decide), fun both => absurd both.2 hex⟩

theorem digitsLoop_eq (radix : Nat) (p : List CChar) (number : Nat) :
    digitsLoop radix p (BitVec.ofNat 64 number) =
      (BitVec.ofNat 64 (spelled radix number ((p.takeWhile (isCommon radix)).map digitValue)),
        p.dropWhile (isCommon radix)) := by
  induction p generalizing number with
  | nil => rfl
  | cons c rest inductionHypothesis =>
      rw [digitsLoop, List.takeWhile_cons, List.dropWhile_cons]
      by_cases common : isCommon radix c = true
      · have digit : digitval c = digitValue c := by
          rw [isCommon, Bool.and_eq_true] at common
          rw [digitval_eq, if_pos common.2]
        rw [if_pos (digitval_common.mpr common), if_pos common, if_pos common, digit,
          BitVec.ofInt_natCast, ← BitVec.ofNat_mul, ← BitVec.ofNat_add, inductionHypothesis,
          List.map_cons, spelled_cons]
      · rw [if_neg (mt digitval_common.mp common), if_neg common, if_neg common]
        rfl

/-- The characters that are left when the number has been read. -/
def left (s : List CChar) (base : Nat) : List CChar :=
  let based := skipMark base (takeSign (s.dropWhile isspace)).2
  based.2.dropWhile (isCommon based.1)

def numberRead (s : List CChar) (base : Nat) : Nat :=
  let based := skipMark base (takeSign (s.dropWhile isspace)).2
  spelled based.1 0 ((based.2.takeWhile (isCommon based.1)).map digitValue)

theorem strntoumax_eq (s : List CChar) (base : Nat) :
    strntoumax s base s.length =
      (if (takeSign (s.dropWhile isspace)).1 then -BitVec.ofNat 64 (numberRead s base)
        else BitVec.ofNat 64 (numberRead s base), s.length - (left s base).length) := by
  have zero : (0 : BitVec 64) = BitVec.ofNat 64 0 := rfl
  rw [strntoumax, List.take_length, optionalSign_eq]
  dsimp only
  rw [zero, digitsLoop_eq]
  rfl

/-! ## The end at the start -/

theorem skipMark_suffix (base : Nat) (p : List CChar) : (skipMark base p).2 <:+ p := by
  rw [skipMark]
  split
  · split
    · exact List.drop_suffix _ _
    · split
      · exact List.drop_suffix _ _
      · exact List.suffix_refl p
  · split
    · dsimp only
      split
      · exact List.drop_suffix _ _
      · exact List.suffix_refl p
    · exact List.suffix_refl p

theorem takeSign_suffix (p : List CChar) : (takeSign p).2 <:+ p := by
  rw [takeSign]
  split
  · exact List.tail_suffix p
  · split
    · exact List.tail_suffix p
    · exact List.suffix_refl p

theorem left_suffix (s : List CChar) (base : Nat) :
    left s base <:+ (takeSign (s.dropWhile isspace)).2 :=
  (List.dropWhile_suffix _).trans (skipMark_suffix base _)

theorem skipMark_other (base : Nat) (other : t.head? ≠ some 0x30) :
    skipMark base t = (plainBase base t, t) := by
  have none : ¬HasMark t := fun mark => other (List.head?_eq_getElem?.trans mark.2.1)
  have notZero : ¬(1 < t.length ∧ t[0]? = some 0x30) :=
    fun both => other (List.head?_eq_getElem?.trans both.2)
  rw [skipMark, plainBase, if_neg none, if_neg notZero, if_neg none, if_neg other]
  by_cases zero : base = 0
  · rw [if_pos zero, if_pos zero]
  · rw [if_neg zero, if_neg zero]
    split
    · rw [‹base = 16›]
    · rfl

/-- A string that neither function begins to read. -/
structure Unread (base : Nat) (s : List CChar) : Prop where
  blank : s.head? ≠ some 0x20
  minus : s.head? ≠ some 0x2D
  plus : s.head? ≠ some 0x2B
  mark : ¬Marked base s

theorem isCommon_zero (positive : 0 < radix) : isCommon radix 0x30 = true := by
  have zero : digitOf 0x30 = some 0 := by decide
  rw [isCommon, inBase_some zero, inBase_some zero, Bool.and_eq_true, decide_eq_true_eq]
  exact ⟨Int.ofNat_lt.mpr positive, rfl⟩

theorem dropWhile_isspace (blank : s.head? ≠ some 0x20) : s.dropWhile isspace = s := by
  cases s with
  | nil => rfl
  | cons c rest =>
      have other : isspace c = false := decide_eq_false fun same => blank (congrArg some same)
      rw [List.dropWhile_cons, other]
      rfl

theorem takeSign_other (minus : s.head? ≠ some 0x2D) (plus : s.head? ≠ some 0x2B) :
    takeSign s = (false, s) := by
  rw [takeSign, if_neg minus, if_neg plus]

theorem digitOf_blank {c : CChar} (blank : isBlank c = true) : digitOf c = none := by
  revert c
  decide

/-- The first character of a string that is not begun is no digit. -/
theorem unread_first {c : CChar} {rest : List CChar} (none : digitsOf (c :: rest) base = [])
    (unread : Unread base (c :: rest)) : inBase (plainBase base (c :: rest)) c = false := by
  by_cases blank : isBlank c = true
  · exact inBase_none (digitOf_blank blank)
  · have here : signed (c :: rest) = (false, c :: rest) := by
      rw [signed, List.dropWhile_cons, if_neg blank, takeSign_other unread.minus unread.plus]
    have plain : ¬Marked base (signed (c :: rest)).2 := by
      rw [here]
      exact unread.mark
    rw [digitsOf_plain plain, based, takeBase_plain plain, here] at none
    exact takeWhile_eq_nil.mp none c rfl

theorem unread_left (none : digitsOf s base = []) (unread : Unread base s) :
    left s base = s ∧ numberRead s base = 0 := by
  rw [left, numberRead, dropWhile_isspace unread.blank, takeSign_other unread.minus unread.plus]
  cases s with
  | nil =>
      rw [skipMark_other base (by decide)]
      exact ⟨rfl, rfl⟩
  | cons c rest =>
      have notDigit := unread_first none unread
      have notZero : (c :: rest).head? ≠ some 0x30 := by
        intro zero
        have positive := takeBase_pos base (c :: rest)
        rw [takeBase_plain unread.mark] at positive
        have common := isCommon_zero positive
        rw [isCommon, ← Option.some.inj zero, notDigit] at common
        contradiction
      have notCommon : ¬isCommon (plainBase base (c :: rest)) c = true := by
        rw [isCommon, notDigit]
        exact Bool.false_ne_true
      rw [skipMark_other base notZero]
      dsimp only
      rw [List.dropWhile_cons, List.takeWhile_cons, if_neg notCommon, if_neg notCommon]
      exact ⟨rfl, rfl⟩

theorem skipMark_pos (base : Nat) (p : List CChar) : 0 < (skipMark base p).1 := by
  rw [skipMark]
  split
  · split
    · exact Nat.zero_lt_succ _
    · split <;> exact Nat.zero_lt_succ _
  · split
    · exact Nat.zero_lt_succ _
    · exact Nat.pos_of_ne_zero ‹_›

theorem zero_read (zero : t.head? = some 0x30) :
    (skipMark base t).2.dropWhile (isCommon (skipMark base t).1) ≠ t := by
  intro stays
  have same : (skipMark base t).2 = t :=
    ((skipMark_suffix base t).eq_of_length_le
      (Nat.le_trans (Nat.le_of_eq (congrArg List.length stays).symm)
        (List.dropWhile_suffix _).length_le))
  rw [same] at stays
  cases t with
  | nil => contradiction
  | cons c rest =>
      rw [Option.some.inj zero, List.dropWhile_cons,
        if_pos (isCommon_zero (skipMark_pos base _))] at stays
      have le := congrArg List.length stays ▸ (List.dropWhile_suffix _).length_le
      rw [List.length_cons] at le
      omega

theorem left_unread (stays : left s base = s) : Unread base s := by
  have whole : s.length ≤ (takeSign (s.dropWhile isspace)).2.length := by
    have le := (left_suffix s base).length_le
    rwa [stays] at le
  have behindSign := (takeSign_suffix (s.dropWhile isspace)).length_le
  have blank : s.head? ≠ some 0x20 := by
    intro blank
    cases s with
    | nil => contradiction
    | cons c rest =>
        obtain rfl := Option.some.inj blank
        have fewer := (List.dropWhile_suffix isspace : rest.dropWhile isspace <:+ rest).length_le
        have skips : isspace 0x20 = true := rfl
        rw [List.dropWhile_cons, if_pos skips] at whole behindSign
        rw [List.length_cons] at whole
        omega
  have signs : ∀ c, c = 0x2D ∨ c = 0x2B → s.head? ≠ some c := by
    intro c isSign head
    rw [dropWhile_isspace blank] at whole
    cases s with
    | nil => contradiction
    | cons first rest =>
        obtain rfl := Option.some.inj head
        have behindIt : (takeSign (first :: rest)).2 = rest := by
          rcases isSign with rfl | rfl <;> rfl
        rw [behindIt, List.length_cons] at whole
        omega
  refine ⟨blank, signs _ (.inl rfl), signs _ (.inr rfl), fun marked => ?_⟩
  rw [left, dropWhile_isspace blank, takeSign_other (signs _ (.inl rfl)) (signs _ (.inr rfl))]
    at stays
  exact zero_read marked.2.1 stays

/-! ## Behind the blanks -/

/-- The digits of `strtoul` that both functions know, and what follows them. -/
def commonDigits (s : List CChar) (base : Nat) : List CChar :=
  (based s base).2.takeWhile (isCommon (based s base).1)

theorem hasMark_of_digits (marked : Marked base t)
    (some : (t.drop 2).takeWhile (inBase 16) ≠ []) : HasMark t := by
  obtain ⟨x, rest, rfl, isX⟩ := marked.begins
  refine ⟨?_, rfl, isX.imp (congrArg Option.some) (congrArg Option.some)⟩
  cases rest with
  | nil => exact absurd rfl some
  | cons c rest => exact Nat.succ_lt_succ (Nat.succ_lt_succ (Nat.zero_lt_succ _))

/-- Where there are digits both functions read the same prefix, but for a zero in front. -/
theorem skipMark_digits (some : (takeBase base t).2.takeWhile (inBase (takeBase base t).1) ≠ []) :
    (skipMark base t).2.dropWhile (isCommon (skipMark base t).1) =
        (takeBase base t).2.dropWhile (isCommon (takeBase base t).1) ∧
      spelled (skipMark base t).1 0
          (((skipMark base t).2.takeWhile (isCommon (skipMark base t).1)).map digitValue) =
        spelled (takeBase base t).1 0
          (((takeBase base t).2.takeWhile (isCommon (takeBase base t).1)).map digitValue) := by
  by_cases marked : Marked base t
  · have hasMark : HasMark t := by
      rw [takeBase_marked marked] at some
      exact hasMark_of_digits marked some
    have same : skipMark base t = takeBase base t := by
      rw [takeBase_marked marked, skipMark, if_pos hasMark, if_pos hasMark]
      rcases marked.1 with rfl | rfl <;> rfl
    rw [same]
    exact ⟨rfl, rfl⟩
  · by_cases zero : t.head? = .some 0x30
    · have noMark : base = 0 ∨ base = 16 → ¬HasMark t := by
        rintro allowed ⟨-, -, isX⟩
        rw [← List.head?_drop, List.drop_one] at isX
        exact marked ⟨allowed, zero, isX⟩
      rw [takeBase_plain marked, plainBase, if_pos zero, skipMark]
      by_cases none : base = 0
      · rw [if_pos none, if_pos none, if_neg (noMark (.inl none))]
        cases t with
        | nil => contradiction
        | cons c rest =>
            obtain rfl := Option.some.inj zero
            cases rest with
            | nil => exact ⟨rfl, rfl⟩
            | cons second rest =>
                rw [if_pos ⟨Nat.succ_lt_succ (Nat.zero_lt_succ _), rfl⟩]
                exact ⟨rfl, rfl⟩
      · rw [if_neg none, if_neg none]
        split
        · rw [if_neg (noMark (.inr ‹_›)), ‹base = 16›]
          exact ⟨rfl, rfl⟩
        · exact ⟨rfl, rfl⟩
    · rw [skipMark_other base zero, takeBase_plain marked]
      exact ⟨rfl, rfl⟩

/-- Only blanks stand where `strtoul` skips all white space. -/
def OnlyBlanks (s : List CChar) : Prop := ∀ c ∈ s.takeWhile isBlank, c = 0x20

theorem onlyBlanks_cons {c : CChar} {rest : List CChar} (blank : isBlank c = true) :
    OnlyBlanks (c :: rest) ↔ c = 0x20 ∧ OnlyBlanks rest := by
  rw [OnlyBlanks, List.takeWhile_cons, if_pos blank, List.forall_mem_cons]
  rfl

theorem OnlyBlanks.dropWhile (blanks : OnlyBlanks s) :
    s.dropWhile isspace = s.dropWhile isBlank := by
  induction s with
  | nil => rfl
  | cons c rest inductionHypothesis =>
      rw [List.dropWhile_cons, List.dropWhile_cons]
      by_cases blank : isBlank c = true
      · obtain ⟨space, others⟩ := (onlyBlanks_cons blank).mp blanks
        have skips : isspace c = true := decide_eq_true space
        rw [if_pos skips, if_pos blank]
        exact inductionHypothesis others
      · have other : ¬isspace c = true := by
          intro space
          rw [of_decide_eq_true space] at blank
          exact blank rfl
        rw [if_neg blank, if_neg other]

theorem notBlank_sign {c : CChar} (blank : isBlank c = true) :
    c ≠ 0x2D ∧ c ≠ 0x2B ∧ c ≠ 0x30 := by
  revert c
  decide

/-- Other white space stops `strntoumax` before the number. -/
theorem left_whiteSpace (others : ¬OnlyBlanks s) :
    (s.dropWhile isBlank).length < (left s base).length := by
  induction s with
  | nil => exact absurd (fun c member => absurd member List.not_mem_nil) others
  | cons c rest inductionHypothesis =>
      by_cases blank : isBlank c = true
      · rw [onlyBlanks_cons blank] at others
        rw [List.dropWhile_cons, if_pos blank]
        by_cases space : c = 0x20
        · subst space
          exact inductionHypothesis fun all => others ⟨rfl, all⟩
        · obtain ⟨notMinus, notPlus, notZero⟩ := notBlank_sign blank
          have head : ∀ other : CChar, c ≠ other → (c :: rest).head? ≠ some other :=
            fun _ differs same => differs (Option.some.inj same)
          have notCommon : ¬isCommon (plainBase base (c :: rest)) c = true := by
            rw [isCommon, inBase_none (digitOf_blank blank)]
            exact Bool.false_ne_true
          have stays : left (c :: rest) base = c :: rest := by
            rw [left, dropWhile_isspace (head _ space),
              takeSign_other (head _ notMinus) (head _ notPlus),
              skipMark_other base (head _ notZero)]
            exact List.dropWhile_cons_of_neg notCommon
          rw [stays]
          exact Nat.lt_succ_of_le (List.dropWhile_suffix _).length_le
      · rw [OnlyBlanks, List.takeWhile_cons, if_neg blank] at others
        exact absurd (fun c member => absurd member List.not_mem_nil) others

theorem OnlyBlanks.left (blanks : OnlyBlanks s) (some : digitsOf s base ≠ []) :
    left s base = (based s base).2.dropWhile (isCommon (based s base).1) ∧
      numberRead s base = spelled (based s base).1 0 ((commonDigits s base).map digitValue) := by
  rw [Libc.left, numberRead, blanks.dropWhile]
  exact skipMark_digits some

/-! ## Agreement -/

/-- Both functions return the same number modulo 2^32 and set the same end. -/
def SameNumber (s : List CChar) (base : Nat) : Prop :=
  strtoulEnd s base =
    some ((strntoumax s base s.length).1.setWidth 32, (strntoumax s base s.length).2)

instance (s : List CChar) (base : Nat) : Decidable (SameNumber s base) :=
  inferInstanceAs (Decidable (_ = _))

/-- Where they agree: the number that both read, or nothing at all. -/
structure Covered (base : Nat) (s : List CChar) : Prop where
  number : ¬BarePrefix base s → ∀ subject : Subject base, subject.Longest s →
    OnlyBlanks s ∧ ∀ c ∈ subject.digits, inBase 16 c = true
  none : (BarePrefix base s ∨ ∀ subject : Subject base, ¬subject.Starts s) → Unread base s

theorem commonDigits_eq (s : List CChar) (base : Nat) :
    commonDigits s base = (digitsOf s base).takeWhile (inBase 16) := by
  have both : isCommon (based s base).1 =
      fun c => decide (inBase 16 c = true ∧ inBase (based s base).1 c = true) := by
    funext c
    rw [isCommon, Bool.and_comm, Bool.decide_and, Bool.decide_coe, Bool.decide_coe]
  rw [commonDigits, digitsOf, List.takeWhile_takeWhile, both]

theorem left_length_le (s : List CChar) (base : Nat) : (left s base).length ≤ s.length :=
  ((left_suffix s base).trans ((takeSign_suffix _).trans (List.dropWhile_suffix _))).length_le

theorem agree_none (none : digitsOf s base = []) : SameNumber s base ↔ Unread base s := by
  have le := left_length_le s base
  rw [SameNumber, strtoulEnd_none none, strntoumax_eq]
  constructor
  · intro agree
    have start : 0 = s.length - (left s base).length := congrArg Prod.snd (Option.some.inj agree)
    have suffix := (left_suffix s base).trans ((takeSign_suffix _).trans (List.dropWhile_suffix _))
    exact left_unread (suffix.eq_of_length (by omega))
  · intro unread
    obtain ⟨stays, zero⟩ := unread_left none unread
    rw [stays, zero, Nat.sub_self]
    split <;> rfl

theorem agree_some (some : digitsOf s base ≠ []) (fits : numberOf s base < 2 ^ 32) :
    SameNumber s base ↔ OnlyBlanks s ∧ ∀ c ∈ digitsOf s base, inBase 16 c = true := by
  have le := left_length_le s base
  have shorter := (List.dropWhile_suffix isBlank : s.dropWhile isBlank <:+ s).length_le
  have within : (behind s base).length ≤ (s.dropWhile isBlank).length := by
    rw [← taken_text some, List.length_append]
    exact Nat.le_add_left _ _
  rw [SameNumber, strtoulEnd_digits some, strntoumax_eq]
  by_cases blanks : OnlyBlanks s
  · obtain ⟨leftEq, numberEq⟩ := blanks.left some
    have sameSign : (takeSign (s.dropWhile isspace)).1 = (signed s).1 := by
      rw [blanks.dropWhile]
      rfl
    have lengths : (commonDigits s base).length + (left s base).length =
        (digitsOf s base).length + (behind s base).length := by
      rw [leftEq, commonDigits, digitsOf, behind, ← List.length_append, ← List.length_append,
        List.takeWhile_append_dropWhile, List.takeWhile_append_dropWhile]
    have all : (∀ c ∈ digitsOf s base, inBase 16 c = true) ↔
        commonDigits s base = digitsOf s base := by
      rw [commonDigits_eq]
      exact List.takeWhile_eq_self_iff.symm
    rw [all]
    constructor
    · intro agree
      have ends : s.length - (behind s base).length = s.length - (left s base).length :=
        congrArg Prod.snd (Option.some.inj agree)
      rw [commonDigits_eq] at lengths ⊢
      exact ⟨blanks, (List.takeWhile_prefix _).eq_of_length (by omega)⟩
    · rintro ⟨-, same⟩
      have number : numberRead s base = numberOf s base := by
        rw [numberEq, same, numberOf]
      have ends : (left s base).length = (behind s base).length := by
        rw [same] at lengths
        omega
      rw [number, ends, sameSign, wordOf, if_pos fits]
      split
      · rw [BitVec.setWidth_neg_of_le (by decide), BitVec.setWidth_ofNat_of_le (by decide)]
      · rw [BitVec.setWidth_ofNat_of_le (by decide)]
  · have further := @left_whiteSpace base s blanks
    constructor
    · intro agree
      have ends : s.length - (behind s base).length = s.length - (left s base).length :=
        congrArg Prod.snd (Option.some.inj agree)
      omega
    · exact fun both => absurd both.1 blanks

theorem digitsOf_nil_iff :
    digitsOf s base = [] ↔ BarePrefix base s ∨ ∀ subject : Subject base, ¬subject.Starts s := by
  constructor
  · intro none
    by_cases marked : Marked base (signed s).2
    · exact .inl (barePrefix_iff.mpr ⟨marked, none⟩)
    · exact .inr (not_starts none marked)
  · rintro (bare | noneStarts)
    · exact (barePrefix_iff.mp bare).2
    · by_contra some
      exact noneStarts _ (taken_is_longest some).starts

theorem Subject.Longest.digits_eq {subject : Subject base} (longest : subject.Longest s)
    (some : digitsOf s base ≠ []) : subject.digits = digitsOf s base := by
  obtain ⟨le, digits⟩ := taken_longest some longest.starts
  exact digits (Nat.le_antisymm le (longest.longest _ (taken_is_longest some).starts))

/-- For a number that fits into 32 bits the functions agree exactly where only blanks stand before
it and none of its digits is above `f`; and without a number where nothing can be skipped. -/
theorem strntoumax_strtoul_iff (s : List CChar) (base : Nat)
    (fits : ∀ subject : Subject base, subject.Longest s → subject.magnitude < 2 ^ 32) :
    SameNumber s base ↔ Covered base s := by
  by_cases none : digitsOf s base = []
  · have nothing := digitsOf_nil_iff.mp none
    rw [agree_none none]
    constructor
    · exact fun unread => ⟨fun notBare subject longest =>
        absurd longest.starts (nothing.resolve_left notBare subject), fun _ => unread⟩
    · exact fun covered => covered.none nothing
  · have number := mt digitsOf_nil_iff.mpr none
    rw [agree_some none (fits _ (taken_is_longest none))]
    constructor
    · rintro ⟨blanks, digits⟩
      refine ⟨fun _ subject longest => ⟨blanks, ?_⟩, fun nothing => absurd nothing number⟩
      rw [longest.digits_eq none]
      exact digits
    · exact fun covered => covered.number (fun bare => number (.inl bare)) _ (taken_is_longest none)

theorem Subject.radix_eq (subject : Subject base) (given : base ≠ 0) : subject.radix = base := by
  obtain ⟨sign, mark, digits, radix, form⟩ := subject
  cases form with
  | decimal => exact absurd rfl given
  | octal => exact absurd rfl given
  | hexadecimal allowed => exact (allowed.resolve_left given).symm
  | given => rfl

theorem magnitude_of_digits (given : base ≠ 0) (digits : List CChar)
    (all : digitsOf s base = digits) (some : digits ≠ []) {subject : Subject base}
    (longest : subject.Longest s) :
    subject.magnitude = spelled base 0 (digits.map digitValue) := by
  subst all
  rw [Subject.magnitude, longest.digits_eq some, subject.radix_eq given]

/-- ` 4095x` in base 10: the number ends in front of the `x`. -/
theorem strntoumax_strtoul_number :
    SameNumber [0x20, 0x34, 0x30, 0x39, 0x35, 0x78] 10 ↔
      Covered 10 [0x20, 0x34, 0x30, 0x39, 0x35, 0x78] :=
  strntoumax_strtoul_iff _ 10 fun _ longest => by
    rw [magnitude_of_digits (by decide) [0x34, 0x30, 0x39, 0x35] (by decide) (by decide) longest]
    decide

/-- `z` in base 36 is 35 for `strtoul`, and no digit for `strntoumax`. -/
theorem letter_disagrees :
    ¬((∀ subject : Subject 36, subject.Longest [0x7A] → subject.magnitude < 2 ^ 32) →
      SameNumber [0x7A] 36) := by
  intro agrees
  have fits : ∀ subject : Subject 36, subject.Longest [0x7A] → subject.magnitude < 2 ^ 32 := by
    intro subject longest
    rw [magnitude_of_digits (by decide) [0x7A] (by decide) (by decide) longest]
    decide
  exact absurd (agrees fits) (by decide)

end OrionBios.Libc
