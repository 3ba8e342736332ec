import OrionBios.Libc.Strtoul

/-!
# `strtoul` with its end pointer

The pointer is what is left of the string, its terminator included; behind the terminator nothing
can be read.
-/

namespace OrionBios.Libc

open Machine Digits

/-! ## The function -/

/-- `c = *s++` -/
def nextChar : List CChar → Option (CChar × List CChar)
  | [] => none
  | c :: rest => some (c, rest)

/-- The first loop. -/
def skipBlanks : List CChar → Option (CChar × List CChar)
  | [] => none
  | c :: rest => if isBlank c then skipBlanks rest else some (c, rest)

def readSign (c : CChar) (s : List CChar) : Option (Bool × CChar × List CChar) :=
  if c = 0x2D then (nextChar s).map fun next => (true, next.1, next.2)
  else if c = 0x2B then (nextChar s).map fun next => (false, next.1, next.2)
  else some (false, c, s)

/-- The character behind `0x`, or the one that was there; and the base. -/
def readBase (base : Nat) (c : CChar) (s : List CChar) : Option (Nat × CChar × List CChar) :=
  if (base = 0 ∨ base = 16) ∧ c = 0x30 then
    (nextChar s).bind fun next =>
      if next.1 = 0x78 ∨ next.1 = 0x58 then
        (nextChar next.2).map fun behind => (16, behind.1, behind.2)
      else some (if base = 0 then 8 else base, c, s)
  else some (if base = 0 then 10 else base, c, s)

def digitLoop (base : Nat) : List CChar → CChar → Word → Int → Option (Word × Int × List CChar)
  | s, c, acc, any =>
      match digitOf c with
      | none => some (acc, any, s)
      | some digit =>
          if (base : Int) ≤ digit then some (acc, any, s)
          else
            match s with
            | [] => none
            | c :: rest =>
                if any < 0 then digitLoop base rest c acc any
                else if acc.toNat > ULONG_MAX.toNat / base ∨
                    acc.toNat = ULONG_MAX.toNat / base ∧ digit > (ULONG_MAX.toNat % base : Nat) then
                  digitLoop base rest c ULONG_MAX (-1)
                else digitLoop base rest c (acc * BitVec.ofNat 32 base + BitVec.ofInt 32 digit) 1

/-- The value, and how far the end pointer is from the start. -/
def strtoulEnd (nptr : List CChar) (base : Nat) : Option (Word × Nat) :=
  (skipBlanks (nptr ++ [0])).bind fun first =>
    (readSign first.1 first.2).bind fun signed =>
      (readBase base signed.2.1 signed.2.2).bind fun based =>
        (digitLoop based.1 based.2.2 based.2.1 0 0).map fun result =>
          (if signed.1 ∧ result.2.1 > 0 then -result.1 else result.1,
            if result.2.1 ≠ 0 then nptr.length - result.2.2.length else 0)

/-! ## What it reads -/

/-- The character that has been read, and the pointer behind it. -/
def standing : List CChar → CChar × List CChar
  | [] => (0, [])
  | c :: rest => (c, rest ++ [0])

theorem nextChar_eq (rest : List CChar) : nextChar (rest ++ [0]) = some (standing rest) := by
  cases rest <;> rfl

theorem standing_cons (rest : List CChar) :
    rest ++ [0] = (standing rest).1 :: (standing rest).2 := by
  cases rest <;> rfl

theorem standing_length (s : List CChar) : (standing s).2.length = s.length := by
  cases s with
  | nil => rfl
  | cons c rest => rw [standing, List.length_append, List.length_cons]; rfl

theorem skipBlanks_eq (nptr : List CChar) :
    skipBlanks (nptr ++ [0]) = some (standing (nptr.dropWhile isBlank)) := by
  induction nptr with
  | nil => rfl
  | cons c rest inductionHypothesis =>
      rw [List.cons_append, skipBlanks, List.dropWhile_cons]
      split
      · exact inductionHypothesis
      · rfl

theorem readSign_eq (t : List CChar) :
    readSign (standing t).1 (standing t).2 = some ((takeSign t).1, standing (takeSign t).2) := by
  cases t with
  | nil => rfl
  | cons c rest =>
      rw [standing, readSign, takeSign, List.head?_cons, List.tail_cons, nextChar_eq]
      by_cases minus : c = 0x2D
      · rw [if_pos minus, if_pos (congrArg some minus)]
        rfl
      · rw [if_neg minus, if_neg fun same => minus (Option.some.inj same)]
        by_cases plus : c = 0x2B
        · rw [if_pos plus, if_pos (congrArg some plus)]
          rfl
        · rw [if_neg plus, if_neg fun same => plus (Option.some.inj same)]
          rfl

/-- The string begins with `0x`, and the base allows it. -/
def Marked (base : Nat) (b : List CChar) : Prop :=
  (base = 0 ∨ base = 16) ∧ b.head? = some 0x30 ∧
    (b.tail.head? = some 0x78 ∨ b.tail.head? = some 0x58)

instance (base : Nat) (b : List CChar) : Decidable (Marked base b) :=
  inferInstanceAs (Decidable (_ ∧ _))

theorem Marked.begins {base : Nat} {b : List CChar} (marked : Marked base b) :
    ∃ x rest, b = 0x30 :: x :: rest ∧ (x = 0x78 ∨ x = 0x58) := by
  obtain ⟨-, zero, x⟩ := marked
  cases b with
  | nil => cases zero
  | cons c others =>
      cases others with
      | nil => rcases x with small | capital <;> contradiction
      | cons x' rest =>
          obtain rfl := Option.some.inj zero
          exact ⟨x', rest, rfl, x.imp Option.some.inj Option.some.inj⟩

theorem takeBase_marked {base : Nat} {b : List CChar} (marked : Marked base b) :
    takeBase base b = (16, b.drop 2) := if_pos marked

def plainBase (base : Nat) (b : List CChar) : Nat :=
  if base = 0 then (if b.head? = some 0x30 then 8 else 10) else base

theorem takeBase_plain {base : Nat} {b : List CChar} (plain : ¬Marked base b) :
    takeBase base b = (plainBase base b, b) := by
  have skips : takeBase base b =
      if base = 0 then (if b.head? = some 0x30 then 8 else 10, b) else (base, b) := if_neg plain
  rw [skips, plainBase]
  split <;> rfl

theorem readBase_eq (base : Nat) (b : List CChar) :
    readBase base (standing b).1 (standing b).2 =
      some ((takeBase base b).1, standing (takeBase base b).2) := by
  by_cases marked : Marked base b
  · obtain ⟨x, rest, rfl, isX⟩ := marked.begins
    rw [takeBase_marked marked, readBase, standing, if_pos ⟨marked.1, rfl⟩, List.cons_append,
      nextChar, Option.bind_some, if_pos isX, nextChar_eq]
    rfl
  · rw [takeBase_plain marked, plainBase]
    cases b with
    | nil =>
        rw [standing, readBase, if_neg (fun both => absurd both.2 (by decide))]
        rfl
    | cons c rest =>
        rw [standing, readBase, List.head?_cons]
        by_cases isZero : (base = 0 ∨ base = 16) ∧ c = 0x30
        · obtain ⟨allowed, rfl⟩ := isZero
          have notX : ¬((standing rest).1 = 0x78 ∨ (standing rest).1 = 0x58) := by
            intro isX
            cases rest with
            | nil => exact absurd isX (by decide)
            | cons x behind =>
                exact marked ⟨allowed, rfl, isX.imp (congrArg some) (congrArg some)⟩
          rw [if_pos ⟨allowed, rfl⟩, nextChar_eq, Option.bind_some, if_neg notX, if_pos rfl]
        · rw [if_neg isZero]
          by_cases none : base = 0
          · have notZero : ¬some c = some 0x30 := fun same =>
              isZero ⟨.inl none, Option.some.inj same⟩
            rw [if_pos none, if_pos none, if_neg notZero]
          · rw [if_neg none, if_neg none]

/-- The loop over a string, from its first character on. -/
theorem digitLoop_eq (radix : Nat) (d : List CChar) (acc : Word) (any : Int) :
    digitLoop radix (standing d).2 (standing d).1 acc any =
      some ((strtoulLoop radix d acc any).1, (strtoulLoop radix d acc any).2,
        (standing (d.dropWhile (inBase radix))).2) := by
  induction d generalizing acc any with
  | nil => rfl
  | cons c rest inductionHypothesis =>
      rw [standing, strtoulLoop, List.dropWhile_cons]
      dsimp only
      rw [digitLoop, standing_cons]
      have stays := congrArg (fun s => some (acc, any, s)) (standing_cons rest).symm
      cases isDigit : digitOf c with
      | none =>
          rw [if_neg (by rw [inBase_none isDigit]; exact Bool.false_ne_true)]
          exact stays
      | some digit =>
          dsimp only
          by_cases large : (radix : Int) ≤ digit
          · have outside : ¬inBase radix c = true := by
              rw [inBase_some isDigit, decide_eq_true_eq]
              exact Int.not_lt.mpr large
            rw [if_pos large, if_pos large, if_neg outside]
            exact stays
          · have inside : inBase radix c = true := by
              rw [inBase_some isDigit, decide_eq_true_eq]
              exact Int.not_le.mp large
            rw [if_neg large, if_neg large, if_pos inside]
            split
            · exact inductionHypothesis acc any
            · split
              · exact inductionHypothesis _ _
              · exact inductionHypothesis _ _

/-! ## The parts of the string -/

/-- The sign, and what follows it. -/
def signed (nptr : List CChar) : Bool × List CChar := takeSign (nptr.dropWhile isBlank)

/-- The base, and what follows the prefix. -/
def based (nptr : List CChar) (base : Nat) : Nat × List CChar := takeBase base (signed nptr).2

def digitsOf (nptr : List CChar) (base : Nat) : List CChar :=
  (based nptr base).2.takeWhile (inBase (based nptr base).1)

/-- What follows the digits. -/
def behind (nptr : List CChar) (base : Nat) : List CChar :=
  (based nptr base).2.dropWhile (inBase (based nptr base).1)

def numberOf (nptr : List CChar) (base : Nat) : Nat :=
  spelled (based nptr base).1 0 ((digitsOf nptr base).map digitValue)

/-- A number with its sign as a word; the largest word stands for all that are larger. -/
def wordOf (neg : Bool) (number : Nat) : Word :=
  if number < 2 ^ 32 then (if neg then -BitVec.ofNat 32 number else BitVec.ofNat 32 number)
  else ULONG_MAX

theorem takeBase_pos (base : Nat) (s : List CChar) :
    0 < (takeBase base s).1 := by
  by_cases marked : Marked base s
  · rw [takeBase_marked marked]
    exact Nat.zero_lt_succ _
  · rw [takeBase_plain marked, plainBase]
    split
    · split <;> exact Nat.zero_lt_succ _
    · exact Nat.pos_of_ne_zero ‹_›

theorem strtoulEnd_eq (nptr : List CChar) (base : Nat) :
    strtoulEnd nptr base =
      some (if (signed nptr).1 ∧
            (strtoulLoop (based nptr base).1 (based nptr base).2 0 0).2 > 0 then
          -(strtoulLoop (based nptr base).1 (based nptr base).2 0 0).1
        else (strtoulLoop (based nptr base).1 (based nptr base).2 0 0).1,
        if (strtoulLoop (based nptr base).1 (based nptr base).2 0 0).2 ≠ 0 then
          nptr.length - (behind nptr base).length
        else 0) := by
  rw [strtoulEnd, skipBlanks_eq, Option.bind_some, readSign_eq, Option.bind_some, readBase_eq,
    Option.bind_some, digitLoop_eq, Option.map_some, standing_length]
  rfl

variable {base : Nat} {nptr : List CChar}

theorem based_loop :
    strtoulLoop (based nptr base).1 (based nptr base).2 0 0 =
      if digitsOf nptr base = [] then (0, 0) else total (numberOf nptr base) :=
  strtoulLoop_spelled (takeBase_pos base _) _ _ (Int.le_refl 0)

theorem strtoulEnd_none (none : digitsOf nptr base = []) :
    strtoulEnd nptr base = some (0, 0) := by
  rw [strtoulEnd_eq, based_loop, if_pos none, if_neg (fun both => absurd both.2 (by decide)),
    if_neg (fun some => some rfl)]

theorem strtoulEnd_digits (some : digitsOf nptr base ≠ []) :
    strtoulEnd nptr base =
      .some (wordOf (signed nptr).1 (numberOf nptr base),
        nptr.length - (behind nptr base).length) := by
  rw [strtoulEnd_eq, based_loop, if_neg some, wordOf, total]
  split
  · cases (signed nptr).1 <;> rfl
  · rw [if_neg (fun both => absurd both.2 (by decide)), if_pos (by decide)]

end OrionBios.Libc
