import OrionBios.Libc.StrtoulEnd

/-!
# `strtoul` and the standard

The standard gives the value of the longest initial part, behind the white space, that has the form
of a number. The function looks for the digits only when it has left a prefix `0x` behind.
-/

namespace OrionBios.Libc

open Machine Digits

/-! ## Subject sequences -/

inductive Sign
  | none
  | plus
  | minus
deriving DecidableEq

def Sign.text : Sign → List CChar
  | none => []
  | plus => [0x2B]
  | minus => [0x2D]

structure Run (radix : Nat) (digits : List CChar) : Prop where
  some : digits ≠ []
  all : ∀ c ∈ digits, inBase radix c = true

/-- The forms that a number has in a base: its prefix, its digits and their radix. With base 0
these are the constants of the language. -/
inductive Form : Nat → List CChar → List CChar → Nat → Prop
  | decimal {digits} (first : digits.head? ≠ some 0x30) (run : Run 10 digits) :
      Form 0 [] digits 10
  | octal {digits} (first : digits.head? = some 0x30) (run : Run 8 digits) :
      Form 0 [] digits 8
  | hexadecimal {base x digits} (allowed : base = 0 ∨ base = 16) (isX : x = 0x78 ∨ x = 0x58)
      (run : Run 16 digits) : Form base [0x30, x] digits 16
  | given {base digits} (given : base ≠ 0) (run : Run base digits) : Form base [] digits base

structure Subject (base : Nat) where
  sign : Sign
  mark : List CChar
  digits : List CChar
  radix : Nat
  form : Form base mark digits radix

namespace Subject

variable {base : Nat}

def text (subject : Subject base) : List CChar :=
  subject.sign.text ++ (subject.mark ++ subject.digits)

/-- The number without its sign. -/
def magnitude (subject : Subject base) : Nat :=
  spelled subject.radix 0 (subject.digits.map digitValue)

/-- The sequence stands at the first character that is no white space. -/
def Starts (subject : Subject base) (nptr : List CChar) : Prop :=
  subject.text <+: nptr.dropWhile isBlank

/-- No other sequence that stands there is longer. -/
structure Longest (subject : Subject base) (nptr : List CChar) : Prop where
  starts : subject.Starts nptr
  longest : ∀ other : Subject base, other.Starts nptr → other.text.length ≤ subject.text.length

end Subject

/-- The value and the offset of the end that the standard asks for. -/
inductive Standard (nptr : List CChar) (base : Nat) : Word → Nat → Prop
  | number (subject : Subject base) (longest : subject.Longest nptr) :
      Standard nptr base (wordOf (subject.sign = .minus) subject.magnitude)
        ((nptr.takeWhile isBlank).length + subject.text.length)
  | none (none : ∀ subject : Subject base, ¬subject.Starts nptr) : Standard nptr base 0 0

/-- Behind white space and sign stands `0x`, and no hexadecimal digit behind it, in a base that
allows the prefix. -/
def BarePrefix (base : Nat) (nptr : List CChar) : Prop :=
  (base = 0 ∨ base = 16) ∧ ∃ (sign : Sign) (x : CChar) (rest : List CChar),
    (x = 0x78 ∨ x = 0x58) ∧ nptr.dropWhile isBlank = sign.text ++ 0x30 :: x :: rest ∧
      ∀ c ∈ rest.head?, inBase 16 c = false

/-! ## Sign -/

def signOf (nptr : List CChar) : Sign :=
  if (nptr.dropWhile isBlank).head? = some 0x2D then .minus
  else if (nptr.dropWhile isBlank).head? = some 0x2B then .plus
  else .none

theorem takeSign_text (sign : Sign) {c : CChar} (rest : List CChar) (notMinus : c ≠ 0x2D)
    (notPlus : c ≠ 0x2B) :
    takeSign (sign.text ++ c :: rest) = (decide (sign = .minus), c :: rest) := by
  cases sign with
  | none =>
      rw [Sign.text, List.nil_append, takeSign, List.head?_cons,
        if_neg fun same => notMinus (Option.some.inj same),
        if_neg fun same => notPlus (Option.some.inj same)]
      rfl
  | plus => rfl
  | minus => rfl

theorem signed_eq (nptr : List CChar) :
    nptr.dropWhile isBlank = (signOf nptr).text ++ (signed nptr).2 ∧
      (signed nptr).1 = decide (signOf nptr = .minus) := by
  rw [signed, signOf, takeSign]
  cases nptr.dropWhile isBlank with
  | nil => exact ⟨rfl, rfl⟩
  | cons c rest =>
      rw [List.head?_cons, List.tail_cons]
      by_cases minus : some c = some 0x2D
      · rw [if_pos minus, if_pos minus, Option.some.inj minus]
        exact ⟨rfl, rfl⟩
      · rw [if_neg minus, if_neg minus]
        by_cases plus : some c = some 0x2B
        · rw [if_pos plus, if_pos plus, Option.some.inj plus]
          exact ⟨rfl, rfl⟩
        · rw [if_neg plus, if_neg plus]
          exact ⟨rfl, rfl⟩

/-! ## What stands behind the sign -/

variable {base radix : Nat} {mark digits t : List CChar}

theorem inBase_ne {c other : CChar} (inside : inBase radix c = true)
    (none : digitOf other = none) : c ≠ other := by
  rintro rfl
  rw [inBase_none none] at inside
  contradiction

theorem Form.run (form : Form base mark digits radix) : Run radix digits := by
  cases form <;> assumption

theorem Form.begins (form : Form base mark digits radix) :
    ∃ c rest, mark ++ digits = c :: rest ∧ c ≠ 0x2D ∧ c ≠ 0x2B := by
  have plain : ∀ {radix : Nat}, Run radix digits →
      ∃ c rest, digits = c :: rest ∧ c ≠ 0x2D ∧ c ≠ 0x2B := by
    intro radix run
    obtain ⟨c, rest, rfl⟩ := List.exists_cons_of_ne_nil run.some
    have inside := run.all c List.mem_cons_self
    exact ⟨c, rest, rfl, inBase_ne inside rfl, inBase_ne inside rfl⟩
  cases form with
  | decimal first run => exact plain run
  | octal first run => exact plain run
  | hexadecimal allowed isX run => exact ⟨_, _, rfl, by decide, by decide⟩
  | given given run => exact plain run

theorem Subject.Starts.sign {subject : Subject base} {nptr : List CChar}
    (starts : subject.Starts nptr) :
    signOf nptr = subject.sign ∧ subject.mark ++ subject.digits <+: (signed nptr).2 := by
  obtain ⟨more, whole⟩ := starts
  obtain ⟨c, rest, begins, notMinus, notPlus⟩ := subject.form.begins
  have parts : nptr.dropWhile isBlank = subject.sign.text ++ c :: (rest ++ more) := by
    rw [← whole, Subject.text, begins, List.append_assoc, List.cons_append]
  have taken : signed nptr = (decide (subject.sign = .minus), c :: (rest ++ more)) := by
    rw [signed, parts, takeSign_text _ _ notMinus notPlus]
  obtain ⟨same, -⟩ := signed_eq nptr
  rw [taken] at same ⊢
  refine ⟨?_, more, by rw [begins, List.cons_append]⟩
  have texts := List.append_cancel_right (same.symm.trans parts)
  revert texts
  cases signOf nptr <;> cases subject.sign <;> intro texts <;> first | rfl | contradiction

theorem Run.takeWhile (run : Run radix digits) (front : digits <+: t) :
    digits <+: t.takeWhile (inBase radix) := by
  obtain ⟨more, rfl⟩ := front
  rw [List.takeWhile_append_of_pos run.all]
  exact List.prefix_append _ _

theorem Run.head (run : Run radix digits) (front : digits <+: t) : t.head? = digits.head? := by
  obtain ⟨c, rest, rfl⟩ := List.exists_cons_of_ne_nil run.some
  obtain ⟨more, rfl⟩ := front
  rfl

theorem Run.lone (run : Run radix digits) {x : CChar} {rest : List CChar}
    (front : digits <+: 0x30 :: x :: rest) (outside : inBase radix x = false) :
    digits = [0x30] := by
  obtain ⟨more, whole⟩ := front
  obtain ⟨c, others, rfl⟩ := List.exists_cons_of_ne_nil run.some
  rw [List.cons_append, List.cons.injEq] at whole
  obtain ⟨rfl, whole⟩ := whole
  cases others with
  | nil => rfl
  | cons second others =>
      rw [List.cons_append, List.cons.injEq] at whole
      have inside := run.all second (List.mem_cons_of_mem _ List.mem_cons_self)
      rw [whole.1, outside] at inside
      contradiction

theorem Form.plain (form : Form base mark digits radix) (front : mark ++ digits <+: t)
    (plain : ¬Marked base t) :
    mark = [] ∧ radix = (takeBase base t).1 ∧ digits <+: t.takeWhile (inBase radix) := by
  rw [takeBase_plain plain, plainBase]
  cases form with
  | decimal first run =>
      rw [← run.head front] at first
      rw [if_pos rfl, if_neg first]
      exact ⟨rfl, rfl, run.takeWhile front⟩
  | octal first run =>
      rw [← run.head front] at first
      rw [if_pos rfl, if_pos first]
      exact ⟨rfl, rfl, run.takeWhile front⟩
  | hexadecimal allowed isX run =>
      obtain ⟨more, rfl⟩ := front
      exact absurd ⟨allowed, rfl, isX.imp (congrArg some) (congrArg some)⟩ plain
  | given given run =>
      rw [if_neg given]
      exact ⟨rfl, rfl, run.takeWhile front⟩

/-- With a prefix a sequence has it and hexadecimal digits behind it, or it is its zero. -/
theorem Form.marked (form : Form base mark digits radix) (front : mark ++ digits <+: t)
    (marked : Marked base t) :
    mark = t.take 2 ∧ radix = 16 ∧ digits <+: (t.drop 2).takeWhile (inBase 16) ∨
      mark = [] ∧ digits = [0x30] := by
  obtain ⟨x, rest, rfl, isX⟩ := marked.begins
  have outside : ∀ radix ≤ 16, inBase radix x = false := by
    rcases isX with rfl | rfl <;> decide
  cases form with
  | decimal first run => exact absurd (run.head front).symm first
  | octal first run => exact .inr ⟨rfl, run.lone front (outside 8 (by decide))⟩
  | hexadecimal allowed isX run =>
      obtain ⟨more, whole⟩ := front
      obtain ⟨rfl, others⟩ := List.cons.inj (List.cons.inj whole).2
      exact .inl ⟨rfl, rfl, run.takeWhile ⟨more, others⟩⟩
  | given given run =>
      have sixteen : base = 16 := marked.1.resolve_left given
      rw [sixteen] at run
      exact .inr ⟨rfl, run.lone front (outside 16 (by decide))⟩

/-! ## The sequence that the function takes -/

theorem takeBase_form (some : t.takeWhile (inBase (takeBase base t).1) ≠ [])
    (plain : ¬Marked base t) :
    Form base [] (t.takeWhile (inBase (takeBase base t).1)) (takeBase base t).1 := by
  have run : Run (takeBase base t).1 (t.takeWhile (inBase (takeBase base t).1)) :=
    ⟨some, List.all_eq_true.mp List.all_takeWhile⟩
  have first := run.head (List.takeWhile_prefix _)
  revert run first
  rw [takeBase_plain plain, plainBase]
  intro run first
  by_cases none : base = 0
  · subst none
    rw [if_pos rfl] at run first ⊢
    by_cases zero : t.head? = .some 0x30
    · rw [if_pos zero] at run first ⊢
      exact .octal (first.symm.trans zero) run
    · rw [if_neg zero] at run first ⊢
      exact .decimal (fun same => zero (first.trans same)) run
  · rw [if_neg none] at run ⊢
    exact .given none run

/-- The prefix of a number, if it has one. -/
def markOf (base : Nat) (t : List CChar) : List CChar := if Marked base t then t.take 2 else []

theorem markOf_append (base : Nat) (t : List CChar) : markOf base t ++ (takeBase base t).2 = t := by
  rw [markOf]
  by_cases marked : Marked base t
  · rw [if_pos marked, takeBase_marked marked, List.take_append_drop]
  · rw [if_neg marked, takeBase_plain marked, List.nil_append]

variable {nptr : List CChar}

theorem digitsOf_form (some : digitsOf nptr base ≠ []) :
    Form base (markOf base (signed nptr).2) (digitsOf nptr base) (based nptr base).1 := by
  revert some
  rw [digitsOf, based, markOf]
  intro some
  by_cases marked : Marked base (signed nptr).2
  · obtain ⟨x, rest, begins, isX⟩ := marked.begins
    rw [if_pos marked]
    rw [takeBase_marked marked, begins] at some ⊢
    exact .hexadecimal marked.1 isX ⟨some, List.all_eq_true.mp List.all_takeWhile⟩
  · rw [if_neg marked]
    rw [takeBase_plain marked] at some
    have form := @takeBase_form base (signed nptr).2
    rw [takeBase_plain marked] at form ⊢
    exact form some marked

/-- Sign, prefix and digits as the function finds them. -/
def taken (some : digitsOf nptr base ≠ []) : Subject base where
  sign := signOf nptr
  mark := markOf base (signed nptr).2
  digits := digitsOf nptr base
  radix := (based nptr base).1
  form := digitsOf_form some

theorem taken_text (some : digitsOf nptr base ≠ []) :
    (taken some).text ++ behind nptr base = nptr.dropWhile isBlank := by
  have parts : (taken some).text ++ behind nptr base =
      (signOf nptr).text ++ (markOf base (signed nptr).2 ++ digitsOf nptr base) ++
        behind nptr base := rfl
  rw [parts, List.append_assoc, List.append_assoc, digitsOf, behind,
    List.takeWhile_append_dropWhile, based, markOf_append, (signed_eq nptr).1]

theorem taken_length (some : digitsOf nptr base ≠ []) :
    (taken some).text.length = (signOf nptr).text.length +
      ((markOf base (signed nptr).2).length + (digitsOf nptr base).length) := by
  rw [Subject.text, List.length_append, List.length_append]
  rfl

theorem digitsOf_marked (marked : Marked base (signed nptr).2) :
    digitsOf nptr base = ((signed nptr).2.drop 2).takeWhile (inBase 16) := by
  rw [digitsOf, based, takeBase_marked marked]

theorem digitsOf_plain (plain : ¬Marked base (signed nptr).2) :
    digitsOf nptr base = (signed nptr).2.takeWhile (inBase (based nptr base).1) := by
  rw [digitsOf, based, takeBase_plain plain]

/-- A sequence that stands there is no longer than the one that is taken, and has its digits if it
is as long. -/
theorem taken_longest (some : digitsOf nptr base ≠ []) {subject : Subject base}
    (starts : subject.Starts nptr) :
    subject.text.length ≤ (taken some).text.length ∧
      (subject.text.length = (taken some).text.length → subject.digits = digitsOf nptr base) := by
  obtain ⟨sign, front⟩ := starts.sign
  rw [taken_length, Subject.text, List.length_append, List.length_append, sign]
  have positive := List.length_pos_iff.mpr some
  by_cases marked : Marked base (signed nptr).2
  · have two : (markOf base (signed nptr).2).length = 2 := by
      obtain ⟨x, rest, begins, isX⟩ := marked.begins
      rw [markOf, if_pos marked, begins]
      rfl
    rw [two]
    rcases subject.form.marked front marked with ⟨mark, -, run⟩ | ⟨mark, digits⟩
    · have twice := two
      rw [markOf, if_pos marked, ← mark] at twice
      rw [← digitsOf_marked marked] at run
      have le := run.length_le
      exact ⟨by omega, fun same => run.eq_of_length (by omega)⟩
    · rw [mark, digits, List.length_nil, List.length_singleton]
      exact ⟨by omega, fun same => absurd same (by omega)⟩
  · obtain ⟨mark, radix, run⟩ := subject.form.plain front marked
    rw [radix, ← based, ← digitsOf_plain marked] at run
    have le := run.length_le
    rw [markOf, if_neg marked, mark, List.length_nil]
    exact ⟨by omega, fun same => run.eq_of_length (by omega)⟩

theorem taken_is_longest (some : digitsOf nptr base ≠ []) : (taken some).Longest nptr where
  starts := ⟨behind nptr base, taken_text some⟩
  longest _ starts := (taken_longest some starts).1

theorem not_starts (none : digitsOf nptr base = []) (plain : ¬Marked base (signed nptr).2)
    (subject : Subject base) : ¬subject.Starts nptr := by
  intro starts
  obtain ⟨-, front⟩ := starts.sign
  obtain ⟨-, radix, run⟩ := subject.form.plain front plain
  rw [radix, ← based, ← digitsOf_plain plain, none, List.prefix_nil] at run
  exact subject.form.run.some run

theorem zero_form (marked : Marked base t) : ∃ radix, Form base [] [0x30] radix := by
  rcases marked.1 with rfl | rfl
  · exact ⟨8, .octal rfl ⟨List.cons_ne_nil _ _, by decide⟩⟩
  · exact ⟨16, .given (by decide) ⟨List.cons_ne_nil _ _, by decide⟩⟩

theorem zero_starts (marked : Marked base (signed nptr).2) :
    ∃ subject : Subject base, subject.Starts nptr := by
  obtain ⟨radix, form⟩ := zero_form marked
  obtain ⟨x, rest, begins, -⟩ := marked.begins
  refine ⟨⟨signOf nptr, [], [0x30], radix, form⟩, x :: rest, ?_⟩
  rw [(signed_eq nptr).1, begins, Subject.text, List.append_assoc]
  rfl

/-- Before a bare prefix only its zero is a number. -/
theorem bare_digits (marked : Marked base (signed nptr).2) (none : digitsOf nptr base = [])
    {subject : Subject base} (starts : subject.Starts nptr) :
    subject.mark = [] ∧ subject.digits = [0x30] := by
  rcases subject.form.marked starts.sign.2 marked with ⟨-, -, run⟩ | zero
  · rw [← digitsOf_marked marked, none, List.prefix_nil] at run
    exact absurd run subject.form.run.some
  · exact zero

theorem Subject.text_pos (subject : Subject base) : 0 < subject.text.length := by
  have some := List.length_pos_iff.mpr subject.form.run.some
  rw [Subject.text, List.length_append, List.length_append]
  omega

theorem takeWhile_eq_nil {p : CChar → Bool} {rest : List CChar} :
    rest.takeWhile p = [] ↔ ∀ c ∈ rest.head?, p c = false := by
  cases rest with
  | nil => exact ⟨fun _ _ member => (Option.not_mem_none _ member).elim, fun _ => rfl⟩
  | cons c rest =>
      rw [List.takeWhile_cons, List.head?_cons]
      by_cases inside : p c = true
      · rw [if_pos inside]
        exact ⟨fun empty => absurd empty (List.cons_ne_nil _ _),
          fun none => absurd (none c rfl) (by rw [inside]; exact Bool.noConfusion)⟩
      · rw [if_neg inside]
        refine ⟨fun _ other member => ?_, fun _ => rfl⟩
        rw [← Option.some.inj member]
        exact Bool.eq_false_iff.mpr inside

theorem barePrefix_iff :
    BarePrefix base nptr ↔ Marked base (signed nptr).2 ∧ digitsOf nptr base = [] := by
  constructor
  · rintro ⟨allowed, sign, x, rest, isX, whole, none⟩
    have parts : signed nptr = (decide (sign = .minus), 0x30 :: x :: rest) := by
      rw [signed, whole, takeSign_text sign _ (by decide) (by decide)]
    have marked : Marked base (signed nptr).2 := by
      rw [parts]
      exact ⟨allowed, rfl, isX.imp (congrArg some) (congrArg some)⟩
    refine ⟨marked, ?_⟩
    rw [digitsOf_marked marked, parts]
    exact takeWhile_eq_nil.mpr none
  · rintro ⟨marked, none⟩
    obtain ⟨x, rest, begins, isX⟩ := marked.begins
    rw [digitsOf_marked marked, begins] at none
    refine ⟨marked.1, signOf nptr, x, rest, isX, ?_, takeWhile_eq_nil.mp none⟩
    rw [← begins]
    exact (signed_eq nptr).1

theorem wordOf_zero (neg : Bool) : wordOf neg 0 = 0 := by
  cases neg <;> rfl

theorem standard_bare (bare : BarePrefix base nptr) :
    Standard nptr base 0 ((nptr.takeWhile isBlank).length + ((signOf nptr).text.length + 1)) := by
  obtain ⟨marked, none⟩ := barePrefix_iff.mp bare
  obtain ⟨subject, starts⟩ := zero_starts marked
  have length : ∀ {subject : Subject base}, subject.Starts nptr →
      subject.text.length = (signOf nptr).text.length + 1 := by
    intro subject starts
    obtain ⟨mark, digits⟩ := bare_digits marked none starts
    rw [Subject.text, starts.sign.1, mark, digits, List.length_append]
    rfl
  have zero : subject.magnitude = 0 := by
    rw [Subject.magnitude, (bare_digits marked none starts).2]
    exact Nat.zero_mul subject.radix
  have standard := Standard.number subject
    ⟨starts, fun other others => Nat.le_of_eq ((length others).trans (length starts).symm)⟩
  rw [zero, wordOf_zero, length starts] at standard
  exact standard

theorem Standard.stop_pos (marked : Marked base (signed nptr).2) {value : Word} {stop : Nat}
    (standard : Standard nptr base value stop) : 0 < stop := by
  obtain ⟨zero, starts⟩ := zero_starts marked
  cases standard with
  | number subject longest => exact Nat.add_pos_right _ subject.text_pos
  | none noneStarts => exact absurd starts (noneStarts zero)

theorem taken_end (some : digitsOf nptr base ≠ []) :
    nptr.length - (behind nptr base).length =
      (nptr.takeWhile isBlank).length + (taken some).text.length := by
  have whole := congrArg List.length (@List.takeWhile_append_dropWhile _ isBlank nptr)
  rw [← taken_text some, List.length_append, List.length_append] at whole
  omega

/-- The function returns what the standard says, and reads only inside the string, exactly if there
is no bare prefix. -/
theorem strtoul_standard_iff (nptr : List CChar) (base : Nat) :
    (∃ value stop, strtoulEnd nptr base = some (value, stop) ∧ Standard nptr base value stop) ↔
      ¬BarePrefix base nptr := by
  rw [barePrefix_iff]
  by_cases none : digitsOf nptr base = []
  · rw [strtoulEnd_none none]
    constructor
    · rintro ⟨value, stop, result, standard⟩ ⟨marked, -⟩
      have start : stop = 0 := (congrArg Prod.snd (Option.some.inj result)).symm
      exact absurd start (Nat.ne_of_gt (standard.stop_pos marked))
    · intro notBare
      exact ⟨0, 0, rfl, .none (not_starts none fun marked => notBare ⟨marked, none⟩)⟩
  · rw [strtoulEnd_digits none, taken_end none, (signed_eq nptr).2]
    constructor
    · exact fun _ bare => none bare.2
    · exact fun _ => ⟨_, _, rfl, .number (taken none) (taken_is_longest none)⟩

/-- `strtoul("0x", &end, 16)`: the end is the start of the string, not the `x`. -/
theorem bare_end :
    ¬∃ value stop, strtoulEnd [0x30, 0x78] 16 = some (value, stop) ∧
      Standard [0x30, 0x78] 16 value stop := by
  rintro ⟨value, stop, result, standard⟩
  have returned : strtoulEnd [0x30, 0x78] 16 = some (0, 0) := by decide
  have start : stop = 0 := congrArg Prod.snd (Option.some.inj (result.symm.trans returned))
  have marked : Marked 16 (signed [0x30, 0x78]).2 := by decide
  exact absurd start (Nat.ne_of_gt (standard.stop_pos marked))

end OrionBios.Libc
