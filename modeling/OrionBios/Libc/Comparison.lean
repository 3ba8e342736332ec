import OrionBios.Libc.Strtoul

/-!
# The two functions `strncmp`

`strncmp.c` and `strcnmp.c` both define it. A string is given by the bytes that may be read, its
terminator among them.
-/

namespace OrionBios.Libc.Comparison

open Machine

/-! ## The functions -/

/-- `strncmp` of `strncmp.c`, with characters that have a sign. -/
def strncmp : List CChar → List CChar → Word → Option Int
  | c1 :: str1, c2 :: str2, max =>
      if max = 0 then some 0
      else if c1.toInt > c2.toInt then some 1
      else if c1.toInt < c2.toInt then some (-1)
      else if c1 = c2 ∧ c1 = 0 then some 0
      else strncmp str1 str2 (max - 1)
  | _, _, max => if max = 0 then some 0 else none

/-- `strncmp` of `strcnmp.c`. The length is an `int`, and behind the last round a character more is
compared. -/
def strcnmp : List CChar → List CChar → Word → Option Int
  | c1 :: s1, c2 :: s2, n =>
      if c1 ≠ 0 ∧ c1 = c2 ∧ n ≠ 0 then strcnmp s1 s2 (n - 1)
      else some ((c1.toNat : Int) - c2.toNat)
  | _, _, _ => none

/-! ## What they promise -/

/-- The bytes up to the terminator, and no more than `n`. -/
def readable (text : List CChar) (n : Word) : List CChar := (text ++ [0]).take n.toNat

/-- Both compare the first `n` characters as bytes, and read no others. -/
def Agreement (first second : List CChar) (n : Word) : Prop :=
  ∃ x y, strncmp (readable first n) (readable second n) n = some x ∧
    strcnmp (readable first n) (readable second n) n = some y ∧
    compare x 0 = compare (first.take n.toNat) (second.take n.toNat) ∧
    compare y 0 = compare (first.take n.toNat) (second.take n.toNat)

/-! ## When they keep it -/

/-- How many characters two strings have in common. -/
def common : List CChar → List CChar → Nat
  | c1 :: first, c2 :: second => if c1 = c2 then common first second + 1 else 0
  | _, _ => 0

/-- The character at a place, or the terminator. -/
def charAt (text : List CChar) (index : Nat) : CChar := (text ++ [0]).getD index 0

/-- The strings differ or end before the length is used up, and the characters there are on the same
side of 128. -/
def Decided (first second : List CChar) (n : Word) : Prop :=
  common first second < n.toNat ∧
    ((charAt first (common first second)).toNat < 128 ↔
      (charAt second (common first second)).toNat < 128)

instance (first second : List CChar) (n : Word) : Decidable (Decided first second n) :=
  inferInstanceAs (Decidable (_ ∧ _))

variable {first second s1 s2 : List CChar} {c1 c2 : CChar} {n : Word}

theorem compare_bytes (c1 c2 : CChar) :
    compare c1 c2 =
      if c1.toNat < c2.toNat then .lt else if c1.toNat = c2.toNat then .eq else .gt := by
  change (if c1 < c2 then _ else if c1 = c2 then _ else _) = _
  simp only [BitVec.lt_def, BitVec.toNat_inj]

theorem compare_difference (c1 c2 : CChar) :
    compare ((c1.toNat : Int) - c2.toNat) 0 = compare c1 c2 := by
  rw [compare_bytes]
  change (if (c1.toNat : Int) - c2.toNat < 0 then _ else if _ = (0 : Int) then _ else _) = _
  split <;> split <;> grind

theorem compare_differ (differ : c1 ≠ c2) (behind : Ordering) :
    (compare c1 c2).then behind = compare c1 c2 := by
  have decides : compare c1 c2 ≠ .eq := fun same =>
    differ (Std.LawfulEqCmp.compare_eq_iff_eq.mp same)
  cases order : compare c1 c2 with
  | lt => rfl
  | eq => exact absurd order decides
  | gt => rfl

theorem compare_end (letter : c1 ≠ 0) : compare 0 c1 = .lt ∧ compare c1 0 = .gt := by
  have positive : c1.toNat ≠ 0 := fun zero => letter (BitVec.eq_of_toNat_eq zero)
  have none : (0 : CChar).toNat = 0 := rfl
  rw [compare_bytes, compare_bytes, none, if_pos (Nat.pos_of_ne_zero positive),
    if_neg (Nat.not_lt_zero _), if_neg positive]
  exact ⟨rfl, rfl⟩

theorem decided_start (some : n ≠ 0) (none : common first second = 0) :
    Decided first second n ↔ ((charAt first 0).toNat < 128 ↔ (charAt second 0).toNat < 128) := by
  have positive : 0 < n.toNat := by bv_omega
  rw [Decided, none]
  exact and_iff_right positive

/-! ### One round -/

theorem length_pred (some : n ≠ 0) : (n - 1).toNat + 1 = n.toNat := by
  bv_omega

theorem readable_cons (some : n ≠ 0) (c : CChar) (text : List CChar) :
    readable (c :: text) n = c :: readable text (n - 1) := by
  rw [readable, ← length_pred some, List.cons_append, List.take_succ_cons, readable]

theorem readable_nil (some : n ≠ 0) : readable [] n = [0] := by
  rw [readable, ← length_pred some, List.nil_append, List.take_succ_cons, List.take_nil]

theorem strncmp_same (some : n ≠ 0) (letter : c1 ≠ 0) :
    strncmp (c1 :: s1) (c1 :: s2) n = strncmp s1 s2 (n - 1) := by
  rw [strncmp, if_neg some, if_neg (Int.lt_irrefl _), if_neg (Int.lt_irrefl _),
    if_neg fun both => letter both.2]

theorem strcnmp_same (some : n ≠ 0) (letter : c1 ≠ 0) :
    strcnmp (c1 :: s1) (c1 :: s2) n = strcnmp s1 s2 (n - 1) := by
  rw [strcnmp, if_pos ⟨letter, rfl, some⟩]

theorem strncmp_differ (length : n ≠ 0) (differ : c1 ≠ c2) :
    strncmp (c1 :: s1) (c2 :: s2) n = some (if c1.toInt > c2.toInt then 1 else -1) := by
  have numbers : c1.toInt ≠ c2.toInt := fun same => differ (BitVec.toInt_inj.mp same)
  rw [strncmp, if_neg length]
  by_cases greater : c1.toInt > c2.toInt
  · rw [if_pos greater, if_pos greater]
  · rw [if_neg greater, if_neg greater, if_pos (by omega)]

theorem strcnmp_differ (differ : c1 ≠ c2) :
    strcnmp (c1 :: s1) (c2 :: s2) n = some ((c1.toNat : Int) - c2.toNat) := by
  rw [strcnmp, if_neg fun all => differ all.2.1]

/-- Two different characters stand in the same order as numbers with a sign, if they are on the same
side of 128. -/
theorem compare_signed (differ : c1 ≠ c2) :
    compare (if c1.toInt > c2.toInt then 1 else -1 : Int) 0 = compare c1 c2 ↔
      (c1.toNat < 128 ↔ c2.toNat < 128) := by
  have numbers : c1.toNat ≠ c2.toNat := fun same => differ (BitVec.toNat_inj.mp same)
  have greater : compare (1 : Int) 0 = .gt := rfl
  have less : compare (-1 : Int) 0 = .lt := rfl
  have first := c1.isLt
  have second := c2.isLt
  rw [compare_bytes, if_neg numbers, BitVec.toInt_eq_toNat_cond, BitVec.toInt_eq_toNat_cond]
  split <;> split <;> grind

/-! ### The rounds -/

/-- `strcnmp.c` reads a character even then. -/
theorem agreement_zero (first second : List CChar) :
    Agreement first second 0 ↔ Decided first second 0 := by
  have reads : ¬Agreement first second 0 := by
    rintro ⟨x, y, -, nothing, -⟩
    contradiction
  exact iff_of_false reads fun decided => Nat.not_lt_zero _ decided.1

theorem agreement_cons (some : n ≠ 0) (letter : c1 ≠ 0) :
    Agreement (c1 :: first) (c1 :: second) n ↔ Agreement first second (n - 1) := by
  have order : compare ((c1 :: first).take n.toNat) ((c1 :: second).take n.toNat) =
      compare (first.take (n - 1).toNat) (second.take (n - 1).toNat) := by
    have self : compare c1 c1 = .eq := Std.LawfulEqCmp.compare_eq_iff_eq.mpr rfl
    rw [← length_pred some, List.take_succ_cons, List.take_succ_cons, List.compare_cons_cons, self]
    rfl
  rw [Agreement, readable_cons some, readable_cons some, strncmp_same some letter,
    strcnmp_same some letter, order]
  rfl

/-- The strings differ in their first character, where one of them may have ended. -/
theorem agreement_differ (length : n ≠ 0) (differ : c1 ≠ c2)
    (isFirst : readable first n = c1 :: s1) (isSecond : readable second n = c2 :: s2)
    (order : compare (first.take n.toNat) (second.take n.toNat) = compare c1 c2) :
    Agreement first second n ↔ (c1.toNat < 128 ↔ c2.toNat < 128) := by
  rw [Agreement, isFirst, isSecond, strncmp_differ length differ, strcnmp_differ differ, order,
    ← compare_signed differ]
  constructor
  · rintro ⟨x, y, isX, -, signed, -⟩
    rw [Option.some.inj isX]
    exact signed
  · intro signed
    exact ⟨_, _, rfl, rfl, signed, compare_difference c1 c2⟩

theorem agreement_nil (length : n ≠ 0) : Agreement [] [] n := by
  rw [Agreement, readable_nil length, List.take_nil]
  refine ⟨0, 0, ?_, rfl, rfl, rfl⟩
  rw [strncmp, if_neg length]
  rfl

/-- Both functions give the order of the first characters, if and only if that is decided before the
length is used up and does not depend on the sign of `char`. -/
theorem agreement_iff (first second : List CChar) (n : Word) (letters : ∀ c ∈ first, c ≠ 0)
    (secondLetters : ∀ c ∈ second, c ≠ 0) :
    Agreement first second n ↔ Decided first second n := by
  by_cases some : n = 0
  · rw [some]
    exact agreement_zero first second
  have positive := length_pred some
  induction first generalizing second n with
  | nil =>
      cases second with
      | nil => exact iff_of_true (agreement_nil some) ((decided_start some rfl).mpr Iff.rfl)
      | cons c2 second =>
          have letter : c2 ≠ 0 := secondLetters c2 List.mem_cons_self
          rw [decided_start some rfl]
          apply agreement_differ some letter.symm (readable_nil some) (readable_cons some c2 second)
          rw [← positive, List.take_nil, List.take_succ_cons, List.compare_nil_cons,
            (compare_end letter).1]
  | cons c1 first inductionHypothesis =>
      have letter : c1 ≠ 0 := letters c1 List.mem_cons_self
      cases second with
      | nil =>
          rw [decided_start some rfl]
          apply agreement_differ some letter (readable_cons some c1 first) (readable_nil some)
          rw [← positive, List.take_nil, List.take_succ_cons, List.compare_cons_nil,
            (compare_end letter).2]
      | cons c2 second =>
          by_cases same : c1 = c2
          · subst same
            have further :
                Decided (c1 :: first) (c1 :: second) n ↔ Decided first second (n - 1) := by
              rw [Decided, Decided, common, if_pos rfl, ← positive, Nat.add_lt_add_iff_right]
              rfl
            rw [agreement_cons some letter, further]
            by_cases last : n - 1 = 0
            · rw [last]
              exact agreement_zero first second
            · exact inductionHypothesis second (n - 1)
                (fun c member => letters c (List.mem_cons_of_mem c1 member))
                (fun c member => secondLetters c (List.mem_cons_of_mem c1 member)) last
                (length_pred last)
          · have start : common (c1 :: first) (c2 :: second) = 0 := if_neg same
            rw [decided_start some start]
            apply agreement_differ some same (readable_cons some c1 first)
              (readable_cons some c2 second)
            rw [← positive, List.take_succ_cons, List.take_succ_cons, List.compare_cons_cons,
              compare_differ same]

/-- `ab` and `ad`, of which two characters are compared. -/
theorem agreement_iff_letters :
    Agreement [0x61, 0x62] [0x61, 0x64] 2 ↔ Decided [0x61, 0x62] [0x61, 0x64] 2 :=
  agreement_iff [0x61, 0x62] [0x61, 0x64] 2 (by decide) (by decide)

/-- `ab` and `ac` agree in their first character, but `strcnmp.c` compares the second. -/
theorem reads_beyond :
    ¬Agreement [0x61, 0x62] [0x61, 0x63] 1 ∧
      strncmp [0x61, 0x62, 0] [0x61, 0x63, 0] 1 = some 0 ∧
      strcnmp [0x61, 0x62, 0] [0x61, 0x63, 0] 1 = some (-1) := by
  refine ⟨?_, by decide, by decide⟩
  rintro ⟨x, y, -, reads, -⟩
  have result : strcnmp (readable [0x61, 0x62] 1) (readable [0x61, 0x63] 1) 1 = none := by decide
  rw [result] at reads
  contradiction

end OrionBios.Libc.Comparison
