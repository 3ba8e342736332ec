import OrionBios.Libc.Strings
import OrionBios.Machine.Memory

/-!
# Searching a string in another

`strstr`, which knows the ends of its strings by their terminators, and `memmem`, which is given two
lengths. Both are compared with the first place where the whole needle stands.
-/

namespace OrionBios.Libc.Substring

open Machine

/-! ## `memmem` -/

/-- The length is an `int`; behind the given bytes there is no result. -/
def memcmp : List Char → List Char → Int → Option Int
  | p1 :: s1, p2 :: s2, n =>
      if n > 0 then
        if p1 ≠ p2 then some ((p1.toNat : Int) - p2.toNat) else memcmp s1 s2 (n - 1)
      else some 0
  | _, _, n => if n > 0 then none else some 0

/-- The loop over the places that are left; the offset is counted from the first of them. -/
def memmemLoop (n : List Char) (needlelen : Word) : Nat → List Char → Option (Option Nat)
  | 0, _ => some none
  | places + 1, h =>
      (memcmp h n needlelen.toInt).bind fun difference =>
        if difference = 0 then some (some 0)
        else (memmemLoop n needlelen places h.tail).map fun found => found.map (· + 1)

def memmem (haystack : List Char) (haystacklen : Word) (needle : List Char) (needlelen : Word) :
    Option (Option Nat) :=
  if needlelen = 0 then some (some 0)
  else if needlelen > haystacklen then some none
  else memmemLoop needle needlelen ((haystacklen - needlelen).toNat + 1) haystack

/-! ## What a search promises -/

def StandsAt (haystack needle : List Char) (index : Nat) : Prop :=
  index ≤ haystack.length ∧ needle <+: haystack.drop index

/-- The first such place, or NULL where there is none. -/
def IsAnswer (haystack needle : List Char) : Option Nat → Prop
  | none => ∀ index, ¬StandsAt haystack needle index
  | some index =>
      StandsAt haystack needle index ∧ ∀ earlier < index, ¬StandsAt haystack needle earlier

/-- The answer of `strstr` is right, and `memmem` gives the same. -/
def SearchRight (haystack needle : List Char) : Prop :=
  IsAnswer haystack needle (strstr haystack needle) ∧
    memmem haystack (BitVec.ofNat 32 haystack.length) needle (BitVec.ofNat 32 needle.length) =
      some (strstr haystack needle)

variable {haystack needle : List Char} {first : Char}

theorem IsAnswer.unique {found other : Option Nat} (answer : IsAnswer haystack needle found)
    (otherAnswer : IsAnswer haystack needle other) : found = other := by
  cases found with
  | none =>
      cases other with
      | none => rfl
      | some index => exact absurd otherAnswer.1 (answer index)
  | some place =>
      cases other with
      | none => exact absurd answer.1 (otherAnswer place)
      | some index =>
          rcases Nat.lt_trichotomy place index with less | rfl | greater
          · exact absurd answer.1 (otherAnswer.2 place less)
          · rfl
          · exact absurd otherAnswer.1 (answer.2 index greater)

/-! ### The answer -/

def search : List Char → List Char → Option Nat
  | [], needle => if needle = [] then some 0 else none
  | first :: haystack, needle =>
      if needle <+: first :: haystack then some 0 else (search haystack needle).map (· + 1)

theorem search_found_first (stands : needle <+: haystack) : search haystack needle = some 0 := by
  cases haystack with
  | nil => exact if_pos (List.prefix_nil.mp stands)
  | cons first haystack => exact if_pos stands

theorem search_short (short : haystack.length < needle.length) : search haystack needle = none := by
  induction haystack with
  | nil => exact if_neg (List.ne_nil_of_length_pos short)
  | cons first haystack inductionHypothesis =>
      have notPrefix : ¬needle <+: first :: haystack := fun stands =>
        absurd stands.length_le (Nat.not_le.mpr short)
      rw [search, if_neg notPrefix, inductionHypothesis (Nat.lt_of_succ_lt short)]
      rfl

theorem standsAt_zero : StandsAt haystack needle 0 ↔ needle <+: haystack := by
  rw [StandsAt, List.drop_zero]
  exact and_iff_right (Nat.zero_le _)

theorem standsAt_succ {index : Nat} :
    StandsAt (first :: haystack) needle (index + 1) ↔ StandsAt haystack needle index := by
  rw [StandsAt, StandsAt, List.length_cons, List.drop_succ_cons, Nat.add_le_add_iff_right]

theorem search_answer (haystack needle : List Char) :
    IsAnswer haystack needle (search haystack needle) := by
  induction haystack with
  | nil =>
      rw [search]
      by_cases empty : needle = []
      · rw [if_pos empty, empty]
        exact ⟨standsAt_zero.mpr (List.nil_prefix),
          fun earlier less => absurd less (Nat.not_lt_zero _)⟩
      · rw [if_neg empty]
        rintro index ⟨-, stands⟩
        rw [List.drop_nil] at stands
        exact empty (List.prefix_nil.mp stands)
  | cons first haystack inductionHypothesis =>
      rw [search]
      by_cases stands : needle <+: first :: haystack
      · rw [if_pos stands]
        exact ⟨standsAt_zero.mpr stands, fun earlier less => absurd less (Nat.not_lt_zero _)⟩
      · rw [if_neg stands]
        cases found : search haystack needle with
        | none =>
            rw [found] at inductionHypothesis
            intro index
            cases index with
            | zero => exact fun here => stands (standsAt_zero.mp here)
            | succ index => exact fun there => inductionHypothesis index (standsAt_succ.mp there)
        | some place =>
            rw [found] at inductionHypothesis
            refine ⟨standsAt_succ.mpr inductionHypothesis.1, fun earlier less => ?_⟩
            cases earlier with
            | zero => exact fun here => stands (standsAt_zero.mp here)
            | succ earlier =>
                exact fun there => inductionHypothesis.2 earlier (Nat.lt_of_succ_lt_succ less)
                  (standsAt_succ.mp there)

/-! ## `memmem` finds it -/

theorem memcmp_zero_iff {length : Int} (isLength : length = needle.length)
    (long : needle.length ≤ haystack.length) :
    ∃ difference, memcmp haystack needle length = some difference ∧
      (difference = 0 ↔ needle <+: haystack) := by
  induction needle generalizing haystack length with
  | nil =>
      refine ⟨0, ?_, iff_of_true rfl List.nil_prefix⟩
      cases haystack <;> exact if_neg (by rw [isLength]; exact Int.lt_irrefl 0)
  | cons second needle inductionHypothesis =>
      rw [List.length_cons] at isLength
      cases haystack with
      | nil => exact absurd long (Nat.not_succ_le_zero _)
      | cons first haystack =>
          rw [memcmp, if_pos (by omega)]
          by_cases same : first = second
          · subst same
            rw [if_neg fun differ => differ rfl]
            obtain ⟨difference, compared, equal⟩ := @inductionHypothesis haystack (length - 1)
              (by omega) (Nat.le_of_succ_le_succ long)
            refine ⟨difference, compared, ?_⟩
            rw [equal, List.prefix_cons_inj]
          · have numbers : first.toNat ≠ second.toNat := fun equal => same (Char.toNat_inj.mp equal)
            rw [if_pos same]
            refine ⟨_, rfl, iff_of_false (by omega) fun stands => ?_⟩
            exact same (List.cons_prefix_cons.mp stands).1.symm

theorem memmemLoop_search {needlelen : Word} (isLength : needlelen.toInt = needle.length)
    {places : Nat} (long : places + needle.length = haystack.length + 1) :
    memmemLoop needle needlelen places haystack = some (search haystack needle) := by
  induction places generalizing haystack with
  | zero =>
      rw [search_short (by omega)]
      rfl
  | succ places inductionHypothesis =>
      obtain ⟨difference, compared, equal⟩ := @memcmp_zero_iff haystack needle _ isLength (by omega)
      rw [memmemLoop, compared, Option.bind_some]
      by_cases stands : needle <+: haystack
      · rw [if_pos (equal.mpr stands), search_found_first stands]
      · rw [if_neg fun zero => stands (equal.mp zero)]
        cases haystack with
        | nil =>
            rw [List.length_nil] at long
            have empty : needle = [] := List.length_eq_zero_iff.mp (by omega)
            exact absurd (empty ▸ List.nil_prefix) stands
        | cons first haystack =>
            rw [List.length_cons] at long
            rw [List.tail_cons, inductionHypothesis (by omega), search, if_neg stands]
            rfl

/-- A needle whose length is no `int` is found at once. -/
theorem memmemLoop_long {needlelen : Word} (negative : needlelen.toInt < 0) (places : Nat) :
    memmemLoop needle needlelen (places + 1) haystack = some (some 0) := by
  have equal : memcmp haystack needle needlelen.toInt = some 0 := by
    cases haystack with
    | nil => exact if_neg (by omega)
    | cons first haystack =>
        cases needle with
        | nil => exact if_neg (by omega)
        | cons second needle => exact if_neg (by omega)
  rw [memmemLoop, equal, Option.bind_some, if_pos rfl]

/-- The needle's length is an `int`, or does not matter. -/
def Countable (haystack needle : List Char) : Prop :=
  needle.length < 2 ^ 31 ∨ haystack.length < needle.length ∨ needle <+: haystack

theorem memmem_iff (fits : haystack.length < 2 ^ 32) (needleFits : needle.length < 2 ^ 32) :
    memmem haystack (BitVec.ofNat 32 haystack.length) needle (BitVec.ofNat 32 needle.length) =
      some (search haystack needle) ↔ Countable haystack needle := by
  have length : (BitVec.ofNat 32 haystack.length).toNat = haystack.length :=
    Nat.mod_eq_of_lt fits
  have needleLength : (BitVec.ofNat 32 needle.length).toNat = needle.length :=
    Nat.mod_eq_of_lt needleFits
  rw [memmem]
  by_cases empty : needle = []
  · subst empty
    have zero : BitVec.ofNat 32 ([] : List Char).length = 0 := rfl
    rw [if_pos zero, search_found_first List.nil_prefix]
    exact iff_of_true rfl (.inl (Nat.two_pow_pos 31))
  have positive := List.length_pos_iff.mpr empty
  have some : BitVec.ofNat 32 needle.length ≠ 0 := by
    intro zero
    rw [zero] at needleLength
    exact absurd needleLength (Nat.ne_of_lt positive)
  rw [if_neg some]
  by_cases longer : haystack.length < needle.length
  · rw [if_pos (BitVec.lt_def.mpr (by omega)), search_short longer]
    exact iff_of_true rfl (.inr (.inl longer))
  rw [if_neg (fun more => longer (by have := BitVec.lt_def.mp more; omega))]
  have places : (BitVec.ofNat 32 haystack.length - BitVec.ofNat 32 needle.length).toNat =
      haystack.length - needle.length := by
    rw [BitVec.toNat_sub_of_le (BitVec.le_def.mpr (by omega)), length, needleLength]
  rw [places]
  by_cases small : needle.length < 2 ^ 31
  · have isInt : (BitVec.ofNat 32 needle.length).toInt = needle.length := by
      rw [BitVec.toInt_eq_toNat_cond, needleLength, if_pos (by omega)]
    rw [memmemLoop_search isInt (by omega)]
    exact iff_of_true rfl (.inl small)
  · have negative : (BitVec.ofNat 32 needle.length).toInt < 0 := by
      rw [BitVec.toInt_eq_toNat_cond, needleLength, if_neg (by omega)]
      omega
    rw [memmemLoop_long negative]
    constructor
    · intro first
      have answer := search_answer haystack needle
      rw [← Option.some.inj first] at answer
      exact .inr (.inr (standsAt_zero.mp answer.1))
    · rintro (less | longer' | stands)
      · exact absurd less small
      · exact absurd longer' longer
      · rw [search_found_first stands]

/-! ## When `strstr` finds it -/

/-- The needle stands in the haystack, or no end of the haystack looks like its beginning. An empty
haystack has no place to return. -/
def Told (haystack needle : List Char) : Prop :=
  (needle <:+: haystack ∧ haystack ≠ []) ∨
    (¬needle <:+: haystack ∧ ∀ tail, tail <:+ haystack → tail <+: needle → tail = [])

theorem compareUpToEnd_iff (text needle : List Char) :
    compareUpToEnd text needle = true ↔ text <+: needle ∨ needle <+: text := by
  induction text generalizing needle with
  | nil => exact iff_of_true rfl (.inl List.nil_prefix)
  | cons first text inductionHypothesis =>
      cases needle with
      | nil => exact iff_of_true rfl (.inr List.nil_prefix)
      | cons second needle =>
          rw [compareUpToEnd, Bool.and_eq_true, beq_iff_eq, inductionHypothesis,
            List.cons_prefix_cons, List.cons_prefix_cons]
          constructor
          · rintro ⟨same, either⟩
            exact either.imp (fun before => ⟨same, before⟩) fun before => ⟨same.symm, before⟩
          · rintro (⟨same, before⟩ | ⟨same, before⟩)
            · exact ⟨same, .inl before⟩
            · exact ⟨same.symm, .inr before⟩

theorem told_cons (notPrefix : ¬needle <+: first :: haystack)
    (notTail : ¬first :: haystack <+: needle) :
    Told (first :: haystack) needle ↔ Told haystack needle := by
  have nonempty : needle ≠ [] := fun none => notPrefix (none ▸ List.nil_prefix)
  have infix_iff : needle <:+: first :: haystack ↔ needle <:+: haystack := by
    rw [List.infix_cons_iff]
    exact or_iff_right notPrefix
  have occupied : needle <:+: haystack → haystack ≠ [] := by
    rintro stands rfl
    exact nonempty (List.infix_nil.mp stands)
  rw [Told, Told, infix_iff]
  constructor
  · rintro (⟨stands, -⟩ | ⟨absent, ends⟩)
    · exact .inl ⟨stands, occupied stands⟩
    · exact .inr ⟨absent, fun tail isTail =>
        ends tail (isTail.trans (List.suffix_cons first haystack))⟩
  · rintro (⟨stands, -⟩ | ⟨absent, ends⟩)
    · exact .inl ⟨stands, List.cons_ne_nil first haystack⟩
    · refine .inr ⟨absent, fun tail isTail before => ?_⟩
      rcases List.suffix_cons_iff.mp isTail with rfl | inside
      · exact absurd before notTail
      · exact ends tail inside before

theorem strstr_iff (haystack needle : List Char) :
    strstr haystack needle = search haystack needle ↔ Told haystack needle := by
  induction haystack with
  | nil =>
      rw [strstr, search, Told]
      by_cases empty : needle = []
      · rw [if_pos empty, empty]
        refine iff_of_false (Option.some_ne_none 0).symm ?_
        rintro (⟨-, none⟩ | ⟨absent, -⟩)
        · exact none rfl
        · exact absent List.nil_infix
      · rw [if_neg empty]
        exact iff_of_true rfl
          (.inr ⟨fun stands => empty (List.infix_nil.mp stands), fun tail isTail _ =>
            List.suffix_nil.mp isTail⟩)
  | cons first haystack inductionHypothesis =>
      rw [strstr, search]
      by_cases stands : needle <+: first :: haystack
      · rw [if_pos stands, if_pos ((compareUpToEnd_iff _ _).mpr (.inr stands))]
        exact iff_of_true rfl (.inl ⟨stands.isInfix, List.cons_ne_nil first haystack⟩)
      · rw [if_neg stands]
        by_cases ending : first :: haystack <+: needle
        · -- the haystack ends before the needle does, and the comparison is satisfied
          rw [if_pos ((compareUpToEnd_iff _ _).mpr (.inl ending))]
          refine iff_of_false ?_ ?_
          · cases search haystack needle <;> simp
          · rintro (⟨inside, -⟩ | ⟨-, ends⟩)
            · exact stands (ending.eq_of_length_le inside.length_le ▸ List.prefix_rfl)
            · exact absurd (ends _ List.suffix_rfl ending) (List.cons_ne_nil first haystack)
        · rw [if_neg fun either => ((compareUpToEnd_iff _ _).mp either).elim ending stands,
            told_cons stands ending, ← inductionHypothesis]
          exact (Option.map_injective (add_left_injective 1)).eq_iff

/-- When both searches give the first place of the needle. -/
theorem search_iff (haystack needle : List Char) (fits : haystack.length < 2 ^ 32)
    (needleFits : needle.length < 2 ^ 32) :
    SearchRight haystack needle ↔ Told haystack needle ∧ Countable haystack needle := by
  have answers : IsAnswer haystack needle (strstr haystack needle) ↔ Told haystack needle := by
    rw [← strstr_iff]
    constructor
    · exact fun answer => answer.unique (search_answer haystack needle)
    · intro same
      rw [same]
      exact search_answer haystack needle
  rw [SearchRight, answers]
  refine and_congr_right fun told => ?_
  rw [(strstr_iff haystack needle).mpr told, memmem_iff fits needleFits]

/-- `ab` in `cab`. -/
theorem search_iff_letters :
    SearchRight ['c', 'a', 'b'] ['a', 'b'] ↔
      Told ['c', 'a', 'b'] ['a', 'b'] ∧ Countable ['c', 'a', 'b'] ['a', 'b'] :=
  search_iff ['c', 'a', 'b'] ['a', 'b'] (by decide) (by decide)

/-- `ab` is found in `a`. -/
theorem found_beyond : ¬SearchRight ['a'] ['a', 'b'] := by
  rintro ⟨answer, -⟩
  have stands : StandsAt ['a'] ['a', 'b'] 0 := answer.1
  exact absurd stands.2 (by decide)

end OrionBios.Libc.Substring
