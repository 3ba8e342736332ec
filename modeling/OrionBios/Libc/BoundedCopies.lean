import OrionBios.Libc.Numerals

/-!
# `strncpy` and `strncat`

Both get a length, and neither does with it what its name promises: `strncpy` does not look for the
terminator of the source, and `strncat` leaves out its own where the length is used up. A source is
given by the bytes that may be read; behind them there is no result.
-/

namespace OrionBios.Libc.BoundedCopies

open Machine

variable {size : Nat}

/-! ## The functions -/

/-- `while (n--) *d++ = *src++` -/
def copyLoop : Nat → Nat → List CChar → Vector CChar size → Option (Vector CChar size)
  | 0, _, _, dest => some dest
  | _ + 1, _, [], _ => none
  | n + 1, d, c :: src, dest => (store dest d c).bind (copyLoop n (d + 1) src)

def strncpy (dest : Vector CChar size) (src : List CChar) (n : Word) :
    Option (Vector CChar size) :=
  copyLoop n.toNat 0 src dest

/-- `for (; *dest; dest++) { }` -/
def findEnd : List CChar → Option Nat
  | [] => none
  | c :: rest => if c = 0 then some 0 else (findEnd rest).map (· + 1)

/-- The second loop, and the terminator behind it. -/
def appendLoop : List CChar → Nat → Nat → Vector CChar size → Option (Vector CChar size)
  | [], _, _, _ => none
  | c :: src, max, d, dest =>
      if c ≠ 0 ∧ max > 0 then (store dest d c).bind (appendLoop src (max - 1) (d + 1))
      else if max > 0 then store dest d 0
      else some dest

def strncat (dest : Vector CChar size) (src : List CChar) (max : Word) :
    Option (Vector CChar size) :=
  (findEnd dest.toList).bind fun d => appendLoop src max.toNat d dest

/-! ## What they store -/

variable {text before behind : List CChar} {dest : Vector CChar size} {n d max : Nat}

theorem copyLoop_eq {src : List CChar} (readable : n ≤ src.length) :
    copyLoop n d src dest = storeText d (src.take n) dest := by
  induction n generalizing d src dest with
  | zero => rfl
  | succ n inductionHypothesis =>
      cases src with
      | nil => exact absurd readable (Nat.not_succ_le_zero n)
      | cons c src =>
          rw [copyLoop, List.take_succ_cons, storeText]
          cases store dest d c with
          | none => rfl
          | some after => exact inductionHypothesis (Nat.le_of_succ_le_succ readable)

theorem copyLoop_short {src : List CChar} (short : src.length < n) :
    copyLoop n d src dest = none := by
  induction n generalizing d src dest with
  | zero => exact absurd short (Nat.not_lt_zero _)
  | succ n inductionHypothesis =>
      cases src with
      | nil => rfl
      | cons c src =>
          rw [copyLoop]
          cases store dest d c with
          | none => rfl
          | some after => exact inductionHypothesis (Nat.lt_of_succ_lt_succ short)

theorem findEnd_eq (letters : ∀ c ∈ before, c ≠ 0) (behind : List CChar) :
    findEnd (before ++ 0 :: behind) = some before.length := by
  induction before with
  | nil => rfl
  | cons c before inductionHypothesis =>
      rw [List.cons_append, findEnd, if_neg (letters c List.mem_cons_self),
        inductionHypothesis fun other member => letters other (List.mem_cons_of_mem c member)]
      rfl

theorem appendLoop_eq (letters : ∀ c ∈ text, c ≠ 0) :
    appendLoop (text ++ [0]) max d dest =
      storeText d (if text.length < max then text ++ [0] else text.take max) dest := by
  induction text generalizing max d dest with
  | nil =>
      cases max with
      | zero => rfl
      | succ max =>
          have fits : ([] : List CChar).length < max + 1 := Nat.zero_lt_succ max
          rw [if_pos fits, List.nil_append, storeText, appendLoop,
            if_neg (fun both => both.1 rfl), if_pos (Nat.zero_lt_succ max)]
          cases store dest d 0 <;> rfl
  | cons c text inductionHypothesis =>
      have others : ∀ c ∈ text, c ≠ 0 := fun other member =>
        letters other (List.mem_cons_of_mem c member)
      cases max with
      | zero =>
          rw [if_neg (Nat.not_lt_zero _), List.cons_append, appendLoop,
            if_neg (fun both => Nat.lt_irrefl 0 both.2), if_neg (Nat.lt_irrefl 0)]
          rfl
      | succ max =>
          rw [List.cons_append, appendLoop,
            if_pos ⟨letters c List.mem_cons_self, Nat.zero_lt_succ max⟩, Nat.add_sub_cancel]
          have splits : (if (c :: text).length < max + 1 then c :: (text ++ [0])
              else (c :: text).take (max + 1)) =
                c :: (if text.length < max then text ++ [0] else text.take max) := by
            rw [List.length_cons, List.take_succ_cons]
            by_cases fits : text.length < max
            · rw [if_pos fits, if_pos (Nat.succ_lt_succ fits)]
            · rw [if_neg fits, if_neg fun less => fits (Nat.lt_of_succ_lt_succ less)]
          rw [splits, storeText]
          cases store dest d c with
          | none => rfl
          | some after => exact inductionHypothesis others

/-! ## What they promise -/

/-- The characters of the source, and zeros up to the length. -/
def filled (text : List CChar) (n : Nat) : List CChar :=
  text.take n ++ List.replicate (n - text.length) 0

/-- Nothing is read behind the terminator, and `n` bytes are written. -/
def StrncpyRight (dest : Vector CChar size) (text : List CChar) (n : Word) : Prop :=
  ∃ after, strncpy dest (text ++ [0]) n = some after ∧
    after.toList = filled text n.toNat ++ dest.toList.drop n.toNat

/-- The string, no more than `n` characters of the source, and a terminator; what the array held
behind it stays. -/
def StrncatRight (dest : Vector CChar size) (before text : List CChar) (n : Word) : Prop :=
  ∃ after, strncat dest (text ++ [0]) n = some after ∧
    after.toList = before ++ text.take n.toNat ++ 0 ::
      dest.toList.drop (before.length + (text.take n.toNat).length + 1)

theorem take_filled (within : n ≤ text.length + 1) : (text ++ [0]).take n = filled text n := by
  rw [filled, List.take_append]
  by_cases all : n ≤ text.length
  · rw [Nat.sub_eq_zero_of_le all]
    rfl
  · have one : n - text.length = 1 := by omega
    rw [one]
    rfl

theorem strncpy_iff {n : Word} (room : n.toNat ≤ size) :
    StrncpyRight dest text n ↔ n.toNat ≤ text.length + 1 := by
  have length : (text ++ [0]).length = text.length + 1 := List.length_append
  constructor
  · rintro ⟨after, copied, -⟩
    by_contra short
    rw [strncpy, copyLoop_short (by omega)] at copied
    contradiction
  · intro within
    have split : dest.toList = [] ++ dest.toList.take n.toNat ++ dest.toList.drop n.toNat :=
      (List.take_append_drop _ _).symm
    have full : (dest.toList.take n.toNat).length = n.toNat :=
      List.length_take_of_le (by rw [dest.length_toList]; exact room)
    have same : (dest.toList.take n.toNat).length = ((text ++ [0]).take n.toNat).length := by
      rw [full, List.length_take_of_le (by omega)]
    obtain ⟨after, stored, whole⟩ := storeText_inside split same
    refine ⟨after, ?_, ?_⟩
    · rw [strncpy, copyLoop_eq (by omega)]
      exact stored
    · rw [whole, List.nil_append, take_filled within]

theorem strncat_iff {n : Word} (stands : dest.toList = before ++ 0 :: behind)
    (letters : ∀ c ∈ before, c ≠ 0) (textLetters : ∀ c ∈ text, c ≠ 0)
    (room : before.length + (text.take n.toNat).length < size) :
    StrncatRight dest before text n ↔
      text.length < n.toNat ∨ dest.toList[before.length + n.toNat]? = some 0 := by
  have isEnd : findEnd dest.toList = some before.length := by rw [stands, findEnd_eq letters]
  have long := dest.length_toList
  rw [StrncatRight, strncat, isEnd, Option.bind_some, appendLoop_eq textLetters]
  by_cases fits : text.length < n.toNat
  · rw [if_pos fits]
    refine iff_of_true ?_ (.inl fits)
    rw [List.take_of_length_le (Nat.le_of_lt fits)] at *
    have split : dest.toList = before ++ (dest.toList.drop before.length).take (text.length + 1) ++
        dest.toList.drop (before.length + text.length + 1) := by
      rw [List.append_assoc, Nat.add_assoc, ← List.drop_drop, List.take_append_drop, stands,
        List.drop_left]
    obtain ⟨after, stored, whole⟩ := @storeText_inside _ (text ++ [0]) _ _ _ _ split
      (by rw [List.length_take, List.length_drop, List.length_append, List.length_singleton]; omega)
    refine ⟨after, stored, ?_⟩
    rw [whole, List.append_assoc, List.append_assoc, List.append_assoc]
    rfl
  · have all : (text.take n.toNat).length = n.toNat := List.length_take_of_le (Nat.not_lt.mp fits)
    rw [if_neg fits, all]
    rw [all] at room
    have split : dest.toList = before ++ (dest.toList.drop before.length).take n.toNat ++
        dest.toList.drop (before.length + n.toNat) := by
      rw [List.append_assoc, ← List.drop_drop, List.take_append_drop, stands, List.drop_left]
    obtain ⟨after, stored, whole⟩ := @storeText_inside _ (text.take n.toNat) _ _ _ _ split
      (by rw [List.length_take, List.length_drop, all]; omega)
    have next : dest.toList.drop (before.length + n.toNat) =
        dest.toList[before.length + n.toNat] :: dest.toList.drop (before.length + n.toNat + 1) :=
      List.drop_eq_getElem_cons (by omega)
    rw [List.getElem?_eq_getElem (by omega), stored]
    constructor
    · rintro ⟨other, same, terminated⟩
      rw [← Option.some.inj same, whole, next] at terminated
      exact .inr (congrArg some (List.cons.inj (List.append_cancel_left terminated)).1)
    · rintro (less | zero)
      · exact absurd less fits
      · refine ⟨after, rfl, ?_⟩
        rw [whole, next, Option.some.inj zero]

/-- For each function the lengths with which it does what it promises. -/
theorem boundedCopies_iff {joined : Vector CChar size} {n : Word}
    (stands : joined.toList = before ++ 0 :: behind) (letters : ∀ c ∈ before, c ≠ 0)
    (textLetters : ∀ c ∈ text, c ≠ 0) (copyRoom : n.toNat ≤ size)
    (joinRoom : before.length + (text.take n.toNat).length < size) :
    (StrncpyRight dest text n ↔ n.toNat ≤ text.length + 1) ∧
      (StrncatRight joined before text n ↔
        text.length < n.toNat ∨ joined.toList[before.length + n.toNat]? = some 0) :=
  ⟨strncpy_iff copyRoom, strncat_iff stands letters textLetters joinRoom⟩

/-- A source of two characters and room for four. -/
theorem boundedCopies_two :
    (StrncpyRight (Vector.replicate 4 0x78) [0x61, 0x62] 3 ↔ (3 : Nat) ≤ 2 + 1) ∧
      (StrncatRight #v[0x78, 0, 0x79, 0x79] [0x78] [0x61, 0x62] 3 ↔
        (2 : Nat) < 3 ∨ (#v[0x78, 0, 0x79, 0x79] : Vector CChar 4).toList[4]? = some 0) :=
  @boundedCopies_iff 4 [0x61, 0x62] [0x78] [0x79, 0x79] (Vector.replicate 4 0x78)
    #v[0x78, 0, 0x79, 0x79] 3 rfl (by decide) (by decide) (by decide) (by decide)

/-- The copy reads behind the terminator of a short source, and the string that has become longer by
two characters has no terminator. -/
theorem unbounded_copies :
    ¬StrncpyRight (Vector.replicate 4 0x78) [0x61] 3 ∧
      ¬StrncatRight #v[0, 0x79, 0x79, 0x79] [] [0x61, 0x62] 2 := by
  constructor
  · rintro ⟨after, copied, -⟩
    have result : strncpy (Vector.replicate 4 0x78) ([0x61] ++ [0]) 3 =
        (none : Option (Vector CChar 4)) := by decide
    rw [result] at copied
    contradiction
  · rintro ⟨after, joined, terminated⟩
    have result : strncat #v[0, 0x79, 0x79, 0x79] ([0x61, 0x62] ++ [0]) 2 =
        some (#v[0x61, 0x62, 0x79, 0x79] : Vector CChar 4) := by decide
    rw [← Option.some.inj (result.symm.trans joined)] at terminated
    exact absurd terminated (by decide)

end OrionBios.Libc.BoundedCopies
