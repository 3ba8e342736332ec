import Mathlib.Data.List.Basic

/-!
# The string functions of the C library

A NUL-terminated string is the list of its characters before the terminator. The
definitions follow `lib/libc/src/string`, which is not the standard library
everywhere: `strstr` also accepts a tail of the haystack that is a proper prefix
of the needle, and `strtok` returns an empty token between two delimiters.
-/

namespace OrionBios.Libc

def cString (array : List Char) (offset : Nat) : List Char :=
  (array.drop offset).takeWhile (· ≠ '\x00')

def strcspn (text reject : List Char) : Nat :=
  (text.takeWhile (· ∉ reject)).length

/-- `_compare` of `strstr.c`: it stops, satisfied, at the end of either string. -/
def compareUpToEnd : List Char → List Char → Bool
  | [], _ => true
  | _, [] => true
  | first :: haystack, second :: needle => first == second && compareUpToEnd haystack needle

/-- The offset of the first match, `none` for NULL. -/
def strstr : List Char → List Char → Option Nat
  | [], _ => none
  | first :: haystack, needle =>
      if compareUpToEnd (first :: haystack) needle then some 0
      else (strstr haystack needle).map (· + 1)

/-- One call of `strtok` on the text its static pointer has reached: the token and
the text left behind it. -/
def strtok (delim text : List Char) : Option (List Char × List Char) :=
  let token := text.takeWhile (· ∉ delim)
  match text.dropWhile (· ∉ delim) with
  | _ :: rest => some (token, rest)
  | [] => if token = [] then none else some (token, [])

/-- The loop `while (token != NULL && argc < limit)` around `strtok`. -/
def strtokLoop (delim : List Char) : Nat → List Char → List (List Char)
  | 0, _ => []
  | limit + 1, text =>
      match strtok delim text with
      | none => []
      | some (token, rest) => token :: strtokLoop delim limit rest

example : strtokLoop [' '] 16 "cat  a b ".toList =
    ["cat".toList, [], "a".toList, "b".toList] := by decide

/-!
## Searching and cutting

What `strstr` finds for a needle that repeats one character, and what a string reads as
when a terminator is written into its array.
-/

variable {first : Char} {before text needle rest : List Char}

@[simp] theorem compareUpToEnd_nil (text : List Char) : compareUpToEnd text [] = true := by
  cases text <;> rfl

/-- The search passes over text without the first character of the needle. -/
theorem strstr_append (free : first ∉ before) (text : List Char) :
    strstr (before ++ text) (first :: needle) =
      (strstr text (first :: needle)).map (· + before.length) := by
  induction before with
  | nil => simp
  | cons letter before inductionHypothesis =>
      rw [List.mem_cons, not_or] at free
      have differ : compareUpToEnd (letter :: (before ++ text)) (first :: needle) = false := by
        rw [compareUpToEnd, beq_false_of_ne (Ne.symm free.1), Bool.false_and]
      rw [List.cons_append, strstr, if_neg (Bool.eq_false_iff.mp differ),
        inductionHypothesis free.2, Option.map_map, List.length_cons]
      rfl

theorem strstr_free (free : first ∉ text) : strstr text (first :: needle) = none := by
  have whole := @strstr_append first text needle free []
  rw [List.append_nil] at whole
  exact whole

@[simp] theorem strstr_single (first : Char) (text : List Char) :
    strstr (first :: text) [first] = some 0 := by
  simp [strstr, compareUpToEnd]

theorem strstr_double (first : Char) (text : List Char) :
    strstr (first :: text) [first, first] =
      if text = [] ∨ text.head? = some first then some 0
      else (strstr text [first, first]).map (· + 1) := by
  cases text with
  | nil => simp [strstr, compareUpToEnd]
  | cons second text =>
      by_cases same : second = first
      · simp [strstr, compareUpToEnd, same]
      · simp [strstr, compareUpToEnd, same]

/-! ## Strings in arrays -/

theorem cString_append (before : List Char) (noTerminator : '\x00' ∉ text) (rest : List Char) :
    cString (before ++ (text ++ '\x00' :: rest)) before.length = text := by
  rw [cString, List.drop_left]
  rw [List.takeWhile_append_of_pos]
  · simp
  · intro letter member
    rw [decide_eq_true_eq]
    rintro rfl
    exact noTerminator member

theorem cString_zero (noTerminator : '\x00' ∉ text) (rest : List Char) :
    cString (text ++ '\x00' :: rest) 0 = text :=
  cString_append [] noTerminator rest

/-! ## Tokens -/

theorem forall_noDelimiter {word : List Char} (noBlank : ' ' ∉ word) :
    ∀ letter ∈ word, decide (letter ∉ [' ']) = true := by
  intro letter member
  rw [decide_eq_true_eq, List.mem_singleton]
  rintro rfl
  exact noBlank member

theorem strtok_word {word : List Char} (noBlank : ' ' ∉ word) (rest : List Char) :
    strtok [' '] (word ++ ' ' :: rest) = some (word, rest) := by
  have inside := forall_noDelimiter noBlank
  rw [strtok, List.takeWhile_append_of_pos inside, List.dropWhile_append_of_pos inside]
  simp

theorem strtok_last {word : List Char} (noBlank : ' ' ∉ word) (nonempty : word ≠ []) :
    strtok [' '] word = some (word, []) := by
  have inside := forall_noDelimiter noBlank
  have whole := @List.takeWhile_append_of_pos _ _ word [] inside
  have none := @List.dropWhile_append_of_pos _ _ word [] inside
  rw [List.append_nil] at whole none
  rw [strtok, whole, none]
  simp [nonempty]

@[simp] theorem strtok_nil (delim : List Char) : strtok delim [] = none := rfl

end OrionBios.Libc
