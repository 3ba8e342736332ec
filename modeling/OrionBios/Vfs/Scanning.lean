import OrionBios.Libc.Strings
import OrionBios.Vfs.Shell
import Mathlib.Data.List.DropRight

/-!
# What step 1 of `execute_line` cuts out

Each search finds an operator in what the searches before it left, takes the rest of
that text as the file name and writes a terminator over the operator. The lemmas state
one search each, for an array that holds a text, a terminator, and anything behind it.
-/

namespace OrionBios.Vfs

open Libc

def blank (letter : Char) : Bool := letter = ' '

/-- A file name as `execute_line` trims it: the blanks before it and those behind it go. -/
def trimmed (text : List Char) : List Char :=
  match text.dropWhile blank with
  | [] => []
  | first :: rest => first :: rest.rdropWhile blank

variable {before text : List Char}

/-! ## One cell of an array -/

theorem getD_at (before : List Char) (letter : Char) (rest : List Char) (default : Char) :
    (before ++ letter :: rest).getD before.length default = letter := by
  simp [List.getD_eq_getElem?_getD]

theorem set_at (before : List Char) (letter : Char) (rest : List Char) (new : Char) :
    (before ++ letter :: rest).set before.length new = before ++ new :: rest := by
  simp

/-! ## Trimming -/

theorem trimRight_eq (before : List Char) (first : Char) (rest stack : List Char) :
    ∃ stack', trimRight before.length rest.length (before ++ first :: (rest ++ '\x00' :: stack)) =
      before ++ first :: (rest.rdropWhile blank ++ '\x00' :: stack') := by
  induction rest using List.reverseRecOn generalizing stack with
  | nil => exact ⟨stack, rfl⟩
  | append_singleton rest last inductionHypothesis =>
      have array : before ++ first :: (rest ++ [last] ++ '\x00' :: stack) =
          (before ++ first :: rest) ++ last :: '\x00' :: stack := by simp
      have length : before.length + (rest.length + 1) = (before ++ first :: rest).length := by simp
      rw [List.length_append, List.length_singleton, trimRight, length, array, getD_at, set_at]
      by_cases isBlank : last = ' '
      · have cut : (rest ++ [last]).rdropWhile blank = rest.rdropWhile blank :=
          List.rdropWhile_concat_pos _ _ _ (by simp [blank, isBlank])
        rw [if_pos isBlank, cut, List.append_assoc]
        exact inductionHypothesis ('\x00' :: stack)
      · have kept : (rest ++ [last]).rdropWhile blank = rest ++ [last] :=
          List.rdropWhile_concat_neg _ _ _ (by simp [blank, isBlank])
        rw [if_neg isBlank, kept]
        exact ⟨stack, by simp⟩

theorem skipSpaces_eq (before text stack : List Char) :
    skipSpaces (before ++ (text ++ '\x00' :: stack)) before.length =
      (before ++ text.takeWhile blank).length := by
  have stops : (text ++ '\x00' :: stack).takeWhile blank = text.takeWhile blank := by
    induction text with
    | nil => rfl
    | cons letter rest inductionHypothesis =>
        rw [List.cons_append, List.takeWhile_cons, List.takeWhile_cons, inductionHypothesis]
  rw [skipSpaces, List.drop_left, List.length_append]
  exact congrArg (before.length + ·.length) stops

theorem mem_of_mem_trimmed {letter : Char} (member : letter ∈ trimmed text) : letter ∈ text := by
  unfold trimmed at member
  split at member
  · cases member
  next first rest shape =>
    have inside : ∀ other ∈ first :: rest, other ∈ text := by
      rw [← shape]
      exact fun other inside => List.dropWhile_subset _ inside
    rcases List.mem_cons.mp member with rfl | behind
    · exact inside _ List.mem_cons_self
    · exact inside _ (List.mem_cons_of_mem _ ((List.rdropWhile_prefix _ _).subset behind))

theorem trimRight_drop {start distance offset : Nat} (behind : start + distance < offset)
    (array : List Char) : (trimRight start distance array).drop offset = array.drop offset := by
  induction distance generalizing array with
  | zero => rfl
  | succ distance inductionHypothesis =>
      rw [trimRight]
      split
      · rw [inductionHypothesis (Nat.lt_of_succ_lt behind), List.drop_set_of_lt behind]
      · rfl

/-- A file name is cut out of an array: where it starts, the array up to the text that holds the
name, and the array behind that text. -/
structure NameCut (before text : List Char) (array : List Char) (start : Nat)
    (array' : List Char) : Prop where
  behind : before.length ≤ start
  kept : ∃ rest, array' = before ++ rest
  name : cString array' start = trimmed text
  suffix : ∀ offset, before.length + text.length ≤ offset → array'.drop offset = array.drop offset

theorem nameCut_trimName (before : List Char) {text : List Char} (noTerminator : '\x00' ∉ text)
    (stack : List Char) :
    NameCut before text (before ++ (text ++ '\x00' :: stack))
      (trimName (before ++ (text ++ '\x00' :: stack)) before.length).1
      (trimName (before ++ (text ++ '\x00' :: stack)) before.length).2 := by
  have split : before ++ (text ++ '\x00' :: stack) =
      (before ++ text.takeWhile blank) ++ (text.dropWhile blank ++ '\x00' :: stack) := by
    conv_lhs => rw [← List.takeWhile_append_dropWhile (p := blank) (l := text)]
    simp only [List.append_assoc]
  have noTerminator' : '\x00' ∉ text.dropWhile blank :=
    fun member => noTerminator (List.dropWhile_subset _ member)
  have named : '\x00' ∉ trimmed text := fun member => noTerminator (mem_of_mem_trimmed member)
  have name := cString_append (before ++ text.takeWhile blank) noTerminator' stack
  have written : (trimName (before ++ (text ++ '\x00' :: stack)) before.length) =
      ((before ++ text.takeWhile blank).length,
        trimRight (before ++ text.takeWhile blank).length ((text.dropWhile blank).length - 1)
          (before ++ (text ++ '\x00' :: stack))) := by
    rw [trimName, skipSpaces_eq, split, name]
  have lengths : (text.takeWhile blank).length + (text.dropWhile blank).length = text.length := by
    rw [← List.length_append, List.takeWhile_append_dropWhile]
  rw [written]
  refine ⟨?_, ?_, ?_, ?_⟩
  · rw [List.length_append]
    exact Nat.le_add_right _ _
  · dsimp only
    rw [split]
    cases shape : text.dropWhile blank with
    | nil => exact ⟨text.takeWhile blank ++ '\x00' :: stack, by simp [trimRight]⟩
    | cons first rest =>
        obtain ⟨stack', trimmedEq⟩ := trimRight_eq (before ++ text.takeWhile blank) first rest stack
        rw [List.length_cons, Nat.add_sub_cancel, List.cons_append, trimmedEq, List.append_assoc]
        exact ⟨_, rfl⟩
  · dsimp only
    rw [split]
    unfold trimmed at named ⊢
    cases shape : text.dropWhile blank with
    | nil => exact @cString_append [] _ List.not_mem_nil stack
    | cons first rest =>
        rw [shape] at named
        obtain ⟨stack', trimmedEq⟩ := trimRight_eq (before ++ text.takeWhile blank) first rest stack
        rw [List.length_cons, Nat.add_sub_cancel, List.cons_append, trimmedEq]
        exact cString_append _ named stack'
  · intro offset behind
    cases shape : text.dropWhile blank with
    | nil => rfl
    | cons first rest =>
        apply trimRight_drop
        rw [shape, List.length_cons] at lengths
        rw [List.length_append, List.length_cons]
        omega

theorem NameCut.terminated {before more text array array' : List Char} {start : Nat}
    (cut : NameCut (before ++ '\x00' :: more) text array start array') :
    (∃ stack, array' = before ++ '\x00' :: stack) ∧ before.length < start := by
  constructor
  · obtain ⟨rest, kept⟩ := cut.kept
    rw [List.append_assoc] at kept
    exact ⟨_, kept⟩
  · have behind := cut.behind
    rw [List.length_append, List.length_cons] at behind
    omega

/-! ## The searches -/

section

variable (noTerminator : '\x00' ∉ before) (noTerminator' : '\x00' ∉ text)

theorem notMem_append_cons {letter other : Char} (free : letter ∉ before) (differ : letter ≠ other)
    (free' : letter ∉ text) : letter ∉ before ++ other :: text := by
  simp [free, differ, free']

include noTerminator noTerminator'

theorem cString_operator {operator : Char} (differ : '\x00' ≠ operator) (stack : List Char) :
    cString (before ++ operator :: (text ++ '\x00' :: stack)) 0 = before ++ operator :: text := by
  have read := cString_zero (notMem_append_cons noTerminator differ noTerminator') stack
  rw [List.append_assoc] at read
  exact read

theorem append_found (noOutput : '>' ∉ before) (stack : List Char) :
    strstr (cString (before ++ '>' :: '>' :: (text ++ '\x00' :: stack)) 0) ">>".toList =
      some before.length := by
  have noTerminator'' : '\x00' ∉ '>' :: text :=
    List.not_mem_cons_of_ne_of_not_mem (by decide) noTerminator'
  have read := @cString_operator _ _ noTerminator noTerminator'' '>' (by decide) stack
  rw [List.cons_append] at read
  rw [read, show ">>".toList = ['>', '>'] by rfl, strstr_append noOutput, strstr_double,
    if_pos (.inr rfl), Option.map_some, Nat.zero_add]

theorem overwrite_found (noOutput : '>' ∉ before) (noOutput' : '>' ∉ text) (more : text ≠ [])
    (stack : List Char) :
    strstr (cString (before ++ '>' :: (text ++ '\x00' :: stack)) 0) ">>".toList = none ∧
      strstr (cString (before ++ '>' :: (text ++ '\x00' :: stack)) 0) ">".toList =
        some before.length ∧
      (before ++ '>' :: (text ++ '\x00' :: stack)).getD (before.length + 1) '\x00' ≠ '>' := by
  have next : text.head? ≠ some '>' := fun first => noOutput' (List.mem_of_head? first)
  have behind : strstr text ['>', '>'] = none := strstr_free noOutput'
  rw [cString_operator noTerminator noTerminator' (by decide) stack]
  refine ⟨?_, ?_, ?_⟩
  · rw [show ">>".toList = ['>', '>'] by rfl, strstr_append noOutput, strstr_double,
      if_neg (by simp [more, next]), behind]
    rfl
  · rw [show ">".toList = ['>'] by rfl, strstr_append noOutput, strstr_single, Option.map_some,
      Nat.zero_add]
  · obtain ⟨first, rest, rfl⟩ := List.exists_cons_of_ne_nil more
    have at_ := getD_at (before ++ ['>']) first (rest ++ '\x00' :: stack) '\x00'
    rw [List.length_append, List.append_assoc] at at_
    exact fun same => next (congrArg some (at_.symm.trans same))

theorem input_found (noInput : '<' ∉ before) (noInput' : '<' ∉ text) (stack : List Char) :
    strstr (cString (before ++ '<' :: (text ++ '\x00' :: stack)) 0) "<".toList =
        some before.length ∧
      (before ++ '<' :: (text ++ '\x00' :: stack)).getD (before.length + 1) '\x00' ≠ '<' := by
  rw [cString_operator noTerminator noTerminator' (by decide) stack]
  constructor
  · rw [show "<".toList = ['<'] by rfl, strstr_append noInput, strstr_single, Option.map_some,
      Nat.zero_add]
  · have at_ := fun first rest => getD_at (before ++ ['<']) first rest '\x00'
    simp only [List.length_append, List.append_assoc] at at_
    cases text with
    | nil => exact fun same => absurd ((at_ '\x00' stack).symm.trans same) (by decide)
    | cons first rest =>
        intro same
        have first' : first = '<' := (at_ first (rest ++ '\x00' :: stack)).symm.trans same
        exact noInput' (first' ▸ List.mem_cons_self)

/-- `>>` and what stands behind it. -/
theorem scanOutput_append (noOutput : '>' ∉ before) (stack : List Char) :
    ∃ start cut, scanOutput (before ++ '>' :: '>' :: (text ++ '\x00' :: stack)) =
        (.append, start, cut) ∧
      NameCut (before ++ '\x00' :: ['>']) text
        (before ++ '\x00' :: '>' :: (text ++ '\x00' :: stack)) start cut := by
  have cut := nameCut_trimName (before ++ '\x00' :: ['>']) noTerminator' stack
  simp only [List.length_append, List.append_assoc, List.cons_append, List.nil_append] at cut
  refine ⟨_, _, ?_, cut⟩
  unfold scanOutput
  rw [append_found noTerminator noTerminator' noOutput stack]
  dsimp only
  rw [set_at]
  rfl

/-- A single `>` with something behind it. -/
theorem scanOutput_overwrite (noOutput : '>' ∉ before) (noOutput' : '>' ∉ text) (more : text ≠ [])
    (stack : List Char) :
    ∃ start cut, scanOutput (before ++ '>' :: (text ++ '\x00' :: stack)) =
        (.overwrite, start, cut) ∧
      NameCut (before ++ '\x00' :: []) text (before ++ '\x00' :: (text ++ '\x00' :: stack))
        start cut := by
  have cut := nameCut_trimName (before ++ '\x00' :: []) noTerminator' stack
  simp only [List.length_append, List.append_assoc, List.cons_append, List.nil_append] at cut
  refine ⟨_, _, ?_, cut⟩
  obtain ⟨double, single, next⟩ :=
    overwrite_found noTerminator noTerminator' noOutput noOutput' more stack
  unfold scanOutput
  rw [double, single]
  dsimp only
  rw [if_pos next, set_at]
  rfl

/-- `<` and what stands behind it. -/
theorem scanInput_found (noInput : '<' ∉ before) (noInput' : '<' ∉ text) (stack : List Char) :
    ∃ start cut, scanInput (before ++ '<' :: (text ++ '\x00' :: stack)) =
        (some (trimmed text), cut.set before.length '\x00') ∧
      NameCut (before ++ '<' :: []) text (before ++ '<' :: (text ++ '\x00' :: stack))
        start cut := by
  have cut := nameCut_trimName (before ++ '<' :: []) noTerminator' stack
  simp only [List.length_append, List.append_assoc, List.cons_append, List.nil_append] at cut
  refine ⟨_, _, ?_, cut⟩
  obtain ⟨found, next⟩ := input_found noTerminator noTerminator' noInput noInput' stack
  have name := cut.name
  unfold scanInput
  rw [found]
  dsimp only
  rw [if_pos next]
  exact congrArg (fun file => (some file, _)) name

end

theorem scanOutput_none (noOutput : '>' ∉ text) (noTerminator : '\x00' ∉ text)
    (stack : List Char) :
    scanOutput (text ++ '\x00' :: stack) = (.none, 0, text ++ '\x00' :: stack) := by
  unfold scanOutput
  rw [cString_zero noTerminator, show ">>".toList = ['>', '>'] by rfl, strstr_free noOutput,
    show ">".toList = ['>'] by rfl, strstr_free noOutput]

theorem scanInput_none (noInput : '<' ∉ text) (noTerminator : '\x00' ∉ text)
    (stack : List Char) :
    scanInput (text ++ '\x00' :: stack) = (none, text ++ '\x00' :: stack) := by
  unfold scanInput
  rw [cString_zero noTerminator, show "<".toList = ['<'] by rfl, strstr_free noInput]

end OrionBios.Vfs
