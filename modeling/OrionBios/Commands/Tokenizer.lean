import OrionBios.Commands.BiosShell
import OrionBios.Libc.Strings
import Mathlib.Data.List.DropRight

/-!
# How `execute_cmd` cuts a line

The line buffer is the memory from its first character on, and a pointer an offset into it. The
loop stores a terminator over every blank behind a word and a pointer to the word in `args`; what
it stores to is kept.
-/

namespace OrionBios.Commands

open Libc

/-! ## The loop -/

structure Tokenizer where
  memory : List Char
  stored : List Nat
  /-- `none` is the null pointer. -/
  args : Nat → Option Nat
  argsStored : List Nat
  numargs : Nat

namespace Tokenizer

/-- The character `*ptr`. -/
def letter (tokens : Tokenizer) (ptr : Nat) : Char := tokens.memory.getD ptr '\x00'

/-- `while (p(*ptr)) ptr++`. -/
def skip (p : Char → Bool) (tokens : Tokenizer) (ptr : Nat) : Nat :=
  ptr + ((tokens.memory.drop ptr).takeWhile p).length

def isWord (letter : Char) : Bool := letter ≠ '\x00' && !isspace letter

/-- `*ptr = 0`. -/
def terminate (tokens : Tokenizer) (ptr : Nat) : Tokenizer :=
  { tokens with memory := tokens.memory.set ptr '\x00', stored := tokens.stored ++ [ptr] }

def setArg (tokens : Tokenizer) (index : Nat) (arg : Option Nat) : Tokenizer :=
  { tokens with
    args := Function.update tokens.args index arg
    argsStored := tokens.argsStored ++ [index] }

/-- `args[numargs++] = ptr`. -/
def pushArg (tokens : Tokenizer) (ptr : Nat) : Tokenizer :=
  { tokens.setArg tokens.numargs (some ptr) with numargs := tokens.numargs + 1 }

/-- `while (isspace(*ptr)) { *ptr = 0; ptr++; }`, for so many blanks. -/
def terminateBlanks : Nat → Tokenizer → Nat → Tokenizer
  | 0, tokens, _ => tokens
  | count + 1, tokens, ptr => terminateBlanks count (tokens.terminate ptr) (ptr + 1)

/-- The loop of `execute_cmd` from `ptr` on, with so many arguments still allowed. -/
def loop : Nat → Tokenizer → Nat → Tokenizer
  | 0, tokens, ptr => (tokens.terminate ptr).setArg tokens.numargs none
  | remaining + 1, tokens, ptr =>
      if tokens.letter ptr = '\x00' then tokens.setArg tokens.numargs none
      else
        let ptr := tokens.skip isspace ptr
        -- what stands here is no blank, and may be the end of the string
        let tokens := tokens.pushArg ptr
        let ptr := tokens.skip isWord ptr
        if tokens.letter ptr = '\x00' then loop remaining tokens ptr
        else
          let stop := tokens.skip isspace ptr
          loop remaining (tokens.terminateBlanks (stop - ptr) ptr) stop

/-- The strings the pointers in `args` point to. -/
def strings (tokens : Tokenizer) : List (List Char) :=
  (List.range tokens.numargs).map fun index =>
    ((tokens.args index).map (cString tokens.memory)).getD []

end Tokenizer

/-- `behind` is the memory behind the line, and `stack` what the array of the arguments held. -/
def Tokenizer.initial (line behind : List Char) (stack : Nat → Option Nat) : Tokenizer where
  memory := line ++ '\x00' :: behind
  stored := []
  args := stack
  argsStored := []
  numargs := 0

/-- What `execute_cmd` hands to `process_command`. -/
def tokenize (line behind : List Char) (stack : Nat → Option Nat) : Option Tokenizer :=
  if line.head? = some '\x1b' then none
  else some (Tokenizer.loop MAXARGS (Tokenizer.initial line behind stack) 0)

/-- The strings `process_command` looks up, the command's name first. -/
def processCommand (tokens : Tokenizer) : Option (List (List Char)) :=
  if 0 < tokens.numargs then some tokens.strings else none

/-! ## The words of a line -/

/-- The maximal runs of characters that are no white space, which for this library's `isspace` is
the blank alone: a tabulator is part of a word. -/
def words (line : List Char) : List (List Char) := (line.splitOnP isspace).filter (· ≠ [])

/-- A line as `readline_with_history` returns it, and not the key that ends the shell. -/
structure CommandLine where
  text : List Char
  noTerminator : '\x00' ∉ text
  noEscape : text.head? ≠ some '\x1b'

/-- The line is cut into its words, up to the fortieth. -/
structure Tokenized (line : CommandLine) (tokens : Tokenizer) : Prop where
  count : tokens.numargs = ((words line.text).take MAXARGS).length
  /-- Each word is a string of the buffer that ends in the line or with it. -/
  args : ∀ index word, ((words line.text).take MAXARGS)[index]? = some word →
    ∃ offset, tokens.args index = some offset ∧ offset + word.length ≤ line.text.length ∧
      cString tokens.memory offset = word
  ends : tokens.args tokens.numargs = none
  inside : ∀ offset ∈ tokens.stored, offset ≤ line.text.length
  argsInside : ∀ index ∈ tokens.argsStored, index ≤ MAXARGS
  called : processCommand tokens =
    if words line.text = [] then none else some ((words line.text).take MAXARGS)

/-! ## The words are the runs -/

theorem words_nil : words [] = [] := rfl

theorem words_blank {letter : Char} (isBlank : isspace letter = true) (rest : List Char) :
    words (letter :: rest) = words rest := by
  unfold words
  rw [List.splitOnP_cons_eq_if_modifyHead, if_pos isBlank, List.filter_cons_of_neg (by simp)]

theorem words_dropWhile (text : List Char) : words (text.dropWhile isspace) = words text := by
  induction text with
  | nil => rfl
  | cons letter rest inductionHypothesis =>
      rw [List.dropWhile_cons]
      split
      next isBlank => rw [inductionHypothesis, words_blank isBlank]
      · rfl

theorem words_word {word : List Char} (nonempty : word ≠ [])
    (solid : ∀ letter ∈ word, isspace letter = false) : words word = [word] := by
  unfold words
  rw [List.splitOnP_eq_singleton solid]
  simp [nonempty]

theorem words_append {word : List Char} {letter : Char} (nonempty : word ≠ [])
    (solid : ∀ letter ∈ word, isspace letter = false) (isBlank : isspace letter = true)
    (rest : List Char) : words (word ++ letter :: rest) = word :: words rest := by
  unfold words
  rw [List.splitOnP_append_cons_of_forall_mem solid _ isBlank]
  simp [nonempty]

theorem splitArgs_nil (limit : Nat) : splitArgs limit [] = [] := by
  cases limit with
  | zero => rfl
  | succ limit => rfl

theorem solid_takeWhile (text : List Char) :
    ∀ letter ∈ text.takeWhile (!isspace ·), isspace letter = false := by
  intro letter member
  have solid := List.mem_takeWhile_imp member
  rw [Bool.not_eq_true'] at solid
  exact solid

theorem dropWhile_word (text : List Char) :
    text.dropWhile (!isspace ·) = [] ∨
      ∃ letter rest, text.dropWhile (!isspace ·) = letter :: rest ∧ isspace letter = true := by
  cases shape : text.dropWhile (!isspace ·) with
  | nil => exact .inl rfl
  | cons letter rest =>
      refine .inr ⟨letter, rest, rfl, ?_⟩
      have stops := List.head_dropWhile_not (!isspace ·) (l := text)
        (by rw [shape]; exact List.cons_ne_nil _ _)
      simpa [shape] using stops

theorem splitArgs_eq_words (limit : Nat) {text : List Char}
    (starts : text.dropWhile isspace = text) : splitArgs limit text = (words text).take limit := by
  induction limit generalizing text with
  | zero => rfl
  | succ limit inductionHypothesis =>
      cases shape : text with
      | nil => rfl
      | cons first rest =>
          rw [shape] at starts
          rw [splitArgs, starts]
          have split := List.takeWhile_append_dropWhile (p := (!isspace ·)) (l := first :: rest)
          have solid := solid_takeWhile (first :: rest)
          have notBlank : isspace first = false := by
            rw [Bool.eq_false_iff]
            intro isBlank
            rw [List.dropWhile_cons, if_pos isBlank] at starts
            have shorter := (List.dropWhile_sublist (l := rest) isspace).length_le
            rw [starts, List.length_cons] at shorter
            omega
          have nonempty : (first :: rest).takeWhile (!isspace ·) ≠ [] := by
            rw [List.takeWhile_cons, if_pos (by rw [notBlank]; rfl)]
            exact List.cons_ne_nil _ _
          generalize (first :: rest).takeWhile (!isspace ·) = word at split solid nonempty ⊢
          rcases dropWhile_word (first :: rest) with none | ⟨letter, behind, some, isBlank⟩
          · rw [none, List.append_nil] at split
            rw [none, ← split, words_word nonempty solid]
            rw [List.dropWhile_nil, splitArgs_nil]
            simp
          · rw [some] at split
            have idempotent : ((letter :: behind).dropWhile isspace).dropWhile isspace =
                (letter :: behind).dropWhile isspace := List.dropWhile_idempotent ..
            rw [some, ← split, words_append nonempty solid isBlank, List.take_succ_cons,
              inductionHypothesis idempotent, words_dropWhile, words_blank isBlank]

theorem splitArgs_line {line : List Char} (some : line.dropWhile isspace ≠ []) (limit : Nat) :
    splitArgs limit line = (words line).take limit := by
  have idempotent : (line.dropWhile isspace).dropWhile isspace = line.dropWhile isspace :=
    List.dropWhile_idempotent ..
  have same : splitArgs limit line = splitArgs limit (line.dropWhile isspace) := by
    cases limit with
    | zero => rfl
    | succ limit =>
        cases line with
        | nil => rfl
        | cons first rest =>
            obtain ⟨letter, behind, shape⟩ := List.exists_cons_of_ne_nil some
            rw [shape] at idempotent ⊢
            rw [splitArgs, splitArgs, shape, idempotent]
  rw [same, splitArgs_eq_words limit idempotent, words_dropWhile]

theorem splitArgs_blanks {line : List Char} (nonempty : line ≠ [])
    (none : line.dropWhile isspace = []) (limit : Nat) : splitArgs (limit + 1) line = [[]] := by
  obtain ⟨letter, rest, rfl⟩ := List.exists_cons_of_ne_nil nonempty
  rw [splitArgs, none, List.takeWhile_nil, List.dropWhile_nil, List.dropWhile_nil, splitArgs_nil]

theorem words_blanks {line : List Char} (none : line.dropWhile isspace = []) : words line = [] := by
  rw [← words_dropWhile, none, words_nil]

/-! ## What the loop does to the buffer -/

namespace Tokenizer

variable {tokens : Tokenizer} {done rest behind : List Char}

/-- The rest of the line stands at the pointer. -/
def At (tokens : Tokenizer) (done rest behind : List Char) : Prop :=
  tokens.memory = done ++ (rest ++ '\x00' :: behind)

theorem At.advance {first : List Char} (stands : tokens.At done (first ++ rest) behind) :
    tokens.At (done ++ first) rest behind := by
  rw [At, stands, List.append_assoc, List.append_assoc]

theorem At.letter (stands : tokens.At done rest behind) :
    tokens.letter done.length = (rest ++ '\x00' :: behind).headD '\x00' := by
  rw [Tokenizer.letter, stands, List.getD_append_right _ _ _ _ (Nat.le_refl _), Nat.sub_self]
  cases rest with
  | nil => rfl
  | cons first rest => rfl

theorem At.letter_eq_zero (stands : tokens.At done rest behind) (noTerminator : '\x00' ∉ rest) :
    tokens.letter done.length = '\x00' ↔ rest = [] := by
  rw [stands.letter]
  cases rest with
  | nil => exact iff_of_true rfl rfl
  | cons first rest =>
      rw [List.cons_append, List.headD_cons]
      exact iff_of_false (fun zero => noTerminator (zero ▸ List.mem_cons_self))
        (List.cons_ne_nil _ _)

theorem At.skip (stands : tokens.At done rest behind) {p : Char → Bool} (stops : p '\x00' = false) :
    tokens.skip p done.length = (done ++ rest.takeWhile p).length := by
  have same : ∀ rest : List Char, (rest ++ '\x00' :: behind).takeWhile p = rest.takeWhile p := by
    intro rest
    induction rest with
    | nil => rw [List.nil_append, List.takeWhile_cons, stops]; rfl
    | cons letter rest inductionHypothesis =>
        rw [List.cons_append, List.takeWhile_cons, List.takeWhile_cons, inductionHypothesis]
  rw [Tokenizer.skip, stands, List.drop_left, same, List.length_append]

/-- Only the terminator and the blanks end a word. -/
theorem takeWhile_isWord (noTerminator : '\x00' ∉ rest) :
    rest.takeWhile isWord = rest.takeWhile (!isspace ·) := by
  induction rest with
  | nil => rfl
  | cons letter rest inductionHypothesis =>
      rw [List.mem_cons, not_or] at noTerminator
      have same : isWord letter = !isspace letter := by
        simp [isWord, Ne.symm noTerminator.1]
      rw [List.takeWhile_cons, List.takeWhile_cons, same, inductionHypothesis noTerminator.2]

theorem memory_terminateBlanks (blanks : List Char) (stands : tokens.memory = done ++ (blanks ++ rest)) :
    (tokens.terminateBlanks blanks.length done.length).memory =
      done ++ (List.replicate blanks.length '\x00' ++ rest) := by
  induction blanks generalizing tokens done with
  | nil => exact stands
  | cons blank blanks inductionHypothesis =>
      have stored : (tokens.terminate done.length).memory =
          (done ++ ['\x00']) ++ (blanks ++ rest) := by
        rw [terminate, stands]
        simp
      have later := inductionHypothesis stored
      rw [List.length_append, List.length_singleton] at later
      rw [List.length_cons, terminateBlanks, later, List.replicate_succ]
      simp

theorem stored_terminateBlanks (count : Nat) (tokens : Tokenizer) (ptr : Nat) :
    ∀ offset ∈ (tokens.terminateBlanks count ptr).stored,
      offset ∈ tokens.stored ∨ offset < ptr + count := by
  induction count generalizing tokens ptr with
  | zero => exact fun offset member => .inl member
  | succ count inductionHypothesis =>
      intro offset member
      rcases inductionHypothesis _ _ offset member with before | less
      · rcases List.mem_append.mp before with before | here
        · exact .inl before
        · rw [List.mem_singleton.mp here]
          exact .inr (by omega)
      · exact .inr (by omega)

theorem args_terminateBlanks (count : Nat) (tokens : Tokenizer) (ptr : Nat) :
    (tokens.terminateBlanks count ptr).args = tokens.args ∧
      (tokens.terminateBlanks count ptr).argsStored = tokens.argsStored ∧
      (tokens.terminateBlanks count ptr).numargs = tokens.numargs := by
  induction count generalizing tokens ptr with
  | zero => exact ⟨rfl, rfl, rfl⟩
  | succ count inductionHypothesis => exact inductionHypothesis _ _

/-- What the loop does from a pointer on, with so many arguments still allowed. -/
structure Cuts (done rest : List Char) (limit : Nat) (tokens after : Tokenizer) : Prop where
  numargs : after.numargs = tokens.numargs + (splitArgs limit rest).length
  kept : ∃ later, after.memory = done ++ later
  idle : rest = [] → after.memory = tokens.memory
  earlier : ∀ index < tokens.numargs, after.args index = tokens.args index
  args : ∀ index word, (splitArgs limit rest)[index]? = some word →
    ∃ offset, after.args (tokens.numargs + index) = some offset ∧
      offset + word.length ≤ done.length + rest.length ∧ cString after.memory offset = word
  ends : after.args after.numargs = none
  inside : ∀ offset ∈ after.stored,
    offset ∈ tokens.stored ∨ offset ≤ done.length + rest.length
  argsInside : ∀ index ∈ after.argsStored,
    index ∈ tokens.argsStored ∨ index ≤ tokens.numargs + limit

/-- At the end of the line only the null pointer is stored. -/
theorem cuts_end (limit : Nat) (stands : tokens.At done [] behind) {after : Tokenizer}
    (memory : after.memory = tokens.memory)
    (args : after.args = Function.update tokens.args tokens.numargs none)
    (numargs : after.numargs = tokens.numargs)
    (stored : ∀ offset ∈ after.stored, offset ∈ tokens.stored ∨ offset = done.length)
    (argsStored : after.argsStored = tokens.argsStored ++ [tokens.numargs]) :
    Cuts done [] limit tokens after where
  numargs := by
    rw [numargs, splitArgs_nil]
    rfl
  kept := ⟨_, memory.trans stands⟩
  idle := fun _ => memory
  earlier := fun index less => by
    rw [args, Function.update_of_ne (Nat.ne_of_lt less)]
  args := fun index word found => by
    rw [splitArgs_nil] at found
    cases found
  ends := by
    rw [numargs, args, Function.update_self]
  inside := fun offset member => (stored offset member).imp_right Nat.le_of_eq
  argsInside := fun index member => by
    rw [argsStored, List.mem_append, List.mem_singleton] at member
    rcases member with before | rfl
    · exact .inl before
    · exact .inr (Nat.le_add_right _ _)

theorem cuts_word {limit : Nat} {blanks word rest : List Char} {pushed middle after : Tokenizer}
    {terminators : List Char} (terminated : terminators.head? = some '\x00' ∨ terminators = [] ∧
      rest = [] ∧ middle.memory = done ++ blanks ++ word ++ '\x00' :: behind)
    (noTerminator : '\x00' ∉ word)
    (push : pushed = tokens.pushArg (done ++ blanks).length)
    (args : middle.args = pushed.args) (numargs : middle.numargs = pushed.numargs)
    (argsStored : middle.argsStored = pushed.argsStored)
    (stored : ∀ offset ∈ middle.stored, offset ∈ pushed.stored ∨
      offset ≤ (done ++ blanks ++ word ++ terminators).length)
    {line : List Char}
    (lengths : line.length = blanks.length + word.length + terminators.length + rest.length)
    (nonempty : line ≠ [])
    (splits : splitArgs (limit + 1) line = word :: splitArgs limit rest)
    (cuts : Cuts (done ++ blanks ++ word ++ terminators) rest limit middle after) :
    Cuts done line (limit + 1) tokens after := by
  have count : pushed.numargs = tokens.numargs + 1 := by rw [push]; rfl
  have pushedArgs : pushed.args =
      Function.update tokens.args tokens.numargs (some (done ++ blanks).length) := by
    rw [push]
    rfl
  have whole : (done ++ blanks ++ word ++ terminators).length + rest.length =
      done.length + line.length := by
    simp only [List.length_append]
    omega
  obtain ⟨later, kept⟩ := cuts.kept
  refine ⟨?_, ?_, fun none => absurd none nonempty, fun index less => ?_,
    fun index text found => ?_, cuts.ends, fun offset member => ?_, fun index member => ?_⟩
  · rw [cuts.numargs, splits, numargs, count, List.length_cons]
    omega
  · rw [kept]
    simp only [List.append_assoc]
    exact ⟨_, rfl⟩
  · rw [cuts.earlier index (by omega), args, pushedArgs, Function.update_of_ne (Nat.ne_of_lt less)]
  · rw [splits] at found
    cases index with
    | zero =>
        rw [List.getElem?_cons_zero] at found
        cases found
        refine ⟨(done ++ blanks).length, ?_, ?_, ?_⟩
        · rw [cuts.earlier _ (by omega), args, pushedArgs, Nat.add_zero, Function.update_self]
        · rw [List.length_append]
          omega
        · rcases terminated with first | ⟨none, ended, memory⟩
          · obtain ⟨others, rfl⟩ : ∃ others, terminators = '\x00' :: others := by
              cases terminators with
              | nil => cases first
              | cons letter others =>
                  cases first
                  exact ⟨others, rfl⟩
            have array : after.memory = (done ++ blanks) ++ (word ++ '\x00' :: (others ++ later)) := by
              rw [kept]
              simp
            rw [array]
            exact cString_append _ noTerminator _
          · rw [cuts.idle ended, memory, List.append_assoc]
            exact cString_append _ noTerminator _
    | succ index =>
        rw [List.getElem?_cons_succ] at found
        obtain ⟨offset, stands, le, read⟩ := cuts.args index text found
        have same : tokens.numargs + (index + 1) = middle.numargs + index := by omega
        exact ⟨offset, same ▸ stands, whole ▸ le, read⟩
  · rcases cuts.inside offset member with before | le
    · rcases stored offset before with earlier | le
      · rw [push] at earlier
        exact .inl earlier
      · rw [← whole]
        exact .inr (Nat.le_add_right_of_le le)
    · exact .inr (whole ▸ le)
  · rcases cuts.argsInside index member with before | le
    · rw [argsStored, push] at before
      rcases List.mem_append.mp before with earlier | here
      · exact .inl earlier
      · rw [List.mem_singleton.mp here]
        exact .inr (Nat.le_add_right _ _)
    · exact .inr (by omega)

theorem cuts_full (stands : tokens.At done rest behind) :
    Cuts done rest 0 tokens ((tokens.terminate done.length).setArg tokens.numargs none) where
  numargs := rfl
  kept := by
    refine ⟨(rest ++ '\x00' :: behind).set 0 '\x00', ?_⟩
    rw [setArg, terminate, stands, List.set_append_right _ _ (Nat.le_refl _), Nat.sub_self]
  idle := fun none => by
    rw [setArg, terminate, stands, none, List.set_append_right _ _ (Nat.le_refl _), Nat.sub_self]
    rfl
  earlier := fun index less => Function.update_of_ne (Nat.ne_of_lt less) _ _
  args := fun index word found => by
    cases found
  ends := Function.update_self ..
  inside := fun offset member => by
    rcases List.mem_append.mp member with before | here
    · exact .inl before
    · rw [List.mem_singleton.mp here]
      exact .inr (Nat.le_add_right _ _)
  argsInside := fun index member => by
    rcases List.mem_append.mp member with before | here
    · exact .inl before
    · rw [List.mem_singleton.mp here]
      exact .inr (Nat.le_refl _)

theorem loop_cuts (limit : Nat) (stands : tokens.At done rest behind)
    (noTerminator : '\x00' ∉ rest) :
    Cuts done rest limit tokens (loop limit tokens done.length) := by
  induction limit generalizing tokens done rest with
  | zero => exact cuts_full stands
  | succ limit inductionHypothesis =>
      have atEnd := stands.letter_eq_zero noTerminator
      rw [loop]
      by_cases none : rest = []
      · rw [if_pos (atEnd.mpr none)]
        subst none
        exact cuts_end (limit + 1) stands rfl rfl rfl (fun offset member => .inl member) rfl
      rw [if_neg (mt atEnd.mp none)]
      dsimp only
      have blanksSplit := List.takeWhile_append_dropWhile (p := isspace) (l := rest)
      have wordSplit := List.takeWhile_append_dropWhile (p := (!isspace ·))
        (l := rest.dropWhile isspace)
      have splits : splitArgs (limit + 1) rest =
          (rest.dropWhile isspace).takeWhile (!isspace ·) :: splitArgs limit
            (((rest.dropWhile isspace).dropWhile (!isspace ·)).dropWhile isspace) := by
        obtain ⟨letter, others, rfl⟩ := List.exists_cons_of_ne_nil none
        rfl
      have ends := dropWhile_word (rest.dropWhile isspace)
      have skipped : tokens.skip isspace done.length = (done ++ rest.takeWhile isspace).length :=
        stands.skip rfl
      have noTerminator' : '\x00' ∉ rest.dropWhile isspace :=
        fun member => noTerminator ((List.dropWhile_sublist _).subset member)
      have pushedAt : (tokens.pushArg (done ++ rest.takeWhile isspace).length).At
          (done ++ rest.takeWhile isspace) (rest.dropWhile isspace) behind := by
        rw [← blanksSplit] at stands
        exact stands.advance
      have wordEnd : (tokens.pushArg (done ++ rest.takeWhile isspace).length).skip isWord
          (done ++ rest.takeWhile isspace).length =
          (done ++ rest.takeWhile isspace ++
            (rest.dropWhile isspace).takeWhile (!isspace ·)).length := by
        rw [pushedAt.skip rfl, takeWhile_isWord noTerminator']
      have noWordTerminator : '\x00' ∉ (rest.dropWhile isspace).takeWhile (!isspace ·) :=
        fun member => noTerminator' ((List.takeWhile_sublist _).subset member)
      have lengths := congrArg List.length blanksSplit
      have lengths' := congrArg List.length wordSplit
      rw [List.length_append] at lengths lengths'
      rw [← wordSplit] at pushedAt
      have wordAt := pushedAt.advance
      rw [skipped, wordEnd]
      rcases ends with ended | ⟨blank, others, tail, isBlank⟩
      · -- the word ends the line
        rw [ended] at splits wordAt lengths'
        rw [List.dropWhile_nil] at splits
        rw [if_pos ((wordAt.letter_eq_zero List.not_mem_nil).mpr rfl)]
        have cuts := inductionHypothesis wordAt List.not_mem_nil
        refine @cuts_word _ _ _ _ _ _ _ _ _ _ [] (.inr ⟨rfl, rfl, wordAt⟩) noWordTerminator rfl
          rfl rfl rfl (fun offset member => .inl member) _ ?_ none splits ?_
        · rw [List.length_nil] at lengths' ⊢
          omega
        · rw [List.append_nil]
          exact cuts
      · -- the blanks behind the word become terminators
        have noTerminator'' : '\x00' ∉ (rest.dropWhile isspace).dropWhile (!isspace ·) :=
          fun member => noTerminator' ((List.dropWhile_sublist _).subset member)
        have more : (rest.dropWhile isspace).dropWhile (!isspace ·) ≠ [] := by
          rw [tail]
          exact List.cons_ne_nil _ _
        have some : ((rest.dropWhile isspace).dropWhile (!isspace ·)).takeWhile isspace ≠ [] := by
          rw [tail, List.takeWhile_cons, if_pos isBlank]
          exact List.cons_ne_nil _ _
        have gapSplit := List.takeWhile_append_dropWhile (p := isspace)
          (l := (rest.dropWhile isspace).dropWhile (!isspace ·))
        have lengths'' := congrArg List.length gapSplit
        rw [List.length_append] at lengths''
        rw [if_neg (mt (wordAt.letter_eq_zero noTerminator'').mp more), wordAt.skip rfl]
        generalize (rest.dropWhile isspace).dropWhile (!isspace ·) = text at *
        generalize (rest.dropWhile isspace).takeWhile (!isspace ·) = word at *
        generalize text.takeWhile isspace = gap at *
        have count : (done ++ rest.takeWhile isspace ++ word ++ gap).length -
            (done ++ rest.takeWhile isspace ++ word).length = gap.length := by
          simp only [List.length_append]
          omega
        have stop : (done ++ rest.takeWhile isspace ++ word ++ gap).length =
            (done ++ rest.takeWhile isspace ++ word ++ List.replicate gap.length '\x00').length := by
          simp only [List.length_append, List.length_replicate]
        rw [count, stop]
        rw [← gapSplit, At, List.append_assoc gap] at wordAt
        have memory := memory_terminateBlanks gap wordAt
        rw [← List.append_assoc] at memory
        obtain ⟨args, argsStored, numargs⟩ := args_terminateBlanks gap.length
          (tokens.pushArg (done ++ rest.takeWhile isspace).length)
          (done ++ rest.takeWhile isspace ++ word).length
        refine @cuts_word _ _ behind _ _ _ _ _ _ _ _ (.inl ?_) noWordTerminator rfl args numargs
          argsStored ?_ _ ?_ none splits (inductionHypothesis memory
            fun member => noTerminator'' ((List.dropWhile_sublist _).subset member))
        · obtain ⟨first, later, rfl⟩ := List.exists_cons_of_ne_nil some
          rfl
        · intro offset member
          rcases stored_terminateBlanks _ _ _ offset member with before | less
          · exact .inl before
          · rw [← stop]
            simp only [List.length_append] at less ⊢
            exact .inr (Nat.le_of_lt less)
        · rw [List.length_replicate]
          omega

end Tokenizer

/-! ## The whole line -/

/-- The strings handed over are the arguments of `splitArgs`. -/
theorem Tokenizer.Cuts.strings_eq {done rest : List Char} {limit : Nat}
    {tokens after : Tokenizer} (cuts : Cuts done rest limit tokens after)
    (first : tokens.numargs = 0) : after.strings = splitArgs limit rest := by
  have count : after.numargs = (splitArgs limit rest).length := by
    rw [cuts.numargs, first, Nat.zero_add]
  apply List.ext_getElem
  · rw [Tokenizer.strings, List.length_map, List.length_range, count]
  · intro index inStrings inArgs
    obtain ⟨offset, stands, _, read⟩ :=
      cuts.args index _ (List.getElem?_eq_getElem inArgs)
    rw [first, Nat.zero_add] at stands
    simp only [Tokenizer.strings, List.getElem_map, List.getElem_range]
    rw [stands]
    exact read

theorem words_ne_nil {line : List Char} (some : line.dropWhile isspace ≠ []) : words line ≠ [] := by
  intro none
  have first := splitArgs_line some 1
  rw [none, List.take_nil] at first
  have nonempty : line ≠ [] := by
    rintro rfl
    exact some rfl
  obtain ⟨letter, rest, rfl⟩ := List.exists_cons_of_ne_nil nonempty
  cases first

theorem dropWhile_ne_nil_iff (line : List Char) :
    line.dropWhile isspace ≠ [] ↔ ∃ letter ∈ line, isspace letter = false := by
  rw [Ne, List.dropWhile_eq_nil_iff]
  simp

/-- A line is cut into its words exactly if it is empty or has one. -/
theorem tokenized_iff (line : CommandLine) (behind : List Char) (stack : Nat → Option Nat) :
    (∃ tokens, tokenize line.text behind stack = some tokens ∧ Tokenized line tokens) ↔
      line.text = [] ∨ ∃ letter ∈ line.text, isspace letter = false := by
  rw [← dropWhile_ne_nil_iff, tokenize, if_neg line.noEscape]
  have cuts := @Tokenizer.loop_cuts (Tokenizer.initial line.text behind stack) [] line.text behind
    MAXARGS rfl line.noTerminator
  rw [List.length_nil] at cuts
  generalize Tokenizer.loop MAXARGS _ 0 = tokens at cuts ⊢
  have numargs := cuts.numargs
  have strings := cuts.strings_eq rfl
  dsimp only [Tokenizer.initial] at numargs
  rw [Nat.zero_add] at numargs
  constructor
  · rintro ⟨_, ⟨⟩, tokenized⟩
    by_contra blank
    rw [not_or, not_not] at blank
    have count := tokenized.count
    rw [numargs, words_blanks blank.2, MAXARGS, splitArgs_blanks blank.1 blank.2] at count
    cases count
  · intro understood
    have same : splitArgs MAXARGS line.text = (words line.text).take MAXARGS := by
      rcases understood with empty | some
      · rw [empty]
        rfl
      · exact splitArgs_line some MAXARGS
    rw [same] at numargs strings
    refine ⟨tokens, rfl, numargs, fun index word found => ?_, cuts.ends, fun offset member => ?_,
      fun index member => ?_, ?_⟩
    · rw [← same] at found
      obtain ⟨offset, stands, le, read⟩ := cuts.args index word found
      dsimp only [Tokenizer.initial] at stands
      rw [Nat.zero_add] at stands
      rw [List.length_nil, Nat.zero_add] at le
      exact ⟨offset, stands, le, read⟩
    · rcases cuts.inside offset member with none | le
      · cases none
      · rw [List.length_nil, Nat.zero_add] at le
        exact le
    · rcases cuts.argsInside index member with none | le
      · cases none
      · exact (Nat.zero_add MAXARGS) ▸ le
    · rw [processCommand, strings, numargs]
      rcases understood with empty | some
      · rw [empty]
        rfl
      · have nonempty := words_ne_nil some
        have positive : 0 < ((words line.text).take MAXARGS).length := by
          rw [List.length_take]
          exact Nat.lt_min.mpr ⟨by decide, List.length_pos_iff.mpr nonempty⟩
        rw [if_pos positive, if_neg nonempty]

def threeBlanks : CommandLine where
  text := "   ".toList
  noTerminator := by decide
  noEscape := by decide

/-- It is looked up as a command with an empty name. -/
theorem blanks_run_a_command :
    (tokenize threeBlanks.text [] fun _ => none).bind processCommand = some [[]] ∧
      words threeBlanks.text = [] ∧
      ¬∀ (line : CommandLine) (behind : List Char) (stack : Nat → Option Nat),
        ∃ tokens, tokenize line.text behind stack = some tokens ∧ Tokenized line tokens := by
  have called : (tokenize threeBlanks.text [] fun _ => none).bind processCommand = some [[]] := by
    decide
  have none : words threeBlanks.text = [] := by decide
  refine ⟨called, none, fun all => ?_⟩
  obtain ⟨tokens, cut, tokenized⟩ := all threeBlanks [] fun _ => Option.none
  rw [cut, Option.bind_some, tokenized.called, if_pos none] at called
  cases called

end OrionBios.Commands
