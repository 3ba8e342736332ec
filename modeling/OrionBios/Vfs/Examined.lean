import OrionBios.Vfs.Grammar
import OrionBios.Vfs.Scanning

/-!
# The searches put together

Each search either finds its operator or leaves the array as it is, and examines nothing
behind the line. The two searches together give the redirections of a line.
-/

namespace OrionBios.Vfs

open Libc

variable {before text : List Char}

/-! ## Offsets -/

theorem stringReads_inside (before : List Char) (noTerminator : '\x00' ∉ text)
    (stack : List Char) :
    ∀ offset ∈ stringReads (before ++ (text ++ '\x00' :: stack)) before.length,
      offset ≤ before.length + text.length := by
  intro offset member
  rw [stringReads, cString_append before noTerminator, List.mem_range'_1] at member
  omega

theorem stringReads_zero (noTerminator : '\x00' ∉ text) (stack : List Char) :
    ∀ offset ∈ stringReads (text ++ '\x00' :: stack) 0, offset ≤ text.length := by
  have inside := stringReads_inside [] noTerminator stack
  rw [List.nil_append, List.length_nil, Nat.zero_add] at inside
  exact inside

theorem trimReads_inside (before : List Char) (noTerminator : '\x00' ∉ text) (stack : List Char) :
    ∀ offset ∈ trimReads (before ++ (text ++ '\x00' :: stack)) before.length,
      offset ≤ before.length + text.length := by
  intro offset member
  have lengths : (text.takeWhile blank).length + (text.dropWhile blank).length = text.length := by
    rw [← List.length_append, List.takeWhile_append_dropWhile]
  have split : before ++ (text ++ '\x00' :: stack) =
      (before ++ text.takeWhile blank) ++ (text.dropWhile blank ++ '\x00' :: stack) := by
    conv_lhs => rw [← List.takeWhile_append_dropWhile (p := blank) (l := text)]
    simp only [List.append_assoc]
  have noTerminator' : '\x00' ∉ text.dropWhile blank :=
    fun inside => noTerminator (List.dropWhile_subset _ inside)
  rw [trimReads, skipSpaces_eq, List.mem_append] at member
  rcases member with skipped | read
  · rw [List.mem_range'_1, List.length_append] at skipped
    omega
  · rw [split] at read
    have le := stringReads_inside (before ++ text.takeWhile blank) noTerminator' stack offset read
    rw [List.length_append] at le
    omega

/-! ## One search -/

/-- What the searches for `>>` and `>` make of a line: the text before the operator, the mode and
the file name. -/
structure OutputScan (line before : List Char) (mode : RedirectMode) (file : Path) : Prop where
  scan : ∀ stack, ∃ start stack', scanOutput (line ++ '\x00' :: stack) =
      (mode, start, before ++ '\x00' :: stack') ∧
    (mode ≠ .none → before.length < start ∧ cString (before ++ '\x00' :: stack') start = file)
  inside : ∀ stack, ∀ offset ∈ scanOutputReads (line ++ '\x00' :: stack), offset ≤ line.length
  shorter : before.length ≤ line.length

/-- What the search for `<` makes of the rest: the command and the file name. -/
structure InputScan (before command : List Char) (file : Option Path) : Prop where
  scan : ∀ stack, ∃ stack', scanInput (before ++ '\x00' :: stack) =
      (file, command ++ '\x00' :: stack') ∧
    ∀ offset, before.length < offset →
      (command ++ '\x00' :: stack').drop offset = (before ++ '\x00' :: stack).drop offset
  inside : ∀ stack, ∀ offset ∈ scanInputReads (before ++ '\x00' :: stack), offset ≤ before.length
  shorter : command.length ≤ before.length

theorem outputScan_none (noOutput : '>' ∉ text) (noTerminator : '\x00' ∉ text) (file : Path) :
    OutputScan text text .none file := by
  refine ⟨fun stack => ?_, fun stack offset member => ?_, Nat.le_refl _⟩
  · exact ⟨0, stack, scanOutput_none noOutput noTerminator stack, fun some => absurd rfl some⟩
  · unfold scanOutputReads at member
    rw [cString_zero noTerminator, show ">>".toList = ['>', '>'] by rfl, strstr_free noOutput,
      show ">".toList = ['>'] by rfl, strstr_free noOutput, List.append_nil] at member
    exact stringReads_zero noTerminator stack offset member

theorem inputScan_none (noInput : '<' ∉ text) (noTerminator : '\x00' ∉ text) :
    InputScan text text none := by
  refine ⟨fun stack => ?_, fun stack offset member => ?_, Nat.le_refl _⟩
  · exact ⟨stack, scanInput_none noInput noTerminator stack, fun _ _ => rfl⟩
  · unfold scanInputReads at member
    rw [cString_zero noTerminator, show "<".toList = ['<'] by rfl, strstr_free noInput,
      List.append_nil] at member
    exact stringReads_zero noTerminator stack offset member

section

variable (noTerminator : '\x00' ∉ before) (noTerminator' : '\x00' ∉ text)

include noTerminator noTerminator'

theorem outputScan_append (noOutput : '>' ∉ before) :
    OutputScan (before ++ '>' :: '>' :: text) before .append (trimmed text) := by
  have array : ∀ stack, before ++ '>' :: '>' :: text ++ '\x00' :: stack =
      before ++ '>' :: '>' :: (text ++ '\x00' :: stack) := by simp
  have whole : '\x00' ∉ before ++ '>' :: '>' :: text :=
    notMem_append_cons noTerminator (by decide)
      (List.not_mem_cons_of_ne_of_not_mem (by decide) noTerminator')
  refine ⟨fun stack => ?_, fun stack offset member => ?_, by simp⟩
  · obtain ⟨start, cut, scanned, nameCut⟩ :=
      scanOutput_append noTerminator noTerminator' noOutput stack
    obtain ⟨⟨stack', rfl⟩, behind⟩ := nameCut.terminated
    exact ⟨start, stack', (array stack).symm ▸ scanned, fun _ => ⟨behind, nameCut.name⟩⟩
  · rw [scanOutputReads, array, append_found noTerminator noTerminator' noOutput stack, ← array,
      List.mem_append] at member
    rcases member with search | behind
    · exact stringReads_zero whole stack offset search
    obtain ⟨start, cut, scanned, nameCut⟩ :=
      scanOutput_append noTerminator noTerminator' noOutput stack
    obtain ⟨⟨stack', rfl⟩, _⟩ := nameCut.terminated
    dsimp only at behind
    rw [array, scanned, set_at, List.mem_append] at behind
    rcases behind with name | search
    · have inside := trimReads_inside (before ++ '\x00' :: ['>']) noTerminator' stack offset
      simp only [List.length_append, List.append_assoc, List.cons_append, List.nil_append,
        List.length_cons, List.length_nil] at inside ⊢
      have le := inside name
      omega
    · have le := stringReads_zero noTerminator stack' offset search
      rw [List.length_append]
      exact Nat.le_add_right_of_le le

theorem outputScan_overwrite (noOutput : '>' ∉ before) (noOutput' : '>' ∉ text)
    (more : text ≠ []) : OutputScan (before ++ '>' :: text) before .overwrite (trimmed text) := by
  have array : ∀ stack, before ++ '>' :: text ++ '\x00' :: stack =
      before ++ '>' :: (text ++ '\x00' :: stack) := by simp
  have whole : '\x00' ∉ before ++ '>' :: text :=
    notMem_append_cons noTerminator (by decide) noTerminator'
  refine ⟨fun stack => ?_, fun stack offset member => ?_, by simp⟩
  · obtain ⟨start, cut, scanned, nameCut⟩ :=
      scanOutput_overwrite noTerminator noTerminator' noOutput noOutput' more stack
    obtain ⟨⟨stack', rfl⟩, behind⟩ := nameCut.terminated
    exact ⟨start, stack', (array stack).symm ▸ scanned, fun _ => ⟨behind, nameCut.name⟩⟩
  · obtain ⟨double, single, next⟩ :=
      overwrite_found noTerminator noTerminator' noOutput noOutput' more stack
    rw [scanOutputReads, array, double, single, ← array, List.mem_append] at member
    rcases member with search | behind
    · exact stringReads_zero whole stack offset search
    dsimp only at behind
    rw [array, if_pos next, set_at, List.mem_cons] at behind
    rcases behind with rfl | name
    · simp
    · have inside := trimReads_inside (before ++ '\x00' :: []) noTerminator' stack offset
      simp only [List.length_append, List.append_assoc, List.cons_append, List.nil_append,
        List.length_cons, List.length_nil] at inside ⊢
      have le := inside name
      omega

theorem inputScan_found (noInput : '<' ∉ before) (noInput' : '<' ∉ text) :
    InputScan (before ++ '<' :: text) before (some (trimmed text)) := by
  have array : ∀ stack, before ++ '<' :: text ++ '\x00' :: stack =
      before ++ '<' :: (text ++ '\x00' :: stack) := by simp
  have whole : '\x00' ∉ before ++ '<' :: text :=
    notMem_append_cons noTerminator (by decide) noTerminator'
  refine ⟨fun stack => ?_, fun stack offset member => ?_, by simp⟩
  · obtain ⟨start, cut, scanned, nameCut⟩ :=
      scanInput_found noTerminator noTerminator' noInput noInput' stack
    obtain ⟨rest, rfl⟩ := nameCut.kept
    have suffix := nameCut.suffix
    rw [List.append_assoc, List.cons_append, set_at] at scanned
    refine ⟨rest, (array stack).symm ▸ scanned, fun offset behind => ?_⟩
    have same := suffix offset (by simp at behind ⊢; omega)
    have first : before.length < offset := by simp at behind; omega
    rw [array, ← same, List.append_assoc, List.cons_append, List.nil_append,
      ← set_at before '<' rest '\x00', List.drop_set_of_lt first]
  · obtain ⟨found, next⟩ := input_found noTerminator noTerminator' noInput noInput' stack
    rw [scanInputReads, array, found, ← array, List.mem_append] at member
    rcases member with search | behind
    · exact stringReads_zero whole stack offset search
    dsimp only at behind
    rw [array, if_pos next, List.mem_cons] at behind
    rcases behind with rfl | name
    · simp
    · have inside := trimReads_inside (before ++ '<' :: []) noTerminator' stack offset
      simp only [List.length_append, List.append_assoc, List.cons_append, List.nil_append,
        List.length_cons, List.length_nil] at inside ⊢
      have le := inside name
      omega

end

/-! ## The whole line -/

structure Redirections.Asks (found : Redirections) (request : Request) : Prop where
  words : found.words = request.words
  input : found.inputFile = request.input
  output : match request.output with
    | none => found.mode = .none
    | some (mode, file) => found.mode = mode.toMode ∧ found.redirectFile = file

/-- What `execute_line` finds in a line that is neither empty, a comment nor a heredoc. -/
structure Scanned (line : List Char) (output : Option (OutputMode × Path))
    (inputFile : Option Path) (command : List Char) : Prop where
  found : ∀ stack, ∃ found, scanLine line stack = .redirections found ∧
    found.Asks { words := strtokLoop [' '] 16 command, input := inputFile, output := output }
  inside : ∀ stack, ∀ offset ∈ examined line stack, offset ≤ (cleanLine line).length

theorem skipSpaces_zero {command : List Char} (noBlank : command.head? ≠ some ' ')
    (stack : List Char) : skipSpaces (command ++ '\x00' :: stack) 0 = 0 := by
  have skipped := skipSpaces_eq [] command stack
  rw [List.nil_append, List.nil_append, List.length_nil] at skipped
  rw [skipped]
  cases command with
  | nil => rfl
  | cons first rest =>
      have differ : blank first = false := decide_eq_false fun same => noBlank (congrArg some same)
      rw [List.takeWhile_cons, differ]
      rfl

theorem scanned_of_scans {line text before command : List Char} {mode : RedirectMode} {file : Path}
    {output : Option (OutputMode × Path)} {inputFile : Option Path} (clean : cleanLine line = text)
    (nonempty : text ≠ []) (noComment : text.head? ≠ some '#') (noTerminator : '\x00' ∉ text)
    (noHeredoc : strstr text "<<".toList = none)
    (outputScan : OutputScan text before mode file)
    (outputEq : match output with
      | none => mode = .none
      | some (mode', file') => mode = mode'.toMode ∧ file = file')
    (inputScan : InputScan before command inputFile)
    (noTerminator' : '\x00' ∉ command) (noBlank : command.head? ≠ some ' ') :
    Scanned line output inputFile command := by
  have plain : ¬(text = [] ∨ text.head? = some '#') := not_or.mpr ⟨nonempty, noComment⟩
  have single : ∀ stack,
      ¬(strstr (cString (text ++ '\x00' :: stack) 0) "<<".toList).isSome = true := by
    intro stack
    rw [cString_zero noTerminator, noHeredoc]
    exact Bool.false_ne_true
  constructor
  · intro stack
    obtain ⟨start, stack', outputScanned, named⟩ := outputScan.scan stack
    obtain ⟨stack'', inputScanned, suffix⟩ := inputScan.scan stack'
    refine ⟨{ mode := mode
              redirectFile := cString (command ++ '\x00' :: stack'') start
              inputFile := inputFile
              words := strtokLoop [' '] 16 command }, ?_, rfl, rfl, ?_⟩
    · unfold scanLine
      dsimp only
      rw [clean, if_neg plain, if_neg (single stack), outputScanned]
      dsimp only
      rw [inputScanned]
      dsimp only
      rw [skipSpaces_zero noBlank, cString_zero noTerminator']
    · cases output with
      | none => exact outputEq
      | some target =>
          obtain ⟨modeEq, fileEq⟩ := outputEq
          refine ⟨modeEq, ?_⟩
          have redirects : mode ≠ .none := by
            rw [modeEq]
            cases target.1
            · exact fun same => RedirectMode.noConfusion same
            · exact fun same => RedirectMode.noConfusion same
          obtain ⟨behind, name⟩ := named redirects
          dsimp only
          rw [cString, suffix start behind, ← fileEq]
          exact name
  · intro stack offset member
    obtain ⟨start, stack', outputScanned, _⟩ := outputScan.scan stack
    obtain ⟨stack'', inputScanned, _⟩ := inputScan.scan stack'
    have shorter := outputScan.shorter
    have shorter' := inputScan.shorter
    rw [examined] at member
    dsimp only at member
    rw [clean, if_neg plain, if_neg (single stack), outputScanned] at member
    dsimp only at member
    rw [inputScanned] at member
    dsimp only at member
    simp only [List.mem_append] at member
    rw [clean]
    rcases member with copied | (searched | searched) | word
    · exact stringReads_zero noTerminator stack offset copied
    · exact outputScan.inside stack offset searched
    · exact (inputScan.inside stack' offset searched).trans shorter
    · have inside := trimReads_inside [] noTerminator' stack'' offset word
      rw [List.length_nil, Nat.zero_add] at inside
      omega

end OrionBios.Vfs
