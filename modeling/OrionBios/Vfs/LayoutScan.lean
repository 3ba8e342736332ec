import OrionBios.Vfs.Examined

/-!
# What the searches make of a layout

The text of a layout is cut by the searches of `execute_line` at its operators: everything
between two operators, or behind the last one, becomes a file name, and the text before the
first one the command.
-/

namespace OrionBios.Vfs

open Libc

/-! ## The characters of a layout -/

theorem notMem_blanks {letter : Char} (notBlank : letter ≠ ' ') (count : Nat) :
    letter ∉ blanks count := by
  intro member
  exact notBlank (List.eq_of_mem_replicate member)

theorem ShellWord.notMem {letter : Char} (special : ¬Plain letter) (word : ShellWord) :
    letter ∉ word.text :=
  fun member => special (word.plain letter member)

theorem Words.notMem {letter : Char} (special : ¬Plain letter) (notBlank : letter ≠ ' ')
    (words : Words) : letter ∉ words.render := by
  intro member
  rcases List.mem_append.mp member with first | later
  · exact words.first.notMem special first
  · obtain ⟨entry, _, inside⟩ := List.mem_flatMap.mp later
    rcases List.mem_append.mp inside with gap | word
    · exact notMem_blanks notBlank _ gap
    · exact entry.2.notMem special word

theorem Redirect.notMem {letter : Char} (special : ¬Plain letter) (notBlank : letter ≠ ' ')
    (redirect : Redirect) : letter ∉ redirect.rest := by
  intro member
  rcases List.mem_append.mp member with gap | target
  · exact notMem_blanks notBlank _ gap
  · cases shape : redirect.target with
    | none =>
        rw [shape] at target
        cases target
    | some words =>
        rw [shape] at target
        exact words.notMem special notBlank target

theorem ShellWord.exists_cons (word : ShellWord) :
    ∃ first rest, word.text = first :: rest ∧ Plain first := by
  obtain ⟨first, rest, shape⟩ := List.exists_cons_of_ne_nil word.nonempty
  exact ⟨first, rest, shape, word.plain first (shape ▸ List.mem_cons_self)⟩

theorem Words.exists_cons (words : Words) :
    ∃ first rest, words.render = first :: rest ∧ Plain first ∧
      words.first.text.head? = some first := by
  obtain ⟨first, rest, shape, plain⟩ := words.first.exists_cons
  refine ⟨first, rest ++ words.more.flatMap fun entry => blanks (entry.1 + 1) ++ entry.2.text,
    ?_, plain, by rw [shape]; rfl⟩
  rw [Words.render, shape, List.cons_append]

theorem Plain.notBlank {letter : Char} (plain : Plain letter) : letter ≠ ' ' := by
  rintro rfl
  exact plain (by decide)

theorem Words.exists_append (words : Words) :
    ∃ before last, words.render = before ++ [last] ∧ last ≠ ' ' := by
  have ending : ∀ word : ShellWord, ∃ before last, word.text = before ++ [last] ∧ last ≠ ' ' := by
    intro word
    refine ⟨word.text.dropLast, word.text.getLast word.nonempty, ?_, ?_⟩
    · rw [List.dropLast_append_getLast]
    · exact (word.plain _ (List.getLast_mem _)).notBlank
  unfold Words.render
  rcases List.eq_nil_or_concat words.more with none | ⟨earlier, entry, shape⟩
  · rw [none, List.flatMap_nil, List.append_nil]
    exact ending words.first
  · obtain ⟨before, last, lastShape, notBlank⟩ := ending entry.2
    rw [shape, List.concat_eq_append, List.flatMap_append, List.flatMap_singleton, lastShape]
    exact ⟨words.first.text ++ (earlier.flatMap (fun entry => blanks (entry.1 + 1) ++ entry.2.text) ++
      (blanks (entry.1 + 1) ++ before)), last, by simp, notBlank⟩

/-! ## Trimming -/

theorem dropWhile_blanks (count : Nat) (text : List Char) :
    (blanks count ++ text).dropWhile blank = text.dropWhile blank := by
  apply List.dropWhile_append_of_pos
  intro letter member
  exact decide_eq_true (List.eq_of_mem_replicate member)

theorem rdropWhile_blanks (text : List Char) (count : Nat) :
    (text ++ blanks count).rdropWhile blank = text.rdropWhile blank := by
  induction count with
  | zero => rw [blanks, List.replicate_zero, List.append_nil]
  | succ count inductionHypothesis =>
      rw [blanks, List.replicate_succ', ← List.append_assoc,
        List.rdropWhile_concat_pos _ _ _ (by decide)]
      exact inductionHypothesis

theorem trimmed_blanks (count : Nat) : trimmed (blanks count) = [] := by
  have none := dropWhile_blanks count []
  rw [List.append_nil] at none
  rw [trimmed, none]
  rfl

/-- Only what follows the first character of a name is looked through from the end. -/
theorem trimmed_cons {first : Char} (notBlank : first ≠ ' ') (leading : Nat) (rest : List Char) :
    trimmed (blanks leading ++ first :: rest) = first :: rest.rdropWhile blank := by
  have kept : (first :: rest).dropWhile blank = first :: rest := by
    rw [List.dropWhile_cons, if_neg]
    exact fun isBlank => notBlank (of_decide_eq_true isBlank)
  rw [trimmed, dropWhile_blanks, kept]

theorem trimmed_words (leading : Nat) (words : Words) (trailing : Nat) :
    trimmed (blanks leading ++ (words.render ++ blanks trailing)) = words.render := by
  obtain ⟨first, rest, shape, plain, _⟩ := words.exists_cons
  obtain ⟨before, last, shape', notBlank⟩ := words.exists_append
  have kept : rest.rdropWhile blank = rest := by
    rw [shape'] at shape
    cases before with
    | nil =>
        cases shape
        rfl
    | cons letter before =>
        cases shape
        exact List.rdropWhile_concat_neg _ _ _
          (fun isBlank => notBlank (of_decide_eq_true isBlank))
  rw [shape, List.cons_append, trimmed_cons plain.notBlank, rdropWhile_blanks, kept]

/-- A redirection that ends its part of the line names all that stands behind the operator. -/
theorem trimmed_rest (redirect : Redirect) (trailing : Nat) :
    trimmed (redirect.rest ++ blanks trailing) = (redirect.target.map Words.render).getD [] := by
  rw [Redirect.rest, List.append_assoc]
  cases redirect.target with
  | none =>
      have joined : blanks redirect.inner ++ blanks trailing = blanks (redirect.inner + trailing) :=
        List.replicate_append_replicate ..
      rw [Option.map_none, Option.getD_none, List.nil_append, joined]
      exact trimmed_blanks _
  | some words => exact trimmed_words redirect.inner words trailing

/-! ## The command part -/

/-- What stands before the first redirection, or in the whole line, up to the gap behind it. -/
def Layout.commandText (layout : Layout) (gap : Nat) : List Char :=
  match layout.command with
  | none => []
  | some words => words.render ++ blanks gap

theorem Layout.commandText_notMem {letter : Char} (special : ¬Plain letter)
    (notBlank : letter ≠ ' ') (layout : Layout) (gap : Nat) :
    letter ∉ layout.commandText gap := by
  unfold Layout.commandText
  cases layout.command with
  | none => exact List.not_mem_nil
  | some words =>
      intro member
      rcases List.mem_append.mp member with word | blank
      · exact words.notMem special notBlank word
      · exact notMem_blanks notBlank _ blank

/-- The command part is empty, or begins with the first word. -/
theorem Layout.commandText_cases (layout : Layout) (gap : Nat) :
    layout.command = none ∧ layout.commandText gap = [] ∨
      ∃ first rest, layout.commandText gap = first :: rest ∧ first ≠ ' ' ∧ first ≠ '#' := by
  unfold Layout.commandText
  cases command : layout.command with
  | none => exact .inl ⟨rfl, rfl⟩
  | some words =>
      obtain ⟨first, rest, shape, plain, head⟩ := words.exists_cons
      refine .inr ⟨first, rest ++ blanks gap, ?_, plain.notBlank, ?_⟩
      · dsimp only
        rw [shape, List.cons_append]
      · rintro rfl
        exact layout.noComment words command head

theorem Layout.commandText_noBlank (layout : Layout) (gap : Nat) :
    (layout.commandText gap).head? ≠ some ' ' := by
  rcases layout.commandText_cases gap with ⟨_, none⟩ | ⟨first, rest, shape, notBlank, _⟩
  · rw [none]
    exact (Option.some_ne_none ' ').symm
  · rw [shape]
    exact fun same => notBlank (Option.some.inj same)

theorem Layout.commandText_noComment (layout : Layout) (gap : Nat) {tail : List Char}
    (noComment : tail.head? ≠ some '#') : (layout.commandText gap ++ tail).head? ≠ some '#' := by
  rcases layout.commandText_cases gap with ⟨_, none⟩ | ⟨first, rest, shape, _, notHash⟩
  · rw [none]
    exact noComment
  · rw [shape]
    exact fun same => notHash (Option.some.inj same)

theorem cleanLine_eq {line : List Char} (noNewline : '\n' ∉ line) (noReturn : '\x0d' ∉ line) :
    cleanLine line = line.dropWhile blank := by
  have whole : ∀ {letter : Char} {text : List Char}, letter ∉ text →
      text.take (strcspn text [letter]) = text := by
    intro letter text free
    have all : text.takeWhile (· ∉ [letter]) = text := by
      rw [List.takeWhile_eq_self_iff]
      intro other member
      rw [decide_eq_true_eq, List.mem_singleton]
      rintro rfl
      exact free member
    rw [strcspn, all, List.take_length]
  have noNewline' : '\n' ∉ line.dropWhile blank :=
    fun member => noNewline (List.dropWhile_subset _ member)
  have noReturn' : '\x0d' ∉ line.dropWhile blank :=
    fun member => noReturn (List.dropWhile_subset _ member)
  have first := whole noNewline'
  have second := whole noReturn'
  unfold cleanLine
  dsimp only
  rw [show (line.dropWhile fun letter => decide (letter = ' ')) = line.dropWhile blank from rfl,
    first, second]

/-- The cleaned line is the command part and what begins with the first operator. -/
theorem Layout.cleanLine_commandText (layout : Layout) (gap : Nat) {tail : List Char}
    (noBlank : tail.head? ≠ some ' ') (noNewline : '\n' ∉ tail) (noReturn : '\x0d' ∉ tail) :
    cleanLine (blanks layout.leading ++ (layout.command.map Words.render).getD [] ++
      (blanks gap ++ tail)) = layout.commandText gap ++ tail := by
  have free : ∀ {letter : Char}, ¬Plain letter → letter ≠ ' ' → letter ∉ tail →
      letter ∉ blanks layout.leading ++ (layout.command.map Words.render).getD [] ++
        (blanks gap ++ tail) := by
    intro letter special notBlank noTail member
    simp only [List.mem_append] at member
    rcases member with (leading | command) | gap | rest
    · exact notMem_blanks notBlank _ leading
    · cases shape : layout.command with
      | none =>
          rw [shape] at command
          cases command
      | some words =>
          rw [shape] at command
          exact words.notMem special notBlank command
    · exact notMem_blanks notBlank _ gap
    · exact noTail rest
  rw [cleanLine_eq (free (by unfold Plain; decide) (by decide) noNewline)
    (free (by unfold Plain; decide) (by decide) noReturn), List.append_assoc, dropWhile_blanks]
  unfold Layout.commandText
  cases layout.command with
  | none =>
      rw [Option.map_none, Option.getD_none, List.nil_append, dropWhile_blanks, List.nil_append]
      cases tail with
      | nil => rfl
      | cons first rest =>
          rw [List.dropWhile_cons, if_neg]
          exact fun isBlank => noBlank (congrArg some (of_decide_eq_true isBlank))
  | some words =>
      obtain ⟨first, rest, shape, plain, _⟩ := words.exists_cons
      rw [Option.map_some, Option.getD_some, shape, List.cons_append, List.dropWhile_cons, if_neg]
      · simp [shape]
      · exact fun isBlank => plain.notBlank (of_decide_eq_true isBlank)

/-! ## The words of the command -/

/-- Single blanks between the words, and at most one behind them unless no argument is free. -/
def Words.Spaced (words : Words) (limit gap : Nat) : Prop :=
  words.more.length + 1 ≤ limit ∧ (∀ entry ∈ words.more, entry.1 = 0) ∧
    (gap ≤ 1 ∨ words.more.length + 1 = limit)

theorem strtokLoop_blank {limit : Nat} (rest : List Char) :
    strtokLoop [' '] (limit + 1) (' ' :: rest) = [] :: strtokLoop [' '] limit rest := by
  rw [strtokLoop, show strtok [' '] (' ' :: rest) = some ([], rest) from
    @strtok_word [] List.not_mem_nil rest]

theorem ShellWord.noBlank (word : ShellWord) : ' ' ∉ word.text :=
  word.notMem (by unfold Plain; decide)

/-- `strtok` returns the words exactly when they are spaced singly: of every further blank it
makes an empty argument. -/
theorem strtokLoop_words (limit : Nat) (words : Words) (gap : Nat) :
    strtokLoop [' '] limit (words.render ++ blanks gap) = words.list ↔ words.Spaced limit gap := by
  obtain ⟨word, more⟩ := words
  unfold Words.render Words.list Words.Spaced
  dsimp only
  induction more generalizing word limit with
  | nil =>
      cases limit with
      | zero => simp [strtokLoop]
      | succ limit =>
          rw [List.flatMap_nil, List.append_nil]
          cases gap with
          | zero =>
              rw [blanks, List.replicate_zero, List.append_nil, strtokLoop,
                strtok_last word.noBlank word.nonempty]
              cases limit with
              | zero => simp [strtokLoop]
              | succ limit => simp [strtokLoop]
          | succ gap =>
              rw [blanks, List.replicate_succ, strtokLoop, strtok_word word.noBlank]
              cases limit with
              | zero => simp [strtokLoop]
              | succ limit =>
                  cases gap with
                  | zero => simp [strtokLoop]
                  | succ gap =>
                      rw [List.replicate_succ]
                      dsimp only
                      rw [strtokLoop_blank]
                      simp
  | cons entry more inductionHypothesis =>
      obtain ⟨extra, next⟩ := entry
      cases limit with
      | zero => simp [strtokLoop]
      | succ limit =>
          have shape : word.text ++ ((extra, next) :: more).flatMap
                (fun entry => blanks (entry.1 + 1) ++ entry.2.text) ++ blanks gap =
              word.text ++ ' ' :: (blanks extra ++ (next.text ++ more.flatMap
                (fun entry => blanks (entry.1 + 1) ++ entry.2.text) ++ blanks gap)) := by
            simp [blanks, List.replicate_succ]
          rw [shape, strtokLoop, strtok_word word.noBlank]
          dsimp only
          rw [List.map_cons, List.cons_inj_right]
          cases extra with
          | zero =>
              rw [blanks, List.replicate_zero, List.nil_append, inductionHypothesis limit next]
              simp
          | succ extra =>
              have unequal : strtokLoop [' '] limit (blanks (extra + 1) ++ (next.text ++ more.flatMap
                  (fun entry => blanks (entry.1 + 1) ++ entry.2.text) ++ blanks gap)) ≠
                  next.text :: more.map fun entry => entry.2.text := by
                cases limit with
                | zero => simp [strtokLoop]
                | succ limit =>
                    rw [blanks, List.replicate_succ, List.cons_append, strtokLoop_blank]
                    exact fun same => next.nonempty (List.cons_eq_cons.mp same).1.symm
              refine iff_of_false unequal ?_
              simp

theorem Layout.strtokLoop_nil {layout : Layout} (none : layout.command = none) (gap : Nat) :
    strtokLoop [' '] 16 (layout.commandText gap) = [] := by
  unfold Layout.commandText
  rw [none]
  rfl

theorem strtok_ne_none {text : List Char} (nonempty : text ≠ []) : strtok [' '] text ≠ none := by
  intro ended
  rw [strtok] at ended
  split at ended
  · cases ended
  next behind =>
    split at ended
    next token =>
      have whole := List.takeWhile_append_dropWhile (p := (· ∉ [' '])) (l := text)
      rw [token, behind] at whole
      exact nonempty whole.symm
    · cases ended

theorem Layout.strtokLoop_ne_nil {layout : Layout} (command : layout.command ≠ none) (gap : Nat) :
    strtokLoop [' '] 16 (layout.commandText gap) ≠ [] := by
  rcases layout.commandText_cases gap with ⟨none, _⟩ | ⟨first, rest, shape, _, _⟩
  · exact absurd none command
  · rw [strtokLoop]
    split
    next ended => exact absurd ended (strtok_ne_none (by rw [shape]; exact List.cons_ne_nil _ _))
    · exact List.cons_ne_nil _ _

/-! ## What the searches make of a layout -/

theorem OutputMode.notMem {letter : Char} (differ : letter ≠ '>') (mode : OutputMode) :
    letter ∉ mode.operator := by
  cases mode with
  | overwrite => simpa [OutputMode.operator] using differ
  | append => simpa [OutputMode.operator] using differ

theorem OutputMode.operator_cons (mode : OutputMode) :
    ∃ rest, mode.operator = '>' :: rest := by
  cases mode with
  | overwrite => exact ⟨[], rfl⟩
  | append => exact ⟨['>'], rfl⟩

/-- The operator is found unless it is a single `>` at the end of the line. -/
theorem outputScan_operator {before text : List Char} {mode : OutputMode}
    (noTerminator : '\x00' ∉ before) (noTerminator' : '\x00' ∉ text) (noOutput : '>' ∉ before)
    (noOutput' : '>' ∉ text) (more : mode = .overwrite → text ≠ []) :
    OutputScan (before ++ (mode.operator ++ text)) before mode.toMode (trimmed text) := by
  cases mode with
  | overwrite => exact outputScan_overwrite noTerminator noTerminator' noOutput noOutput' (more rfl)
  | append => exact outputScan_append noTerminator noTerminator' noOutput

theorem noHeredoc_of_more {before text : List Char} (noInput : '<' ∉ before) (noInput' : '<' ∉ text)
    (more : text ≠ []) : strstr (before ++ '<' :: text) "<<".toList = none := by
  have next : text.head? ≠ some '<' := fun first => noInput' (List.mem_of_head? first)
  rw [show "<<".toList = ['<', '<'] by rfl, strstr_append noInput, strstr_double,
    if_neg (by simp [more, next]), strstr_free noInput']
  rfl

theorem special_input : ¬Plain '<' := by unfold Plain; decide

theorem special_output : ¬Plain '>' := by unfold Plain; decide

theorem special_terminator : ¬Plain '\x00' := by unfold Plain; decide

theorem special_hidden {letter : Char} (hidden : letter ∈ ['\x00', '\n', '\x0d']) :
    ¬Plain letter ∧ letter ≠ ' ' ∧ letter ≠ '<' ∧ letter ≠ '>' := by
  unfold Plain
  simp only [List.mem_cons, List.not_mem_nil, or_false] at hidden
  rcases hidden with rfl | rfl | rfl
  · decide
  · decide
  · decide

theorem scanned_plain {layout : Layout} (shape : layout.shape = .plain) :
    Scanned layout.render none none (layout.commandText layout.trailing) := by
  have free := fun {letter : Char} (special : ¬Plain letter) (notBlank : letter ≠ ' ') =>
    layout.commandText_notMem special notBlank layout.trailing
  have some : layout.commandText layout.trailing ≠ [] := by
    rcases layout.commandText_cases layout.trailing with ⟨none, _⟩ | ⟨first, rest, text, _⟩
    · have runs := layout.runs
      rw [none, shape] at runs
      exact absurd rfl runs
    · rw [text]
      exact List.cons_ne_nil _ _
  have clean := @Layout.cleanLine_commandText layout layout.trailing [] (by simp) (by simp) (by simp)
  rw [List.append_nil, List.append_nil] at clean
  refine scanned_of_scans ?_ some
    (List.append_nil (layout.commandText layout.trailing) ▸
      @Layout.commandText_noComment layout layout.trailing [] (by simp))
    (free special_terminator (by decide)) (strstr_free (free special_input (by decide)))
    (outputScan_none (free special_output (by decide)) (free special_terminator (by decide)) [])
    rfl
    (inputScan_none (free special_input (by decide)) (free special_terminator (by decide)))
    (free special_terminator (by decide)) (layout.commandText_noBlank _)
  rw [Layout.render, shape, Shape.render, List.append_nil]
  exact clean

theorem Redirect.notMem_gap {letter : Char} (special : ¬Plain letter) (notBlank : letter ≠ ' ')
    (redirect : Redirect) (gap : Nat) : letter ∉ redirect.rest ++ blanks gap := by
  rw [List.mem_append, not_or]
  exact ⟨redirect.notMem special notBlank, notMem_blanks notBlank gap⟩

theorem scanned_tail {layout : Layout} {gap : Nat} {before : List Char} {mode : RedirectMode}
    {file : Path} {output : Option (OutputMode × Path)} {inputFile : Option Path}
    (tail : List Char)
    (render : layout.render = blanks layout.leading ++ (layout.command.map Words.render).getD [] ++
      (blanks gap ++ tail))
    (starts : ∃ operator rest, tail = operator :: rest ∧ operator ≠ ' ' ∧ operator ≠ '#')
    (visible : ∀ letter ∈ ['\x00', '\n', '\x0d'], letter ∉ tail)
    (noHeredoc : strstr (layout.commandText gap ++ tail) "<<".toList = none)
    (outputScan : OutputScan (layout.commandText gap ++ tail) before mode file)
    (outputEq : match output with
      | none => mode = .none
      | some (mode', file') => mode = mode'.toMode ∧ file = file')
    (inputScan : InputScan before (layout.commandText gap) inputFile) :
    Scanned layout.render output inputFile (layout.commandText gap) := by
  obtain ⟨operator, rest, shape, notBlank, notHash⟩ := starts
  have clean := @Layout.cleanLine_commandText layout gap tail
    (by rw [shape]; exact fun same => notBlank (Option.some.inj same))
    (visible _ (by simp)) (visible _ (by simp))
  rw [← render] at clean
  refine scanned_of_scans clean ?_ ?_ ?_ noHeredoc outputScan outputEq inputScan
    (layout.commandText_notMem special_terminator (by decide) gap) (layout.commandText_noBlank gap)
  · rw [shape]
    exact List.append_ne_nil_of_right_ne_nil _ (List.cons_ne_nil _ _)
  · apply layout.commandText_noComment
    rw [shape]
    exact fun same => notHash (Option.some.inj same)
  · rw [List.mem_append, not_or]
    exact ⟨layout.commandText_notMem special_terminator (by decide) gap, visible _ (by simp)⟩

theorem scanned_input {layout : Layout} {source : Redirect} (shape : layout.shape = .input source)
    (more : source.rest ++ blanks layout.trailing ≠ []) :
    Scanned layout.render none (some (trimmed (source.rest ++ blanks layout.trailing)))
      (layout.commandText source.gap) := by
  have command := fun {letter : Char} (special : ¬Plain letter) (notBlank : letter ≠ ' ') =>
    layout.commandText_notMem special notBlank source.gap
  have target := fun {letter : Char} (special : ¬Plain letter) (notBlank : letter ≠ ' ') =>
    source.notMem_gap special notBlank layout.trailing
  refine scanned_tail ('<' :: (source.rest ++ blanks layout.trailing)) ?_
    ⟨'<', _, rfl, by decide, by decide⟩ ?_
    (noHeredoc_of_more (command special_input (by decide)) (target special_input (by decide)) more)
    (outputScan_none ?_ ?_ [])
    rfl
    (inputScan_found (command special_terminator (by decide))
      (target special_terminator (by decide)) (command special_input (by decide))
      (target special_input (by decide)))
  · rw [Layout.render, shape, Shape.render]
    simp
  · intro letter hidden
    obtain ⟨special, notBlank, notInput, _⟩ := special_hidden hidden
    exact List.not_mem_cons_of_ne_of_not_mem notInput (target special notBlank)
  · exact notMem_append_cons (command special_output (by decide)) (by decide)
      (target special_output (by decide))
  · exact notMem_append_cons (command special_terminator (by decide)) (by decide)
      (target special_terminator (by decide))

theorem notMem_append {letter : Char} {first second : List Char} (free : letter ∉ first)
    (free' : letter ∉ second) : letter ∉ first ++ second := by
  rw [List.mem_append, not_or]
  exact ⟨free, free'⟩

/-- A single `>` at the end of the line, without a file name. -/
def EndsSingle (mode : OutputMode) (sink : Redirect) (trailing : Nat) : Prop :=
  mode = .overwrite ∧ sink.rest ++ blanks trailing = []

theorem scanned_output {layout : Layout} {mode : OutputMode} {sink : Redirect}
    (shape : layout.shape = .output mode sink) (more : ¬EndsSingle mode sink layout.trailing) :
    Scanned layout.render (some (mode, trimmed (sink.rest ++ blanks layout.trailing))) none
      (layout.commandText sink.gap) := by
  have command := fun {letter : Char} (special : ¬Plain letter) (notBlank : letter ≠ ' ') =>
    layout.commandText_notMem special notBlank sink.gap
  have target := fun {letter : Char} (special : ¬Plain letter) (notBlank : letter ≠ ' ') =>
    sink.notMem_gap special notBlank layout.trailing
  obtain ⟨rest, operator⟩ := mode.operator_cons
  refine scanned_tail (mode.operator ++ (sink.rest ++ blanks layout.trailing)) ?_
    ⟨'>', rest ++ (sink.rest ++ blanks layout.trailing), by rw [operator]; rfl, by decide,
      by decide⟩ ?_ (strstr_free ?_)
    (outputScan_operator (command special_terminator (by decide))
      (target special_terminator (by decide)) (command special_output (by decide))
      (target special_output (by decide)) fun single none => more ⟨single, none⟩)
    ⟨rfl, rfl⟩
    (inputScan_none (command special_input (by decide)) (command special_terminator (by decide)))
  · rw [Layout.render, shape, Shape.render]
    simp
  · intro letter hidden
    obtain ⟨special, notBlank, _, notOutput⟩ := special_hidden hidden
    exact notMem_append (mode.notMem notOutput) (target special notBlank)
  · exact notMem_append (command special_input (by decide))
      (notMem_append (mode.notMem (by decide)) (target special_input (by decide)))

theorem scanned_inputOutput {layout : Layout} {source sink : Redirect} {mode : OutputMode}
    (shape : layout.shape = .inputOutput source mode sink)
    (more : ¬EndsSingle mode sink layout.trailing) :
    Scanned layout.render (some (mode, trimmed (sink.rest ++ blanks layout.trailing)))
      (some (trimmed (source.rest ++ blanks sink.gap))) (layout.commandText source.gap) := by
  have command := fun {letter : Char} (special : ¬Plain letter) (notBlank : letter ≠ ' ') =>
    layout.commandText_notMem special notBlank source.gap
  have middle := fun {letter : Char} (special : ¬Plain letter) (notBlank : letter ≠ ' ') =>
    source.notMem_gap special notBlank sink.gap
  have target := fun {letter : Char} (special : ¬Plain letter) (notBlank : letter ≠ ' ') =>
    sink.notMem_gap special notBlank layout.trailing
  have operated : layout.commandText source.gap ++ '<' :: (source.rest ++ blanks sink.gap ++
      (mode.operator ++ (sink.rest ++ blanks layout.trailing))) =
      layout.commandText source.gap ++ '<' :: (source.rest ++ blanks sink.gap) ++
        (mode.operator ++ (sink.rest ++ blanks layout.trailing)) := by simp
  obtain ⟨rest, operator⟩ := mode.operator_cons
  have scan : OutputScan (layout.commandText source.gap ++ '<' :: (source.rest ++ blanks sink.gap ++
      (mode.operator ++ (sink.rest ++ blanks layout.trailing))))
      (layout.commandText source.gap ++ '<' :: (source.rest ++ blanks sink.gap)) mode.toMode
      (trimmed (sink.rest ++ blanks layout.trailing)) := by
    rw [operated]
    exact outputScan_operator
      (notMem_append_cons (command special_terminator (by decide)) (by decide)
        (middle special_terminator (by decide)))
      (target special_terminator (by decide))
      (notMem_append_cons (command special_output (by decide)) (by decide)
        (middle special_output (by decide)))
      (target special_output (by decide)) fun single none => more ⟨single, none⟩
  refine scanned_tail _ ?_ ⟨'<', _, rfl, by decide, by decide⟩ ?_ (noHeredoc_of_more ?_ ?_ ?_) scan
    ⟨rfl, rfl⟩
    (inputScan_found (command special_terminator (by decide))
      (middle special_terminator (by decide)) (command special_input (by decide))
      (middle special_input (by decide)))
  · rw [Layout.render, shape, Shape.render]
    simp
  · intro letter hidden
    obtain ⟨special, notBlank, notInput, notOutput⟩ := special_hidden hidden
    exact List.not_mem_cons_of_ne_of_not_mem notInput
      (notMem_append (middle special notBlank)
        (notMem_append (mode.notMem notOutput) (target special notBlank)))
  · exact command special_input (by decide)
  · exact notMem_append (middle special_input (by decide))
      (notMem_append (mode.notMem (by decide)) (target special_input (by decide)))
  · rw [operator]
    exact List.append_ne_nil_of_right_ne_nil _ (List.cons_ne_nil _ _)

theorem scanned_outputInput {layout : Layout} {source sink : Redirect} {mode : OutputMode}
    (shape : layout.shape = .outputInput mode sink source)
    (more : source.rest ++ blanks layout.trailing ≠ []) :
    Scanned layout.render
      (some (mode, trimmed (sink.rest ++ blanks source.gap ++
        '<' :: (source.rest ++ blanks layout.trailing))))
      none (layout.commandText sink.gap) := by
  have command := fun {letter : Char} (special : ¬Plain letter) (notBlank : letter ≠ ' ') =>
    layout.commandText_notMem special notBlank sink.gap
  have target : ∀ {letter : Char}, ¬Plain letter → letter ≠ ' ' → letter ≠ '<' →
      letter ∉ sink.rest ++ blanks source.gap ++ '<' :: (source.rest ++ blanks layout.trailing) :=
    fun special notBlank notInput => notMem_append_cons (sink.notMem_gap special notBlank _) notInput
      (source.notMem_gap special notBlank _)
  obtain ⟨rest, operator⟩ := mode.operator_cons
  refine scanned_tail (mode.operator ++ (sink.rest ++ blanks source.gap ++
      '<' :: (source.rest ++ blanks layout.trailing))) ?_
    ⟨'>', rest ++ (sink.rest ++ blanks source.gap ++
      '<' :: (source.rest ++ blanks layout.trailing)), by rw [operator]; rfl, by decide,
      by decide⟩ ?_ ?_
    (outputScan_operator (command special_terminator (by decide))
      (target special_terminator (by decide) (by decide)) (command special_output (by decide))
      (target special_output (by decide) (by decide)) fun _ => by simp)
    ⟨rfl, rfl⟩
    (inputScan_none (command special_input (by decide)) (command special_terminator (by decide)))
  · rw [Layout.render, shape, Shape.render]
    simp
  · intro letter hidden
    obtain ⟨special, notBlank, notInput, notOutput⟩ := special_hidden hidden
    exact notMem_append (mode.notMem notOutput) (target special notBlank notInput)
  · have operated : layout.commandText sink.gap ++ (mode.operator ++ (sink.rest ++
        blanks source.gap ++ '<' :: (source.rest ++ blanks layout.trailing))) =
        layout.commandText sink.gap ++ (mode.operator ++ (sink.rest ++ blanks source.gap)) ++
          '<' :: (source.rest ++ blanks layout.trailing) := by simp
    rw [operated]
    exact noHeredoc_of_more
      (notMem_append (command special_input (by decide))
        (notMem_append (mode.notMem (by decide)) (sink.notMem_gap special_input (by decide) _)))
      (source.notMem_gap special_input (by decide) _) more

end OrionBios.Vfs
