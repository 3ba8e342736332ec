import OrionBios.Vfs.LayoutScan
import OrionBios.Vfs.LineCalls

/-!
# The redirections of a command line

Which layouts `execute_line` executes as they say. A file name reaches to the next operator or
to the end of the line, and an input redirection behind an output redirection is part of its file
name; a single `>` at the end of a line is taken for `>>`, and the line is read past its end.
-/

namespace OrionBios.Vfs

open Libc

variable {layout : Layout} {output : Option (OutputMode × Path)} {inputFile : Option Path}
  {command : List Char} {request : Request}

/-! ## Lines whose redirections are found -/

theorem Scanned.executeCalls_eq (scanned : Scanned layout.render output inputFile command)
    (stack : List Char) : ∃ found, scanLine layout.render stack = .redirections found ∧
      found.Asks { words := strtokLoop [' '] 16 command, input := inputFile, output := output } ∧
      ∀ s, executeCalls layout.render stack s = foundCalls found s := by
  obtain ⟨found, scan, asks⟩ := scanned.found stack
  refine ⟨found, scan, asks, fun s => ?_⟩
  unfold executeCalls
  rw [scan]

theorem Layout.request_words (named : layout.request = some request) :
    request.words = layout.words ∧ request.words ≠ [] := by
  have words : request.words = layout.words := by
    unfold Layout.request at named
    cases shape : layout.shape with
    | plain =>
        rw [shape] at named
        exact congrArg Request.words (Option.some.inj named.symm)
    | input source =>
        rw [shape] at named
        obtain ⟨file, _, same⟩ := Option.map_eq_some_iff.mp named
        exact congrArg Request.words same.symm
    | output mode sink =>
        rw [shape] at named
        obtain ⟨file, _, same⟩ := Option.map_eq_some_iff.mp named
        exact congrArg Request.words same.symm
    | inputOutput source mode sink =>
        rw [shape] at named
        obtain ⟨file, _, rest⟩ := Option.bind_eq_some_iff.mp named
        obtain ⟨file', _, same⟩ := Option.map_eq_some_iff.mp rest
        exact congrArg Request.words same.symm
    | outputInput mode sink source =>
        rw [shape] at named
        obtain ⟨file, _, rest⟩ := Option.bind_eq_some_iff.mp named
        obtain ⟨file', _, same⟩ := Option.map_eq_some_iff.mp rest
        exact congrArg Request.words same.symm
  refine ⟨words, ?_⟩
  rw [words]
  exact layout.runs

theorem runs_mem_permissive (request : Request) :
    .runs request.words ∈ request.calls permissive := by
  rw [calls_permissive]
  simp

theorem followed_iff_named (scanned : Scanned layout.render output inputFile command)
    (named : layout.request = some request) :
    Followed layout ↔
      ({ words := strtokLoop [' '] 16 command, input := inputFile, output := output } : Request) =
        request := by
  constructor
  · intro follows
    obtain ⟨found, _, asks, calls⟩ := scanned.executeCalls_eq []
    have followed := follows.followed request named [] permissive
    rw [calls] at followed
    by_cases idle : strtokLoop [' '] 16 command = []
    · have member := runs_mem_permissive request
      rw [← followed, foundCalls_of_nil asks idle] at member
      cases inputFile <;> simp at member
    · rw [foundCalls_of_asks asks idle] at followed
      exact calls_permissive_injective followed
  · rintro rfl
    refine ⟨scanned.inside, fun request same stack s => ?_, fun missing => ?_⟩
    · obtain ⟨found, _, asks, calls⟩ := scanned.executeCalls_eq stack
      rw [named] at same
      cases same
      rw [calls, foundCalls_of_asks asks (Layout.request_words named).2]
    · rw [named] at missing
      cases missing

/-- With a file name missing, the line is an error if the name the searches found instead is
refused. -/
theorem followed_iff_missing (scanned : Scanned layout.render output inputFile command)
    (missing : layout.request = none) :
    Followed layout ↔ (∃ path, inputFile = some path ∧ InvalidName path) ∨
      strtokLoop [' '] 16 command ≠ [] ∧
        ∃ mode path, output = some (mode, path) ∧ InvalidName path := by
  constructor
  · intro follows
    by_contra valid
    rw [not_or] at valid
    obtain ⟨found, scan, asks, calls⟩ := scanned.executeCalls_eq []
    have refused := follows.refused missing [] permissive
    rw [calls] at refused
    by_cases idle : strtokLoop [' '] 16 command = []
    · have opens := foundCalls_of_nil (s := permissive) asks idle
      have words : found.words = [] := asks.words.trans idle
      have refuses : RefusesInvalid (foundCalls found permissive) := by
        intro path flags fd member invalid
        rw [opens] at member
        dsimp only at member
        cases input : inputFile with
        | none =>
            rw [input] at member
            cases member
        | some file =>
            rw [input] at member
            cases List.mem_singleton.mp member
            exact absurd ⟨_, input, invalid⟩ valid.1
      have failed := (refused refuses).1
      cases input : inputFile with
      | none =>
          rw [executeLine_plain scan (asks.input.trans input), if_pos words] at failed
          cases failed
      | some file =>
          rw [executeLine_opened scan (asks.input.trans input)
            (Prod.ext (vfsOpen_permissive file O_RDONLY) rfl), if_pos words] at failed
          cases failed
    · rw [foundCalls_of_asks asks idle] at refused
      refine (refused ?_).2 _ (runs_mem_permissive _)
      intro path flags fd member invalid
      rw [calls_permissive] at member
      dsimp only at member
      simp only [List.mem_append, Option.mem_toList, Option.map_eq_some_iff,
        List.mem_singleton] at member
      rcases member with ⟨file, input, same⟩ | ⟨target, sink, same⟩ | run
      · cases same
        exact absurd ⟨_, input, invalid⟩ valid.1
      · cases same
        exact absurd ⟨idle, _, _, sink, invalid⟩ valid.2
      · cases run
  · intro invalid
    refine ⟨scanned.inside, fun request named => ?_, fun _ stack s refuses => ?_⟩
    · rw [missing] at named
      cases named
    · obtain ⟨found, scan, asks, calls⟩ := scanned.executeCalls_eq stack
      rw [calls] at refuses
      rw [calls]
      exact refused_of_asks asks scan refuses invalid

/-! ## A `>` or a `<` at the end of the line -/

section

variable (gap : Nat) (tail before : List Char)
  (render : layout.render = blanks layout.leading ++ (layout.command.map Words.render).getD [] ++
    (blanks gap ++ tail))
  (starts : ∃ operator rest, tail = operator :: rest ∧ operator ≠ ' ' ∧ operator ≠ '#')
  (visible : ∀ letter ∈ ['\x00', '\n', '\x0d'], letter ∉ tail)

include render starts visible

/-- The line is neither empty nor a comment. -/
theorem cleanLine_of_render : cleanLine layout.render = layout.commandText gap ++ tail ∧
    ¬(cleanLine layout.render = [] ∨ (cleanLine layout.render).head? = some '#') ∧
    '\x00' ∉ cleanLine layout.render := by
  obtain ⟨operator, rest, shape, notBlank, notHash⟩ := starts
  have clean := @Layout.cleanLine_commandText layout gap tail
    (by rw [shape]; exact fun same => notBlank (Option.some.inj same))
    (visible _ (by simp)) (visible _ (by simp))
  rw [← render] at clean
  rw [clean]
  refine ⟨rfl, not_or.mpr ⟨?_, ?_⟩, ?_⟩
  · rw [shape]
    exact List.append_ne_nil_of_right_ne_nil _ (List.cons_ne_nil _ _)
  · apply layout.commandText_noComment
    rw [shape]
    exact fun same => notHash (Option.some.inj same)
  · rw [List.mem_append, not_or]
    exact ⟨layout.commandText_notMem special_terminator (by decide) gap, visible _ (by simp)⟩

/-- A `<` at the end of the line counts as a heredoc, and the line as an error. -/
theorem followed_of_heredoc (ends : layout.commandText gap ++ tail = before ++ ['<'])
    (noInput : '<' ∉ before) (missing : layout.request = none) : Followed layout := by
  obtain ⟨clean, plain, noTerminator⟩ := cleanLine_of_render gap tail render starts visible
  have heredoc : ∀ stack, (strstr (cString (cleanLine layout.render ++ '\x00' :: stack) 0)
      "<<".toList).isSome = true := by
    intro stack
    rw [cString_zero noTerminator, clean, ends, show "<<".toList = ['<', '<'] by rfl,
      strstr_append noInput, strstr_double, if_pos (.inl rfl)]
    rfl
  have scan : ∀ stack, scanLine layout.render stack = .heredoc := by
    intro stack
    unfold scanLine
    dsimp only
    rw [if_neg plain, if_pos (heredoc stack)]
  refine ⟨fun stack offset member => ?_, fun request named => ?_, fun _ stack s _ => ?_⟩
  · rw [examined] at member
    dsimp only at member
    rw [if_neg plain, if_pos (heredoc stack), List.append_nil] at member
    exact stringReads_zero noTerminator stack offset member
  · rw [missing] at named
    cases named
  · unfold executeLine executeCalls
    rw [scan]
    exact ⟨rfl, fun argv => List.not_mem_nil⟩

/-- A single `>` at the end of the line counts as `>>`, with a name behind the terminator. -/
theorem not_followed_of_single (ends : layout.commandText gap ++ tail = before ++ ['>'])
    (noOutput : '>' ∉ before) (noHeredoc : strstr (before ++ ['>']) "<<".toList = none) :
    ¬Followed layout := by
  intro follows
  obtain ⟨clean, plain, noTerminator⟩ := cleanLine_of_render gap tail render starts visible
  rw [ends] at clean
  have inside := follows.inside [] (before.length + 2)
  rw [clean] at inside plain noTerminator
  have found : strstr (before ++ ['>']) ">>".toList = some before.length := by
    rw [show ">>".toList = ['>', '>'] by rfl, strstr_append noOutput, strstr_double,
      if_pos (.inl rfl), Option.map_some, Nat.zero_add]
  have member : before.length + 2 ∈ examined layout.render [] := by
    rw [examined]
    dsimp only
    rw [clean, if_neg plain, cString_zero noTerminator, noHeredoc, scanOutputReads,
      cString_zero noTerminator, found]
    dsimp only
    rw [Option.isSome_none, if_neg Bool.false_ne_true]
    simp [trimReads, List.mem_range'_1]
  have le := inside member
  simp at le

end

/-! ## The file names -/

/-- The file name the searches find is the one of the layout if nothing stands behind it. -/
theorem Redirect.render_eq_name {redirect : Redirect} {words : Words}
    (target : redirect.target = some words) :
    words.render = words.first.text ↔ redirect.words = [] := by
  unfold Redirect.words Words.render Words.list
  rw [target, List.append_right_eq_self, Option.map_some, Option.getD_some, List.tail_cons,
    List.map_eq_nil_iff, List.flatMap_eq_nil_iff]
  constructor
  · intro none
    rcases shape : words.more with _ | ⟨entry, more⟩
    · rfl
    · have empty := none entry (shape ▸ List.mem_cons_self)
      exact absurd (List.append_eq_nil_iff.mp empty).2 entry.2.nonempty
  · intro none
    rw [none]
    exact fun entry member => absurd member List.not_mem_nil

theorem invalidName_nil : InvalidName [] := .inl rfl

theorem Words.validName (words : Words) (rest : List Char) :
    ¬InvalidName (words.render ++ rest) := by
  obtain ⟨first, more, shape, plain, _⟩ := words.exists_cons
  rw [shape, List.cons_append, InvalidName, List.head?_cons, Option.some_inj]
  rintro (empty | same)
  · cases empty
  · exact plain (by rw [same]; decide)

theorem trimmed_named {redirect : Redirect} {words : Words} (target : redirect.target = some words)
    (trailing : Nat) : trimmed (redirect.rest ++ blanks trailing) = words.render := by
  rw [trimmed_rest, target]
  rfl

theorem trimmed_missing {redirect : Redirect} (target : redirect.target = none) (trailing : Nat) :
    trimmed (redirect.rest ++ blanks trailing) = [] := by
  rw [trimmed_rest, target]
  rfl

theorem Redirect.rest_named {redirect : Redirect} {words : Words}
    (target : redirect.target = some words) (trailing : Nat) :
    redirect.rest ++ blanks trailing ≠ [] := by
  intro empty
  have name := trimmed_named target trailing
  rw [empty] at name
  obtain ⟨first, more, shape, _⟩ := words.exists_cons
  rw [shape] at name
  cases name

theorem Redirect.name_missing {redirect : Redirect} (target : redirect.target = none) :
    redirect.name = none := by
  rw [Redirect.name, target]
  rfl

theorem Redirect.name_named {redirect : Redirect} {words : Words}
    (target : redirect.target = some words) : redirect.name = some words.first.text := by
  rw [Redirect.name, target]
  rfl

theorem Redirect.words_missing {redirect : Redirect} (target : redirect.target = none) :
    redirect.words = [] := by
  unfold Redirect.words
  rw [target]
  rfl

/-- The command part is there, spaced as `strtok` needs it. -/
def Layout.Spaced (layout : Layout) (gap : Nat) : Prop :=
  ∃ words, layout.command = some words ∧ words.Spaced 16 gap

theorem Layout.command_of_words (layout : Layout) (only : layout.shape.words = []) :
    layout.command ≠ none := by
  intro missing
  have runs := layout.runs
  rw [missing, only] at runs
  exact runs rfl

theorem Layout.strtokLoop_iff (layout : Layout) (gap : Nat) (only : layout.shape.words = []) :
    strtokLoop [' '] 16 (layout.commandText gap) = layout.words ↔ layout.Spaced gap := by
  have nonempty := layout.command_of_words only
  unfold Layout.words Layout.Spaced Layout.commandText
  rw [only, List.append_nil]
  cases command : layout.command with
  | none => exact absurd command nonempty
  | some words =>
      simp only [Option.map_some, Option.getD_some, Option.some_inj, exists_eq_left']
      exact strtokLoop_words 16 words gap

/-! ## Each shape -/

theorem followed_plain (shape : layout.shape = .plain) :
    Followed layout ↔ layout.Spaced layout.trailing := by
  have named : layout.request = some { words := layout.words, input := none, output := none } := by
    unfold Layout.request
    rw [shape]
  have noWords : layout.shape.words = [] := by
    rw [shape]
    rfl
  rw [followed_iff_named (scanned_plain shape) named, ← layout.strtokLoop_iff layout.trailing noWords]
  simp

theorem followed_input {source : Redirect} (shape : layout.shape = .input source) :
    Followed layout ↔
      source.target = none ∨ source.words = [] ∧ layout.Spaced source.gap := by
  cases target : source.target with
  | none =>
      have missing : layout.request = none := by
        unfold Layout.request
        rw [shape]
        dsimp only
        rw [Redirect.name_missing target]
        rfl
      refine iff_of_true ?_ (.inl rfl)
      by_cases ends : source.rest ++ blanks layout.trailing = []
      · refine followed_of_heredoc source.gap
          ('<' :: (source.rest ++ blanks layout.trailing)) (layout.commandText source.gap) ?_
          ⟨'<', _, rfl, by decide, by decide⟩ ?_ (by rw [ends])
          (layout.commandText_notMem special_input (by decide) source.gap) missing
        · rw [Layout.render, shape, Shape.render]
          simp
        · rw [ends]
          simp
      · rw [followed_iff_missing (scanned_input shape ends) missing, trimmed_missing target]
        exact .inl ⟨[], rfl, invalidName_nil⟩
  | some words =>
      have named : layout.request =
          some { words := layout.words, input := some words.first.text, output := none } := by
        unfold Layout.request
        rw [shape]
        dsimp only
        rw [Redirect.name_named target]
        rfl
      rw [followed_iff_named (scanned_input shape (source.rest_named target _)) named,
        trimmed_named target, Request.mk.injEq, Option.some_inj, Redirect.render_eq_name target]
      constructor
      · rintro ⟨spaced, single, _⟩
        have noWords : layout.shape.words = [] := by
          rw [shape]
          exact single
        exact .inr ⟨single, (layout.strtokLoop_iff source.gap noWords).mp spaced⟩
      · rintro (missing | ⟨single, spaced⟩)
        · cases missing
        · have noWords : layout.shape.words = [] := by
            rw [shape]
            exact single
          exact ⟨(layout.strtokLoop_iff source.gap noWords).mpr spaced, single, rfl⟩

theorem followed_output {mode : OutputMode} {sink : Redirect}
    (shape : layout.shape = .output mode sink) :
    Followed layout ↔ ¬EndsSingle mode sink layout.trailing ∧
      (sink.target = none ∨ sink.words = [] ∧ layout.Spaced sink.gap) := by
  by_cases single : EndsSingle mode sink layout.trailing
  · refine iff_of_false ?_ fun understood => understood.1 single
    obtain ⟨rfl, ends⟩ := single
    have free := layout.commandText_notMem special_output (by decide) sink.gap
    refine not_followed_of_single sink.gap
      ('>' :: (sink.rest ++ blanks layout.trailing)) (layout.commandText sink.gap) ?_
      ⟨'>', _, rfl, by decide, by decide⟩ ?_ (by rw [ends]) free (strstr_free ?_)
    · rw [Layout.render, shape, Shape.render]
      simp [OutputMode.operator]
    · rw [ends]
      simp
    · exact notMem_append (layout.commandText_notMem special_input (by decide) sink.gap) (by decide)
  · rw [and_iff_right single]
    cases target : sink.target with
    | none =>
        have missing : layout.request = none := by
          unfold Layout.request
          rw [shape]
          dsimp only
          rw [Redirect.name_missing target]
          rfl
        have noWords : layout.shape.words = [] := by
          rw [shape]
          exact sink.words_missing target
        rw [followed_iff_missing (scanned_output shape single) missing, trimmed_missing target]
        exact iff_of_true (.inr ⟨layout.strtokLoop_ne_nil (layout.command_of_words noWords) sink.gap,
          mode, [], rfl, invalidName_nil⟩) (.inl rfl)
    | some words =>
        have named : layout.request = some { words := layout.words, input := none,
                                             output := some (mode, words.first.text) } := by
          unfold Layout.request
          rw [shape]
          dsimp only
          rw [Redirect.name_named target]
          rfl
        rw [followed_iff_named (scanned_output shape single) named, trimmed_named target,
          Request.mk.injEq, Option.some_inj, Prod.mk_right_inj, Redirect.render_eq_name target]
        constructor
        · rintro ⟨spaced, _, only⟩
          have noWords : layout.shape.words = [] := by
            rw [shape]
            exact only
          exact .inr ⟨only, (layout.strtokLoop_iff sink.gap noWords).mp spaced⟩
        · rintro (missing | ⟨only, spaced⟩)
          · cases missing
          · have noWords : layout.shape.words = [] := by
              rw [shape]
              exact only
            exact ⟨(layout.strtokLoop_iff sink.gap noWords).mpr spaced, rfl, only⟩

theorem followed_inputOutput {source sink : Redirect} {mode : OutputMode}
    (shape : layout.shape = .inputOutput source mode sink) :
    Followed layout ↔ ¬EndsSingle mode sink layout.trailing ∧
      (source.target = none ∨ sink.target = none ∧ layout.command ≠ none ∨
        sink.target ≠ none ∧ source.words = [] ∧ sink.words = [] ∧ layout.Spaced source.gap) := by
  by_cases single : EndsSingle mode sink layout.trailing
  · refine iff_of_false ?_ fun understood => understood.1 single
    obtain ⟨rfl, ends⟩ := single
    have command := fun {letter : Char} (special : ¬Plain letter) (notBlank : letter ≠ ' ') =>
      layout.commandText_notMem special notBlank source.gap
    have middle := fun {letter : Char} (special : ¬Plain letter) (notBlank : letter ≠ ' ') =>
      source.notMem_gap special notBlank sink.gap
    refine not_followed_of_single source.gap
      ('<' :: (source.rest ++ blanks sink.gap ++ '>' :: (sink.rest ++ blanks layout.trailing)))
      (layout.commandText source.gap ++ '<' :: (source.rest ++ blanks sink.gap)) ?_
      ⟨'<', _, rfl, by decide, by decide⟩ ?_ (by rw [ends]; simp) ?_ ?_
    · rw [Layout.render, shape, Shape.render]
      simp [OutputMode.operator]
    · intro letter hidden
      obtain ⟨special, notBlank, notInput, notOutput⟩ := special_hidden hidden
      rw [ends]
      exact List.not_mem_cons_of_ne_of_not_mem notInput
        (notMem_append_cons (middle special notBlank) notOutput List.not_mem_nil)
    · exact notMem_append_cons (command special_output (by decide)) (by decide)
        (middle special_output (by decide))
    · rw [List.append_assoc]
      exact noHeredoc_of_more (command special_input (by decide))
        (notMem_append (middle special_input (by decide)) (by decide)) (by simp)
  · rw [and_iff_right single]
    have scanned := scanned_inputOutput shape single
    cases target : source.target with
    | none =>
        have missing : layout.request = none := by
          unfold Layout.request
          rw [shape]
          dsimp only
          rw [Redirect.name_missing target]
          rfl
        rw [followed_iff_missing scanned missing, trimmed_missing target]
        exact iff_of_true (.inl ⟨[], rfl, invalidName_nil⟩) (.inl rfl)
    | some words =>
        rw [trimmed_named target] at scanned
        cases sinkTarget : sink.target with
        | none =>
            have missing : layout.request = none := by
              unfold Layout.request
              rw [shape]
              dsimp only
              rw [Redirect.name_named target, Redirect.name_missing sinkTarget]
              rfl
            rw [followed_iff_missing scanned missing, trimmed_missing sinkTarget]
            constructor
            · rintro (⟨path, same, invalid⟩ | ⟨nonempty, _⟩)
              · cases same
                have valid := words.validName []
                rw [List.append_nil] at valid
                exact absurd invalid valid
              · exact .inr (.inl ⟨rfl, fun idle => nonempty (Layout.strtokLoop_nil idle _)⟩)
            · rintro (none | ⟨_, nonempty⟩ | ⟨named, _⟩)
              · cases none
              · exact .inr ⟨layout.strtokLoop_ne_nil nonempty _, mode, [], rfl, invalidName_nil⟩
              · exact absurd rfl named
        | some words' =>
            have named : layout.request =
                some { words := layout.words, input := some words.first.text,
                       output := some (mode, words'.first.text) } := by
              unfold Layout.request
              rw [shape]
              dsimp only
              rw [Redirect.name_named target, Redirect.name_named sinkTarget]
              rfl
            rw [followed_iff_named scanned named, trimmed_named sinkTarget, Request.mk.injEq,
              Option.some_inj, Option.some_inj, Prod.mk_right_inj, Redirect.render_eq_name target,
              Redirect.render_eq_name sinkTarget]
            constructor
            · rintro ⟨spaced, only, only'⟩
              have noWords : layout.shape.words = [] := by
                rw [shape, Shape.words, only, only']
                rfl
              exact .inr (.inr ⟨Option.some_ne_none _, only, only',
                (layout.strtokLoop_iff source.gap noWords).mp spaced⟩)
            · rintro (none | ⟨none, _⟩ | ⟨_, only, only', spaced⟩)
              · cases none
              · cases none
              · have noWords : layout.shape.words = [] := by
                  rw [shape, Shape.words, only, only']
                  rfl
                exact ⟨(layout.strtokLoop_iff source.gap noWords).mpr spaced, only, only'⟩

theorem followed_outputInput {source sink : Redirect} {mode : OutputMode}
    (shape : layout.shape = .outputInput mode sink source) :
    Followed layout ↔ source.rest ++ blanks layout.trailing = [] ∨
      sink.target = none ∧ layout.command ≠ none := by
  have command := fun {letter : Char} (special : ¬Plain letter) (notBlank : letter ≠ ' ') =>
    layout.commandText_notMem special notBlank sink.gap
  have middle := fun {letter : Char} (special : ¬Plain letter) (notBlank : letter ≠ ' ') =>
    sink.notMem_gap special notBlank source.gap
  by_cases ends : source.rest ++ blanks layout.trailing = []
  · refine iff_of_true ?_ (.inl ends)
    have target : source.target = none := by
      cases target : source.target with
      | none => rfl
      | some words => exact absurd ends (source.rest_named target _)
    have missing : layout.request = none := by
      unfold Layout.request
      rw [shape]
      dsimp only
      rw [Redirect.name_missing target]
      rfl
    obtain ⟨rest, operator⟩ := mode.operator_cons
    refine followed_of_heredoc sink.gap
      (mode.operator ++ (sink.rest ++ blanks source.gap ++
        '<' :: (source.rest ++ blanks layout.trailing)))
      (layout.commandText sink.gap ++ (mode.operator ++ (sink.rest ++ blanks source.gap)))
      ?_ ⟨'>', rest ++ (sink.rest ++ blanks source.gap ++
        '<' :: (source.rest ++ blanks layout.trailing)), by rw [operator]; rfl, by decide, by decide⟩
      ?_ (by rw [ends]; simp) ?_ missing
    · rw [Layout.render, shape, Shape.render]
      simp
    · intro letter hidden
      obtain ⟨special, notBlank, notInput, notOutput⟩ := special_hidden hidden
      rw [ends]
      exact notMem_append (mode.notMem notOutput)
        (notMem_append_cons (middle special notBlank) notInput List.not_mem_nil)
    · exact notMem_append (command special_input (by decide))
        (notMem_append (mode.notMem (by decide)) (middle special_input (by decide)))
  · rw [or_iff_right ends]
    have scanned := scanned_outputInput shape ends
    -- the name the searches find begins with the name of the layout, or with the second operator
    have name : InvalidName (trimmed (sink.rest ++ blanks source.gap ++
        '<' :: (source.rest ++ blanks layout.trailing))) ↔ sink.target = none := by
      unfold Redirect.rest
      cases sink.target with
      | none =>
          have joined : blanks sink.inner ++ blanks source.gap = blanks (sink.inner + source.gap) :=
            List.replicate_append_replicate ..
          rw [Option.map_none, Option.getD_none, List.append_nil, joined,
            trimmed_cons (by decide)]
          exact iff_of_true (.inr rfl) rfl
      | some words =>
          refine iff_of_false ?_ (Option.some_ne_none _)
          obtain ⟨first, more, text, plain, _⟩ := words.exists_cons
          rw [Option.map_some, Option.getD_some, text, List.append_assoc, List.append_assoc,
            List.cons_append, trimmed_cons plain.notBlank, InvalidName, List.head?_cons,
            Option.some_inj]
          rintro (empty | same)
          · cases empty
          · exact plain (by rw [same]; decide)
    by_cases named : source.target ≠ none ∧ sink.target ≠ none
    · refine iff_of_false ?_ fun understood => named.2 understood.1
      obtain ⟨words, target⟩ := Option.ne_none_iff_exists'.mp named.1
      obtain ⟨words', sinkTarget⟩ := Option.ne_none_iff_exists'.mp named.2
      have named : layout.request =
          some { words := layout.words, input := some words.first.text,
                 output := some (mode, words'.first.text) } := by
        unfold Layout.request
        rw [shape]
        dsimp only
        rw [Redirect.name_named target, Redirect.name_named sinkTarget]
        rfl
      rw [followed_iff_named scanned named, Request.mk.injEq]
      exact fun same => Option.some_ne_none _ same.2.1.symm
    · have missing : layout.request = none := by
        unfold Layout.request
        rw [shape]
        dsimp only
        cases target : source.target with
        | none =>
            rw [Redirect.name_missing target]
            rfl
        | some words =>
            have sinkTarget : sink.target = none := by
              by_contra sinkNamed
              exact named ⟨by rw [target]; exact Option.some_ne_none _, sinkNamed⟩
            rw [Redirect.name_named target, Redirect.name_missing sinkTarget]
            rfl
      rw [followed_iff_missing scanned missing]
      constructor
      · rintro (⟨path, none, _⟩ | ⟨nonempty, _, path, same, invalid⟩)
        · cases none
        · cases same
          exact ⟨name.mp invalid, fun idle => nonempty (Layout.strtokLoop_nil idle _)⟩
      · rintro ⟨sinkTarget, nonempty⟩
        exact .inr ⟨layout.strtokLoop_ne_nil nonempty _, mode, _, rfl, name.mpr sinkTarget⟩

/-! ## Every layout -/

/-- The layouts `execute_line` understands. -/
def Layout.Understood (layout : Layout) : Prop :=
  match layout.shape with
  | .plain => layout.Spaced layout.trailing
  | .input source => source.target = none ∨ source.words = [] ∧ layout.Spaced source.gap
  | .output mode sink =>
    ¬EndsSingle mode sink layout.trailing ∧
      (sink.target = none ∨ sink.words = [] ∧ layout.Spaced sink.gap)
  | .inputOutput source mode sink =>
    ¬EndsSingle mode sink layout.trailing ∧
      (source.target = none ∨ sink.target = none ∧ layout.command ≠ none ∨
        sink.target ≠ none ∧ source.words = [] ∧ sink.words = [] ∧ layout.Spaced source.gap)
  | .outputInput _ sink source =>
    source.rest ++ blanks layout.trailing = [] ∨ sink.target = none ∧ layout.command ≠ none

theorem followed_iff (layout : Layout) : Followed layout ↔ layout.Understood := by
  unfold Layout.Understood
  cases shape : layout.shape with
  | plain => exact followed_plain shape
  | input source => exact followed_input shape
  | output mode sink => exact followed_output shape
  | inputOutput source mode sink => exact followed_inputOutput shape
  | outputInput mode sink source => exact followed_outputInput shape

/-- A line is served exactly if its array holds it and its layout is understood. -/
theorem redirections_iff (layout : Layout) :
    Served layout ↔ (cleanLine layout.render).length < 256 ∧ layout.Understood := by
  rw [← followed_iff]
  exact ⟨fun served => ⟨served.copied, served.followed⟩, fun both => ⟨both.1, both.2⟩⟩

/-! ## Output before input -/

def catWord : ShellWord where
  text := "cat".toList
  nonempty := List.cons_ne_nil _ _
  plain := by simp [Plain]

def outWord : ShellWord where
  text := "out".toList
  nonempty := List.cons_ne_nil _ _
  plain := by simp [Plain]

def inWord : ShellWord where
  text := "in".toList
  nonempty := List.cons_ne_nil _ _
  plain := by simp [Plain]

/-- The line `cat > out < in`. -/
def outputFirst : Layout where
  leading := 0
  command := some { first := catWord, more := [] }
  shape := .outputInput .overwrite
    { gap := 1, inner := 1, target := some { first := outWord, more := [] } }
    { gap := 1, inner := 1, target := some { first := inWord, more := [] } }
  trailing := 0
  runs := List.cons_ne_nil _ _
  noComment := by
    rintro words same
    cases Option.some.inj same
    decide

/-- `cat > out < in` opens one file, of the name `out < in`. -/
theorem output_swallows_input : outputFirst.render = "cat > out < in".toList ∧
    executeCalls "cat > out < in".toList [] permissive =
      [.opens "out < in".toList (O_WRONLY ||| O_TRUNC) (some 3), .runs ["cat".toList]] ∧
    ¬∀ layout : Layout, layout.render.length ≤ 255 → Served layout := by
  have calls : executeCalls "cat > out < in".toList [] permissive =
      [.opens "out < in".toList (O_WRONLY ||| O_TRUNC) (some 3), .runs ["cat".toList]] := by
    decide +kernel
  refine ⟨rfl, calls, fun all => ?_⟩
  have followed := (all outputFirst (by decide)).followed.followed _ rfl [] permissive
  have render : outputFirst.render = "cat > out < in".toList := rfl
  rw [render, calls, calls_permissive] at followed
  exact absurd followed (by decide)

end OrionBios.Vfs
