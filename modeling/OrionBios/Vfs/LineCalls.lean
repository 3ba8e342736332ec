import OrionBios.Vfs.Examined

/-!
# The calls made for a line

What `executeLine` does for the redirections the searches found, compared with what a
request asks for. In a state where every open succeeds the calls give the request back.
-/

namespace OrionBios.Vfs

variable {found : Redirections} {request : Request} {s : State}

theorem redirectedCalls_of_asks (asks : found.Asks request) (s : State) :
    redirectedCalls found s = request.outputCalls s := by
  obtain ⟨words, _, output⟩ := asks
  unfold redirectedCalls Request.outputCalls
  cases target : request.output with
  | none =>
      rw [target] at output
      rw [if_pos output, words]
  | some pair =>
      obtain ⟨mode, file⟩ := pair
      rw [target] at output
      obtain ⟨modeEq, fileEq⟩ := output
      have redirects : found.mode ≠ .none := by
        rw [modeEq]
        cases mode
        · exact RedirectMode.noConfusion
        · exact RedirectMode.noConfusion
      have flags : found.mode.flags = mode.toMode.flags := congrArg RedirectMode.flags modeEq
      rw [if_neg redirects, flags, fileEq, words]

theorem foundCalls_of_asks (asks : found.Asks request) (nonempty : request.words ≠ [])
    (s : State) : foundCalls found s = request.calls s := by
  have some : found.words ≠ [] := by
    rw [asks.words]
    exact nonempty
  unfold foundCalls Request.calls
  rw [asks.input]
  cases request.input with
  | none =>
      dsimp only
      rw [if_neg some, redirectedCalls_of_asks asks]
  | some path =>
      dsimp only
      cases vfsOpen path O_RDONLY s with
      | mk fd s' =>
          cases fd with
          | none => rfl
          | some fd =>
              dsimp only
              rw [if_neg some, redirectedCalls_of_asks asks]

/-- Without a command only the input file is opened. -/
theorem foundCalls_of_nil (asks : found.Asks request) (idle : request.words = []) (s : State) :
    foundCalls found s =
      (request.input.map fun path => LineCall.opens path O_RDONLY (vfsOpen path O_RDONLY s).1).toList
        := by
  have words : found.words = [] := asks.words.trans idle
  unfold foundCalls
  rw [asks.input]
  cases request.input with
  | none =>
      dsimp only
      rw [if_pos words]
      rfl
  | some path =>
      dsimp only
      rw [Option.map_some, Option.toList_some]
      cases opened : vfsOpen path O_RDONLY s with
      | mk fd s' =>
          cases fd with
          | none => rfl
          | some fd =>
              dsimp only
              rw [if_pos words]

/-! ## Errors -/

section

variable {line stack : List Char} (scanned : scanLine line stack = .redirections found)

include scanned

theorem executeLine_plain (input : found.inputFile = none) (s : State) :
    (executeLine line stack s).1 =
      if found.words = [] then 0 else (executeRedirected found none s).1 := by
  unfold executeLine
  rw [scanned]
  dsimp only
  rw [input]
  dsimp only
  split
  · rfl
  · rfl

theorem executeLine_unopened {path : Path} {s s' : State} (input : found.inputFile = some path)
    (failed : vfsOpen path O_RDONLY s = (none, s')) : (executeLine line stack s).1 = -1 := by
  unfold executeLine
  rw [scanned]
  dsimp only
  rw [input]
  dsimp only
  rw [failed]

theorem executeLine_opened {path : Path} {fd : Nat} {s s' : State}
    (input : found.inputFile = some path) (opened : vfsOpen path O_RDONLY s = (some fd, s')) :
    (executeLine line stack s).1 =
      if found.words = [] then 0 else (executeRedirected found (some fd) s').1 := by
  unfold executeLine
  rw [scanned]
  dsimp only
  rw [input]
  dsimp only
  rw [opened]
  dsimp only
  split
  · rfl
  · rfl

end

theorem executeRedirected_failed (redirects : found.mode ≠ .none) {inputFd : Option Nat}
    (failed : (vfsOpen found.redirectFile found.mode.flags (aliasInput inputFd s)).1 = none) :
    (executeRedirected found inputFd s).1 = -1 := by
  unfold executeRedirected
  cases inputFd with
  | none =>
      dsimp only [aliasInput] at failed ⊢
      rw [if_neg redirects]
      cases opened : vfsOpen found.redirectFile found.mode.flags s with
      | mk fd s' =>
          rw [opened] at failed
          cases failed
          rfl
  | some fd =>
      dsimp only [aliasInput] at failed ⊢
      rw [if_neg redirects]
      cases opened : vfsOpen found.redirectFile found.mode.flags (aliasFd 0 fd s) with
      | mk fd s' =>
          rw [opened] at failed
          cases failed
          rfl

/-- The output file is the only one opened next, and a failure ends the calls. -/
theorem redirectedCalls_of_failed {path : Path} {flags : Nat}
    (failed : .opens path flags none ∈ redirectedCalls found s) :
    found.mode ≠ .none ∧ (vfsOpen found.redirectFile found.mode.flags s).1 = none ∧
      ∀ argv, .runs argv ∉ redirectedCalls found s := by
  unfold redirectedCalls at failed ⊢
  by_cases plain : found.mode = .none
  · rw [if_pos plain] at failed
    simp at failed
  · rw [if_neg plain] at failed ⊢
    cases opened : (vfsOpen found.redirectFile found.mode.flags s).1 with
    | none => exact ⟨plain, rfl, fun argv => by simp⟩
    | some fd =>
        rw [opened] at failed
        simp at failed

theorem refused_of_failed {line stack : List Char}
    (scanned : scanLine line stack = .redirections found) {path : Path} {flags : Nat}
    (failed : .opens path flags none ∈ foundCalls found s) :
    (executeLine line stack s).1 = -1 ∧ ∀ argv, .runs argv ∉ foundCalls found s := by
  unfold foundCalls at failed ⊢
  cases input : found.inputFile with
  | none =>
      rw [input] at failed
      dsimp only at failed ⊢
      rw [executeLine_plain scanned input]
      by_cases idle : found.words = []
      · rw [if_pos idle] at failed
        cases failed
      · rw [if_neg idle] at failed ⊢
        rw [if_neg idle]
        obtain ⟨redirects, unopened, noRun⟩ := redirectedCalls_of_failed failed
        exact ⟨executeRedirected_failed redirects unopened, noRun⟩
  | some file =>
      rw [input] at failed
      dsimp only at failed ⊢
      cases opened : vfsOpen file O_RDONLY s with
      | mk fd s' =>
          rw [opened] at failed
          cases fd with
          | none => exact ⟨executeLine_unopened scanned input opened, fun argv => by simp⟩
          | some fd =>
              dsimp only at failed ⊢
              rw [executeLine_opened scanned input opened]
              by_cases idle : found.words = []
              · rw [if_pos idle] at failed
                simp at failed
              · rw [if_neg idle, List.mem_cons] at failed
                rw [if_neg idle, if_neg idle]
                rcases failed with head | behind
                · cases head
                · obtain ⟨redirects, unopened, noRun⟩ := redirectedCalls_of_failed behind
                  refine ⟨executeRedirected_failed redirects unopened, fun argv member => ?_⟩
                  rcases List.mem_cons.mp member with head | behind
                  · cases head
                  · exact noRun argv behind

/-- The input file is the first to be opened. -/
theorem foundCalls_input {path : Path} (input : found.inputFile = some path) (s : State) :
    .opens path O_RDONLY (vfsOpen path O_RDONLY s).1 ∈ foundCalls found s := by
  unfold foundCalls
  rw [input]
  dsimp only
  cases vfsOpen path O_RDONLY s with
  | mk fd s' =>
      cases fd with
      | none => exact List.mem_singleton_self _
      | some fd => exact List.mem_cons_self

theorem foundCalls_output (some : found.words ≠ []) (redirects : found.mode ≠ .none) (s : State) :
    (∃ path, .opens path O_RDONLY none ∈ foundCalls found s) ∨
      ∃ fd, .opens found.redirectFile found.mode.flags fd ∈ foundCalls found s := by
  have output : ∀ s, ∃ fd, .opens found.redirectFile found.mode.flags fd ∈
      redirectedCalls found s := by
    intro s
    refine ⟨(vfsOpen found.redirectFile found.mode.flags s).1, ?_⟩
    unfold redirectedCalls
    rw [if_neg redirects]
    cases (vfsOpen found.redirectFile found.mode.flags s).1 with
    | none => exact List.mem_singleton_self _
    | some fd => exact List.mem_cons_self
  unfold foundCalls
  cases found.inputFile with
  | none =>
      dsimp only
      rw [if_neg some]
      exact .inr (output s)
  | some path =>
      dsimp only
      cases vfsOpen path O_RDONLY s with
      | mk fd s' =>
          cases fd with
          | none => exact .inl ⟨path, List.mem_singleton_self _⟩
          | some fd =>
              dsimp only
              rw [if_neg some]
              obtain ⟨fd', member⟩ := output (aliasFd 0 fd s')
              exact .inr ⟨fd', List.mem_cons_of_mem _ member⟩

theorem refused_of_asks {line stack : List Char} (asks : found.Asks request)
    (scanned : scanLine line stack = .redirections found)
    (refuses : RefusesInvalid (foundCalls found s))
    (invalid : (∃ path, request.input = some path ∧ InvalidName path) ∨
      request.words ≠ [] ∧ ∃ mode path, request.output = some (mode, path) ∧ InvalidName path) :
    (executeLine line stack s).1 = -1 ∧ ∀ argv, .runs argv ∉ foundCalls found s := by
  have failed : ∃ path flags, .opens path flags none ∈ foundCalls found s := by
    rcases invalid with ⟨path, input, invalid⟩ | ⟨nonempty, mode, path, output, invalid⟩
    · have member := foundCalls_input (asks.input.trans input) s
      refine ⟨path, O_RDONLY, ?_⟩
      rw [← refuses _ _ _ member invalid]
      exact member
    · have target := asks.output
      rw [output] at target
      obtain ⟨modeEq, fileEq⟩ := target
      have redirects : found.mode ≠ .none := by
        rw [modeEq]
        cases mode
        · exact RedirectMode.noConfusion
        · exact RedirectMode.noConfusion
      have some : found.words ≠ [] := by
        rw [asks.words]
        exact nonempty
      rcases foundCalls_output some redirects s with ⟨path', member⟩ | ⟨fd, member⟩
      · exact ⟨path', O_RDONLY, member⟩
      · refine ⟨found.redirectFile, found.mode.flags, ?_⟩
        rw [fileEq] at member ⊢
        rw [← refuses _ _ _ member invalid]
        exact member
  obtain ⟨path, flags, member⟩ := failed
  exact refused_of_failed scanned member

/-! ## Where every open succeeds -/

def permissive : State := boot fun _ => true

theorem vfsOpen_permissive (path : Path) (flags : Nat) :
    (vfsOpen path flags permissive).1 = some 3 := rfl

theorem vfsOpen_permissive_second (path path' : Path) (flags flags' : Nat) :
    (vfsOpen path' flags' (aliasFd 0 3 (vfsOpen path flags permissive).2)).1 = some 4 := rfl

theorem outputCalls_opened {fd : Nat}
    (opens : ∀ path flags, (vfsOpen path flags s).1 = some fd) (request : Request) :
    request.outputCalls s =
      (request.output.map fun target =>
        LineCall.opens target.2 target.1.toMode.flags (some fd)).toList ++ [.runs request.words] := by
  unfold Request.outputCalls
  cases request.output with
  | none => rfl
  | some target =>
      obtain ⟨mode, path⟩ := target
      dsimp only
      rw [opens]
      rfl

theorem calls_permissive (request : Request) :
    request.calls permissive =
      (request.input.map fun path => LineCall.opens path O_RDONLY (some 3)).toList ++
        ((request.output.map fun target => LineCall.opens target.2 target.1.toMode.flags
          (some (if request.input = none then 3 else 4))).toList ++ [.runs request.words]) := by
  unfold Request.calls
  cases request.input with
  | none => exact outputCalls_opened vfsOpen_permissive request
  | some path =>
      have opened : vfsOpen path O_RDONLY permissive =
          (some 3, (vfsOpen path O_RDONLY permissive).2) := rfl
      dsimp only
      rw [opened]
      dsimp only
      rw [outputCalls_opened fun path' flags' => vfsOpen_permissive_second path path' _ flags']
      rfl

theorem OutputMode.toMode_flags_injective {mode mode' : OutputMode}
    (same : mode.toMode.flags = mode'.toMode.flags) : mode = mode' := by
  cases mode <;> cases mode' <;> first | rfl | exact absurd same (by decide)

theorem OutputMode.flags_ne (mode : OutputMode) : mode.toMode.flags ≠ O_RDONLY := by
  cases mode <;> decide

theorem calls_permissive_injective {first second : Request}
    (same : first.calls permissive = second.calls permissive) : first = second := by
  rw [calls_permissive, calls_permissive] at same
  obtain ⟨words, input, output⟩ := first
  obtain ⟨words', input', output'⟩ := second
  dsimp only at same
  have differ := OutputMode.flags_ne
  have differ' := fun mode : OutputMode => mode.flags_ne.symm
  cases input <;> cases output <;> cases input' <;> cases output' <;> simp_all
  next target target' =>
    exact Prod.ext (OutputMode.toMode_flags_injective same.1.2) same.1.1
  next target target' =>
    exact Prod.ext (OutputMode.toMode_flags_injective same.2.1.2) same.2.1.1

end OrionBios.Vfs
