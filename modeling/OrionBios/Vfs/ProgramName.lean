import OrionBios.Libc.Stores
import OrionBios.Vfs.Shell

/-!
# The name under which `execute_line` looks a program up

After a command that failed, or a word that is no command, `execute_line` formats the word
and a `*` into an array of 16 characters on its stack.
-/

namespace OrionBios.Vfs

open Libc

def aliasInput (inputFd : Option Nat) (s : State) : State :=
  match inputFd with
  | some fd => aliasFd 0 fd s
  | none => s

/-- The result of step 4, if `execute_line` comes that far: the words and what the command
returned. The opens before it are those of `executeRedirected`. -/
def redirectedResult (found : Redirections) (inputFd : Option Nat) (s : State) : Option Int :=
  let s := aliasInput inputFd s
  if found.mode = .none then some (runCommand found.words s).1
  else
    match vfsOpen found.redirectFile found.mode.flags s with
    | (none, _) => none
    | (some outputFd, s) => some (runCommand found.words (aliasFd 1 outputFd s)).1

def commandResult (line stack : List Char) (s : State) : Option (List (List Char) × Int) :=
  match scanLine line stack with
  | .empty => none
  | .heredoc => none
  | .redirections found =>
    match found.inputFile with
    | none =>
      if found.words = [] then none
      else (redirectedResult found none s).map fun result => (found.words, result)
    | some path =>
      match vfsOpen path O_RDONLY s with
      | (none, _) => none
      | (some inputFd, s) =>
        if found.words = [] then none
        else (redirectedResult found (some inputFd) s).map fun result => (found.words, result)

/-- `char buf[16]`, if it is filled, over what the stack held there. -/
def programName (words : List (List Char)) (result : Int) (memory : Nat → Char) : Option Local :=
  if result ≠ 0 ∧ result ≠ CMD_EXIT_SHELL then
    some ((Local.initial memory).sprintf (words.headD [] ++ ['*']))
  else none

/-! ## What the result is -/

theorem executeRedirected_plain {found : Redirections} (plain : found.mode = .none)
    (inputFd : Option Nat) (s : State) :
    (executeRedirected found inputFd s).1 = (runCommand found.words (aliasInput inputFd s)).1 := by
  unfold executeRedirected
  cases inputFd with
  | none =>
      dsimp only
      rw [if_pos plain]
      rfl
  | some fd =>
      dsimp only
      rw [if_pos plain]
      rfl

theorem executeRedirected_opened {found : Redirections} (redirects : ¬found.mode = .none)
    {inputFd : Option Nat} {s s' : State} {outputFd : Nat}
    (opened : vfsOpen found.redirectFile found.mode.flags (aliasInput inputFd s) =
      (some outputFd, s')) :
    (executeRedirected found inputFd s).1 =
      (runCommand found.words (aliasFd 1 outputFd s')).1 := by
  unfold executeRedirected
  cases inputFd with
  | none =>
      dsimp only [aliasInput] at opened ⊢
      rw [if_neg redirects, opened]
  | some fd =>
      dsimp only [aliasInput] at opened ⊢
      rw [if_neg redirects, opened]

theorem redirectedResult_eq_some {found : Redirections} {inputFd : Option Nat} {s : State}
    {result : Int} (reached : redirectedResult found inputFd s = some result) :
    (executeRedirected found inputFd s).1 = result ∧
      ∃ s', result = (runCommand found.words s').1 := by
  unfold redirectedResult at reached
  dsimp only at reached
  by_cases plain : found.mode = .none
  · rw [if_pos plain] at reached
    cases reached
    exact ⟨executeRedirected_plain plain inputFd s, _, rfl⟩
  · rw [if_neg plain] at reached
    cases opened : vfsOpen found.redirectFile found.mode.flags (aliasInput inputFd s) with
    | mk fd s' =>
        rw [opened] at reached
        cases fd with
        | none => cases reached
        | some outputFd =>
            cases reached
            exact ⟨executeRedirected_opened plain opened, _, rfl⟩

/-- `execute_line` returns the result of the command, which step 4 computed in some state. -/
theorem commandResult_eq_some {line stack : List Char} {s : State} {words : List (List Char)}
    {result : Int} (reached : commandResult line stack s = some (words, result)) :
    (executeLine line stack s).1 = result ∧ ∃ s', result = (runCommand words s').1 := by
  unfold commandResult at reached
  unfold executeLine
  cases scanned : scanLine line stack with
  | empty =>
      rw [scanned] at reached
      cases reached
  | heredoc =>
      rw [scanned] at reached
      cases reached
  | redirections found =>
      rw [scanned] at reached
      dsimp only at reached ⊢
      cases input : found.inputFile with
      | none =>
          rw [input] at reached
          dsimp only at reached ⊢
          by_cases none : found.words = []
          · rw [if_pos none] at reached
            cases reached
          · rw [if_neg none] at reached ⊢
            obtain ⟨value, redirected, same⟩ := Option.map_eq_some_iff.mp reached
            cases same
            exact redirectedResult_eq_some redirected
      | some path =>
          rw [input] at reached
          dsimp only at reached ⊢
          cases opened : vfsOpen path O_RDONLY s with
          | mk fd s =>
              rw [opened] at reached
              cases fd with
              | none => cases reached
              | some inputFd =>
                  dsimp only at reached ⊢
                  by_cases none : found.words = []
                  · rw [if_pos none] at reached
                    cases reached
                  · rw [if_neg none] at reached ⊢
                    obtain ⟨value, redirected, same⟩ := Option.map_eq_some_iff.mp reached
                    cases same
                    exact redirectedResult_eq_some redirected

theorem runCommand_long {words : List (List Char)} (long : 8 < (words.headD []).length)
    (s : State) : (runCommand words s).1 = -1 := by
  have names : ∀ entry ∈ commands, entry.1.length ≤ 8 := by decide
  have unknown : (commands.find? fun entry => entry.1 = words.headD []) = none := by
    rw [List.find?_eq_none]
    intro entry member same
    rw [← of_decide_eq_true same] at long
    exact absurd (names entry member) (Nat.not_le.mpr long)
  rw [runCommand, unknown]

theorem programName_holds_iff {words : List (List Char)} {line stack : List Char} {s : State}
    {result : Int} (reached : commandResult line stack s = some (words, result))
    (memory : Nat → Char) :
    (∀ buf, programName words result memory = some buf →
      buf.Holds 16 (words.headD [] ++ ['*'])) ↔ (words.headD []).length ≤ 14 := by
  have holds := @Local.holds_sprintf 16 (words.headD [] ++ ['*']) memory
  rw [List.length_append, List.length_singleton] at holds
  obtain ⟨_, s', resultEq⟩ := commandResult_eq_some reached
  constructor
  · intro keeps
    by_contra long
    have failed : result = -1 := resultEq.trans (runCommand_long (by omega) s')
    subst failed
    exact long (Nat.le_of_lt_succ (Nat.lt_of_succ_lt_succ (holds.mp (keeps _ rfl))))
  · intro short buf filled
    unfold programName at filled
    split at filled
    · cases filled
      exact holds.mpr (by omega)
    · cases filled

end OrionBios.Vfs
