import OrionBios.Libc.Strings
import OrionBios.Vfs.Descriptors

/-!
# The shell of the VFS

`execute_line` copies the line to a 256-character array on its stack, cuts the
redirections out of the copy by writing terminators into it, opens the files,
swaps descriptors 0 and 1, runs the command and puts the terminal back. Offsets
into the array stand for the pointers of the source; what lies behind the copied
line is whatever the stack held.
-/

namespace OrionBios.Vfs

open Libc

/-! ## Commands -/

inductive Command where
  | help | echo | cat | ls | cd | mkdir | reboot | shutdown | meminfo | clear | exit
  deriving DecidableEq, Repr

def commands : List (List Char × Command) :=
  [("help".toList, .help), ("echo".toList, .echo), ("cat".toList, .cat), ("ls".toList, .ls),
    ("cd".toList, .cd), ("mkdir".toList, .mkdir), ("reboot".toList, .reboot),
    ("shutdown".toList, .shutdown), ("meminfo".toList, .meminfo), ("clear".toList, .clear),
    ("exit".toList, .exit)]

def CMD_EXIT_SHELL : Int := 99

/-- A command that opens a file, uses it and closes it again. -/
def withOpened (path : Path) (flags : Nat) (failed : Int) (s : State) : Int × State :=
  match vfsOpen path flags s with
  | (some fd, s) => (0, vfsClose fd s)
  | (none, s) => (failed, s)

/-- A command that asks FatFs directly, without a descriptor. -/
def askFat (s : State) : Int × State :=
  match ask s with
  | (true, s) => (0, s)
  | (false, s) => (-1, s)

/-- The command functions, as far as they touch descriptors, heap or FatFs. -/
def Command.run (command : Command) (argv : List (List Char)) (s : State) : Int × State :=
  match command with
  | .help | .echo | .reboot | .shutdown => (0, s)
  | .cd => (if argv.length < 2 then -1 else 0, s)
  | .cat => if argv.length < 2 then (-1, s) else withOpened (argv.getD 1 []) O_RDONLY (-1) s
  | .ls => askFat s
  | .mkdir => if argv.length < 2 then (-1, s) else askFat s
  | .meminfo => withOpened "/proc/meminfo".toList O_RDONLY (-1) s
  | .clear => withOpened "/dev/tty".toList O_RDWR 0 s
  | .exit => (CMD_EXIT_SHELL, s)

/-- Step 4 of `execute_line`. A name that is no command, or a command that fails, is
looked up as a program; that path uses FatFs alone and leaves the table as it is. -/
def runCommand (argv : List (List Char)) (s : State) : Int × State :=
  match commands.find? fun entry => entry.1 = argv.headD [] with
  | some (_, command) => command.run argv s
  | none => (-1, s)

/-! ## Redirections -/

inductive RedirectMode where
  | none | overwrite | append
  deriving DecidableEq, Repr

/-- `while (*p == ' ') p++`. -/
def skipSpaces (array : List Char) (offset : Nat) : Nat :=
  offset + ((array.drop offset).takeWhile (· = ' ')).length

/-- `while (p > start && *p == ' ') *p-- = '\0'` with `p = start + distance`. -/
def trimRight (start : Nat) : Nat → List Char → List Char
  | 0, array => array
  | distance + 1, array =>
      if array.getD (start + (distance + 1)) '\x00' = ' ' then
        trimRight start distance (array.set (start + (distance + 1)) '\x00')
      else array

/-- Skips the blanks before a file name and cuts those after it. -/
def trimName (array : List Char) (offset : Nat) : Nat × List Char :=
  let start := skipSpaces array offset
  (start, trimRight start ((cString array start).length - 1) array)

/-- What step 1 of `execute_line` found in a line that is neither empty, nor a comment,
nor a heredoc. -/
structure Redirections where
  mode : RedirectMode
  redirectFile : Path
  inputFile : Option Path
  words : List (List Char)
  deriving DecidableEq, Repr

inductive Scan where
  | empty
  | heredoc
  | redirections (found : Redirections)
  deriving DecidableEq, Repr

/-- The line after the leading blanks, cut at its first line feed and carriage return. -/
def cleanLine (line : List Char) : List Char :=
  let line := line.dropWhile (· = ' ')
  let line := line.take (strcspn line ['\n'])
  line.take (strcspn line ['\x0d'])

/-- The search for `>>` and then for `>`: mode, file name offset and cut array. -/
def scanOutput (array : List Char) : RedirectMode × Nat × List Char :=
  match strstr (cString array 0) ">>".toList with
  | some position =>
      let (start, array) := trimName (array.set position '\x00') (position + 2)
      (.append, start, array)
  | none =>
    match strstr (cString array 0) ">".toList with
    | some position =>
        if array.getD (position + 1) '\x00' ≠ '>' then
          let (start, array) := trimName (array.set position '\x00') (position + 1)
          (.overwrite, start, array)
        else (.none, 0, array)
    | none => (.none, 0, array)

/-- The search for `<`: the file name, if any, and the array cut for the command. -/
def scanInput (array : List Char) : Option Path × List Char :=
  match strstr (cString array 0) "<".toList with
  | some position =>
      if array.getD (position + 1) '\x00' ≠ '<' then
        let (start, array) := trimName array (position + 1)
        (some (cString array start), array.set position '\x00')
      else (none, array)
  | none => (none, array)

/-- Steps 1 and 2 of `execute_line` up to the opens; `stack` is the memory behind the
copied line. -/
def scanLine (line stack : List Char) : Scan :=
  let line := cleanLine line
  if line = [] ∨ line.head? = some '#' then .empty
  else
    let array := line ++ '\x00' :: stack
    if (strstr (cString array 0) "<<".toList).isSome then .heredoc
    else
      let (mode, start, array) := scanOutput array
      let (inputFile, array) := scanInput array
      .redirections
        { mode := mode
          redirectFile := cString array start
          inputFile := inputFile
          words := strtokLoop [' '] 16 (cString array (skipSpaces array 0)) }

/-! ## Execution -/

def RedirectMode.flags : RedirectMode → Nat
  | .none => O_WRONLY
  | .overwrite => O_WRONLY ||| O_TRUNC
  | .append => O_WRONLY ||| O_APPEND

/-- `fd_table[target] = get_file_from_fd(fd)` when that is not NULL. -/
def aliasFd (target fd : Nat) (s : State) : State :=
  match getFileFromFd fd s with
  | some file => setFd target (some file) s
  | none => s

/-- Step 5 for one standard descriptor: close the redirection, open the terminal again. -/
def restoreFd (target : Nat) (opened : Option Nat) (s : State) : State :=
  match opened with
  | none => s
  | some fd =>
    let s := vfsClose fd s
    match vfsOpen "/dev/tty".toList O_RDWR s with
    | (some tty, s) => setFd target (getFileFromFd tty s) s
    | (none, s) => s

def executeRedirected (found : Redirections) (inputFd : Option Nat) (s : State) : Int × State :=
  let s := match inputFd with
    | some fd => aliasFd 0 fd s
    | none => s
  if found.mode = .none then
    let (result, s) := runCommand found.words s
    (result, restoreFd 0 inputFd s)
  else
    match vfsOpen found.redirectFile found.mode.flags s with
    | (none, s) =>
      (-1, match inputFd with
        | some fd => vfsClose fd s
        | none => s)
    | (some outputFd, s) =>
      let (result, s) := runCommand found.words (aliasFd 1 outputFd s)
      (result, restoreFd 0 inputFd (restoreFd 1 (some outputFd) s))

def executeLine (line stack : List Char) (s : State) : Int × State :=
  match scanLine line stack with
  | .empty => (0, s)
  | .heredoc => (-1, s)
  | .redirections found =>
    match found.inputFile with
    | none => if found.words = [] then (0, s) else executeRedirected found none s
    | some path =>
      match vfsOpen path O_RDONLY s with
      | (none, s) => (-1, s)
      | (some inputFd, s) =>
        if found.words = [] then (0, vfsClose inputFd s)
        else executeRedirected found (some inputFd) s

end OrionBios.Vfs
