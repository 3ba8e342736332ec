import OrionBios.Libc.Stores

/-!
# The commands of the BIOS shell

`execute_cmd` cuts the line into words and calls a function of the command table with
the words behind the name. Of the functions, those that format their argument into an
array on their own stack are modelled as far as that array; a call is a choice of table
entry and arguments.
-/

namespace OrionBios.Commands

open Libc

/-! ## The command line -/

def MAXARGS : Nat := 40

/-- `isspace.c` knows the blank only. -/
def isspace (letter : Char) : Bool := letter == ' '

/-- The loop of `execute_cmd`: each word becomes an argument, the blanks behind it become
terminators. In a line of blanks the one argument is the empty string. -/
def splitArgs : Nat → List Char → List (List Char)
  | 0, _ => []
  | _ + 1, [] => []
  | limit + 1, letter :: rest =>
      let text := (letter :: rest).dropWhile isspace
      text.takeWhile (!isspace ·) ::
        splitArgs limit ((text.dropWhile (!isspace ·)).dropWhile isspace)

/-- The two case conversions in `strcasecmp`. -/
def lower (letter : Char) : Char :=
  if 'A' ≤ letter ∧ letter ≤ 'Z' then Char.ofNat (letter.toNat + 32) else letter

/-- Whether `strcasecmp` returns 0. -/
def strcasecmpEq : List Char → List Char → Bool
  | first :: rest, first' :: rest' => lower first == lower first' && strcasecmpEq rest rest'
  | [], [] => true
  | _, _ => false

inductive Builtin where
  | doCat | doCd | doCopyfile | doDump | doExit | doHelp | doLoadmem | doLs
  | doMkdirShel | doRenameShel | doDelete | doRmdir | doRun | doSave | doShst
  | doTime | doUptime | doWritemem | doWritemem1 | doReceiver
  deriving DecidableEq, Repr

structure CmdEntry where
  name : List Char
  minArgs : Nat
  maxArgs : Nat
  function : Builtin
  deriving DecidableEq, Repr

def gCmdTable : List CmdEntry :=
  [⟨"cat".toList, 1, 1, .doCat⟩, ⟨"cd".toList, 1, 1, .doCd⟩, ⟨"cp".toList, 2, 2, .doCopyfile⟩,
    ⟨"dump".toList, 2, 2, .doDump⟩, ⟨"exit".toList, 0, 0, .doExit⟩,
    ⟨"help".toList, 0, 0, .doHelp⟩, ⟨"loadmem".toList, 1, 2, .doLoadmem⟩,
    ⟨"ls".toList, 0, 1, .doLs⟩, ⟨"mkdir".toList, 1, 1, .doMkdirShel⟩,
    ⟨"mv".toList, 2, 2, .doRenameShel⟩, ⟨"rm".toList, 1, 1, .doDelete⟩,
    ⟨"rmdir".toList, 1, 1, .doRmdir⟩, ⟨"run".toList, 1, 1, .doRun⟩,
    ⟨"save".toList, 3, 3, .doSave⟩, ⟨"shst".toList, 0, 0, .doShst⟩,
    ⟨"time".toList, 0, 6, .doTime⟩, ⟨"uptime".toList, 0, 0, .doUptime⟩,
    ⟨"writemem".toList, 2, 0, .doWritemem⟩, ⟨"writemem1".toList, 2, 0, .doWritemem1⟩,
    ⟨"recv".toList, 0, 0, .doReceiver⟩]

/-- A function of the table and the arguments it gets. -/
structure Call where
  function : Builtin
  argv : List (List Char)
  deriving DecidableEq, Repr

/-- `process_command_builtin`, with the call it makes. A drive such as `1:` is none, and
neither is a wrong number of arguments. -/
def processCommandBuiltin (args : List (List Char)) : Option Call :=
  let name := args.headD []
  -- in an empty name the second character is left over from an earlier line, and no entry matches
  if args.length = 1 ∧ name.getD 1 '\x00' = ':' then none
  else
    (gCmdTable.find? fun cmd => strcasecmpEq name cmd.name).bind fun cmd =>
      let argc := args.length - 1
      if cmd.minArgs ≤ argc ∧ (cmd.maxArgs = 0 ∨ argc ≤ cmd.maxArgs) then
        some { function := cmd.function, argv := args.tail }
      else none

/-- `execute_cmd`, as far as it calls a function of the table. -/
def executeCmd (linebuffer : List Char) : Option Call :=
  if linebuffer.head? = some '\x1b' then none
  else
    let args := splitArgs MAXARGS linebuffer
    if args = [] then none else processCommandBuiltin args

/-! ## The arrays of the commands -/

inductive LocalArray where
  | arquivo | text | mkdirPath | rmdirPath
  deriving DecidableEq, Repr

def LocalArray.size : LocalArray → Nat
  | .arquivo => 16
  | .text => 64
  | .mkdirPath => 128
  | .rmdirPath => 128

def doCat (argv : List (List Char)) (arquivo : Local) : Local := arquivo.sprintf (argv.headD [])

def doWritemem1 (argv : List (List Char)) (text : Local) : Local :=
  if argv.length < 2 then text
  else (text.memcpy (argv.headD [])).store (argv.headD []).length ['\x00']

/-- `path[0] - 0x11` for a drive letter, which `display_prompt` made of the drive's digit. -/
def driveDigit (letter : Char) : Char :=
  if 'A' ≤ letter ∧ letter ≤ 'I' then Char.ofNat (letter.toNat - 0x11) else letter

/-- The current path and its separator, as `do_mkdir_shel` and `do_rmdir` begin. With an empty
`syspath` the test reads the byte below the array. -/
def startPath (syspath : List Char) (below : Char) (path : Local) : Local :=
  let path := path.memset '\x00' 128
  let path := path.strcpy syspath
  let last := if syspath.length = 0 then below else path.cells (syspath.length - 1)
  if last ≠ '/' then path.store path.strlen ['/'] else path

/-- The drive's letter becomes its digit again. -/
def placeDigit (path : Local) : Local :=
  if 'A' ≤ path.cells 0 ∧ path.cells 0 ≤ 'I' then path.store 0 [driveDigit (path.cells 0)]
  else path

def formatPath (syspath : List Char) (below : Char) (argument : List Char) (path : Local) : Local :=
  placeDigit ((startPath syspath below path).strcat argument)

def doMkdirShel (syspath : List Char) (below : Char) (argv : List (List Char)) : Local → Local :=
  formatPath syspath below (argv.headD [])

def doRmdir (syspath : List Char) (below : Char) (argv : List (List Char)) : Local → Local :=
  formatPath syspath below (argv.headD [])

/-- The array a call formats into, if any, over what the stack holds. -/
def Call.format (call : Call) (syspath : List Char) (below : Char) (stack : Nat → Char) :
    Option (LocalArray × Local) :=
  let array := Local.initial stack
  match call.function with
  | .doCat => some (.arquivo, doCat call.argv array)
  | .doWritemem1 => some (.text, doWritemem1 call.argv array)
  | .doMkdirShel => some (.mkdirPath, doMkdirShel syspath below call.argv array)
  | .doRmdir => some (.rmdirPath, doRmdir syspath below call.argv array)
  | _ => none

end OrionBios.Commands
