import OrionBios.Vfs.ProgramName

/-!
# The command lines of the shell

A line is laid out as words and redirections with blanks between them. A file name may be
missing; what comes before the first redirection is the command part. From a layout follow the
characters of the line and, if no file name is missing, what the line asks for.
-/

namespace OrionBios.Vfs

open Libc

/-! ## Words -/

def Plain (letter : Char) : Prop := letter ∉ [' ', '<', '>', '\x00', '\n', '\x0d']

structure ShellWord where
  text : List Char
  nonempty : text ≠ []
  plain : ∀ letter ∈ text, Plain letter

def blanks (count : Nat) : List Char := List.replicate count ' '

/-- Words with blanks between them: one, and as many more as the number before the word says. -/
structure Words where
  first : ShellWord
  more : List (Nat × ShellWord)

def Words.render (words : Words) : List Char :=
  words.first.text ++ words.more.flatMap fun entry => blanks (entry.1 + 1) ++ entry.2.text

def Words.list (words : Words) : List (List Char) :=
  words.first.text :: words.more.map fun entry => entry.2.text

/-! ## Redirections -/

inductive OutputMode where
  | overwrite | append
  deriving DecidableEq, Repr

def OutputMode.operator : OutputMode → List Char
  | .overwrite => ['>']
  | .append => ['>', '>']

def OutputMode.toMode : OutputMode → RedirectMode
  | .overwrite => .overwrite
  | .append => .append

/-- A redirection: the blanks before and behind its operator, and the words behind it. The first
of these is the file name. -/
structure Redirect where
  gap : Nat
  inner : Nat
  target : Option Words

/-- What stands behind the operator. -/
def Redirect.rest (redirect : Redirect) : List Char :=
  blanks redirect.inner ++ (redirect.target.map Words.render).getD []

def Redirect.name (redirect : Redirect) : Option Path :=
  redirect.target.map fun words => words.first.text

/-- The words behind the file name, which belong to the command. -/
def Redirect.words (redirect : Redirect) : List (List Char) :=
  (redirect.target.map fun words => words.list.tail).getD []

/-- At most one redirection of the input and one of the output, in either order. -/
inductive Shape where
  | plain
  | input (source : Redirect)
  | output (mode : OutputMode) (sink : Redirect)
  | inputOutput (source : Redirect) (mode : OutputMode) (sink : Redirect)
  | outputInput (mode : OutputMode) (sink source : Redirect)

def Shape.render : Shape → List Char
  | .plain => []
  | .input source => blanks source.gap ++ '<' :: source.rest
  | .output mode sink => blanks sink.gap ++ mode.operator ++ sink.rest
  | .inputOutput source mode sink =>
    blanks source.gap ++ '<' :: (source.rest ++ blanks sink.gap ++ mode.operator ++ sink.rest)
  | .outputInput mode sink source =>
    blanks sink.gap ++ mode.operator ++ (sink.rest ++ blanks source.gap ++ '<' :: source.rest)

def Shape.words : Shape → List (List Char)
  | .plain => []
  | .input source => source.words
  | .output _ sink => sink.words
  | .inputOutput source _ sink => source.words ++ sink.words
  | .outputInput _ sink source => sink.words ++ source.words

/-! ## Lines -/

structure Layout where
  leading : Nat
  command : Option Words
  shape : Shape
  trailing : Nat
  /-- There is something to run. -/
  runs : (command.map Words.list).getD [] ++ shape.words ≠ []
  /-- The line is no comment. -/
  noComment : ∀ words, command = some words → words.first.text.head? ≠ some '#'

def Layout.render (layout : Layout) : List Char :=
  blanks layout.leading ++ (layout.command.map Words.render).getD [] ++ layout.shape.render ++
    blanks layout.trailing

def Layout.words (layout : Layout) : List (List Char) :=
  (layout.command.map Words.list).getD [] ++ layout.shape.words

/-- What a line asks for. -/
structure Request where
  words : List (List Char)
  input : Option Path
  output : Option (OutputMode × Path)

/-- `none` where a file name is missing. -/
def Layout.request (layout : Layout) : Option Request :=
  match layout.shape with
  | .plain => some { words := layout.words, input := none, output := none }
  | .input source =>
    source.name.map fun file => { words := layout.words, input := some file, output := none }
  | .output mode sink =>
    sink.name.map fun file => { words := layout.words, input := none, output := some (mode, file) }
  | .inputOutput source mode sink | .outputInput mode sink source =>
    source.name.bind fun file => sink.name.map fun file' =>
      { words := layout.words, input := some file, output := some (mode, file') }

/-! ## What is done for a line -/

/-- An open of a redirection's file with its outcome, and the run of the command. -/
inductive LineCall where
  | opens (path : Path) (flags : Nat) (fd : Option Nat)
  | runs (argv : List (List Char))
  deriving DecidableEq, Repr

/-- The input file is opened for reading, the output file in its mode, and the command is run if
both opens succeed. -/
def Request.outputCalls (request : Request) (s : State) : List LineCall :=
  match request.output with
  | none => [.runs request.words]
  | some (mode, path) =>
    match (vfsOpen path mode.toMode.flags s).1 with
    | none => [.opens path mode.toMode.flags none]
    | some fd => [.opens path mode.toMode.flags (some fd), .runs request.words]

def Request.calls (request : Request) (s : State) : List LineCall :=
  match request.input with
  | none => request.outputCalls s
  | some path =>
    match vfsOpen path O_RDONLY s with
    | (none, _) => [.opens path O_RDONLY none]
    | (some fd, s) => .opens path O_RDONLY (some fd) :: request.outputCalls (aliasFd 0 fd s)

/-- The calls of `executeRedirected`, up to the command. -/
def redirectedCalls (found : Redirections) (s : State) : List LineCall :=
  if found.mode = .none then [.runs found.words]
  else
    match (vfsOpen found.redirectFile found.mode.flags s).1 with
    | none => [.opens found.redirectFile found.mode.flags none]
    | some fd => [.opens found.redirectFile found.mode.flags (some fd), .runs found.words]

def foundCalls (found : Redirections) (s : State) : List LineCall :=
  match found.inputFile with
  | none => if found.words = [] then [] else redirectedCalls found s
  | some path =>
    match vfsOpen path O_RDONLY s with
    | (none, _) => [.opens path O_RDONLY none]
    | (some fd, s) =>
      .opens path O_RDONLY (some fd) ::
        if found.words = [] then [] else redirectedCalls found (aliasFd 0 fd s)

/-- The calls `executeLine` makes for the redirections and the command. -/
def executeCalls (line stack : List Char) (s : State) : List LineCall :=
  match scanLine line stack with
  | .empty => []
  | .heredoc => []
  | .redirections found => foundCalls found s

/-- The names that FatFs refuses and a wrong layout leads to: none at all, or one that begins with
`<`. Left out are the other names `create_name` refuses: with such a character further behind, with
another that it rejects, or too long for it. -/
def InvalidName (path : Path) : Prop := path = [] ∨ path.head? = some '<'

/-- What FatFs answered is right about such names. -/
def RefusesInvalid (calls : List LineCall) : Prop :=
  ∀ path flags fd, .opens path flags fd ∈ calls → InvalidName path → fd = none

/-! ## What is examined of a line -/

/-- The offsets a string function examines from a pointer on, up to the terminator. -/
def stringReads (array : List Char) (offset : Nat) : List Nat :=
  List.range' offset ((cString array offset).length + 1)

/-- The blanks before a file name, and its string. -/
def trimReads (array : List Char) (offset : Nat) : List Nat :=
  List.range' offset (skipSpaces array offset - offset + 1) ++
    stringReads array (skipSpaces array offset)

/-- What `scanOutput` examines. After a `>>` the search for `>` is made all the same. -/
def scanOutputReads (array : List Char) : List Nat :=
  stringReads array 0 ++
    match strstr (cString array 0) ">>".toList with
    | some position =>
      trimReads (array.set position '\x00') (position + 2) ++ stringReads (scanOutput array).2.2 0
    | none =>
      match strstr (cString array 0) ">".toList with
      | some position =>
        (position + 1) ::
          if array.getD (position + 1) '\x00' ≠ '>' then
            trimReads (array.set position '\x00') (position + 1)
          else []
      | none => []

def scanInputReads (array : List Char) : List Nat :=
  stringReads array 0 ++
    match strstr (cString array 0) "<".toList with
    | some position =>
      (position + 1) ::
        if array.getD (position + 1) '\x00' ≠ '<' then trimReads array (position + 1) else []
    | none => []

/-- The offsets of the copied line that steps 1 and 2 examine; its terminator stands at its
length. -/
def examined (line stack : List Char) : List Nat :=
  let line := cleanLine line
  if line = [] ∨ line.head? = some '#' then [0]
  else
    let array := line ++ '\x00' :: stack
    stringReads array 0 ++
      if (strstr (cString array 0) "<<".toList).isSome then []
      else
        let cut := (scanOutput array).2.2
        scanOutputReads array ++ scanInputReads cut ++ trimReads (scanInput cut).2 0

structure Followed (layout : Layout) : Prop where
  inside : ∀ stack, ∀ offset ∈ examined layout.render stack,
    offset ≤ (cleanLine layout.render).length
  followed : ∀ request, layout.request = some request →
    ∀ stack s, executeCalls layout.render stack s = request.calls s
  /-- A missing file name is an error, and the command is not run. -/
  refused : layout.request = none →
    ∀ stack s, RefusesInvalid (executeCalls layout.render stack s) →
      (executeLine layout.render stack s).1 = -1 ∧
        ∀ argv, .runs argv ∉ executeCalls layout.render stack s

/-- And the array it is copied to holds it, with its terminator. -/
structure Served (layout : Layout) : Prop where
  copied : (cleanLine layout.render).length < 256
  followed : Followed layout

end OrionBios.Vfs
