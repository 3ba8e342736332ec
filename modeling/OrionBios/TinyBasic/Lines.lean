import OrionBios.Buffers.Overlap
import OrionBios.TinyBasic.Evaluator

/-!
# Lines of the program

How the interpreter takes a line from the keyboard and merges it into the program, and how `LIST`
prints the program. Places in the memory count from `program_start`, which is even; `sp` is the
place behind the whole memory, from where the digits of a line number are pushed.
-/

namespace OrionBios.TinyBasic

open Buffers

def CR : Byte := 0x0D

def PS2_ESC : Byte := 0x1B

def CTRLH : Byte := 0x08

def DQUOTE : Byte := 0x22

def SQUOTE : Byte := 0x27

abbrev Cells := Nat → Byte

/-- The memory between `program_start` and `variables_begin`, and where the program in it ends. -/
structure Store where
  cells : Cells
  programEnd : Nat

/-! ## The line that is entered -/

/-- `getln`, with the keys that are pressed while `txtpos` is at such a place. It leaves the line in
the memory, or the program with `PS2_ESC`. -/
def getln (variablesBegin programEnd : Nat) : List Byte → Nat → Cells → Option Cells
  | [], _, _ => none
  | c :: keys, txtpos, cells =>
    if c = PS2_ESC then none
    else if c = NL ∨ c = CR then some (Function.update cells txtpos NL)
    else if c = CTRLH then
      if txtpos = programEnd then getln variablesBegin programEnd keys txtpos cells
      else getln variablesBegin programEnd keys (txtpos - 1) cells
    else if txtpos = variablesBegin - 2 then getln variablesBegin programEnd keys txtpos cells
    else getln variablesBegin programEnd keys (txtpos + 1) (Function.update cells txtpos c)

/-- `toUppercaseBuffer`, from the character at `c` on. -/
def toUppercaseBuffer : (fuel : Nat) → Cells → (c : Nat) → (quote : Byte) → Option Cells
  | 0, _, _, _ => none
  | fuel + 1, cells, c, quote =>
    if cells c = NL then some cells
    else if cells c = quote then toUppercaseBuffer fuel cells (c + 1) 0
    else if cells c = DQUOTE ∨ cells c = SQUOTE then
      toUppercaseBuffer fuel cells (c + 1) (cells c)
    else if quote = 0 ∧ byte 'a' ≤ cells c ∧ cells c ≤ byte 'z' then
      toUppercaseBuffer fuel
        (Function.update cells c (cells c + byte 'A' - byte 'a')) (c + 1) quote
    else toUppercaseBuffer fuel cells (c + 1) quote

/-- `while(*txtpos != NL) txtpos++;` -/
def findNL (cells : Cells) : (fuel : Nat) → (txtpos : Nat) → Option Nat
  | 0, _ => none
  | fuel + 1, txtpos => if cells txtpos = NL then some txtpos else findNL cells fuel (txtpos + 1)

/-- The loop of `testnum`. -/
def testnumLoop (num : Nat) : Text → Nat × Text
  | [] => (num, [])
  | c :: rest =>
    if isDigit c then
      if 0xFFFF / 10 ≤ num then (0xFFFF, c :: rest)
      else testnumLoop (num * 10 + c.toNat - 48) rest
    else (num, c :: rest)

def testnum (text : Text) : Nat × Text := testnumLoop 0 (skipBlanks text)

/-! ## Lines in the memory -/

def lineNumber (cells : Cells) (line : Nat) : Nat :=
  (cells line).toNat * 256 + (cells (line + 1)).toNat

/-- `findline`, from the line at `line` on. -/
def findline (cells : Cells) (programEnd linenum : Nat) : (fuel : Nat) → (line : Nat) → Option Nat
  | 0, _ => none
  | fuel + 1, line =>
    if line = programEnd then some line
    else if linenum ≤ lineNumber cells line then some line
    else findline cells programEnd linenum fuel (line + (cells (line + 2)).toNat)

/-- A line at the end of the memory that waits to be merged. -/
structure Waiting where
  cells : Cells
  txtpos : Nat
  linelen : Nat

def withHeader (cells : Cells) (line linenum linelen : Nat) : Cells :=
  Function.update
    (Function.update (Function.update cells line (BitVec.ofNat 8 (linenum / 256)))
      (line + 1) (BitVec.ofNat 8 linenum))
    (line + 2) (BitVec.ofNat 8 linelen)

/-- The line gets its header in front of its text, on an even place. `linelen` is a byte. -/
def addHeader (linenum length : Nat) (cells : Cells) (txtpos : Nat) : Waiting :=
  let linelen := (length + 1 + 3) % 256
  let start := txtpos - 3
  if start % 2 = 0 then ⟨withHeader cells start linenum linelen, start, linelen⟩
  else
    let start := start - 1
    let linelen := (linelen + 1) % 256
    let count := start + linelen - 1 - (start + 3)
    let moved := movePieces 1 count cells (start + 3) (start + 3 + 1)
    ⟨withHeader moved start linenum linelen, start, linelen⟩

/-- The line at `start` is removed. A line that is longer than the program does not end. -/
def removeLine (s : Store) (start : Nat) : Option Store :=
  let src := start + (s.cells (start + 2)).toNat
  if s.programEnd < src then none
  else some ⟨movePieces 1 (s.programEnd - src) s.cells start src, start + (s.programEnd - src)⟩

def makePlace (cells : Cells) (programEnd start linenum : Nat) : Option Store :=
  if start ≠ programEnd ∧ lineNumber cells start = linenum then removeLine ⟨cells, programEnd⟩ start
  else some ⟨cells, programEnd⟩

/-- The waiting line takes its place in the program. -/
def mergeLine (fuel programEnd linenum : Nat) (line : Waiting) : Option Store := do
  let start ← findline line.cells programEnd linenum fuel 0
  let s ← makePlace line.cells programEnd start linenum
  if s.cells (line.txtpos + 3) = NL then pure s
  else
    let (cells, newEnd) ← shuffle fuel s.cells start s.programEnd line.txtpos line.linelen
    pure ⟨cells, newEnd⟩

/-- Where the interpreter goes from the line that it was given. -/
inductive Outcome where
  | prompt
  | direct
  | qhow
  | qwhat
  | warmstart
  deriving DecidableEq, Repr

/-- The text that the keys of a line make, in capitals and at the end of the memory. -/
def readLine (fuel variablesBegin : Nat) (keys : List Byte) (s : Store) :
    Option (Cells × Text) := do
  let start := s.programEnd + 2
  let cells ← getln variablesBegin s.programEnd keys start s.cells
  let cells ← toUppercaseBuffer fuel cells start 0
  let last ← findNL cells fuel start
  let count := last + 1 - start
  let cells := moveBack count cells variablesBegin (last + 1)
  pure (cells, bufferRead cells (variablesBegin - count) count)

/-- What `loop` does with the keys of one line, from the prompt on. -/
def enterLine (fuel variablesBegin : Nat) (keys : List Byte) (s : Store) :
    Option (Outcome × Store) := do
  let (cells, txtpos) ← readLine fuel variablesBegin keys s
  let (linenum, rest) := testnum txtpos
  let text := skipBlanks rest
  if linenum = 0 then some (.direct, ⟨cells, s.programEnd⟩)
  else if linenum = 0xFFFF then some (.qhow, ⟨cells, s.programEnd⟩)
  else
    let length := (text.takeWhile fun c => c ≠ NL).length
    -- `linelen` goes round and round where there is no `NL` among 256 characters
    if 256 ≤ length then none
    else
      let line := addHeader linenum length cells (variablesBegin - text.length)
      let merged ← mergeLine fuel s.programEnd linenum line
      some (.prompt, merged)

/-! ## LIST and NEW -/

/-- The loop of `printnum` that pushes the digits, the last one first: the memory, `sp` and `digits`
behind it. -/
def pushDigits (cells : Cells) (sp num digits : Nat) : Cells × Nat × Nat :=
  let pushed := Function.update cells (sp - 1) (byte '0' + BitVec.ofNat 8 (num % 10))
  if more : 0 < num / 10 then pushDigits pushed (sp - 1) (num / 10) (digits + 1)
  else (pushed, sp - 1, digits + 1)
  termination_by num
  decreasing_by
    exact Nat.div_lt_self (Nat.pos_of_div_pos more) (by decide)

def popDigits (cells : Cells) : (digits : Nat) → (sp : Nat) → Text
  | 0, _ => []
  | digits + 1, sp => cells sp :: popDigits cells digits (sp + 1)

/-- What `printnum` prints of a number that is not negative, and the memory with the digits that
were on the stack. -/
def printnum (cells : Cells) (sp num : Nat) : Text × Cells :=
  let (pushed, top, digits) := pushDigits cells sp num 0
  (popDigits pushed digits top, pushed)

/-- The characters up to the `NL`, and its place. -/
def lineText (cells : Cells) : (fuel : Nat) → (listLine : Nat) → Option (Text × Nat)
  | 0, _ => none
  | fuel + 1, listLine =>
    if cells listLine = NL then some ([], listLine)
    else (lineText cells fuel (listLine + 1)).map fun rest => (cells listLine :: rest.1, rest.2)

/-- What `printline` prints, the next `list_line` and the memory. -/
def printline (fuel sp : Nat) (cells : Cells) (listLine : Nat) : Option (Text × Nat × Cells) := do
  let (number, cells) := printnum cells sp (lineNumber cells listLine)
  let (text, last) ← lineText cells fuel (listLine + 3)
  let next := last + 1
  pure (number ++ SPACE :: text ++ [NL], if next % 2 = 0 then next else next + 1, cells)

def printlines (fuel sp programEnd : Nat) : Nat → Cells → Nat → Option (Text × Cells)
  | 0, _, _ => none
  | rounds + 1, cells, listLine =>
    if listLine = programEnd then some ([], cells)
    else do
      let (text, next, cells) ← printline fuel sp cells listLine
      let (rest, cells) ← printlines fuel sp programEnd rounds cells next
      pure (text ++ rest, cells)

/-- `list`, with what stands behind the word `LIST`, and what it prints. -/
def list (fuel sp : Nat) (s : Store) (txtpos : Text) : Option ((Outcome × Text) × Store) := do
  let (linenum, rest) := testnum txtpos
  if charAt rest 0 ≠ NL then pure ((.qwhat, []), s)
  else
    let listLine ← findline s.cells s.programEnd linenum fuel 0
    let (printed, cells) ← printlines fuel sp s.programEnd fuel s.cells listLine
    pure ((.warmstart, printed), { s with cells := cells })

/-- `KW_NEW`, with what stands behind the word `NEW`. -/
def clear (s : Store) (txtpos : Text) : Outcome × Store :=
  if charAt txtpos 0 ≠ NL then (.qwhat, s) else (.prompt, { s with programEnd := 0 })

end OrionBios.TinyBasic
