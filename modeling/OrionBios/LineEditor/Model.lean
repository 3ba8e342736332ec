import OrionBios.Libc.Stores
import Mathlib.Data.Int.DivMod

/-!
# The line editor of the BIOS shell

`readline_with_history` reads the bytes of a line one by one, with backspace and two keys that
walk the history; `history_add` keeps each line in a circular table. The table is seen as memory
around its first cell, so that an index outside of it has a meaning too, and every cell of the
table and of the line buffer that is read or written is kept.
-/

namespace OrionBios.LineEditor

open Buffers Libc

def HIST_SIZE : Nat := 16
def LINE_MAX : Nat := 128

def KEY_UP : Char := '\x10'
def KEY_DOWN : Char := '\x11'
def KEY_BS : Char := '\x08'
def KEY_ENTER : Char := '\x0d'

inductive Access where
  | line (offset : Nat)
  | history (cell : Int)
  deriving DecidableEq, Repr

def Access.Inside : Access → Prop
  | .line offset => offset < LINE_MAX
  | .history cell => 0 ≤ cell ∧ cell < HIST_SIZE * LINE_MAX

/-- The value of an `int`. -/
def int32 (value : Int) : Int := value.bmod (2 ^ 32)

structure Editor where
  history : Int → Char
  histCount : Int
  histCursor : Int
  buf : Nat → Char
  len : Nat
  touched : List Access

namespace Editor

/-- `history[idx]`. -/
def row (editor : Editor) (idx : Int) (column : Nat) : Char :=
  editor.history (idx * LINE_MAX + column)

/-- Stores a text at the start of `history[idx]`. -/
def storeRow (history : Int → Char) (idx : Int) (text : List Char) (cell : Int) : Char :=
  if idx * LINE_MAX ≤ cell then text.getD (cell - idx * LINE_MAX).toNat (history cell)
  else history cell

def touchRow (idx : Int) (count : Nat) : List Access :=
  (List.range count).map fun column : Nat => .history (idx * LINE_MAX + column)

def touchLine (count : Nat) : List Access := (List.range count).map .line

/-- The string at the start of some cells, and its length. -/
def strlen (cells : Nat → Char) : Nat := Local.strlenFrom cells (2 ^ 32) 0

def string (cells : Nat → Char) : List Char := bufferRead cells 0 (strlen cells)

def store (editor : Editor) (offset : Nat) (letter : Char) : Editor :=
  { editor with
    buf := bufferWrite editor.buf offset [letter]
    touched := editor.touched ++ [.line offset] }

def slot (editor : Editor) : Int :=
  (int32 (editor.histCount - 1 - editor.histCursor + HIST_SIZE)).tmod HIST_SIZE

/-- `redraw_line`, `strcpy` and `strlen` of the recalled line. -/
def showRecalled (editor : Editor) : Editor :=
  let text := string (editor.row editor.slot)
  let buf := bufferWrite editor.buf 0 (text ++ ['\x00'])
  { editor with
    buf := buf
    len := strlen buf
    touched := editor.touched ++ touchRow editor.slot (text.length + 1) ++
      touchLine (text.length + 1) ++ touchLine (strlen buf + 1) }

/-- `strncpy` of this library stores its whole count, the terminator or not. -/
def historyAdd (editor : Editor) : Editor :=
  if editor.buf 0 = '\x00' then { editor with touched := editor.touched ++ touchLine 1 }
  else
    let idx := editor.histCount.tmod HIST_SIZE
    { editor with
      history := storeRow editor.history idx (bufferRead editor.buf 0 (LINE_MAX - 1) ++ ['\x00'])
      histCount := int32 (editor.histCount + 1)
      histCursor := -1
      touched := editor.touched ++ touchLine (LINE_MAX - 1) ++ touchRow idx LINE_MAX }

/-- The beginning of `readline_with_history`. -/
def start (editor : Editor) : Editor :=
  { editor.store 0 '\x00' with len := 0, histCursor := -1 }

/-- The loop of `readline_with_history` for a byte that does not end the line. -/
def key (editor : Editor) (c : Char) : Editor :=
  if c = KEY_BS then
    if 0 < editor.len then { editor.store (editor.len - 1) '\x00' with len := editor.len - 1 }
    else editor
  else if c = KEY_UP then
    if editor.histCursor + 1 < editor.histCount ∧ editor.histCursor + 1 < HIST_SIZE then
      showRecalled { editor with histCursor := editor.histCursor + 1 }
    else editor
  else if c = KEY_DOWN then
    if 0 < editor.histCursor then showRecalled { editor with histCursor := editor.histCursor - 1 }
    else if editor.histCursor = 0 then
      { editor.store 0 '\x00' with len := 0, histCursor := -1 }
    else editor
  else if editor.len < LINE_MAX - 1 then
    { (editor.store editor.len c).store (editor.len + 1) '\x00' with len := editor.len + 1 }
  else editor

/-- The rest of the loop, for the byte that does. -/
def enter (editor : Editor) : Editor := editor.store editor.len '\x00'

end Editor

/-- A byte from the terminal. Where it ends a line, the shell runs the line before it reads on,
and leaves something in the line buffer. -/
structure Received where
  byte : Char
  noNul : byte ≠ '\x00'
  left : Nat → Char

/-- The editor between two bytes, and the lines it has returned. -/
structure Session where
  editor : Editor
  lines : List (List Char)

def Session.step (session : Session) (received : Received) : Session :=
  if received.byte = KEY_ENTER then
    let ended := session.editor.enter
    { editor := Editor.start { ended.historyAdd with buf := received.left }
      lines := session.lines ++ [Editor.string ended.buf] }
  else { session with editor := session.editor.key received.byte }

/-- No line has been entered yet. -/
def Session.initial (history : Int → Char) (buf : Nat → Char) : Session where
  editor := Editor.start
    { history := history, histCount := 0, histCursor := -1, buf := buf, len := 0, touched := [] }
  lines := []

end OrionBios.LineEditor
