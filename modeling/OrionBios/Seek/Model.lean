import OrionBios.FatDescriptor.Model

/-!
# Three ways to seek

Beside `fat_lseek` of the VFS and `do_lseek`, the trap of the BIOS for a FatFs object, this is
`proc_lseek`, for a text of `/proc`. All three add a 32-bit offset to a base. A result of `none`
stands for `-1`.
-/

namespace OrionBios.Seek

open FatDescriptor

/-! ## `/proc` -/

structure ProcData where
  /-- The text, or NULL where `strdup` found no memory. -/
  data : Option (List Byte)
  size : BitVec 32
  position : BitVec 32

/-- The end of the three `proc_*_open` functions. -/
def procOpen (text : List Byte) (duplicated : Bool) : ProcData where
  data := if duplicated then some text else none
  size := BitVec.ofNat 32 text.length
  position := 0

/-- The number of bytes that `proc_read` copies from its position on. -/
def toRead (size : BitVec 32) (data : ProcData) : BitVec 32 :=
  let available := data.size - data.position
  if size < available then size else available

def procRead (size : BitVec 32) (data : ProcData) : BitVec 32 × ProcData :=
  let toRead := toRead size data
  if toRead = 0 then (0, data) else (toRead, { data with position := data.position + toRead })

/-- Where `proc_lseek` wants to go. -/
def procTarget (offset : BitVec 32) (whence : Int) (data : ProcData) : Option (BitVec 32) :=
  if whence = 0 then some offset
  else if whence = 1 then some (data.position + offset)
  else if whence = 2 then some (data.size + offset)
  else none

def procLseek (offset : BitVec 32) (whence : Int) (data : ProcData) :
    Option (BitVec 32) × ProcData :=
  match procTarget offset whence data with
  | none => (none, data)
  | some newPos =>
    let newPos := if data.size < newPos then data.size else newPos
    (some newPos, { data with position := newPos })

inductive ProcCall where
  | read (size : BitVec 32)
  | lseek (offset : BitVec 32) (whence : Int)

def procStep (data : ProcData) : ProcCall → Option ProcData
  | .read size => some (procRead size data).2
  | .lseek offset whence => some (procLseek offset whence data).2

end OrionBios.Seek
