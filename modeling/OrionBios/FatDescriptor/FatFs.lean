import Mathlib.Algebra.Group.Nat.Defs
import Mathlib.Data.List.Basic

/-!
# A FatFs file object

What the FatFs calls on an open file are documented to do. The file system decides
whether a call meets a hard error, and how far a file can grow on a full disk; that is
the `Answer` a call is given. After a hard error the object refuses every call.
-/

namespace OrionBios.FatDescriptor

abbrev Byte := BitVec 8

inductive FRESULT where
  | FR_OK | FR_DISK_ERR | FR_INT_ERR | FR_DENIED | FR_NO_FILE
  deriving DecidableEq, Repr

def FA_READ : Byte := 0x01
def FA_WRITE : Byte := 0x02
def FA_CREATE_ALWAYS : Byte := 0x08
def FA_OPEN_ALWAYS : Byte := 0x10
def FA_SEEKEND : Byte := 0x20
def FA_OPEN_APPEND : Byte := 0x30

/-- An open file on a FAT volume: the pointer is in the file, and the size fits 32 bits. -/
structure FIL where
  flag : Byte
  err : FRESULT
  data : List Byte
  fptr : Nat
  within : fptr ≤ data.length
  small : data.length < 2 ^ 32

namespace FIL

def objsize (fp : FIL) : Nat := fp.data.length

end FIL

def f_tell (fp : FIL) : BitVec 32 := BitVec.ofNat 32 fp.fptr

def f_size (fp : FIL) : BitVec 32 := BitVec.ofNat 32 fp.objsize

/-- What the volume has to say about one call. -/
structure Answer where
  /-- A hard error, with the object it leaves. -/
  error : Option FIL
  /-- The size to which the file can grow. -/
  room : Nat
  /-- The bytes that an extension finds on the volume. -/
  filler : Nat → Byte

/-- The object after a hard error. -/
def abort (broken : FIL) : FIL := { broken with err := .FR_DISK_ERR }

/-- `FR_OK` with the bytes read, or the error. -/
def f_read (fp : FIL) (btr : BitVec 32) (answer : Answer) : FRESULT × List Byte × FIL :=
  if fp.err ≠ .FR_OK then (fp.err, [], fp)
  else if fp.flag &&& FA_READ = 0 then (.FR_DENIED, [], fp)
  else
    match answer.error with
    | some broken => (.FR_DISK_ERR, [], abort broken)
    | none =>
      let bytes := (fp.data.drop fp.fptr).take btr.toNat
      (.FR_OK, bytes,
        { fp with
          fptr := fp.fptr + bytes.length
          within := by
            have within := fp.within
            simp only [bytes, List.length_take, List.length_drop]
            omega })

/-- The bytes that are written: a FAT file stays below 4 GiB, and the disk may be full. -/
def accepted (fp : FIL) (buffer : List Byte) (room : Nat) : Nat :=
  min (min buffer.length (2 ^ 32 - 1 - fp.fptr)) (max room fp.objsize - fp.fptr)

/-- The file with `bytes` written at its pointer. -/
def overwritten (fp : FIL) (bytes : List Byte) : List Byte :=
  fp.data.take fp.fptr ++ bytes ++ fp.data.drop (fp.fptr + bytes.length)

theorem overwritten_length (fp : FIL) (bytes : List Byte) :
    (overwritten fp bytes).length = max fp.objsize (fp.fptr + bytes.length) := by
  have within := fp.within
  simp only [overwritten, List.length_append, List.length_take, List.length_drop, FIL.objsize]
  omega

theorem take_accepted_length (fp : FIL) (buffer : List Byte) (room : Nat) :
    (buffer.take (accepted fp buffer room)).length = accepted fp buffer room := by
  rw [List.length_take]
  unfold accepted
  omega

/-- `FR_OK` with the number of bytes written, or the error. -/
def f_write (fp : FIL) (buffer : List Byte) (answer : Answer) : FRESULT × Nat × FIL :=
  if fp.err ≠ .FR_OK then (fp.err, 0, fp)
  else if fp.flag &&& FA_WRITE = 0 then (.FR_DENIED, 0, fp)
  else
    match answer.error with
    | some broken => (.FR_DISK_ERR, 0, abort broken)
    | none =>
      let n := accepted fp buffer answer.room
      (.FR_OK, n,
        { fp with
          data := overwritten fp (buffer.take n)
          fptr := fp.fptr + n
          within := by
            rw [overwritten_length, take_accepted_length]
            exact Nat.le_max_right _ _
          small := by
            have small := fp.small
            have within := fp.within
            rw [overwritten_length, take_accepted_length]
            simp only [accepted, FIL.objsize]
            omega })

/-- Without write access the pointer is clipped at the size; with it the file is extended as far as
there is room. -/
def f_lseek (fp : FIL) (ofs : BitVec 32) (answer : Answer) : FRESULT × FIL :=
  if fp.err ≠ .FR_OK then (fp.err, fp)
  else
    match answer.error with
    | some broken => (.FR_DISK_ERR, abort broken)
    | none =>
      if inside : ofs.toNat ≤ fp.objsize then (.FR_OK, { fp with fptr := ofs.toNat, within := inside })
      else if fp.flag &&& FA_WRITE = 0 then
        (.FR_OK, { fp with fptr := fp.objsize, within := Nat.le_refl _ })
      else
        let reached := min ofs.toNat (max answer.room fp.objsize)
        (.FR_OK,
          { fp with
            data := fp.data ++ (List.range (reached - fp.objsize)).map answer.filler
            fptr := reached
            within := by
              simp only [FIL.objsize, List.length_append, List.length_map, List.length_range]
              omega
            small := by
              have small := fp.small
              have bound := ofs.isLt
              simp only [reached, FIL.objsize, List.length_append, List.length_map,
                List.length_range]
              omega })

/-! ## The trap for seeks -/

/-- What `do_lseek` adds the offset to. -/
def trapBase (whence : Int) (tell size : BitVec 32) : Option (BitVec 32) :=
  if whence = 0 then some 0
  else if whence = 1 then some tell
  else if whence = 2 then some size
  else none

/-- `do_lseek`; `long` is a 32-bit word that wraps. -/
def doLseek (argc : Int) (fp : FIL) (off : BitVec 32) (whence : Int) (answer : Answer) :
    Option (BitVec 32) × FIL :=
  if argc < 3 then (none, fp)
  else
    match trapBase whence (f_tell fp) (f_size fp) with
    | none => (none, fp)
    | some base =>
      let target := base + off
      if target.toInt < 0 then (none, fp)
      else
        let (result, fp) := f_lseek fp target answer
        if result ≠ .FR_OK then (none, fp) else (some (f_tell fp), fp)

/-- `flseek` of the file library: the trap takes its `whence` from D2, which nobody has set, and
what `do_lseek` returns is handed on as an `FRESULT`. -/
def flseek (fp : FIL) (offset d2 : BitVec 32) (answer : Answer) : BitVec 32 × FIL :=
  let (position, fp) := doLseek 3 fp offset d2.toInt answer
  (position.getD (-1), fp)

/-- An existing file, or none, below the size limit of the volume. -/
structure Entry where
  content : Option (List Byte)
  small : ∀ data, content = some data → data.length < 2 ^ 32

def opened (mode : Byte) (data : List Byte) (small : data.length < 2 ^ 32) : FIL :=
  { flag := mode
    err := .FR_OK
    data := data
    fptr := if mode &&& FA_SEEKEND = 0 then 0 else data.length
    within := by
      split
      · exact Nat.zero_le _
      · exact Nat.le_refl _
    small := small }

def f_open (entry : Entry) (mode : Byte) (fails : Bool) : FRESULT × Option FIL :=
  if fails then (.FR_DISK_ERR, none)
  else if mode &&& FA_CREATE_ALWAYS ≠ 0 then (.FR_OK, some (opened mode [] (by decide)))
  else
    match existing : entry.content with
    | some data => (.FR_OK, some (opened mode data (entry.small data existing)))
    | none =>
      if mode &&& FA_OPEN_ALWAYS ≠ 0 then (.FR_OK, some (opened mode [] (by decide)))
      else (.FR_NO_FILE, none)

end OrionBios.FatDescriptor
