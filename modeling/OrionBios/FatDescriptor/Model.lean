import OrionBios.FatDescriptor.FatFs

/-!
# A FAT descriptor of the VFS

The position is kept three times: in the `File`, in the FatFs object, and as a size in
the private data. `fatRead`, `fatWrite` and `fatLseek` change one copy each in their
own way. `size_t`, `UINT` and `FSIZE_t` are 32-bit words.
-/

namespace OrionBios.FatDescriptor

def O_RDONLY : BitVec 32 := 0x01
def O_WRONLY : BitVec 32 := 0x02
def O_RDWR : BitVec 32 := 0x03
def O_CREAT : BitVec 32 := 0x04
def O_TRUNC : BitVec 32 := 0x08
def O_APPEND : BitVec 32 := 0x10

structure FatPrivate where
  fatFile : FIL
  mode : Byte
  size : BitVec 32

/-- An open `File` with its private data. -/
structure File where
  position : BitVec 32
  privateData : FatPrivate

namespace File

abbrev fil (file : File) : FIL := file.privateData.fatFile

end File

/-- The access mode that `fat_open` makes of its flags. -/
def fatMode (flags : BitVec 32) : Byte :=
  let mode : Byte := 0
  let mode := if flags &&& O_RDONLY ≠ 0 then mode ||| FA_READ else mode
  let mode := if flags &&& O_WRONLY ≠ 0 then mode ||| FA_WRITE else mode
  let mode := if flags &&& O_RDWR ≠ 0 then mode ||| (FA_READ ||| FA_WRITE) else mode
  let mode := if flags &&& O_CREAT ≠ 0 then mode ||| FA_CREATE_ALWAYS else mode
  let mode := if flags &&& O_TRUNC ≠ 0 then mode ||| FA_CREATE_ALWAYS else mode
  if flags &&& O_APPEND ≠ 0 then mode ||| FA_OPEN_APPEND else mode

def fatOpen (entry : Entry) (flags : BitVec 32) (fails : Bool) : Option File :=
  match f_open entry (fatMode flags) fails with
  | (.FR_OK, some fil) =>
    some
      { position := 0
        privateData := { fatFile := fil, mode := fatMode flags, size := f_size fil } }
  | _ => none

namespace File

def withFil (file : File) (fil : FIL) : File :=
  { file with privateData := { file.privateData with fatFile := fil } }

def advance (file : File) (bytes : BitVec 32) : File := { file with position := file.position + bytes }

def grow (file : File) : File :=
  if file.privateData.size < file.position then
    { file with privateData := { file.privateData with size := file.position } }
  else file

end File

/-- The result of a call is `none` for `-1`. -/
def fatRead (size : BitVec 32) (answer : Answer) (file : File) : Option (BitVec 32) × File :=
  let (result, bytes, fil) := f_read file.fil size answer
  if result ≠ .FR_OK then (none, file.withFil fil)
  else
    let bytesRead := BitVec.ofNat 32 bytes.length
    (some bytesRead, (file.withFil fil).advance bytesRead)

/-- `fat_write` goes to the end of the file first. -/
abbrev File.appending (file : File) : Prop := file.privateData.mode &&& FA_OPEN_APPEND ≠ 0

/-- The FatFs object before the write; the result of the seek is not looked at. -/
def seekToEnd (seek : Answer) (file : File) : FIL :=
  if file.appending then (f_lseek file.fil (f_size file.fil) seek).2 else file.fil

def fatWrite (buffer : List Byte) (seek answer : Answer) (file : File) :
    Option (BitVec 32) × File :=
  let (result, written, fil) := f_write (seekToEnd seek file) buffer answer
  if result ≠ .FR_OK then (none, file.withFil fil)
  else
    let bytesWritten := BitVec.ofNat 32 written
    (some bytesWritten, ((file.withFil fil).advance bytesWritten).grow)

/-- Where `fat_lseek` wants to go. -/
def seekTarget (offset : BitVec 32) (whence : Int) (file : File) : Option (BitVec 32) :=
  if whence = 0 then some offset
  else if whence = 1 then some (f_tell file.fil + offset)
  else if whence = 2 then some (file.privateData.size + offset)
  else none

/-- `d2` is what `flseek` finds in that register. -/
def fatLseek (offset : BitVec 32) (whence : Int) (d2 : BitVec 32) (answer : Answer) (file : File) :
    Option (BitVec 32) × File :=
  match seekTarget offset whence file with
  | none => (none, file)
  | some newPos =>
    let (result, fil) := flseek file.fil newPos d2 answer
    if result ≠ 0 then (none, file.withFil fil)
    else (some newPos, { file.withFil fil with position := newPos })

inductive Call where
  | read (size : BitVec 32) (answer : Answer)
  | write (buffer : List Byte) (seek answer : Answer)
  | lseek (offset : BitVec 32) (whence : Int) (d2 : BitVec 32) (answer : Answer)

def perform (file : File) : Call → Option (BitVec 32) × File
  | .read size answer => fatRead size answer file
  | .write buffer seek answer => fatWrite buffer seek answer file
  | .lseek offset whence d2 answer => fatLseek offset whence d2 answer file

def callStep (file : File) (call : Call) : Option File := some (perform file call).2

end OrionBios.FatDescriptor
