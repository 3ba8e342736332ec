import OrionBios.FatDescriptor.FatFs
import OrionBios.Loader.Model

/-!
# Executables started by the shell

`load_elf_executable` reads the ELF header and then one program header after the other, loads each
segment when its header is read, and calls the entry point behind the last one. The memory is the
one the program is loaded to; the loader's own variables and those of FatFs lie apart from it.
-/

namespace OrionBios.Elf

open FatDescriptor (FIL Answer f_lseek f_read)
open Loader (Byte Half halfAt wordAt ProgramHeader)
open Machine

/-! ## The file -/

/-- Before each FatFs call `validate` asks the drive whether it is ready; a call it refuses leaves
the object as it is. -/
structure Reply where
  ready : Bool
  answer : Answer

/-- What the drive has to say about the seeks and the reads, and what a read that fails has stored
by then. -/
structure Medium where
  seeks : Nat → Reply
  reads : Nat → Reply
  stored : Nat → List Byte

structure State where
  fp : FIL
  /-- The seeks made so far, and the reads, each with a seek before it. -/
  calls : Nat
  memory : Memory

/-- `f_lseek`, whose result is not looked at. -/
def seek (medium : Medium) (ofs : Word) (s : State) : FIL :=
  let reply := medium.seeks s.calls
  if reply.ready then (f_lseek s.fp ofs reply.answer).2 else s.fp

/-- A seek and a read. The first value is that of `f_read(..) == FR_OK && bytesRead == btr`; the
bytes are those the read stored. -/
def fetch (medium : Medium) (ofs btr : Word) (s : State) : Bool × List Byte × State :=
  let fp := seek medium ofs s
  let reply := medium.reads s.calls
  let calls := s.calls + 1
  if reply.ready then
    match f_read fp btr reply.answer with
    | (result, bytes, fp) =>
      let s' := { s with fp := fp, calls := calls }
      if result = .FR_OK then (bytes.length == btr.toNat, bytes, s')
      else (false, (medium.stored s.calls).take btr.toNat, s')
  else (false, [], { s with fp := fp, calls := calls })

/-! ## Memory -/

def storeBytes (memory : Memory) (address : Address) (bytes : List Byte) : Memory :=
  fun other =>
    if Within address bytes.length other then bytes.getD (other - address).toNat 0
    else memory other

/-- `memset(address, 0, count)`. -/
def clearBytes (memory : Memory) (address : Address) (count : Nat) : Memory :=
  fun other => if Within address count other then 0 else memory other

/-! ## Headers -/

def PT_NULL : Word := 0
def PT_LOAD : Word := 1
def PT_DYNAMIC : Word := 2
def PT_INTERP : Word := 3
def PT_NOTE : Word := 4
def PT_SHLIB : Word := 5
def PT_PHDR : Word := 6
def PT_TLS : Word := 7

def ID_32BIT : Byte := 1
def ID_BIG_ENDIAN : Byte := 2
def ET_EXEC : Half := 2
def EM_68K : Half := 4

/-- The size of `elf32_header`, and of `elf32_program_header`. -/
def headerSize : Word := 52
def progHeaderSize : Word := 32

def headerAccepted (bytes : List Byte) : Bool :=
  (bytes.take 4 == [0x7F, 0x45, 0x4C, 0x46] && bytes.getD 6 0 == 1) &&
    (bytes.getD 4 0 == ID_32BIT && bytes.getD 5 0 == ID_BIG_ENDIAN &&
      bytes.getD 7 0 == 0 && bytes.getD 8 0 == 0) &&
    halfAt bytes 16 == ET_EXEC && halfAt bytes 18 == EM_68K

structure Header where
  entry : Word
  phoff : Word
  phentsize : Half
  phnum : Half

def Header.ofBytes (bytes : List Byte) : Header where
  entry := wordAt bytes 24
  phoff := wordAt bytes 28
  phentsize := halfAt bytes 42
  phnum := halfAt bytes 44

/-- `progIndex * header.phentsize + header.phoff`. -/
def Header.place (header : Header) (index : Nat) : Word :=
  BitVec.ofNat 32 index * header.phentsize.zeroExtend 32 + header.phoff

/-- What the `switch` does; a type without a case does nothing. -/
inductive Treatment where
  | skip | load | reject
  deriving DecidableEq, Repr

def treatment (type : Word) : Treatment :=
  if type = PT_NULL ∨ type = PT_NOTE ∨ type = PT_PHDR then .skip
  else if type = PT_SHLIB ∨ type = PT_DYNAMIC then .reject
  else if type = PT_LOAD then .load
  else if type = PT_INTERP then .reject
  else .skip

/-! ## The loader -/

def loadSegment (medium : Medium) (progHeader : ProgramHeader) (s : State) : Bool × State :=
  match fetch medium progHeader.offset progHeader.filesz s with
  | (whole, bytes, s) =>
    let memory := storeBytes s.memory progHeader.paddr bytes
    if whole then
      if progHeader.filesz < progHeader.memsz then
        (true, { s with
          memory := clearBytes memory (progHeader.paddr + progHeader.filesz)
            (progHeader.memsz - progHeader.filesz).toNat })
      else (true, { s with memory := memory })
    else (false, { s with memory := memory })

/-- The loop over the program headers, with so many left. -/
def loadSegments (medium : Medium) (header : Header) : Nat → State → Bool × State
  | 0, s => (true, s)
  | remaining + 1, s =>
      match fetch medium (header.place (header.phnum.toNat - (remaining + 1))) progHeaderSize s with
      | (whole, bytes, s) =>
        if whole then
          let progHeader := ProgramHeader.ofBytes bytes
          match treatment progHeader.type with
          | .skip => loadSegments medium header remaining s
          | .reject => (false, s)
          | .load =>
            match loadSegment medium progHeader s with
            | (true, s) => loadSegments medium header remaining s
            | (false, s) => (false, s)
        else (false, s)

def loadElfExecutable (medium : Medium) (s : State) : Option Word × State :=
  match fetch medium 0 headerSize s with
  | (whole, bytes, s) =>
    if whole && headerAccepted bytes then
      let header := Header.ofBytes bytes
      match loadSegments medium header header.phnum.toNat s with
      | (true, s) => (some header.entry, s)
      | (false, s) => (none, s)
    else (none, s)

end OrionBios.Elf
