import OrionBios.FatDescriptor.Coherence
import OrionBios.Machine.Memory

/-!
# The loader of position-independent programs

`load_pic_elf_standalone` reads a file piece by piece. Between two reads it is in a phase, which
holds the variables that are still needed; a read leads to the next phase, and to writes to the
memory from the base of the slot on. Where a read starts depends on what `flseek` finds in D2.
-/

namespace OrionBios.Loader

open Machine
open FatDescriptor (trapBase FIL Answer FA_WRITE Sought f_lseek_granted granted flseek_sought
  flseek_unsought)

abbrev Byte := BitVec 8

abbrev Half := BitVec 16

structure File where
  data : List Byte
  fptr : Nat

/-! ## Reading -/

/-- `flseek` leaves `whence` to D2, and its result is not looked at. -/
def flseek (file : File) (d2 offset : Word) : File :=
  match trapBase d2.toInt (BitVec.ofNat 32 file.fptr) (BitVec.ofNat 32 file.data.length) with
  | none => file
  | some base =>
    if (base + offset).toInt < 0 then file
    else { file with fptr := min (base + offset).toNat file.data.length }

/-- What becomes of a read: the file as it is, or an error after some bytes. -/
inductive Outcome where
  | ok
  | fails (bytes : Nat)

/-- The result of `fread` is FR_OK, and what is in the buffer (`bytesRead` counts it). -/
structure Read where
  ok : Bool
  bytes : List Byte

/-- The pointer goes where the library takes that of a FatFs file without write access. -/
theorem flseek_fptr {fp : FIL} {answer : Answer} (works : fp.err = .FR_OK)
    (noError : answer.error = none) (access : fp.flag &&& FA_WRITE = 0) (d2 offset : Word) :
    (flseek ⟨fp.data, fp.fptr⟩ d2 offset).fptr =
      (FatDescriptor.flseek fp offset d2 answer).2.fptr := by
  by_cases sought : ∃ base, Sought fp offset d2 base
  · obtain ⟨base, sought⟩ := sought
    have known : trapBase d2.toInt (BitVec.ofNat 32 fp.fptr) (BitVec.ofNat 32 fp.data.length) =
        some base := sought.known
    rw [flseek_sought sought, (f_lseek_granted (base + offset) works noError).2]
    unfold flseek granted
    rw [known]
    dsimp only
    rw [if_neg (Int.not_lt.mpr sought.positive), if_pos access]
    obtain inside | outside := Nat.le_total (base + offset).toNat fp.data.length
    · exact (Nat.min_eq_left inside).trans (if_pos inside).symm
    · rw [Nat.min_eq_right outside]
      split
      · next inside => exact Nat.le_antisymm outside inside
      · rfl
  · rw [flseek_unsought (not_exists.mp sought)]
    unfold flseek
    cases known : trapBase d2.toInt (BitVec.ofNat 32 fp.fptr) (BitVec.ofNat 32 fp.data.length) with
    | none => rfl
    | some base =>
        have negative : (base + offset).toInt < 0 :=
          Int.not_le.mp fun positive => sought ⟨base, known, positive⟩
        dsimp only
        rw [if_pos negative]

theorem flseek_data (file : File) (d2 offset : Word) :
    (flseek file d2 offset).data = file.data := by
  unfold flseek
  repeat' split
  all_goals rfl

def fread (file : File) (outcome : Outcome) (size : Nat) : Read × File :=
  let bytes := (file.data.drop file.fptr).take size
  match outcome with
  | .ok => (⟨true, bytes⟩, { file with fptr := file.fptr + bytes.length })
  | .fails count =>
    (⟨false, bytes.take count⟩, { file with fptr := file.fptr + (bytes.take count).length })

def Read.whole (read : Read) (size : Nat) : Bool := read.ok && read.bytes.length == size

def halfAt (bytes : List Byte) (place : Nat) : Half :=
  bytes.getD place 0 ++ bytes.getD (place + 1) 0

def wordAt (bytes : List Byte) (place : Nat) : Word :=
  halfAt bytes place ++ halfAt bytes (place + 2)

/-! ## Headers -/

structure ElfHeader where
  entry : Word
  phoff : Word
  shoff : Word
  phentsize : Half
  phnum : Half
  shentsize : Half
  shnum : Half
  shstrndx : Half

/-- The checks of the header, in the order of the code. -/
def ElfHeader.accepted (bytes : List Byte) : Bool :=
  (bytes.take 4 == [0x7F, 0x45, 0x4C, 0x46] && bytes.getD 6 0 == 1) &&
    (bytes.getD 4 0 == 1 && bytes.getD 5 0 == 2) &&
    halfAt bytes 0x10 == 2 && halfAt bytes 0x12 == 4

def ElfHeader.ofBytes (bytes : List Byte) : ElfHeader where
  entry := wordAt bytes 0x18
  phoff := wordAt bytes 0x1C
  shoff := wordAt bytes 0x20
  phentsize := halfAt bytes 0x2A
  phnum := halfAt bytes 0x2C
  shentsize := halfAt bytes 0x2E
  shnum := halfAt bytes 0x30
  shstrndx := halfAt bytes 0x32

structure ProgramHeader where
  type : Word
  offset : Word
  paddr : Word
  filesz : Word
  memsz : Word

def ProgramHeader.ofBytes (bytes : List Byte) : ProgramHeader where
  type := wordAt bytes 0
  offset := wordAt bytes 4
  paddr := wordAt bytes 12
  filesz := wordAt bytes 16
  memsz := wordAt bytes 20

def PT_LOAD : Word := 1

def PT_DYNAMIC : Word := 2

def PT_INTERP : Word := 3

def PT_SHLIB : Word := 5

structure SectionHeader where
  nameIdx : Word
  addr : Word
  offset : Word
  size : Word

def SectionHeader.ofBytes (bytes : List Byte) : SectionHeader where
  nameIdx := wordAt bytes 0
  addr := wordAt bytes 0x0C
  offset := wordAt bytes 0x10
  size := wordAt bytes 0x14

/-- Where the header of a section is in the file. -/
def ElfHeader.sectionAt (header : ElfHeader) (index : Word) : Word :=
  index * header.shentsize.setWidth 32 + header.shoff

def ElfHeader.programAt (header : ElfHeader) (index : Word) : Word :=
  index * header.phentsize.setWidth 32 + header.phoff

/-- `strncmp(name_buf, ".got", 4) == 0` -/
def isGot (name : List Byte) : Bool := name.take 4 == [0x2E, 0x67, 0x6F, 0x74]

/-- `strcmp(name_buf, ".rela.data") == 0` -/
def isRelaData (name : List Byte) : Bool :=
  name.takeWhile (· ≠ 0) == [0x2E, 0x72, 0x65, 0x6C, 0x61, 0x2E, 0x64, 0x61, 0x74, 0x61]

/-! ## Phases -/

/-- The variables of `load_pic_elf_standalone`, and the segments that it has loaded. -/
structure Locals where
  header : ElfHeader
  progIndex : Nat
  ptLoadSeen : Nat
  /-- `got_addr_saved` and `got_size_saved`, once a GOT was found. -/
  got : Option (Word × Word)
  segments : List ProgramHeader

/-- The variables of the loop of `find_got_section`. -/
structure Scan where
  minAddr : Word
  maxEnd : Word
  found : Bool

def Scan.add (scan : Scan) (addr size : Word) : Scan where
  minAddr := if addr < scan.minAddr then addr else scan.minAddr
  maxEnd := if addr + size > scan.maxEnd then addr + size else scan.maxEnd
  found := true

/-- What the loader does next. -/
inductive Phase where
  | header
  | programHeader (l : Locals)
  | segment (l : Locals) (progHeader : ProgramHeader)
  | gotStrings (l : Locals)
  | gotSection (l : Locals) (strtab : Word) (i : Nat) (scan : Scan)
  | gotName (l : Locals) (strtab : Word) (i : Nat) (scan : Scan) (sect : SectionHeader)
  | patchGot (l : Locals) (gotAddr gotSize : Word)
  | relaStrings (l : Locals)
  | relaSection (l : Locals) (strtab : Word) (i : Nat)
  | relaName (l : Locals) (strtab : Word) (i : Nat) (sect : SectionHeader)
  | relaEntry (l : Locals) (relaOffset : Word) (r numRelas : Nat)
  | call (l : Locals)
  | running (l : Locals)

inductive Next where
  | goes (phase : Phase)
  | fail
  /-- The processor refuses a word at an odd address. -/
  | addressError

/-- A write, at an offset from `task_base`. -/
inductive Effect where
  | write (offset : Word) (bytes : List Byte)
  | clear (offset : Word) (count : Nat)
  /-- `task_base` is added to a word. -/
  | add (offset : Word)

/-! ### The heads of the loops -/

def enter (l : Locals) : Next :=
  if l.progIndex < l.header.phnum.toNat then .goes (.programHeader l)
  else if l.ptLoadSeen = 2 then .goes (.call l)
  else .fail

/-- The end of the loop's body. -/
def continueWith (l : Locals) : Next := enter { l with progIndex := l.progIndex + 1 }

def loaded (l : Locals) : Next := continueWith { l with ptLoadSeen := l.ptLoadSeen + 1 }

def scanGot (l : Locals) (strtab : Word) (i : Nat) (scan : Scan) : Next :=
  if i < l.header.shnum.toNat then .goes (.gotSection l strtab i scan)
  else if scan.found then .goes (.patchGot l scan.minAddr (scan.maxEnd - scan.minAddr))
  else .goes (.relaStrings l)

def scanRela (l : Locals) (strtab : Word) (i : Nat) : Next :=
  if i < l.header.shnum.toNat then .goes (.relaSection l strtab i) else loaded l

def relaEntries (l : Locals) (relaOffset : Word) (r numRelas : Nat) : Next :=
  if r < numRelas then .goes (.relaEntry l relaOffset r numRelas) else loaded l

/-! ### One step -/

def SHDR_SIZE : Nat := 40

/-- The words that the patch of the GOT goes over. -/
def gotWords (gotAddr gotSize : Word) : List Word :=
  (List.range (gotSize.toNat / 4)).map fun w => gotAddr + BitVec.ofNat 32 (4 * w)

/-- Where a phase seeks to, and the bytes that it reads there. -/
def Phase.request : Phase → Option (Word × Nat)
  | .header => some (0, 52)
  | .programHeader l => some (l.header.programAt (BitVec.ofNat 32 l.progIndex), 32)
  | .segment _ progHeader => some (progHeader.offset, progHeader.filesz.toNat)
  | .gotStrings l | .relaStrings l =>
    some (l.header.sectionAt (l.header.shstrndx.setWidth 32), SHDR_SIZE)
  | .gotSection l _ i _ | .relaSection l _ i =>
    some (l.header.sectionAt (BitVec.ofNat 32 i), SHDR_SIZE)
  | .gotName _ strtab _ _ sect => some (strtab + sect.nameIdx, 9)
  | .relaName _ strtab _ sect => some (strtab + sect.nameIdx, 15)
  | .relaEntry _ relaOffset r _ => some (relaOffset + BitVec.ofNat 32 (r * 12), 12)
  | .patchGot .. | .call _ | .running _ => none

def Phase.read (phase : Phase) (file : File) (d2 : Word) (outcome : Outcome) : Read × File :=
  match phase.request with
  | none => (⟨true, []⟩, file)
  | some (offset, size) => fread (flseek file d2 offset) outcome size

/-- What follows a read. The bases of the slots are even. -/
def advance (read : Read) : Phase → Next × List Effect
  | .header =>
    if read.whole 52 && ElfHeader.accepted read.bytes then
      (enter ⟨.ofBytes read.bytes, 0, 0, none, []⟩, [])
    else (.fail, [])
  | .programHeader l =>
    let progHeader := ProgramHeader.ofBytes read.bytes
    if read.whole 32 then
      if progHeader.type = PT_LOAD then (.goes (.segment l progHeader), [])
      else if progHeader.type = PT_DYNAMIC ∨ progHeader.type = PT_SHLIB then (.fail, [])
      else if progHeader.type = PT_INTERP then (.fail, [])
      else (continueWith l, [])
    else (.fail, [])
  | .segment l progHeader =>
    let placed := Effect.write progHeader.paddr read.bytes
    if read.whole progHeader.filesz.toNat then
      let effects :=
        if progHeader.memsz > progHeader.filesz then
          [placed, .clear (progHeader.paddr + progHeader.filesz)
            (progHeader.memsz - progHeader.filesz).toNat]
        else [placed]
      let l := { l with segments := l.segments ++ [progHeader] }
      if l.ptLoadSeen = 1 then (.goes (.gotStrings l), effects) else (loaded l, effects)
    else (.fail, [placed])
  | .gotStrings l =>
    if read.whole SHDR_SIZE then
      (scanGot l (SectionHeader.ofBytes read.bytes).offset 0 ⟨0xFFFFFFFF, 0, false⟩, [])
    else (.goes (.relaStrings l), [])
  | .gotSection l strtab i scan =>
    if read.whole SHDR_SIZE then
      (.goes (.gotName l strtab i scan (.ofBytes read.bytes)), [])
    else (.goes (.relaStrings l), [])
  | .gotName l strtab i scan sect =>
    -- the result of this read is not looked at
    let scan := if isGot read.bytes then scan.add sect.addr sect.size else scan
    (scanGot l strtab (i + 1) scan, [])
  | .patchGot l gotAddr gotSize =>
    if gotWords gotAddr gotSize ≠ [] ∧ gotAddr.toNat % 2 = 1 then (.addressError, [])
    else
      (.goes (.relaStrings { l with got := some (gotAddr, gotSize) }),
        (gotWords gotAddr gotSize).map .add)
  | .relaStrings l =>
    if read.whole SHDR_SIZE then
      (scanRela l (SectionHeader.ofBytes read.bytes).offset 0, [])
    else (loaded l, [])
  | .relaSection l strtab i =>
    if read.whole SHDR_SIZE then
      (.goes (.relaName l strtab i (.ofBytes read.bytes)), [])
    else (scanRela l strtab (i + 1), [])
  | .relaName l strtab i sect =>
    if isRelaData read.bytes then (relaEntries l sect.offset 0 (sect.size.toNat / 12), [])
    else (scanRela l strtab (i + 1), [])
  | .relaEntry l relaOffset r numRelas =>
    -- only R_68K_32
    if read.whole 12 && wordAt read.bytes 4 &&& 0xFF == 1 then
      if (wordAt read.bytes 0).toNat % 2 = 1 then (.addressError, [])
      else (relaEntries l relaOffset (r + 1) numRelas, [.add (wordAt read.bytes 0)])
    else (relaEntries l relaOffset (r + 1) numRelas, [])
  | .call l => (.goes (.running l), [])
  | .running l => (.goes (.running l), [])

/-! ## Memory -/

/-- The bytes that an effect writes. -/
def Effect.Touches (base : Address) (address : Address) : Effect → Prop
  | .write offset bytes => Within (base + offset) bytes.length address
  | .clear offset count => Within (base + offset) count address
  | .add offset => Within (base + offset) 4 address

instance (base address : Address) (effect : Effect) : Decidable (effect.Touches base address) := by
  cases effect <;> dsimp only [Effect.Touches] <;> infer_instance

def Effect.run (base : Address) (effect : Effect) (memory : Memory) : Memory :=
  match effect with
  | .write offset bytes => fun address =>
    if Within (base + offset) bytes.length address then
      bytes.getD (address - (base + offset)).toNat 0
    else memory address
  | .clear offset count => fun address =>
    if Within (base + offset) count address then 0 else memory address
  | .add offset => store32 memory (base + offset) (load32 memory (base + offset) + base)

/-- Effects of one step, in their order. -/
def runAll (base : Address) (effects : List Effect) (memory : Memory) : Memory :=
  effects.foldl (fun memory effect => effect.run base memory) memory

theorem Effect.run_outside {base address : Address} {effect : Effect} {memory : Memory}
    (outside : ¬effect.Touches base address) :
    effect.run base memory address = memory address := by
  cases effect with
  | write offset bytes => exact if_neg outside
  | clear offset count => exact if_neg outside
  | add offset => exact store32_outside outside

end OrionBios.Loader
