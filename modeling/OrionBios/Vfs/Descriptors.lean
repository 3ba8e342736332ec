import Mathlib.Data.List.Basic
import Mathlib.Logic.Function.Basic

/-!
# The VFS descriptor table and its heap objects

The state is the descriptor table, the heap blocks the VFS owns and the FatFs
files it has open. A pointer is a heap address, `none` for NULL. Everything the
VFS does not decide itself (whether an allocation succeeds, what FatFs answers)
is read from an outcome stream, one entry for each question asked.
-/

namespace OrionBios.Vfs

abbrev Path := List Char

/-- The driver whose operations an open function stores in a `File`. -/
inductive Driver where
  | fat | tty | null | zero | serial | meminfo | cpuinfo | uptime
  deriving DecidableEq, Repr

structure File where
  name : Option Nat
  privateData : Option Nat
  /-- The operation pointers; `none` after the `memset` of `vfs_open`. -/
  ops : Option Driver
  deriving DecidableEq, Repr

/-- What a heap block holds. -/
inductive Object where
  | file (file : File)
  | text (chars : List Char)
  | fil
  | fatPrivate (fatFile : Nat) (mode : Nat)
  | procData (data : Option Nat)
  deriving DecidableEq, Repr

def Object.isFile : Object → Bool
  | .file _ => true
  | _ => false

structure State where
  outcome : Nat → Bool
  asked : Nat
  nextAddr : Nat
  heap : List (Nat × Object)
  /-- The FIL objects FatFs holds open, with the path and mode they were opened with. -/
  fatOpened : List (Nat × Path × Nat)
  fdTable : Nat → Option Nat
  fdCount : Int
  uptime : Nat

/-! ## Heap -/

def ask (s : State) : Bool × State :=
  (s.outcome s.asked, { s with asked := s.asked + 1 })

def lookup (s : State) (address : Nat) : Option Object :=
  (s.heap.find? (·.1 = address)).map (·.2)

/-- `malloc` of a block whose first contents are given. -/
def malloc (object : Object) (s : State) : Option Nat × State :=
  match ask s with
  | (true, s) =>
      (some s.nextAddr, { s with nextAddr := s.nextAddr + 1, heap := (s.nextAddr, object) :: s.heap })
  | (false, s) => (none, s)

def storeHeap (address : Nat) (object : Object) (heap : List (Nat × Object)) :
    List (Nat × Object) :=
  heap.map fun entry => if entry.1 = address then (address, object) else entry

def store (address : Nat) (object : Object) (s : State) : State :=
  { s with heap := storeHeap address object s.heap }

def freeHeap (pointer : Option Nat) (heap : List (Nat × Object)) : List (Nat × Object) :=
  heap.filter fun entry => some entry.1 ≠ pointer

def free (pointer : Option Nat) (s : State) : State :=
  { s with heap := freeHeap pointer s.heap }

/-! ## Descriptor numbers -/

def setFd (fd : Nat) (file : Option Nat) (s : State) : State :=
  { s with fdTable := Function.update s.fdTable fd file }

def allocateFd (file : Nat) (s : State) : Option Nat × State :=
  match (List.range' 3 253).find? fun fd => s.fdTable fd = none with
  | some fd => (some fd, { setFd fd (some file) s with fdCount := s.fdCount + 1 })
  | none => (none, s)

def getFileFromFd (fd : Nat) (s : State) : Option Nat :=
  if fd < 256 then s.fdTable fd else none

def freeFd (fd : Nat) (s : State) : State :=
  if fd < 256 then { setFd fd none s with fdCount := s.fdCount - 1 } else s

/-! ## Opening through FatFs -/

def O_RDONLY : Nat := 0x01
def O_WRONLY : Nat := 0x02
def O_RDWR : Nat := 0x03
def O_CREAT : Nat := 0x04
def O_TRUNC : Nat := 0x08
def O_APPEND : Nat := 0x10

def FA_READ : Nat := 0x01
def FA_WRITE : Nat := 0x02
def FA_CREATE_ALWAYS : Nat := 0x08
def FA_OPEN_APPEND : Nat := 0x30

/-- The FatFs mode `fat_open` derives from the flags. -/
def fatMode (flags : Nat) : Nat :=
  let mode := 0
  let mode := if flags &&& O_RDONLY ≠ 0 then mode ||| FA_READ else mode
  let mode := if flags &&& O_WRONLY ≠ 0 then mode ||| FA_WRITE else mode
  let mode := if flags &&& O_RDWR ≠ 0 then mode ||| (FA_READ ||| FA_WRITE) else mode
  let mode := if flags &&& O_CREAT ≠ 0 then mode ||| FA_CREATE_ALWAYS else mode
  let mode := if flags &&& O_TRUNC ≠ 0 then mode ||| FA_CREATE_ALWAYS else mode
  if flags &&& O_APPEND ≠ 0 then mode ||| FA_OPEN_APPEND else mode

/-- `fopen` of libfileio: FatFs decides, and remembers the FIL it opened. -/
def fopen (fatFile : Nat) (path : Path) (mode : Nat) (s : State) : Bool × State :=
  match ask s with
  | (true, s) => (true, { s with fatOpened := (fatFile, path, mode) :: s.fatOpened })
  | (false, s) => (false, s)

def closeFil (fatFile : Nat) (opened : List (Nat × Path × Nat)) : List (Nat × Path × Nat) :=
  opened.filter fun entry => entry.1 ≠ fatFile

def fclose (fatFile : Nat) (s : State) : State :=
  { s with fatOpened := closeFil fatFile s.fatOpened }

/-- `fat_open`: `true` for the return value 0. The name stays as `vfs_open` stored it. -/
def fatOpen (file : Nat) (name : Option Nat) (path : Path) (flags : Nat) (s : State) :
    Bool × State :=
  match malloc .fil s with
  | (none, s) => (false, s)
  | (some fatFile, s) =>
    match fopen fatFile path (fatMode flags) s with
    | (false, s) => (false, free (some fatFile) s)
    | (true, s) =>
      match malloc (.fatPrivate fatFile (fatMode flags)) s with
      | (none, s) => (false, free (some fatFile) (fclose fatFile s))
      | (some priv, s) =>
        (true, store file (.file { name := name, privateData := some priv, ops := some .fat }) s)

/-! ## Opening through the driver table -/

def procText (driver : Driver) (uptime : Nat) : List Char :=
  match driver with
  | .meminfo =>
      "MemTotal: 1024 KB\nMemFree:  512 KB\nMemUsed:  512 KB\nMemAvail: 256 KB\n".toList
  | .cpuinfo =>
      ("CPU:       Motorola 68000\nClock:     8 MHz\nFeatures:  FPU (sim)\n" ++
        "Cores:     1\nFamily:    m68k\n").toList
  | .uptime => (toString uptime ++ " seconds\n").toList
  | _ => []

/-- The static counter of `proc_uptime_open`. -/
def countUptime (driver : Driver) (s : State) : State :=
  { s with uptime := if driver = .uptime then s.uptime + 10 else s.uptime }

/-- The common part of the three `proc_*_open` functions. -/
def procOpen (driver : Driver) (file : Nat) (name : Option Nat) (s : State) : Bool × State :=
  match malloc (.procData none) s with
  | (none, s) => (false, s)
  | (some data, s) =>
    let s := countUptime driver s
    let (text, s) := malloc (.text (procText driver s.uptime)) s
    let s := store data (.procData text) s
    (true, store file (.file { name := name, privateData := some data, ops := some driver }) s)

/-- The `open` member of a driver. -/
def Driver.open (driver : Driver) (file : Nat) (name : Option Nat) (s : State) : Bool × State :=
  match driver with
  | .meminfo | .cpuinfo | .uptime => procOpen driver file name s
  | _ => (true, store file (.file { name := name, privateData := none, ops := some driver }) s)

def drivers : List (Path × Driver) :=
  [("/dev/tty".toList, .tty), ("/dev/null".toList, .null), ("/dev/zero".toList, .zero),
    ("/dev/serial0".toList, .serial), ("/proc/meminfo".toList, .meminfo),
    ("/proc/cpuinfo".toList, .cpuinfo), ("/proc/uptime".toList, .uptime)]

/-- The driver loop of `vfs_open`; a driver that fails, or a full descriptor table,
lets the loop go on. -/
def openDriver (file : Nat) (name : Option Nat) (path : Path) :
    List (Path × Driver) → State → Option Nat × State
  | [], s => (none, s)
  | (driverPath, driver) :: rest, s =>
    if path = driverPath then
      match driver.open file name s with
      | (true, s) =>
        match allocateFd file s with
        | (some fd, s) => (some fd, s)
        | (none, s) => openDriver file name path rest s
      | (false, s) => openDriver file name path rest s
    else openDriver file name path rest s

def vfsOpen (path : Path) (flags : Nat) (s : State) : Option Nat × State :=
  match malloc (.file { name := none, privateData := none, ops := none }) s with
  | (none, s) => (none, s)
  | (some file, s) =>
    let (name, s) := malloc (.text path) s
    let s := store file (.file { name := name, privateData := none, ops := none }) s
    match fatOpen file name path flags s with
    | (true, s) =>
      match allocateFd file s with
      | (some fd, s) => (some fd, s)
      | (none, s) => (none, free (some file) (free name s))
    | (false, s) =>
      match openDriver file name path drivers s with
      | (some fd, s) => (some fd, s)
      | (none, s) => (none, free (some file) (free name s))

/-! ## Closing -/

def fatClose (privateData : Option Nat) (s : State) : State :=
  match privateData with
  | none => s
  | some priv =>
    match lookup s priv with
    | some (.fatPrivate fatFile _) => free (some priv) (free (some fatFile) (fclose fatFile s))
    | _ => s

def procClose (privateData : Option Nat) (s : State) : State :=
  match privateData with
  | none => s
  | some data =>
    match lookup s data with
    | some (.procData text) => free (some data) (free text s)
    | _ => s

/-- The `close` member of a driver. -/
def Driver.close (driver : Driver) (privateData : Option Nat) (s : State) : State :=
  match driver with
  | .fat => fatClose privateData s
  | .meminfo | .cpuinfo | .uptime => procClose privateData s
  | _ => s

/-- `vfs_close`. A descriptor whose `File` was already freed has no operations left to
call here; on the board that call reads freed memory. -/
def vfsClose (fd : Nat) (s : State) : State :=
  match getFileFromFd fd s with
  | none => s
  | some file =>
    match lookup s file with
    | some (.file { name, privateData, ops }) =>
      let s := match ops with
        | some driver => driver.close privateData s
        | none => s
      freeFd fd (free (some file) (free name s))
    | _ => freeFd fd (free (some file) s)

/-! ## Initialisation -/

/-- Moves an opened descriptor to its standard number. -/
def moveFd (fd target : Nat) (s : State) : State :=
  if fd ≠ target then
    { setFd fd none (setFd target (s.fdTable fd) s) with fdCount := s.fdCount - 1 }
  else s

/-- `vfs_init`; `none` where an open failed and `fd_table[-1]` would be read. -/
def vfsInit (s : State) : Option State :=
  let s := { s with fdTable := fun _ => none, fdCount := 0 }
  let (fd0, s) := vfsOpen "/dev/tty".toList O_RDWR s
  let (fd1, s) := vfsOpen "/dev/tty".toList O_RDWR s
  let (fd2, s) := vfsOpen "/dev/tty".toList O_RDWR s
  match fd0, fd1, fd2 with
  | some fd0, some fd1, some fd2 => some (moveFd fd2 2 (moveFd fd1 1 (moveFd fd0 0 s)))
  | _, _, _ => none

/-- The VFS before `vfs_init`, with an empty heap and all its outcomes still to come. -/
def boot (outcome : Nat → Bool) : State where
  outcome := outcome
  asked := 0
  nextAddr := 1
  heap := []
  fatOpened := []
  fdTable := fun _ => none
  fdCount := 0
  uptime := 0

end OrionBios.Vfs
