import OrionBios.PicoIde.DataPath
import OrionBios.PicoIde.Taskfile

/-!
# The disk on the bus, with a ledger

Here an interrupt handler is one step, and so is either half of a branch of core 1. The
ledger records for the command accepted last what it orders, the card as it was then,
the words that the 68k has moved since, and the calls of the SD driver. It only watches:
no step of the disk depends on it.
-/

namespace OrionBios.PicoIde

open Transition

structure Bus where
  firmware : Firmware
  /-- The register access that waits for its handler. -/
  access : Option Access

inductive Label where
  /-- The 68k begins a register access. -/
  | access (access : Access)
  | writeIsr
  | readIsr
  | event (event : Event)
  deriving DecidableEq, Repr

def busStep (s : Bus) : Label → Option Bus
  | .access access =>
    match s.access with
    | none => some { s with access := some access }
    | some _ => none
  | .writeIsr =>
    match s.access with
    | some (.write raw) => some { firmware := writeRegister raw s.firmware, access := none }
    | _ => none
  | .readIsr =>
    match s.access with
    | some (.read raw) => some { firmware := (readRegister raw s.firmware).2, access := none }
    | _ => none
  | .event event => (eventStep s.firmware event).map fun firmware => { s with firmware := firmware }

/-- An access of the register `addr`, with `data` on the bus. -/
def rawOf (addr : BitVec 3) (data : Byte) : Raw := addr.zeroExtend 32 <<< 16 ||| data.zeroExtend 32

/-! ## Orders -/

/-- The sectors a command is to move; IDENTIFY delivers one that the firmware composes. -/
inductive Kind where
  | none | read | write
  | identify (sdSectors : BitVec 32)
  deriving DecidableEq, Repr

structure Order where
  kind : Kind
  first : BitVec 32
  count : Nat
  deriving DecidableEq, Repr

def orderOf (cmd : Byte) (s : Firmware) : Order :=
  if cmd = IDE_CMD_READ_SECTORS then
    { kind := .read, first := currentLbaFromRegs s, count := (sectorCountFromReg s).toNat }
  else if cmd = IDE_CMD_WRITE_SECTORS then
    { kind := .write, first := currentLbaFromRegs s, count := (sectorCountFromReg s).toNat }
  else if cmd = IDE_CMD_IDENTIFY ∧ s.sdSectors ≠ 0 then
    { kind := .identify s.sdSectors, first := s.lba, count := 1 }
  else { kind := .none, first := s.lba, count := 0 }

namespace Order

def Delivers (order : Order) : Prop :=
  order.kind = .read ∨ (∃ sdSectors, order.kind = .identify sdSectors) ∧ order.count = 1

/-- The address of the sector `i` of an order. -/
def lba (order : Order) (i : Nat) : BitVec 32 := order.first + BitVec.ofNat 32 i

def sector (order : Order) (card : BitVec 32 → Sector) (i : Nat) : Sector :=
  match order.kind with
  | .identify sdSectors => buildIdentify sdSectors
  | _ => card (order.lba i)

/-- The words of the first sectors of an order. -/
def words (order : Order) (card : BitVec 32 → Sector) (sectors : Nat) : List Word :=
  (List.range sectors).flatMap fun i => sectorWords (order.sector card i)

/-- The sectors of the first calls of the SD driver that an order takes. -/
def calls (order : Order) (n : Nat) : List (BitVec 32) :=
  match order.kind with
  | .read | .write => (List.range n).map order.lba
  | _ => []

theorem words_succ (order : Order) (card : BitVec 32 → Sector) (sectors : Nat) :
    order.words card (sectors + 1) =
      order.words card sectors ++ sectorWords (order.sector card sectors) := by
  simp [words, List.range_succ]

theorem words_length (order : Order) (card : BitVec 32 → Sector) (sectors : Nat) :
    (order.words card sectors).length = 256 * sectors := by
  induction sectors with
  | zero => rfl
  | succ sectors inductionHypothesis =>
      rw [words_succ, List.length_append, inductionHypothesis, sectorWords_length]
      rfl

theorem calls_succ {order : Order} (kind : order.kind = .read ∨ order.kind = .write) (n : Nat) :
    order.calls (n + 1) = order.calls n ++ [order.lba n] := by
  rcases kind with kind | kind <;> simp [calls, kind, List.range_succ]

end Order

/-! ## What a write leaves on the card -/

/-- The sector made of the words at `256 * i` and behind. -/
def sectorOf (words : List Word) (i : Nat) : Sector :=
  received (words.drop (256 * i)) 256 fun _ => 0

/-- The card after the first sectors of a write. -/
def overwrite (card : BitVec 32 → Sector) (order : Order) (words : List Word) :
    Nat → BitVec 32 → Sector
  | 0 => card
  | i + 1 => Function.update (overwrite card order words i) (order.lba i) (sectorOf words i)

theorem received_sector (words : List Word) (sector sector' : Sector) :
    received words 256 sector = received words 256 sector' := by
  funext i
  simp only [received, i.isLt, if_true]

theorem sectorOf_append {words : List Word} (word : Word) {i : Nat}
    (enough : 256 * (i + 1) ≤ words.length) : sectorOf (words ++ [word]) i = sectorOf words i := by
  unfold sectorOf
  rw [List.drop_append_of_le_length (by omega)]
  apply received_append
  rw [List.length_drop]
  omega

theorem overwrite_append
    (card : BitVec 32 → Sector) (order : Order) {words : List Word} (word : Word) {sectors : Nat}
    (enough : 256 * sectors ≤ words.length) :
    overwrite card order (words ++ [word]) sectors = overwrite card order words sectors := by
  induction sectors with
  | zero => rfl
  | succ i inductionHypothesis =>
      rw [overwrite, overwrite, inductionHypothesis (by omega), sectorOf_append word enough]

/-! ## The ledger -/

structure Ledger where
  order : Order
  card : BitVec 32 → Sector
  /-- The words the 68k read from the data register, and those it wrote to it. -/
  taken : List Word
  given : List Word
  /-- The sectors of the calls of the SD driver, and those of the calls that failed. -/
  begun : List (BitVec 32)
  failures : List (BitVec 32)

def openLedger (order : Order) (card : BitVec 32 → Sector) : Ledger where
  order := order
  card := card
  taken := []
  given := []
  begun := []
  failures := []

def noOrder : Order where
  kind := .none
  first := 0
  count := 0

def recordCore1 (s : Firmware) (l : Ledger) (ok : Bool) : Ledger :=
  match s.core1 with
  | .testFetch => if s.needFetch then { l with begun := l.begun ++ [s.fetchLba] } else l
  | .testFlush => if s.needFlush then { l with begun := l.begun ++ [s.flushLba] } else l
  | .fetching _ lba | .flushing _ lba =>
    if ok then l else { l with failures := l.failures ++ [lba] }

def recordEvent (s : Firmware) (l : Ledger) : Event → Ledger
  | .readData => { l with taken := l.taken ++ s.dataTx.take 1 }
  | .writeData word => { l with given := l.given ++ [word] }
  | .core1 ok => recordCore1 s l ok
  | _ => l

/-- A command that arrives opens a new ledger. -/
def recordWrite (raw : Raw) (s : Firmware) (l : Ledger) : Ledger :=
  if rawAddr raw = IDE_REG_STATUS_CMD then openLedger (orderOf (rawData raw) s) s.card else l

def record (s : Bus) (l : Ledger) : Label → Ledger
  | .writeIsr =>
    match s.access with
    | some (.write raw) => recordWrite raw s.firmware l
    | _ => l
  | .event event => recordEvent s.firmware l event
  | _ => l

structure Recorded where
  bus : Bus
  ledger : Ledger

def recordedStep (s : Recorded) (label : Label) : Option Recorded :=
  (busStep s.bus label).map fun bus => { bus := bus, ledger := record s.bus s.ledger label }

theorem recordedStep_eq_some {s t : Recorded} {label : Label} :
    recordedStep s label = some t ↔
      busStep s.bus label = some t.bus ∧ t.ledger = record s.bus s.ledger label := by
  unfold recordedStep
  rw [Option.map_eq_some_iff]
  constructor
  · rintro ⟨bus, taken, rfl⟩
    exact ⟨taken, rfl⟩
  · rintro ⟨taken, ledger⟩
    refine ⟨t.bus, taken, ?_⟩
    rw [← ledger]

/-- The ledger only watches: every run of the disk is the run of a recorded disk. -/
theorem exec_recordedStep (s : Recorded) (labels : List Label) :
    (exec recordedStep s labels).map Recorded.bus = exec busStep s.bus labels := by
  induction labels generalizing s with
  | nil => rfl
  | cons label rest inductionHypothesis =>
      rw [exec_cons, exec_cons]
      cases taken : busStep s.bus label with
      | none => simp [recordedStep, taken]
      | some bus => simp [recordedStep, taken, inductionHypothesis]

end OrionBios.PicoIde
