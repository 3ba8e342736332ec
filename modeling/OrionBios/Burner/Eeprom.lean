import OrionBios.Burner.Program
import Mathlib.Logic.Function.Basic
import Mathlib.Data.List.Basic

/-!
# Two AT28C256

The chips of the even and of the odd bytes. A chip takes a page load after its unlock writes; when
no more writes come it is busy for the time of its write cycle, takes no writes, and returns a
wrong value for the last byte written.
-/

namespace OrionBios.Burner

inductive Half
  | low
  | high
  deriving DecidableEq

/-- The chip of an address. -/
def half (addr : Nat) : Half := if addr % 2 = 0 then .low else .high

def address (which : Half) (addr : Nat) : Nat := 2 * addr + if which = .low then 0 else 1

structure Chip where
  cells : Nat → Byte
  /-- The unlock writes seen; after three of them the chip takes a page load. -/
  unlocked : Nat
  /-- The byte written last in the load or in the cycle. -/
  last : Option Nat
  /-- What is left of the write cycle. -/
  busy : Nat
  cycles : Nat

def AT28_PAGE_BYTES : Nat := 64

def unlockSequence : List (Nat × Byte) := [(0x5555, 0xAA), (0x2AAA, 0x55), (0x5555, 0xA0)]

namespace Chip

def write (addr : Nat) (value : Byte) (chip : Chip) : Chip :=
  if 0 < chip.busy then chip
  else if chip.unlocked = 3 then
    { chip with cells := Function.update chip.cells addr value, last := some addr }
  else if unlockSequence[chip.unlocked]? = some (addr, value) then
    { chip with unlocked := chip.unlocked + 1, last := none }
  else { chip with unlocked := 0 }

/-- A load in another page than the one before it. -/
def crosses (addr : Nat) (chip : Chip) : Bool :=
  chip.unlocked == 3 &&
    chip.last.any fun last => last / AT28_PAGE_BYTES != addr / AT28_PAGE_BYTES

/-- No more writes come: a load ends, and its write cycle begins. -/
def close (duration : Nat → Nat) (chip : Chip) : Chip :=
  if chip.unlocked = 3 then
    { chip with unlocked := 0, busy := duration chip.cycles, cycles := chip.cycles + 1 }
  else chip

/-- What a read returns. In the cycle bit 7 of the last byte is complemented. -/
def value (chip : Chip) (addr : Nat) : Byte :=
  if 0 < chip.busy ∧ chip.last = some addr then chip.cells addr ^^^ 0x80 else chip.cells addr

def age (ticks : Nat) (chip : Chip) : Chip := { chip with busy := chip.busy - ticks }

end Chip

/-- The two chips, and whether a load has crossed a page and whether a write has come while a chip
was in its cycle. -/
structure Bank where
  chips : Half → Chip
  crossed : Bool
  interrupted : Bool

/-- The time of every write cycle and of every progress line, in accesses. -/
structure Timing where
  cycle : Half → Nat → Nat
  drawing : Label → Nat → Nat

namespace Bank

def busy (bank : Bank) : Bool :=
  decide (0 < (bank.chips .low).busy ∨ 0 < (bank.chips .high).busy)

def age (ticks : Nat) (bank : Bank) : Bank :=
  { bank with chips := fun which => (bank.chips which).age ticks }

def close (timing : Timing) (bank : Bank) : Bank :=
  { bank with chips := fun which => (bank.chips which).close (timing.cycle which) }

def write (addr : Nat) (value : Byte) (bank : Bank) : Bank :=
  let written : Bank :=
    { chips := Function.update bank.chips (half addr)
        ((bank.chips (half addr)).write (addr / 2) value)
      crossed := bank.crossed || (bank.chips (half addr)).crosses (addr / 2)
      interrupted := bank.interrupted || bank.busy }
  written.age 1

def value (bank : Bank) (addr : Nat) : Byte := (bank.chips (half addr)).value (addr / 2)

def read (timing : Timing) (addr : Nat) (bank : Bank) : Byte × Bank :=
  ((bank.close timing).value addr, (bank.close timing).age 1)

def content (bank : Bank) (addr : Nat) : Byte := (bank.chips (half addr)).cells (addr / 2)

def rested (memory : Nat → Byte) : Bank where
  chips := fun which =>
    { cells := fun addr => memory (address which addr), unlocked := 0, last := none,
      busy := 0, cycles := 0 }
  crossed := false
  interrupted := false

end Bank

/-- The EEPROM as the program meets it. -/
def eeprom (timing : Timing) : Device Bank where
  read := Bank.read timing
  write := Bank.write
  draw := fun label current _ => Bank.age (timing.drawing label current)

/-! ## Addresses -/

theorem half_two_mul (addr : Nat) : half (2 * addr) = .low := by
  rw [half, if_pos (by omega)]

theorem half_two_mul_add_one (addr : Nat) : half (2 * addr + 1) = .high := by
  rw [half, if_neg (by omega)]

theorem half_eq_half {a b : Nat} : half a = half b ↔ a % 2 = b % 2 := by
  unfold half
  split <;> split <;> simp <;> omega

@[simp] theorem address_half (addr : Nat) : address (half addr) (addr / 2) = addr := by
  unfold address half
  split <;> simp <;> omega

@[simp] theorem address_div (which : Half) (addr : Nat) : address which addr / 2 = addr := by
  unfold address
  split <;> omega

@[simp] theorem Bank.rested_content (memory : Nat → Byte) (addr : Nat) :
    (Bank.rested memory).content addr = memory addr := by
  change memory (address (half addr) (addr / 2)) = memory addr
  rw [address_half]

/-! ## Time -/

@[simp] theorem Chip.age_zero (chip : Chip) : chip.age 0 = chip := rfl

@[simp] theorem Chip.age_age (chip : Chip) (a b : Nat) : (chip.age a).age b = chip.age (a + b) := by
  simp only [Chip.age, Nat.sub_sub]

@[simp] theorem Bank.age_zero (bank : Bank) : bank.age 0 = bank := rfl

@[simp] theorem Bank.age_age (bank : Bank) (a b : Nat) : (bank.age a).age b = bank.age (a + b) := by
  simp only [Bank.age, Chip.age_age]

@[simp] theorem Bank.age_content (bank : Bank) (ticks : Nat) :
    (bank.age ticks).content = bank.content := rfl

@[simp] theorem Bank.age_busy (bank : Bank) (ticks : Nat) (which : Half) :
    ((bank.age ticks).chips which).busy = (bank.chips which).busy - ticks := rfl

@[simp] theorem Bank.age_cycles (bank : Bank) (ticks : Nat) (which : Half) :
    ((bank.age ticks).chips which).cycles = (bank.chips which).cycles := rfl

@[simp] theorem Bank.age_last (bank : Bank) (ticks : Nat) (which : Half) :
    ((bank.age ticks).chips which).last = (bank.chips which).last := rfl

/-- No chip is in a load or among its unlock writes. -/
def Bank.Closed (bank : Bank) : Prop := ∀ which, (bank.chips which).unlocked = 0

theorem Bank.Closed.close {bank : Bank} (closed : bank.Closed) (timing : Timing) :
    bank.close timing = bank := by
  have same : ∀ which, (bank.chips which).close (timing.cycle which) = bank.chips which := by
    intro which
    rw [Chip.close, closed which, if_neg (by decide)]
  simp only [Bank.close, same]

theorem Bank.Closed.age {bank : Bank} (closed : bank.Closed) (ticks : Nat) :
    (bank.age ticks).Closed := closed

theorem interrupted_keeps (timing : Timing) :
    (eeprom timing).Keeps fun bank => bank.interrupted = true where
  read := fun _ _ before => before
  write := fun addr value bank before => by
    change (bank.interrupted || bank.busy) = true
    rw [before, Bool.true_or]
  draw := fun _ _ _ _ before => before

theorem Bank.write_interrupted {bank : Bank} {which : Half}
    (running : 0 < (bank.chips which).busy) (addr : Nat) (value : Byte) :
    (bank.write addr value).interrupted = true := by
  change (bank.interrupted || bank.busy) = true
  have busy : bank.busy = true := by
    cases which with
    | low => exact decide_eq_true (.inl running)
    | high => exact decide_eq_true (.inr running)
  rw [busy, Bool.or_true]

theorem Chip.age_idle {chip : Chip} (idle : chip.busy = 0) (ticks : Nat) :
    chip.age ticks = chip := by
  cases chip with
  | mk cells unlocked last busy cycles =>
    dsimp only at idle
    subst idle
    simp [Chip.age]

end OrionBios.Burner
