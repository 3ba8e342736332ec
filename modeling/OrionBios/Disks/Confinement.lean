import OrionBios.Disks.Accesses
import Mathlib.Algebra.Group.Nat.Defs

/-!
# Confinement to the partition

A request stays in its partition when its sectors are those of the partition and their addresses
fit into the registers. The driver looks at neither.
-/

namespace OrionBios.Disks

open Machine Device

variable {d e : Device} {dev : Dev} {sector count : BitVec 32} {buffer : Sector} {pdrv : Byte}
  {p : Partition} {operation : Operation} {left : List Byte}

/-! ## Requests in a partition -/

/-- A request goes to its own sectors of the partition; if a part of it lies outside, it fails
without an access. -/
structure Confined (p : Partition) (operation : Operation) (sector : BitVec 32) (count : Nat)
    (before : Device) (result : Option Nat) (after : Device) : Prop where
  accesses : ∃ accessed : List Order,
    after.orders = accessed.reverse ++ before.orders ∧ accessed.length ≤ count ∧
      (result = some RES_OK → accessed.length = count) ∧
      ∀ i order, accessed[i]? = some order →
        order.operation = operation ∧ order.sectors = 1 ∧
          order.lba.toNat = p.base.toNat + sector.toNat + i ∧
          order.lba.toNat < p.base.toNat + p.size.toNat
  outside : (∃ i < count, p.size.toNat ≤ sector.toNat + i) →
    after = before ∧ ∃ code, result = some code ∧ code ≠ RES_OK

/-- The sectors are in the partition and their addresses are addresses of 28 bits. -/
def Fits (p : Partition) (sector : BitVec 32) (count : Nat) : Prop :=
  count = 0 ∨
    sector.toNat + count ≤ p.size.toNat ∧ p.base.toNat + sector.toNat + count ≤ 2 ^ 28

theorem lbaOf_sum (base sector : BitVec 32) (i : Nat) :
    (lbaOf (base + sector + (0 + BitVec.ofNat 32 i))).toNat =
      (base.toNat + sector.toNat + i) % 2 ^ 28 := by
  unfold lbaOf
  rw [BitVec.extractLsb'_toNat, Nat.shiftRight_zero, BitVec.toNat_add, BitVec.toNat_add,
    BitVec.toNat_add, BitVec.toNat_ofNat]
  show ((base.toNat + sector.toNat) % 2 ^ 32 + (0 + i % 2 ^ 32) % 2 ^ 32) % 2 ^ 32 % 2 ^ 28 = _
  omega

theorem confined_of_fits {result : Option Nat} {number : Nat} (fits : Fits p sector number)
    (accesses : Accesses operation (p.base + sector) 0 number result d e) :
    Confined p operation sector number d result e := by
  obtain ⟨accessed, atMost, orders, all⟩ := accesses
  refine ⟨⟨ordersFor operation (p.base + sector) 0 accessed, orders, ?_, ?_, ?_⟩, ?_⟩
  · rw [ordersFor_length]
    exact atMost
  · rw [ordersFor_length]
    exact all
  · intro i order given
    have less : i < accessed := by
      have inside := (List.getElem?_eq_some_iff.mp given).1
      rw [ordersFor_length] at inside
      exact inside
    rw [ordersFor_getElem? less] at given
    cases given
    have address : (orderFor operation (p.base + sector + (0 + BitVec.ofNat 32 i))).lba.toNat = _ :=
      lbaOf_sum p.base sector i
    unfold Fits at fits
    refine ⟨rfl, rfl, ?_, ?_⟩
    · rw [address]
      omega
    · rw [address]
      omega
  · rintro ⟨i, less, beyond⟩
    unfold Fits at fits
    omega

theorem fits_of_confined {number : Nat}
    (confined : Confined p operation sector number d (some RES_OK) e) : Fits p sector number := by
  have inside : ¬ ∃ i < number, p.size.toNat ≤ sector.toNat + i := by
    intro outside
    obtain ⟨-, code, same, fails⟩ := confined.outside outside
    exact fails (Option.some.inj same).symm
  obtain ⟨accessed, orders, -, whole, exact_⟩ := confined.accesses
  have length := whole rfl
  unfold Fits
  by_cases none : number = 0
  · exact .inl none
  have last : number - 1 < accessed.length := by omega
  obtain ⟨-, -, address, -⟩ := exact_ (number - 1) accessed[number - 1]
    (List.getElem?_eq_getElem last)
  have bound := (accessed[number - 1]).lba.isLt
  have most : sector.toNat + (number - 1) < p.size.toNat := by
    by_contra beyond
    exact inside ⟨number - 1, by omega, Nat.le_of_not_lt beyond⟩
  exact .inr ⟨by omega, by omega⟩

/-! ## A device that goes along with everything -/

/-- What an obliging device shows for one sector. -/
def obliging : Dev → Operation → List Byte
  | .ATA_DEV_MIDE, .write => List.replicate 517 0x58 ++ [0x50, 0x50]
  | .ATA_DEV_MIDE, _ => List.replicate 517 0x58
  | .ATA_DEV_PICOIDE, _ => [0x58, 0x50]

theorem wait_one {stop : Byte → Bool} {status : Byte} (stops : stop status = true) :
    IsWait stop [status] := ⟨[], status, rfl, nofun, stops⟩

theorem obliging_waits : ∀ wait ∈ List.replicate 512 [(0x58 : Byte)], IsWait notBusy wait :=
  fun _ among => List.eq_of_mem_replicate among ▸ wait_one rfl

theorem flatten_singles (status : Byte) (number : Nat) :
    (List.replicate number [status]).flatten = List.replicate number status := by
  rw [List.flatten_replicate_singleton]

def obligingWrite : MideShown where
  feature := [0x58]
  start := [0x58]
  checked := 0x58
  ready := [0x58]
  request := [0x58]
  waits := List.replicate 512 [0x58]
  ends := []
  ended := 0x50
  last := 0x50

theorem obligingWrite_sends : obligingWrite.Sends where
  feature := wait_one rfl
  start := wait_one rfl
  checked := rfl
  ready := wait_one rfl
  request := wait_one rfl
  waits := obliging_waits
  bytes := List.length_replicate
  ends := nofun
  ended := rfl

def obligingRead : MideRead where
  feature := [0x58]
  start := [0x58]
  checked := 0x58
  ready := [0x58]
  request := [0x58]
  waits := List.replicate 512 [0x58]

theorem obligingRead_sends : obligingRead.Sends where
  feature := wait_one rfl
  start := wait_one rfl
  checked := rfl
  ready := wait_one rfl
  request := wait_one rfl
  waits := obliging_waits
  bytes := List.length_replicate

theorem picoideWaitDrq_obliging (script : d.script = 0x58 :: left) :
    picoideWaitDrq devicePort d = (some 1, (d.told 0x58).withScript left) := by
  have found : drqOf 0x58 = some 1 := by decide
  exact picoideWaitDrq_returns.mpr ⟨[0x58], left, script, polled_last found 1999999, rfl⟩

theorem picoideWaitIdle_obliging (script : d.script = 0x50 :: left) :
    picoideWaitIdle devicePort d = (some 1, (d.told 0x50).withScript left) := by
  have found : idleOf 0x50 = some 1 := by decide
  exact picoideWaitIdle_returns.mpr ⟨[0x50], left, script, polled_last found 1999999, rfl⟩

theorem picoideSend_of {t u v : Device} {words : List Word}
    (drq : picoideWaitDrq devicePort d = (some 1, t))
    (sent : writeWords devicePort words t = (some (), u))
    (idle : picoideWaitIdle devicePort u = (some 1, v)) : picoideSend words d = (some 512, v) := by
  refine (Program.bind_of_returns drq).trans ?_
  rw [if_neg Nat.one_ne_zero]
  refine (Program.bind_of_returns sent).trans ?_
  refine (Program.bind_of_returns idle).trans ?_
  rw [if_neg Nat.one_ne_zero]
  rfl

theorem picoideReceive_of {t u v : Device} {words : List Word}
    (drq : picoideWaitDrq devicePort d = (some 1, t))
    (given : readWords devicePort 256 t = (some words, u))
    (idle : picoideWaitIdle devicePort u = (some 1, v)) :
    picoideReceive d = (some (512, words), v) := by
  refine (Program.bind_of_returns drq).trans ?_
  rw [if_neg Nat.one_ne_zero]
  refine (Program.bind_of_returns given).trans ?_
  refine (Program.bind_of_returns idle).trans ?_
  rw [if_neg Nat.one_ne_zero]
  rfl

theorem takeAll_script (sent : List Sent) : (d.takeAll sent).script = d.script := by
  have apart := congrArg Device.script (takeAll_withScript (d := d) d.script sent)
  exact apart

theorem writeOf_obliging (sector : BitVec 32) (buffer : Sector)
    (script : d.script = obliging dev .write ++ left) :
    ∃ e, writeOf dev sector buffer d = (some 512, e) ∧ e.script = left := by
  cases dev with
  | ATA_DEV_MIDE =>
    have own : obliging .ATA_DEV_MIDE .write = obligingWrite.script := by
      show List.replicate 517 0x58 ++ [0x50, 0x50] = [0x58] ++ ([0x58] ++ (0x58 :: ([0x58] ++ ([0x58] ++
        ((List.replicate 512 [0x58]).flatten ++ ([] ++ [0x50, 0x50]))))))
      rw [flatten_singles]
      rfl
    rw [own] at script
    exact ⟨_, mideWriteSector_sent.mpr ⟨obligingWrite, left, script, obligingWrite_sends, rfl⟩, rfl⟩
  | ATA_DEV_PICOIDE =>
    have drq : picoideWaitDrq devicePort (d.asked .write sector) = (some 1, _) :=
      picoideWaitDrq_obliging script
    have sent : writeWords devicePort (wordsOf buffer.val)
        (((d.asked .write sector).told 0x58).withScript (0x50 :: left)) = (some (), _) :=
      writeWords_wordsOf buffer.val (by rw [buffer.property]) _
    have idle := picoideWaitIdle_obliging (takeAll_script (unwatched buffer.val)
      (d := ((d.asked .write sector).told 0x58).withScript (0x50 :: left)))
    exact ⟨_, (picoideWriteSector_eq _ d).trans (picoideSend_of drq sent idle), rfl⟩

theorem readOf_obliging (sector : BitVec 32) (script : d.script = obliging dev .read ++ left) :
    ∃ bytes e, readOf dev sector d = (some (512, bytes), e) ∧ e.script = left := by
  cases dev with
  | ATA_DEV_MIDE =>
    have own : obliging .ATA_DEV_MIDE .read = obligingRead.script := by
      show List.replicate 517 0x58 = [0x58] ++ ([0x58] ++ (0x58 :: ([0x58] ++ ([0x58] ++
        (List.replicate 512 [0x58]).flatten))))
      rw [flatten_singles]
      rfl
    rw [own] at script
    exact ⟨_, _, mideReadSector_given.mpr ⟨obligingRead, left, script, obligingRead_sends, rfl, rfl⟩,
      rfl⟩
  | ATA_DEV_PICOIDE =>
    have drq : picoideWaitDrq devicePort (d.asked .read sector) = (some 1, _) :=
      picoideWaitDrq_obliging script
    obtain ⟨words, given, -⟩ := readWords_returns 256
      (((d.asked .read sector).told 0x58).withScript (0x50 :: left))
    have idle := picoideWaitIdle_obliging (giveAll_script (List.replicate (2 * 256) [])
      (d := ((d.asked .read sector).told 0x58).withScript (0x50 :: left)))
    have received := (picoideReadSector_eq d).trans (picoideReceive_of drq given idle)
    exact ⟨bytesOf words, _, Program.bind_of_returns received, rfl⟩

/-- What an obliging device shows for the sectors of a request. -/
def obligingScript (dev : Dev) (operation : Operation) (number : Nat) : List Byte :=
  (List.replicate number (obliging dev operation)).flatten

theorem obligingScript_succ (dev : Dev) (operation : Operation) (number : Nat) :
    obligingScript dev operation (number + 1) =
      obliging dev operation ++ obligingScript dev operation number := by
  unfold obligingScript
  rw [List.replicate_succ, List.flatten_cons]

theorem sectorsWritten_obliging (physicalSector i : BitVec 32) {buff : List Sector}
    (script : d.script = obligingScript dev .write buff.length) :
    ∃ e, sectorsWritten (writeOf dev) physicalSector i buff d = (some RES_OK, e) := by
  induction buff generalizing i d with
  | nil => exact ⟨d, rfl⟩
  | cons buffer rest inductionHypothesis =>
    rw [List.length_cons, obligingScript_succ] at script
    obtain ⟨t, first, left⟩ := writeOf_obliging (physicalSector + i) buffer script
    obtain ⟨e, others⟩ := inductionHypothesis (i + 1) left
    exact ⟨e, sectorsWritten_cons_ok.mpr ⟨512, t, first, nofun, others⟩⟩

theorem sectorsRead_obliging (physicalSector i : BitVec 32) {number : Nat}
    (script : d.script = obligingScript dev .read number) :
    ∃ read e, sectorsRead (readOf dev) physicalSector i number d = (some (RES_OK, read), e) := by
  induction number generalizing i d with
  | zero => exact ⟨[], d, rfl⟩
  | succ number inductionHypothesis =>
    rw [obligingScript_succ] at script
    obtain ⟨bytes, t, first, left⟩ := readOf_obliging (physicalSector + i) script
    obtain ⟨rest, e, others⟩ := inductionHypothesis (i + 1) left
    refine ⟨bytes :: rest, e, (Program.bind_of_returns first).trans ?_⟩
    exact Program.bind_of_returns others

/-! ## Requests of the file system -/

/-- What a request for a partition of a drive does to both devices. -/
def ConfinedRun (p : Partition) (operation : Operation) (sector : BitVec 32) (number : Nat)
    (dev : Dev) (s : System) (result : Option Nat) (t : System) : Prop :=
  Confined p operation sector number (s.on dev) result (t.on dev) ∧
    ∀ other, other ≠ dev → t.on other = s.on other

/-- A read of these sectors is confined, whatever its device shows. -/
def ReadConfined (pdrv : Byte) (sector count : BitVec 32) (p : Partition) : Prop :=
  ∀ dev s, pdrvAtaDev pdrv = some dev → s.drives dev 0 = p →
    ConfinedRun p .read sector count.toNat dev s ((diskRead pdrv sector count s).1.map Prod.fst)
      (diskRead pdrv sector count s).2

def WriteConfined (pdrv : Byte) (sector count : BitVec 32) (p : Partition) : Prop :=
  ∀ dev s (buff : List Sector), pdrvAtaDev pdrv = some dev → s.drives dev 0 = p →
    buff.length = count.toNat →
    ConfinedRun p .write sector count.toNat dev s (diskWrite pdrv sector buff s).1
      (diskWrite pdrv sector buff s).2

theorem pdrvAtaDev_some : (∃ dev, pdrvAtaDev pdrv = some dev) ↔ pdrv < 2 := by
  unfold pdrvAtaDev
  constructor
  · rintro ⟨dev, drive⟩
    split_ifs at drive with first second
    · rw [first]
      decide
    · rw [second]
      decide
  · intro enabled
    by_cases first : pdrv = 0
    · exact ⟨.ATA_DEV_MIDE, if_pos first⟩
    · have second : pdrv = 1 := by bv_omega
      exact ⟨.ATA_DEV_PICOIDE, by rw [if_neg first, if_pos second]⟩

theorem selected_others {Value : Type} (program : Program Device Value) (s : System) :
    ∀ other, other ≠ dev → (selected dev program s).2.on other = s.on other := by
  intro other different
  unfold selected
  rw [System.on_select, System.on_set_of_ne different]

theorem selected_on {Value : Type} (program : Program Device Value) (s : System) :
    (selected dev program s).2.on dev = (program (s.on dev)).2 := by
  unfold selected
  rw [System.on_select, System.on_set]

/-- Both disks with the same partition, their devices showing the same. -/
def partitioned (p : Partition) (script : List Byte) : System :=
  { mounted (showing script) (showing script) with drives := fun _ _ => p }

theorem partitioned_on (p : Partition) (script : List Byte) (dev : Dev) :
    (partitioned p script).on dev = showing script := by
  cases dev with
  | ATA_DEV_MIDE => rfl
  | ATA_DEV_PICOIDE => rfl

theorem readConfined_iff :
    ReadConfined pdrv sector count p ↔ (pdrv < 2 → Fits p sector count.toNat) := by
  constructor
  · intro confined enabled
    obtain ⟨dev, drive⟩ := pdrvAtaDev_some.mpr enabled
    have run := (confined dev (partitioned p (obligingScript dev .read count.toNat)) drive rfl).1
    obtain ⟨read, e, returns⟩ := sectorsRead_obliging (p.base + sector) 0
      (d := showing (obligingScript dev .read count.toNat)) rfl
    have same : sectorsRead (readOf dev)
        (((partitioned p (obligingScript dev .read count.toNat)).drives dev 0).base + sector) 0
        count.toNat (showing (obligingScript dev .read count.toNat)) = _ := returns
    rw [diskRead_eq drive, selected_on, partitioned_on] at run
    unfold selected at run
    rw [partitioned_on, same] at run
    exact fits_of_confined run
  · intro fits dev s drive own
    have enabled := fits (pdrvAtaDev_some.mp ⟨dev, drive⟩)
    unfold ConfinedRun
    rw [diskRead_eq drive, own, selected_on]
    exact ⟨confined_of_fits enabled (sectorsRead_orders (readOf_orders dev) _ 0 count.toNat _),
      selected_others _ s⟩

theorem writeConfined_iff :
    WriteConfined pdrv sector count p ↔ (pdrv < 2 → Fits p sector count.toNat) := by
  constructor
  · intro confined enabled
    obtain ⟨dev, drive⟩ := pdrvAtaDev_some.mpr enabled
    have length : (List.replicate count.toNat zeros).length = count.toNat := List.length_replicate
    have run := (confined dev (partitioned p (obligingScript dev .write count.toNat))
      (List.replicate count.toNat zeros) drive rfl length).1
    have script : (showing (obligingScript dev .write count.toNat)).script =
        obligingScript dev .write (List.replicate count.toNat zeros).length := by
      rw [length]
      rfl
    obtain ⟨e, returns⟩ := sectorsWritten_obliging (p.base + sector) 0 script
    have same : sectorsWritten (writeOf dev)
        (((partitioned p (obligingScript dev .write count.toNat)).drives dev 0).base + sector) 0
        (List.replicate count.toNat zeros) (showing (obligingScript dev .write count.toNat)) = _ :=
      returns
    rw [diskWrite_eq drive, selected_on, partitioned_on] at run
    unfold selected at run
    rw [partitioned_on, same] at run
    exact fits_of_confined run
  · intro fits dev s buff drive own length
    have enabled := fits (pdrvAtaDev_some.mp ⟨dev, drive⟩)
    unfold ConfinedRun
    rw [diskWrite_eq drive, own, selected_on]
    have accesses := sectorsWritten_orders (writeOf_orders dev) (p.base + sector) 0 buff (s.on dev)
    rw [length] at accesses
    exact ⟨confined_of_fits enabled accesses, selected_others _ s⟩

/-- Reads and writes are confined to the partition exactly for the sectors that lie in it and whose
addresses fit into the registers. -/
theorem requests_confined (pdrv : Byte) (sector count : BitVec 32) (p : Partition) :
    (ReadConfined pdrv sector count p ↔ (pdrv < 2 → Fits p sector count.toNat)) ∧
      (WriteConfined pdrv sector count p ↔ (pdrv < 2 → Fits p sector count.toNat)) :=
  ⟨readConfined_iff, writeConfined_iff⟩

/-- A partition of 100 sectors from sector 63 on, with another one behind it. -/
def neighboured : Partition := ⟨63, 100, 0x0C, 0x80⟩

/-- The write of its sector 100 goes to the first sector behind it. -/
theorem write_beyond_partition : ¬ WriteConfined 0 100 1 neighboured := by
  intro confined
  have fits := writeConfined_iff.mp confined (by decide)
  unfold Fits at fits
  exact absurd fits (by decide)

end OrionBios.Disks
