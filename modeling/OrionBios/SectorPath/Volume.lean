import OrionBios.Disks.Selection
import OrionBios.SectorPath.Progress

/-!
# Requests of the file system

FatFs asks for a number of sectors of the first partition at once. What it writes to a run of
sectors it reads from them again, and the rest of the card and of the memory stays as it was.
-/

namespace OrionBios.SectorPath

open Machine (Address Establishes Memory Program Within establishes_ite establishes_pure
  establishes_true)
open PicoIde

def RES_OK : Nat := 0

def RES_ERROR : Nat := 1

/-- The rounds of `disk_read` and `disk_write` from round `i` on. -/
def diskLoop (call : BitVec 32 → Address → SectorCall) (physicalSector : BitVec 32)
    (buff : Address) : Nat → Nat → Program Computer Nat
  | _, 0 => pure RES_OK
  | i, rounds + 1 => do
    let result ← (call (physicalSector + BitVec.ofNat 32 i)
      (buff + BitVec.ofNat 32 (i * 512))).program
    if result = 0 then pure RES_ERROR else diskLoop call physicalSector buff (i + 1) rounds

/-- `disk_read` of the picoIDE, whose first partition begins at `base`. -/
def diskRead (base : BitVec 32) (buff : Address) (sector count : BitVec 32) :
    Program Computer Nat :=
  diskLoop .read (base + sector) buff 0 count.toNat

/-- `disk_write` of the picoIDE. -/
def diskWrite (base : BitVec 32) (buff : Address) (sector count : BitVec 32) :
    Program Computer Nat :=
  diskLoop .write (base + sector) buff 0 count.toNat

/-! ## The calls of a request -/

def requestCalls (call : BitVec 32 → Address → SectorCall) (physicalSector : BitVec 32)
    (buff : Address) (i rounds : Nat) : List SectorCall :=
  (List.range' i rounds).map fun i =>
    call (physicalSector + BitVec.ofNat 32 i) (buff + BitVec.ofNat 32 (i * 512))

theorem requestCalls_succ (call : BitVec 32 → Address → SectorCall) (physicalSector : BitVec 32)
    (buff : Address) (i rounds : Nat) :
    requestCalls call physicalSector buff i (rounds + 1) =
      call (physicalSector + BitVec.ofNat 32 i) (buff + BitVec.ofNat 32 (i * 512)) ::
        requestCalls call physicalSector buff (i + 1) rounds := by
  rw [requestCalls, List.range'_succ, List.map_cons]
  rfl

theorem establishes_result_read (sector : BitVec 32) :
    Establishes (fun _ => True) (Disks.picoideReadSector port sector)
      fun outcome _ => outcome.1 = 0 ∨ outcome.1 = 512 := by
  have any : ∀ {before : Board → Prop} (words : List Word) (code : Nat), code = 0 ∨ code = 512 →
      Establishes before
        (pure (code, words) : Program (Machine.Scheduled Board DiskTurn) (Nat × List Word))
        fun outcome _ => outcome.1 = 0 ∨ outcome.1 = 512 :=
    fun _ _ code => establishes_pure fun _ _ => code
  refine (establishes_true _ _).bind fun _ => (establishes_true _ _).bind fun _ => ?_
  refine (establishes_true _ _).bind fun ready => establishes_ite (fun _ => ?_) fun _ => ?_
  · exact (establishes_true _ _).bind fun _ => any [] 0 (.inl rfl)
  · refine (establishes_true _ _).bind fun dst => (establishes_true _ _).bind fun idle => ?_
    refine establishes_ite (fun _ => ?_) fun _ => any dst 512 (.inr rfl)
    exact (establishes_true _ _).bind fun _ => any dst 0 (.inl rfl)

theorem establishes_result_write (sector : BitVec 32) (src : List Word) :
    Establishes (fun _ => True) (Disks.picoideWriteSector port sector src)
      fun result _ => result = 0 ∨ result = 512 := by
  have any : ∀ {before : Board → Prop} (code : Nat), code = 0 ∨ code = 512 →
      Establishes before (pure code : Program (Machine.Scheduled Board DiskTurn) Nat)
        fun result _ => result = 0 ∨ result = 512 :=
    fun _ code => establishes_pure fun _ _ => code
  refine (establishes_true _ _).bind fun _ => (establishes_true _ _).bind fun _ => ?_
  refine (establishes_true _ _).bind fun ready => establishes_ite (fun _ => ?_) fun _ => ?_
  · exact (establishes_true _ _).bind fun _ => any 0 (.inl rfl)
  · refine (establishes_true _ _).bind fun dst => (establishes_true _ _).bind fun idle => ?_
    refine establishes_ite (fun _ => ?_) fun _ => any 512 (.inr rfl)
    exact (establishes_true _ _).bind fun _ => any 0 (.inl rfl)

theorem call_result {call : SectorCall} {before after : Computer} {result : Nat}
    (returns : call.program before = (some result, after)) : result = 0 ∨ result = 512 := by
  cases call with
  | write sector buffer =>
      obtain ⟨ran, _⟩ := picoideWriteSector_returns returns
      exact establishes_result_write sector _ _ _ _ trivial ran
  | read sector buffer =>
      obtain ⟨words, board, ran, _⟩ := picoideReadSector_ran returns
      exact establishes_result_read sector _ _ _ trivial ran

/-- A request is answered with `RES_OK` when all its calls return 512. -/
theorem diskLoop_calls (call : BitVec 32 → Address → SectorCall) (physicalSector : BitVec 32)
    (buff : Address) (i rounds : Nat) {before after : Computer} :
    diskLoop call physicalSector buff i rounds before = (some RES_OK, after) ↔
      runCalls (requestCalls call physicalSector buff i rounds) before = (some true, after) := by
  induction rounds generalizing i before with
  | zero =>
      constructor
      · intro returns
        obtain ⟨_, rfl⟩ := Prod.mk.inj returns
        rfl
      · intro ran
        obtain ⟨_, rfl⟩ := Prod.mk.inj ran
        rfl
  | succ rounds inductionHypothesis =>
      rw [requestCalls_succ]
      constructor
      · intro returns
        obtain ⟨result, middle, first, later⟩ := Program.bind_returns.mp returns
        refine Program.bind_returns.mpr ⟨result, middle, first, ?_⟩
        rcases call_result first with failed | success
        · rw [if_pos failed] at later
          cases later
        · subst success
          rw [if_neg (by decide)] at later
          rw [if_pos rfl]
          exact (inductionHypothesis (i + 1)).mp later
      · intro ran
        obtain ⟨result, middle, first, later⟩ := Program.bind_returns.mp ran
        refine Program.bind_returns.mpr ⟨result, middle, first, ?_⟩
        by_cases success : result = 512
        · subst success
          rw [if_pos rfl] at later
          rw [if_neg (by decide)]
          exact (inductionHypothesis (i + 1)).mpr later
        · rw [if_neg success] at later
          cases later

/-! ## The loops of the driver for two disks -/

def boardRead (sector : BitVec 32) :
    Program (Machine.Scheduled Board DiskTurn) (Nat × List Byte) := do
  let (result, words) ← Disks.picoideReadSector port sector
  pure (result, Disks.bytesOf words)

def boardWrite (sector : BitVec 32) (buffer : Disks.Sector) :
    Program (Machine.Scheduled Board DiskTurn) Nat :=
  Disks.picoideWriteSector port sector (Disks.wordsOf buffer.val)

theorem bytesOf_length (words : List Word) : (Disks.bytesOf words).length = 2 * words.length := by
  induction words with
  | nil => rfl
  | cons word rest inductionHypothesis =>
      show (Disks.bytesOf rest).length + 2 = 2 * (rest.length + 1)
      rw [inductionHypothesis, Nat.mul_succ]

def sectorAt (memory : Memory) (address : Address) : Disks.Sector :=
  ⟨Disks.bytesOf (loadWords memory address), by
    rw [bytesOf_length, loadWords_length]⟩

theorem wordsOf_bytesOf (words : List Word) : Disks.wordsOf (Disks.bytesOf words) = words := by
  induction words with
  | nil => rfl
  | cons word rest inductionHypothesis =>
      have halves : word.extractLsb' 8 8 ++ word.extractLsb' 0 8 = word := by
        rw [BitVec.extractLsb'_append_extractLsb'_eq_extractLsb' (by rfl)]
        exact BitVec.extractLsb'_eq_self
      show (word.extractLsb' 8 8 ++ word.extractLsb' 0 8) :: Disks.wordsOf (Disks.bytesOf rest) = _
      rw [halves, inductionHypothesis]

theorem ofNat_succ (i : Nat) : BitVec.ofNat 32 (i + 1) = BitVec.ofNat 32 i + 1 :=
  BitVec.ofNat_add i 1

/-- On the board a read request is the loop that the driver for two disks runs on its device. -/
theorem diskLoop_sectorsRead (physicalSector : BitVec 32) (buff : Address) (i rounds : Nat)
    {before after : Computer} {result : Nat}
    (returns : diskLoop .read physicalSector buff i rounds before = (some result, after)) :
    ∃ sectors, Disks.sectorsRead boardRead physicalSector (BitVec.ofNat 32 i) rounds before.board =
      (some (result, sectors), after.board) := by
  induction rounds generalizing i before with
  | zero =>
      cases returns
      exact ⟨[], rfl⟩
  | succ rounds inductionHypothesis =>
      obtain ⟨code, middle, first, later⟩ := Program.bind_returns.mp returns
      obtain ⟨words, board, ran, finished⟩ := picoideReadSector_ran first
      rw [finishRead_board] at finished
      have moved : middle.board = board :=
        (congrArg (fun run : Option Nat × Computer => run.2.board) finished).symm
      have read : boardRead (physicalSector + BitVec.ofNat 32 i) before.board =
          (some (code, Disks.bytesOf words), middle.board) := by
        rw [moved]
        exact Program.bind_of_returns ran
      by_cases failed : code = 0
      · rw [if_pos failed] at later
        cases later
        refine ⟨[Disks.bytesOf words], (Program.bind_of_returns read).trans ?_⟩
        exact congrFun (if_pos failed) _
      · rw [if_neg failed] at later
        obtain ⟨sectors, others⟩ := inductionHypothesis (i + 1) later
        refine ⟨Disks.bytesOf words :: sectors, (Program.bind_of_returns read).trans ?_⟩
        rw [ofNat_succ] at others
        refine (congrFun (if_neg failed) _).trans ?_
        exact (Program.bind_of_returns others).trans rfl

theorem diskLoop_sectorsWritten (physicalSector : BitVec 32) (buff : Address) (i rounds : Nat)
    {before after : Computer} {result : Nat}
    (returns : diskLoop .write physicalSector buff i rounds before = (some result, after)) :
    Disks.sectorsWritten boardWrite physicalSector (BitVec.ofNat 32 i)
        ((List.range' i rounds).map fun n => sectorAt before.memory (buff + BitVec.ofNat 32 (n * 512)))
        before.board = (some result, after.board) ∧ after.memory = before.memory := by
  induction rounds generalizing i before with
  | zero =>
      cases returns
      exact ⟨rfl, rfl⟩
  | succ rounds inductionHypothesis =>
      obtain ⟨code, middle, first, later⟩ := Program.bind_returns.mp returns
      obtain ⟨ran, kept⟩ := picoideWriteSector_returns first
      have written : boardWrite (physicalSector + BitVec.ofNat 32 i)
          (sectorAt before.memory (buff + BitVec.ofNat 32 (i * 512))) before.board =
            (some code, middle.board) := by
        unfold boardWrite sectorAt
        rw [wordsOf_bytesOf]
        exact ran
      rw [List.range'_succ, List.map_cons]
      by_cases failed : code = 0
      · rw [if_pos failed] at later
        cases later
        refine ⟨(Program.bind_of_returns written).trans ?_, kept⟩
        rw [if_pos failed]
        rfl
      · rw [if_neg failed] at later
        obtain ⟨others, kept'⟩ := inductionHypothesis (i + 1) later
        rw [ofNat_succ, kept] at others
        refine ⟨(Program.bind_of_returns written).trans ?_, kept'.trans kept⟩
        rw [if_neg failed]
        exact others

/-! ## What a request does -/

variable {physicalSector : BitVec 32} {buff : Address} {i rounds : Nat}

theorem toNat_add_ofNat {n : Nat} (bound : physicalSector.toNat + n < 2 ^ 32) :
    (physicalSector + BitVec.ofNat 32 n).toNat = physicalSector.toNat + n := by
  have small : n < 2 ^ 32 := by omega
  rw [BitVec.toNat_add, BitVec.toNat_ofNat, Nat.mod_eq_of_lt small, Nat.mod_eq_of_lt bound]

/-- Blocks `i` up to `i + rounds` of a request are written, and no others. -/
theorem run_writes (physicalSector : BitVec 32) (buff : Address) (i rounds : Nat) (s : Store)
    (bound : physicalSector.toNat + (i + rounds) < 2 ^ 32) :
    (s.run (requestCalls .write physicalSector buff i rounds)).memory = s.memory ∧
      (∀ j, i ≤ j → j < i + rounds →
        (s.run (requestCalls .write physicalSector buff i rounds)).block
          (physicalSector.toNat + j) = blockAt s.memory (buff + BitVec.ofNat 32 (j * 512))) ∧
      ∀ number, number < physicalSector.toNat + i ∨ physicalSector.toNat + (i + rounds) ≤ number →
        (s.run (requestCalls .write physicalSector buff i rounds)).block number =
          s.block number := by
  induction rounds generalizing i s with
  | zero => exact ⟨rfl, fun j low high => absurd high (by omega), fun _ _ => rfl⟩
  | succ rounds inductionHypothesis =>
      rw [requestCalls_succ]
      let next := s.call (.write (physicalSector + BitVec.ofNat 32 i)
        (buff + BitVec.ofNat 32 (i * 512)))
      have at1 : (physicalSector + BitVec.ofNat 32 i).toNat = physicalSector.toNat + i :=
        toNat_add_ofNat (by omega)
      obtain ⟨memory, written, others⟩ :=
        inductionHypothesis (i := i + 1) next (by omega)
      have nextBlock : next.block = Function.update s.block (physicalSector.toNat + i)
          (blockAt s.memory (buff + BitVec.ofNat 32 (i * 512))) := by
        rw [← at1]
        rfl
      refine ⟨memory, fun j low high => ?_, fun number outside => ?_⟩
      · show (next.run _).block _ = _
        by_cases first : j = i
        · subst first
          rw [others _ (.inl (by omega)), nextBlock, Function.update_self]
        · exact written j (by omega) (by omega)
      · show (next.run _).block _ = _
        rw [others number (by omega), nextBlock, Function.update_of_ne (by omega)]

theorem layBlock_inside (memory : Memory) (buffer : Address) (block : Block) :
    blockAt (layBlock memory buffer block) buffer = block := by
  funext k
  have offset : (buffer + BitVec.ofNat 32 k.val - buffer).toNat = k.val := by
    rw [BitVec.add_comm, BitVec.add_sub_cancel, BitVec.toNat_ofNat]
    exact Nat.mod_eq_of_lt (Nat.lt_trans k.isLt (by decide))
  rw [blockAt, layBlock, dif_pos (by rw [offset]; exact k.isLt)]
  exact congrArg block (Fin.ext offset)

/-- The place of a byte of block `j` in the buffer. -/
theorem offset_of_block {j : Nat} (k : Fin 512) (bound : j * 512 + 512 ≤ 2 ^ 32) :
    (buff + BitVec.ofNat 32 (j * 512) + BitVec.ofNat 32 k.val - buff).toNat = j * 512 + k.val := by
  have small : j * 512 + k.val < 2 ^ 32 := by omega
  rw [BitVec.add_assoc, BitVec.add_comm, BitVec.add_sub_cancel, BitVec.toNat_add,
    BitVec.toNat_ofNat, BitVec.toNat_ofNat, ← Nat.add_mod, Nat.mod_eq_of_lt small]

theorem later_rounds {limit : Nat} (bound : (i + (rounds + 1)) * 512 ≤ limit) :
    (i + 1 + rounds) * 512 ≤ limit ∧ i * 512 + 512 ≤ limit := by
  omega

theorem outside_later {n : Nat} (outside : n < i * 512 ∨ (i + (rounds + 1)) * 512 ≤ n) :
    (n < (i + 1) * 512 ∨ (i + 1 + rounds) * 512 ≤ n) ∧ ∀ k, k < 512 → n ≠ i * 512 + k := by
  have total : i + 1 + rounds = i + (rounds + 1) := by omega
  constructor
  · rw [total]
    exact outside.imp_left fun low =>
      Nat.lt_of_lt_of_le low (Nat.mul_le_mul_right 512 (Nat.le_succ i))
  · intro k small
    omega

/-- A byte of block `i`, from where it lies in the block. -/
theorem offset_inside {other : Address} (bound : i * 512 + 512 ≤ 2 ^ 32)
    (inside : (other - (buff + BitVec.ofNat 32 (i * 512))).toNat < 512) :
    (other - buff).toNat = i * 512 + (other - (buff + BitVec.ofNat 32 (i * 512))).toNat := by
  have offset := @offset_of_block buff i ⟨_, inside⟩ bound
  rw [BitVec.ofNat_toNat, BitVec.setWidth_eq, BitVec.add_comm (_ + _), BitVec.sub_add_cancel]
    at offset
  exact offset

/-- Blocks `i` up to `i + rounds` of the buffer are filled, and nothing else is. -/
theorem run_reads (physicalSector : BitVec 32) (buff : Address) (i rounds : Nat) (s : Store)
    (bound : (i + rounds) * 512 ≤ 2 ^ 32) :
    (s.run (requestCalls .read physicalSector buff i rounds)).block = s.block ∧
      (∀ j, i ≤ j → j < i + rounds →
        blockAt (s.run (requestCalls .read physicalSector buff i rounds)).memory
          (buff + BitVec.ofNat 32 (j * 512)) =
            s.block (physicalSector + BitVec.ofNat 32 j).toNat) ∧
      ∀ other : Address,
        (other - buff).toNat < i * 512 ∨ (i + rounds) * 512 ≤ (other - buff).toNat →
          (s.run (requestCalls .read physicalSector buff i rounds)).memory other =
            s.memory other := by
  induction rounds generalizing i s with
  | zero => exact ⟨rfl, fun j low high => absurd high (by omega), fun _ _ => rfl⟩
  | succ rounds inductionHypothesis =>
      obtain ⟨behind, own⟩ := later_rounds bound
      rw [requestCalls_succ]
      obtain ⟨blocks, read, others⟩ := inductionHypothesis (i := i + 1)
        (s.call (.read (physicalSector + BitVec.ofNat 32 i) (buff + BitVec.ofNat 32 (i * 512))))
        behind
      refine ⟨blocks, fun j low high => ?_, fun other outside => ?_⟩
      · by_cases first : j = i
        · subst first
          refine Eq.trans ?_ (layBlock_inside s.memory (buff + BitVec.ofNat 32 (j * 512)) _)
          funext k
          have before : (buff + BitVec.ofNat 32 (j * 512) + BitVec.ofNat 32 k.val - buff).toNat <
              (j + 1) * 512 := by
            rw [offset_of_block k own]
            omega
          exact others _ (.inl before)
        · exact read j (by omega) (by omega)
      · obtain ⟨later, none⟩ := outside_later outside
        refine (others other later).trans (dif_neg fun inside => ?_)
        exact none _ inside (offset_inside own inside)

/-! ## Requests -/

/-- What a request needs of the disk, the partition and the buffer. -/
structure Sound (before : Computer) (base sector count : BitVec 32) : Prop where
  rest : AtRest before.board.state
  small : (base + sector).toNat + count.toNat ≤ 2 ^ 28
  fits : count.toNat * 512 ≤ 2 ^ 32
  unwrapped : ∀ i < count.toNat, Unwrapped before.sd (base + sector + BitVec.ofNat 32 i)

variable {base sector count : BitVec 32} {before middle after : Computer}

/-- Sector `i` of a request, as the number of a block of the card. -/
theorem Sound.sector_toNat (sound : Sound before base sector count) {i : Nat}
    (less : i < count.toNat) :
    (base + sector + BitVec.ofNat 32 i).toNat = (base + sector).toNat + i := by
  have small := sound.small
  exact toNat_add_ofNat (by omega)

theorem mem_requestCalls {call : BitVec 32 → Address → SectorCall} {one : SectorCall}
    (among : one ∈ requestCalls call physicalSector buff 0 rounds) :
    ∃ i, i < rounds ∧ one = call (physicalSector + BitVec.ofNat 32 i)
      (buff + BitVec.ofNat 32 (i * 512)) := by
  obtain ⟨i, inside, rfl⟩ := List.mem_map.mp among
  have bounds := List.mem_range'_1.mp inside
  exact ⟨i, by omega, rfl⟩

/-- A request that is answered with `RES_OK` is a run of the array of blocks. -/
theorem request_served (sound : Sound before base sector count)
    {call : BitVec 32 → Address → SectorCall}
    (own : ∀ sector buffer, (call sector buffer).sector = sector)
    (returns : diskLoop call (base + sector) buff 0 count.toNat before = (some RES_OK, after)) :
    RunServed before (requestCalls call (base + sector) buff 0 count.toNat) after := by
  refine runCalls_served _ sound.rest ?_ ?_ ((diskLoop_calls call _ buff 0 _).mp returns)
  · intro one among
    obtain ⟨i, less, rfl⟩ := mem_requestCalls among
    have small := sound.small
    rw [own, sound.sector_toNat less]
    omega
  · intro one among
    obtain ⟨i, less, rfl⟩ := mem_requestCalls among
    rw [own]
    exact sound.unwrapped i less

theorem Sound.next (sound : Sound before base sector count) {calls : List SectorCall}
    (served : RunServed before calls middle) : Sound middle base sector count where
  rest := served.rest
  small := sound.small
  fits := sound.fits
  unwrapped i less := served.card.unwrapped (sound.unwrapped i less)

theorem Sound.onCard (sound : Sound before base sector count)
    {call : BitVec 32 → Address → SectorCall}
    (own : ∀ sector buffer, (call sector buffer).sector = sector)
    (served : RunServed before (requestCalls call (base + sector) buff 0 count.toNat) after)
    (some : 0 < count.toNat) : (base + sector).toNat + count.toNat ≤ before.sd.card.sectors := by
  have last : count.toNat - 1 < count.toNat := by omega
  have among : call (base + sector + BitVec.ofNat 32 (count.toNat - 1))
      (buff + BitVec.ofNat 32 ((count.toNat - 1) * 512)) ∈
        requestCalls call (base + sector) buff 0 count.toNat :=
    List.mem_map.mpr ⟨count.toNat - 1, List.mem_range'_1.mpr (by omega), rfl⟩
  have inside := served.onCard _ among
  rw [own, sound.sector_toNat last] at inside
  omega

/-- What FatFs writes to a run of sectors it reads from them again. The blocks beside them and the
memory beside the buffer stay as they were, and no sector is behind the end of the card. -/
theorem disk_round_trip (base sector count : BitVec 32) (source destination : Address)
    (before middle after : Computer) (sound : Sound before base sector count)
    (written : diskWrite base source sector count before = (some RES_OK, middle))
    (returned : diskRead base destination sector count middle = (some RES_OK, after)) :
    (∀ i < count.toNat,
      blockAt after.memory (destination + BitVec.ofNat 32 (i * 512)) =
        blockAt before.memory (source + BitVec.ofNat 32 (i * 512))) ∧
      (∀ other : Address, count.toNat * 512 ≤ (other - destination).toNat →
        after.memory other = before.memory other) ∧
      (∀ number, number < (base + sector).toNat ∨ (base + sector).toNat + count.toNat ≤ number →
        after.sd.card.block number = before.sd.card.block number) ∧
      (0 < count.toNat → (base + sector).toNat + count.toNat ≤ before.sd.card.sectors) := by
  have writing := request_served sound (fun _ _ => rfl) written
  have reading := request_served (sound.next writing) (fun _ _ => rfl) returned
  have small := sound.small
  obtain ⟨kept, stored, others⟩ := run_writes (base + sector) source 0 count.toNat (storeOf before)
    (by omega)
  obtain ⟨blocks, loaded, outside⟩ := run_reads (base + sector) destination 0 count.toNat
    (storeOf middle) (by rw [Nat.zero_add]; exact sound.fits)
  have block : after.sd.card.block = middle.sd.card.block :=
    (congrArg Store.block reading.store).trans blocks
  have memory : middle.memory = before.memory := (congrArg Store.memory writing.store).trans kept
  refine ⟨fun i less => ?_, fun other beyond => ?_, fun number beside => ?_,
    sound.onCard (fun _ _ => rfl) writing⟩
  · have read := loaded i (Nat.zero_le i) (by omega)
    rw [← reading.store, sound.sector_toNat less, writing.store,
      stored i (Nat.zero_le i) (by omega)] at read
    exact read
  · have same := outside other (.inr (by rw [Nat.zero_add]; exact beyond))
    rw [← reading.store] at same
    exact same.trans (congrFun memory other)
  · have same := others number (by omega)
    rw [← writing.store] at same
    rw [block]
    exact same

theorem runCalls_append {first second : List SectorCall}
    (run : runCalls (first ++ second) before = (some true, after)) :
    ∃ middle, runCalls first before = (some true, middle) ∧
      runCalls second middle = (some true, after) := by
  induction first generalizing before with
  | nil => exact ⟨before, rfl, run⟩
  | cons call others inductionHypothesis =>
      obtain ⟨result, next, returns, later⟩ := Program.bind_returns.mp run
      by_cases success : result = 512
      · rw [if_pos success] at later
        obtain ⟨middle, front, back⟩ := inductionHypothesis later
        refine ⟨middle, Program.bind_returns.mpr ⟨result, next, returns, ?_⟩, back⟩
        rw [if_pos success]
        exact front
      · rw [if_neg success] at later
        cases later

/-- Blocks 3 and 4 of the small card, which are sectors 1 and 2 of a partition. -/
theorem disk_round_trip_small :
    ∃ turns middle after,
      diskWrite 2 0x1001 1 2 (smallComputer turns) = (some RES_OK, middle) ∧
        diskRead 2 0x2000 1 2 middle = (some RES_OK, after) ∧
        blockAt after.memory 0x2200 = blockAt (smallComputer turns).memory 0x1201 := by
  let writes := requestCalls .write (2 + 1) 0x1001 0 2
  let reads := requestCalls .read (2 + 1) 0x2000 0 2
  have sectors : ∀ call ∈ writes ++ reads, call.sector.toNat < 8 := by decide
  obtain ⟨turns, ending⟩ := runCalls_end (writes ++ reads) (atRest_smallComputer [])
    (smallComputer []).memory rfl
    (fun call among => Nat.lt_trans (sectors call among) (by decide)) sectors
  obtain ⟨after, run⟩ := ending (smallComputer turns) ⟨⟨_, rfl⟩, rfl, rfl⟩ rfl rfl
  obtain ⟨middle, wrote, read⟩ := runCalls_append run
  have written := (diskLoop_calls .write (2 + 1) 0x1001 0 2).mpr wrote
  have returned := (diskLoop_calls .read (2 + 1) 0x2000 0 2).mpr read
  have sound : Sound (smallComputer turns) 2 1 2 := by
    refine ⟨atRest_smallComputer turns, by decide, by decide, fun i less => ?_⟩
    refine unwrapped_of_onCard ?_
    show (2 + 1 + BitVec.ofNat 32 i).toNat < 8
    have small : i < 2 := less
    interval_cases i <;> decide
  have kept := disk_round_trip 2 1 2 0x1001 0x2000 (smallComputer turns) middle after sound written
    returned
  exact ⟨turns, middle, after, written, returned, kept.1 1 (by decide)⟩

end OrionBios.SectorPath
