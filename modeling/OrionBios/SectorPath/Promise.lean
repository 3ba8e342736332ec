import OrionBios.SectorPath.Buffers

/-!
# What the driver promises

With 512 the driver says that the block of the card with the number of the sector holds the bytes
of the buffer, or the buffer those of the block, and that nothing else has changed. So it is when
the sector's address names no other block.
-/

namespace OrionBios.SectorPath

open Machine (Address Memory Program Scheduled Within Establishes Attains)
open PicoIde Transition

variable {r : Request} {b c : Board}

/-! ## What the driver promises -/

def Computer.sd (c : Computer) : Sd := c.board.state.sd

/-- A sector of the 68k has gone to the card. -/
structure SectorWritten (before : Computer) (sector : BitVec 32) (buffer : Address)
    (after : Computer) : Prop where
  onCard : sector.toNat < before.sd.card.sectors
  stored : after.sd.card.block sector.toNat = blockAt before.memory buffer
  others : ∀ number, number ≠ sector.toNat →
    after.sd.card.block number = before.sd.card.block number
  memory : after.memory = before.memory

/-- A sector of the card has come to the 68k. -/
structure SectorRead (before : Computer) (sector : BitVec 32) (buffer : Address)
    (after : Computer) : Prop where
  onCard : sector.toNat < before.sd.card.sectors
  loaded : blockAt after.memory buffer = before.sd.card.block sector.toNat
  outside : ∀ other, ¬ Within buffer 512 other → after.memory other = before.memory other
  card : after.sd.card = before.sd.card

def restingComputer (start : Firmware) (sd : Sd) (memory bounce : Memory)
    (turns : List (Option DiskTurn)) : Computer where
  memory := memory
  bounce := bounce
  board := ⟨restingBoard start sd, turns⟩

/-- Every call of the driver that returns 512 has done what it says, whatever the contents of the
memories, the place of the buffer and the order of the turns. -/
def RoundTrip (start : Firmware) (sd : Sd) (sector : BitVec 32) : Prop :=
  ∀ memory bounce turns buffer after,
    (picoideWriteSector sector buffer (restingComputer start sd memory bounce turns) =
        (some 512, after) →
      SectorWritten (restingComputer start sd memory bounce turns) sector buffer after) ∧
    (picoideReadSector sector buffer (restingComputer start sd memory bounce turns) =
        (some 512, after) →
      SectorRead (restingComputer start sd memory bounce turns) sector buffer after)

/-! ## The board at the end -/

theorem Request.Polling.done {words : List Word} (polling : r.Polling words b)
    (finished : Finished b) : (b.session .poll).Done r.order :=
  ⟨polling.serves.serving.order_eq, finished.shows⟩

theorem Request.Polling.onCard {words : List Word} (sound : r.Sound) (polling : r.Polling words b)
    (finished : Finished b) : r.sector.toNat < r.sd.card.sectors := by
  by_contra beyond
  have underway : Underway r.inserted r.taskfile r.command r.writes r.data (b.session .poll) :=
    .inr polling.serves.serving
  have count := r.order_count sound.small
  have small : r.order.count ≤ 2 ^ 32 := by
    rw [count]
    decide
  have inPlace : InPlace r.writes r.order r.sd (b.at .poll) :=
    polling.serves.placed.inPlace underway small
  refine inPlace.undone 0 (by rw [count]; decide) ?_ (polling.done finished)
  rw [r.order_lba sound.small]
  exact Nat.le_of_not_lt beyond

theorem Request.Polling.read {words : List Word} (sound : r.Sound) (reads : r.writes = false)
    (polling : r.Polling words b) (finished : Finished b) :
    words = blockWords (r.sd.card.block r.sector.toNat) ∧ b.sd.card = r.sd.card := by
  have kind : r.order.kind = .read := by
    rw [r.order_kind, reads]
    rfl
  have serving := polling.serves.serving
  rw [reads] at serving
  have paced := serving.paced_done kind (polling.done finished) rfl
  obtain ⟨whole, none⟩ := (serving.readRule paced kind).complete (polling.done finished)
  have none : b.firmware.dataTx = [] := List.length_eq_zero_iff.mp none
  have whole : b.ledger.taken ++ b.firmware.dataTx = _ := whole
  rw [none, List.append_nil] at whole
  have moved := polling.moved
  rw [Request.moved, reads, if_neg Bool.false_ne_true, whole, r.order_count sound.small,
    Order.words_succ, Order.sector, kind, r.order_lba sound.small] at moved
  refine ⟨?_, polling.serves.placed.reads reads⟩
  rw [← moved, ← sectorWords_sectorOfBlock]
  rfl

theorem Request.Polling.written {words : List Word} (sound : r.Sound) (writing : r.writes = true)
    (polling : r.Polling words b) (finished : Finished b) :
    (∀ j : Fin 256,
      sectorOfBlock (b.sd.card.block r.sector.toNat) j = bswap (r.data j.val)) ∧
      ∀ number, number ≠ r.sector.toNat → b.sd.card.block number = r.sd.card.block number := by
  have kind : r.order.kind = .write := by
    rw [r.order_kind, writing]
    rfl
  have count := r.order_count sound.small
  have lba := r.order_lba sound.small
  have serving := polling.serves.serving
  have placed := polling.serves.placed
  rw [writing] at serving
  have paced := serving.paced_done kind (polling.done finished) rfl
  obtain ⟨stored, rule⟩ := (serving.writeRule paced kind (by rw [count]; decide)).stored
  have all : stored = 1 := (rule.complete (polling.done finished)).1.trans count
  have none : b.ledger.failures = [] := finished.failures
  have coherent : b.firmware.card r.sector =
      sectorOfBlock (b.sd.card.block r.sector.toNat) := by
    refine placed.coherent r.sector (polling.onCard sound finished) ?_
    rw [show (b.at .poll).session.ledger.failures = _ from none]
    exact List.not_mem_nil
  constructor
  · intro j
    have written := rule.written 0 (by rw [all]; decide) j
    rw [lba, Nat.mul_zero, Nat.zero_add] at written
    rw [← coherent]
    exact written
  · intro number other
    refine placed.others number fun i less => ?_
    rw [count] at less
    rw [Nat.lt_one_iff.mp less, lba]
    exact other

/-- Nothing is pending on the board. -/
structure AtRest (b : Board) : Prop where
  free : b.access = none
  idle : Idle b.firmware

theorem Request.Polling.atRest {words : List Word} (polling : r.Polling words b)
    (finished : Finished b) : AtRest b where
  free := polling.free
  idle :=
    { work := finished.work
      dir := finished.dir
      status := .inl finished.shows }

/-! ## The memory at the end -/

theorem onBoard_returns {Value : Type} {program : Program (Scheduled Board DiskTurn) Value}
    {before after : Computer} {value : Value}
    (returns : onBoard program before = (some value, after)) :
    program before.board = (some value, after.board) ∧ after.memory = before.memory := by
  obtain ⟨result, same⟩ := Prod.mk.inj returns
  rw [← same]
  exact ⟨Prod.ext result rfl, rfl⟩

/-- A write is the driver's program on the words of the buffer, at even and at odd addresses. -/
theorem picoideWriteSector_returns {sector : BitVec 32} {buffer : Address}
    {before after : Computer} {result : Nat}
    (returns : picoideWriteSector sector buffer before = (some result, after)) :
    Disks.picoideWriteSector port sector (loadWords before.memory buffer) before.board =
        (some result, after.board) ∧ after.memory = before.memory := by
  unfold picoideWriteSector at returns
  split at returns
  · obtain ⟨_, bounced, copied, returns⟩ := Program.bind_returns.mp returns
    obtain ⟨src, loaded, valued, returns⟩ := Program.bind_returns.mp returns
    cases copied
    cases valued
    obtain ⟨ran, kept⟩ := onBoard_returns returns
    have words : loadWords (memcpy 0 buffer 512 before.memory before.bounce) 0 =
        loadWords before.memory buffer := loadWords_memcpy _ _ _
    rw [← words]
    exact ⟨ran, kept⟩
  · obtain ⟨src, loaded, valued, returns⟩ := Program.bind_returns.mp returns
    cases valued
    exact onBoard_returns returns

def Filled (block : Block) (buffer : Address) (memory memory' : Memory) : Prop :=
  blockAt memory' buffer = block ∧
    ∀ other, ¬ Within buffer 512 other → memory' other = memory other

theorem filled_storeWords (block : Block) (buffer : Address) (memory : Memory) :
    Filled block buffer memory (storeWords (blockWords block) buffer memory) := by
  constructor
  · funext i
    have offset : buffer + BitVec.ofNat 32 i.val - buffer = BitVec.ofNat 32 i.val := by
      rw [BitVec.add_comm, BitVec.add_sub_cancel]
    have value : (buffer + BitVec.ofNat 32 i.val - buffer).toNat = i.val := by
      rw [offset, BitVec.toNat_ofNat]
      exact Nat.mod_eq_of_lt (Nat.lt_trans i.isLt (by decide))
    rw [blockAt, storeWords_blockWords, dif_pos (by rw [value]; exact i.isLt)]
    exact congrArg block (Fin.ext value)
  · intro other outside
    have behind : ¬ (other - buffer).toNat < 512 := outside
    rw [storeWords_blockWords, dif_neg behind]

theorem filled_memcpy (block : Block) (buffer : Address) (bounce memory : Memory) :
    Filled block buffer memory
      (memcpy buffer 0 512 (storeWords (blockWords block) 0 bounce) memory) := by
  constructor
  · funext i
    rw [blockAt, memcpy_apply _ _ _ _ _ i.isLt]
    exact congrFun (filled_storeWords block 0 bounce).1 i
  · intro other outside
    have behind : ¬ (other - buffer).toNat < 512 := outside
    rw [memcpy, if_neg behind]

/-- A read is the driver's program, whose words go into the buffer at even and at odd addresses. -/
theorem picoideReadSector_returns {sector : BitVec 32} {buffer : Address}
    {before after : Computer}
    (returns : picoideReadSector sector buffer before = (some 512, after)) :
    ∃ words, Disks.picoideReadSector port sector before.board =
        (some (512, words), after.board) ∧
      ∀ block, words = blockWords block → Filled block buffer before.memory after.memory := by
  obtain ⟨⟨result, words⟩, received, ran, returns⟩ := Program.bind_returns.mp returns
  obtain ⟨ran, memory⟩ := onBoard_returns ran
  dsimp only at returns
  split at returns
  · obtain ⟨_, bounced, stored, returns⟩ := Program.bind_returns.mp returns
    cases stored
    split at returns
    · next success =>
      obtain ⟨_, copied, moved, returns⟩ := Program.bind_returns.mp returns
      cases moved
      obtain ⟨_, same⟩ := Prod.mk.inj returns
      subst success same
      refine ⟨words, ran, fun block same => ?_⟩
      subst same
      rw [← memory]
      dsimp only
      exact filled_memcpy block buffer received.bounce received.memory
    · next failed =>
      obtain ⟨value, _⟩ := Prod.mk.inj returns
      exact absurd (Option.some.inj value) failed
  · obtain ⟨_, stored, moved, returns⟩ := Program.bind_returns.mp returns
    cases moved
    obtain ⟨value, same⟩ := Prod.mk.inj returns
    have success : result = 512 := Option.some.inj value
    subst success same
    refine ⟨words, ran, fun block same => ?_⟩
    subst same
    rw [← memory]
    dsimp only
    exact filled_storeWords block buffer received.memory

/-! ## The promise is kept -/

variable {memory bounce : Memory} {turns : List (Option DiskTurn)} {buffer : Address}
  {after : Computer}

theorem write_done (sound : r.Sound) (writing : r.writes = true)
    (data : ∀ i word, (loadWords memory buffer)[i]? = some word → r.data i = word)
    (returns : picoideWriteSector r.sector buffer
      (restingComputer r.start r.sd memory bounce turns) = (some 512, after)) :
    r.Polling (loadWords memory buffer) after.board.state ∧ Finished after.board.state ∧
      after.memory = memory := by
  obtain ⟨ran, kept⟩ := picoideWriteSector_returns returns
  obtain ⟨polling, finished⟩ := establishes_writeSector sound writing _ (loadWords_length _ _) data
    _ _ _ (setting_resting sound) ran rfl
  exact ⟨polling, finished, kept⟩

theorem read_done (sound : r.Sound) (reads : r.writes = false)
    (returns : picoideReadSector r.sector buffer
      (restingComputer r.start r.sd memory bounce turns) = (some 512, after)) :
    ∃ words, r.Polling words after.board.state ∧ Finished after.board.state ∧
      ∀ block, words = blockWords block → Filled block buffer memory after.memory := by
  obtain ⟨words, ran, filled⟩ := picoideReadSector_returns returns
  obtain ⟨polling, finished⟩ := establishes_readSector sound reads
    _ _ _ (setting_resting sound) ran rfl
  exact ⟨words, polling, finished, filled⟩

theorem sectorWritten (sound : r.Sound) (writing : r.writes = true)
    (data : ∀ i word, (loadWords memory buffer)[i]? = some word → r.data i = word)
    (returns : picoideWriteSector r.sector buffer
      (restingComputer r.start r.sd memory bounce turns) = (some 512, after)) :
    SectorWritten (restingComputer r.start r.sd memory bounce turns) r.sector buffer after := by
  obtain ⟨polling, finished, kept⟩ := write_done sound writing data returns
  obtain ⟨written, others⟩ := polling.written sound writing finished
  refine ⟨polling.onCard sound finished, ?_, others, kept⟩
  have words : blockWords (after.sd.card.block r.sector.toNat) =
      blockWords (blockAt memory buffer) := by
    rw [← sectorWords_sectorOfBlock]
    refine List.map_congr_left fun j _ => ?_
    have inside : j.val < (loadWords memory buffer).length := by
      rw [loadWords_length]
      exact j.isLt
    have at1 := List.getElem?_eq_getElem inside
    have swapped : bswap (sectorOfBlock (after.sd.card.block r.sector.toNat) j) = r.data j.val :=
      (congrArg bswap (written j)).trans (bswap_bswap _)
    rw [swapped, data j.val _ at1]
    exact loadWords_getElem? memory buffer j.val _ at1
  funext i
  rw [← byteAt_blockWords (after.sd.card.block r.sector.toNat) i, words, byteAt_blockWords]
  rfl

theorem sectorRead (sound : r.Sound) (reads : r.writes = false)
    (returns : picoideReadSector r.sector buffer
      (restingComputer r.start r.sd memory bounce turns) = (some 512, after)) :
    SectorRead (restingComputer r.start r.sd memory bounce turns) r.sector buffer after := by
  obtain ⟨words, polling, finished, filled⟩ := read_done sound reads returns
  obtain ⟨same, card⟩ := polling.read sound reads finished
  obtain ⟨loaded, outside⟩ := filled _ same
  exact ⟨polling.onCard sound finished, loaded, outside, card⟩

end OrionBios.SectorPath
