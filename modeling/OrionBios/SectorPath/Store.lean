import OrionBios.SectorPath.Alike
import OrionBios.SectorPath.RoundTrip

/-!
# The card as a store of blocks

For a program of the 68k the card is an array of blocks beside its memory. A run of calls of the
driver, each of which returns 512, does to memory and card what the calls do to that array,
whatever the disk does in between and whatever it has done before.
-/

namespace OrionBios.SectorPath

open Machine (Address Memory Program Scheduled Within)
open PicoIde Transition

/-! ## The array of blocks -/

structure Store where
  memory : Memory
  block : Nat → Block

inductive SectorCall where
  | read (sector : BitVec 32) (buffer : Address)
  | write (sector : BitVec 32) (buffer : Address)

namespace SectorCall

def sector : SectorCall → BitVec 32
  | .read sector _ => sector
  | .write sector _ => sector

def program : SectorCall → Program Computer Nat
  | .read sector buffer => picoideReadSector sector buffer
  | .write sector buffer => picoideWriteSector sector buffer

end SectorCall

def layBlock (memory : Memory) (buffer : Address) (block : Block) : Memory := fun other =>
  if inside : (other - buffer).toNat < 512 then block ⟨(other - buffer).toNat, inside⟩
  else memory other

def Store.call (s : Store) : SectorCall → Store
  | .read sector buffer => { s with memory := layBlock s.memory buffer (s.block sector.toNat) }
  | .write sector buffer =>
    { s with block := Function.update s.block sector.toNat (blockAt s.memory buffer) }

def Store.run (s : Store) (calls : List SectorCall) : Store := calls.foldl Store.call s

/-- What the 68k has of a computer. -/
def storeOf (c : Computer) : Store where
  memory := c.memory
  block := c.sd.card.block

/-- Calls one after the other, up to the first one that does not return 512. -/
def runCalls : List SectorCall → Program Computer Bool
  | [] => pure true
  | call :: rest => do
    let result ← call.program
    if result = 512 then runCalls rest else pure false

/-! ## One call -/

/-- The same computer with a disk whose ledger is empty. -/
def mirrored (c : Computer) : Computer :=
  restingComputer c.board.state.firmware c.sd c.memory c.bounce c.board.turns

variable {before after : Computer} {sector : BitVec 32} {buffer : Address} {result : Nat}

theorem alike_mirrored (rest : AtRest before.board.state) :
    Alike before.board.state (mirrored before).board.state where
  firmware := ⟨_, rfl⟩
  access := rest.free.symm
  sd := rfl

/-- What the call of a computer at rest does, it does with an empty ledger too. -/
structure Mirrored (after after' : Computer) : Prop where
  memory : after'.memory = after.memory
  alike : Alike after.board.state after'.board.state

theorem write_mirrored (rest : AtRest before.board.state)
    (returns : picoideWriteSector sector buffer before = (some result, after)) :
    ∃ after', picoideWriteSector sector buffer (mirrored before) = (some result, after') ∧
      Mirrored after after' := by
  obtain ⟨ran, memory⟩ := picoideWriteSector_returns returns
  obtain ⟨_, board, ran', rfl, alike⟩ := (sameRun_writeSector sector _).returns
    (alike_mirrored rest) ran
  obtain ⟨after', returns', same⟩ :
      ∃ after', picoideWriteSector sector buffer (mirrored before) = (some result, after') ∧
        after'.board = _ := returns_picoideWriteSector buffer ran'
  refine ⟨after', returns', ?_, ?_⟩
  · exact (picoideWriteSector_returns returns').2.trans memory.symm
  · rw [same]
    exact alike

/-- What `picoide_read_sector` does with the words that it has read. -/
def finishRead (buffer : Address) (result : Nat) (words : List Word) : Program Computer Nat :=
  if isOdd buffer then do
    inMemory fun c => { c with bounce := storeWords words 0 c.bounce }
    if result = 512 then do
      inMemory fun c => { c with memory := memcpy buffer 0 512 c.bounce c.memory }
      pure result
    else
      pure result
  else do
    inMemory fun c => { c with memory := storeWords words buffer c.memory }
    pure result

theorem picoideReadSector_eq (sector : BitVec 32) (buffer : Address) :
    picoideReadSector sector buffer =
      (onBoard (Disks.picoideReadSector port sector) >>= fun outcome =>
        finishRead buffer outcome.1 outcome.2) :=
  rfl

theorem finishRead_board (buffer : Address) (result : Nat) (words : List Word) (c : Computer)
    (board : Scheduled Board DiskTurn) :
    finishRead buffer result words { c with board := board } =
      ((finishRead buffer result words c).1,
        { (finishRead buffer result words c).2 with board := board }) := by
  unfold finishRead
  split
  · by_cases success : result = 512
    · rw [if_pos success]
      rfl
    · rw [if_neg success]
      rfl
  · rfl

theorem finishRead_value (buffer : Address) (result : Nat) (words : List Word) (c : Computer) :
    (finishRead buffer result words c).1 = some result := by
  unfold finishRead
  split
  · by_cases success : result = 512
    · rw [if_pos success]
      rfl
    · rw [if_neg success]
      rfl
  · rfl

theorem picoideReadSector_ran
    (returns : picoideReadSector sector buffer before = (some result, after)) :
    ∃ words board,
      Disks.picoideReadSector port sector before.board = (some (result, words), board) ∧
        finishRead buffer result words { before with board := board } = (some result, after) := by
  rw [picoideReadSector_eq] at returns
  obtain ⟨⟨status, words⟩, middle, ran, finished⟩ := Program.bind_returns.mp returns
  obtain ⟨ended, rfl⟩ := Prod.mk.inj ran
  have same : some status = some result :=
    (finishRead_value _ _ _ _).symm.trans (congrArg Prod.fst finished)
  cases same
  exact ⟨words, _, Prod.ext ended rfl, finished⟩

theorem read_mirrored (rest : AtRest before.board.state)
    (returns : picoideReadSector sector buffer before = (some result, after)) :
    ∃ after', picoideReadSector sector buffer (mirrored before) = (some result, after') ∧
      Mirrored after after' := by
  obtain ⟨words, ⟨last, turns⟩, ran, finished⟩ := picoideReadSector_ran returns
  obtain ⟨_, board, again, rfl, alike⟩ := (sameRun_readSector sector).returns
    (alike_mirrored rest) ran
  have first : onBoard (Disks.picoideReadSector port sector) (mirrored before) =
      (some (result, words), { mirrored before with board := ⟨board, turns⟩ }) :=
    returns_onBoard again
  rw [finishRead_board] at finished
  obtain ⟨value, rfl⟩ := Prod.mk.inj finished
  have mirroredFinish := finishRead_board buffer result words before ⟨board, turns⟩
  rw [value] at mirroredFinish
  rw [picoideReadSector_eq]
  exact ⟨_, Program.bind_returns.mpr ⟨_, _, first, mirroredFinish⟩, rfl, alike⟩

/-- What a call keeps of the driver of the card. -/
structure SameCard (sd sd' : Sd) : Prop where
  ready : sd'.ready = sd.ready
  isSdhc : sd'.isSdhc = sd.isSdhc
  sectors : sd'.card.sectors = sd.card.sectors

theorem SameCard.unwrapped {sd sd' : Sd} (same : SameCard sd sd')
    (unwrapped : Unwrapped sd sector) : Unwrapped sd' sector := by
  unfold Unwrapped
  rw [same.ready, same.isSdhc, same.sectors]
  exact unwrapped

theorem Alike.atRest {b c : Board} (alike : Alike b c) (rest : AtRest c) : AtRest b where
  free := alike.access.symm.trans rest.free
  idle := by
    obtain ⟨card, same⟩ := alike.firmware
    have idle := rest.idle
    rw [same] at idle
    exact ⟨idle.work, idle.dir, idle.status⟩

theorem layBlock_of_filled {memory memory' : Memory} {block : Block}
    (loaded : blockAt memory' buffer = block)
    (outside : ∀ other, ¬ Within buffer 512 other → memory' other = memory other) :
    memory' = layBlock memory buffer block := by
  funext other
  unfold layBlock
  split
  · next inside =>
    rw [← loaded, blockAt, BitVec.ofNat_toNat, BitVec.setWidth_eq, BitVec.add_comm,
      BitVec.sub_add_cancel]
  · next beyond => exact outside other beyond

/-- What a call of a computer at rest does to memory and card. -/
structure Served (before : Computer) (call : SectorCall) (after : Computer) : Prop where
  store : storeOf after = (storeOf before).call call
  onCard : call.sector.toNat < before.sd.card.sectors
  rest : AtRest after.board.state
  card : SameCard before.sd after.sd

theorem write_served (rest : AtRest before.board.state) (small : sector.toNat < 2 ^ 28)
    (unwrapped : Unwrapped before.sd sector)
    (returns : picoideWriteSector sector buffer before = (some 512, after)) :
    Served before (.write sector buffer) after := by
  obtain ⟨after', returns', same⟩ := write_mirrored rest returns
  let r := writeRequest before.board.state.firmware before.sd sector before.memory buffer
  have sound : r.Sound := ⟨rest.idle, small, unwrapped⟩
  obtain ⟨polling, finished, _⟩ := write_done sound rfl writeRequest_data returns'
  have written := sectorWritten sound rfl writeRequest_data returns'
  have sd : after.sd = after'.sd := same.alike.sd.symm
  have placed := polling.serves.placed
  refine ⟨?_, written.onCard, same.alike.atRest (polling.atRest finished), ?_⟩
  · have memory : after.memory = before.memory := same.memory.symm.trans written.memory
    have blocks : after.sd.card.block = Function.update before.sd.card.block sector.toNat
        (blockAt before.memory buffer) := by
      funext number
      rw [sd]
      by_cases own : number = sector.toNat
      · rw [own, Function.update_self]
        exact written.stored
      · rw [Function.update_of_ne own]
        exact written.others number own
    unfold storeOf Store.call
    rw [memory, blocks]
  · rw [sd]
    exact ⟨placed.ready, placed.isSdhc, placed.sectors⟩

theorem read_served (rest : AtRest before.board.state) (small : sector.toNat < 2 ^ 28)
    (unwrapped : Unwrapped before.sd sector)
    (returns : picoideReadSector sector buffer before = (some 512, after)) :
    Served before (.read sector buffer) after := by
  obtain ⟨after', returns', same⟩ := read_mirrored rest returns
  let r := readRequest before.board.state.firmware before.sd sector
  have sound : r.Sound := ⟨rest.idle, small, unwrapped⟩
  obtain ⟨_, polling, finished, _⟩ := read_done sound rfl returns'
  have read := sectorRead sound rfl returns'
  have sd : after.sd = after'.sd := same.alike.sd.symm
  have placed := polling.serves.placed
  refine ⟨?_, read.onCard, same.alike.atRest (polling.atRest finished), ?_⟩
  · have memory : after.memory = layBlock before.memory buffer
        (before.sd.card.block sector.toNat) :=
      same.memory.symm.trans (layBlock_of_filled read.loaded read.outside)
    have blocks : after.sd.card.block = before.sd.card.block := by
      rw [sd, read.card]
      rfl
    unfold storeOf Store.call
    rw [memory, blocks]
  · rw [sd]
    exact ⟨placed.ready, placed.isSdhc, placed.sectors⟩

theorem call_served {call : SectorCall} (rest : AtRest before.board.state)
    (small : call.sector.toNat < 2 ^ 28) (unwrapped : Unwrapped before.sd call.sector)
    (returns : call.program before = (some 512, after)) : Served before call after := by
  cases call with
  | read sector buffer => exact read_served rest small unwrapped returns
  | write sector buffer => exact write_served rest small unwrapped returns

/-! ## Runs of calls -/

/-- What a run of calls that all return 512 does to memory and card. -/
structure RunServed (before : Computer) (calls : List SectorCall) (after : Computer) : Prop where
  store : storeOf after = (storeOf before).run calls
  onCard : ∀ call ∈ calls, call.sector.toNat < before.sd.card.sectors
  rest : AtRest after.board.state
  card : SameCard before.sd after.sd

theorem runCalls_served (calls : List SectorCall) (rest : AtRest before.board.state)
    (small : ∀ call ∈ calls, call.sector.toNat < 2 ^ 28)
    (unwrapped : ∀ call ∈ calls, Unwrapped before.sd call.sector)
    (returns : runCalls calls before = (some true, after)) : RunServed before calls after := by
  induction calls generalizing before with
  | nil =>
      obtain ⟨_, rfl⟩ := Prod.mk.inj returns
      exact ⟨rfl, fun _ among => absurd among List.not_mem_nil, rest, rfl, rfl, rfl⟩
  | cons call others inductionHypothesis =>
      obtain ⟨result, middle, first, later⟩ := Program.bind_returns.mp returns
      by_cases success : result = 512
      · rw [if_pos success] at later
        subst success
        have served := call_served rest (small call List.mem_cons_self)
          (unwrapped call List.mem_cons_self) first
        have whole := inductionHypothesis served.rest
          (fun other among => small other (List.mem_cons_of_mem call among))
          (fun other among => served.card.unwrapped
            (unwrapped other (List.mem_cons_of_mem call among))) later
        refine ⟨?_, ?_, whole.rest, ?_⟩
        · rw [whole.store, served.store]
          rfl
        · intro other among
          rcases List.mem_cons.mp among with rfl | among
          · exact served.onCard
          · rw [← served.card.sectors]
            exact whole.onCard other among
        · exact ⟨whole.card.ready.trans served.card.ready,
            whole.card.isSdhc.trans served.card.isSdhc,
            whole.card.sectors.trans served.card.sectors⟩
      · rw [if_neg success] at later
        obtain ⟨value, _⟩ := Prod.mk.inj later
        exact absurd (Option.some.inj value) Bool.false_ne_true

end OrionBios.SectorPath
