import OrionBios.SectorPath.Completion

/-!
# A sector from the 68k to the card and back

The driver keeps its promise for a sector exactly when the byte address that a standard-capacity
card gets for it does not wrap to another block.
-/

namespace OrionBios.SectorPath

open Machine (Address Memory)
open PicoIde

theorem RoundTrip.unwrapped {start : Firmware} {sd : Sd} {sector : BitVec 32}
    (kept : RoundTrip start sd sector) (idle : Idle start) (small : sector.toNat < 2 ^ 28) :
    Unwrapped sd sector := by
  intro ready capacity beyond
  by_contra wrapped
  have inside : blockOf sd sector < sd.card.sectors := by
    rw [blockOf, capacity, if_neg Bool.false_ne_true]
    exact Nat.lt_of_not_le wrapped
  let old : Byte := sd.card.block (blockOf sd sector) 0
  obtain ⟨turns, after, returns, stored⟩ := write_completes start idle sd sector small ready inside
    (fun _ => old + 1) (fun _ => 0) 0
  have written := (kept _ _ turns 0 after).1 returns
  have same := written.others (blockOf sd sector) (Nat.ne_of_lt (Nat.lt_of_lt_of_le inside beyond))
  rw [stored] at same
  have changed : old + 1 = old := congrFun same 0
  bv_omega

def writeRequest (start : Firmware) (sd : Sd) (sector : BitVec 32) (memory : Memory)
    (buffer : Address) : Request where
  start := start
  sd := sd
  sector := sector
  writes := true
  data i := (loadWords memory buffer).getD i 0

theorem writeRequest_data {start : Firmware} {sd : Sd} {sector : BitVec 32} {memory : Memory}
    {buffer : Address} (i : Nat) (word : Word) (at1 : (loadWords memory buffer)[i]? = some word) :
    (writeRequest start sd sector memory buffer).data i = word := by
  show (loadWords memory buffer).getD i 0 = word
  rw [List.getD_eq_getElem?_getD, at1, Option.getD_some]

def readRequest (start : Firmware) (sd : Sd) (sector : BitVec 32) : Request where
  start := start
  sd := sd
  sector := sector
  writes := false
  data _ := 0

theorem rests_again {start : Firmware} (idle : Idle start) {sd : Sd} {sector : BitVec 32}
    (small : sector.toNat < 2 ^ 28) (unwrapped : Unwrapped sd sector) {memory bounce : Memory}
    {turns : List (Option DiskTurn)} {buffer : Address} {after : Computer}
    (returns :
      picoideWriteSector sector buffer (restingComputer start sd memory bounce turns) =
          (some 512, after) ∨
        picoideReadSector sector buffer (restingComputer start sd memory bounce turns) =
          (some 512, after)) :
    AtRest after.board.state := by
  rcases returns with written | read
  · obtain ⟨polling, finished, _⟩ := write_done (r := writeRequest start sd sector memory buffer)
      ⟨idle, small, unwrapped⟩ rfl writeRequest_data written
    exact polling.atRest finished
  · obtain ⟨_, polling, finished, _⟩ := read_done (r := readRequest start sd sector)
      ⟨idle, small, unwrapped⟩ rfl read
    exact polling.atRest finished

/-- On a disk at rest the driver reads and writes the sector that it is asked for, and nothing
else, exactly when the sector's address does not wrap to another block of the card. -/
theorem sector_round_trip (start : Firmware) (idle : Idle start) (sd : Sd) (sector : BitVec 32)
    (small : sector.toNat < 2 ^ 28) : RoundTrip start sd sector ↔ Unwrapped sd sector := by
  refine ⟨fun kept => kept.unwrapped idle small, fun unwrapped => ?_⟩
  intro memory bounce turns buffer after
  constructor
  · intro returns
    have sound : (writeRequest start sd sector memory buffer).Sound := ⟨idle, small, unwrapped⟩
    exact sectorWritten sound rfl writeRequest_data returns
  · intro returns
    have sound : (readRequest start sd sector).Sound := ⟨idle, small, unwrapped⟩
    exact sectorRead sound rfl returns

theorem sector_round_trip_three : RoundTrip idleFirmware smallCard 3 := by
  refine (sector_round_trip idleFirmware ⟨rfl, rfl, .inl rfl⟩ smallCard 3 (by decide)).mpr ?_
  intro _ _ beyond
  exact absurd beyond (by decide)

/-- A write to sector 2^23 of that card stores its block 0. -/
theorem wrapped_sector_write :
    ¬ ∀ (start : Firmware) (_ : Idle start) (sd : Sd) (sector : BitVec 32)
      (_ : sector.toNat < 2 ^ 28), RoundTrip start sd sector := by
  intro always
  have kept := always idleFirmware ⟨rfl, rfl, .inl rfl⟩ smallCard 0x800000 (by decide)
  have unwrapped := kept.unwrapped ⟨rfl, rfl, .inl rfl⟩ (by decide)
  exact absurd (unwrapped rfl rfl (by decide)) (by decide)

end OrionBios.SectorPath
