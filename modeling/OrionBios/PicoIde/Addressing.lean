import OrionBios.PicoIde.SdDriver
import OrionBios.PicoIde.Transfer
import Mathlib.Tactic.IntervalCases

/-!
# Which block a call of the SD driver reaches

The card takes the address out of the frame again. Below the capacity that is the sector of
the call. A sector behind it is refused by the card, except where the byte address of a
standard-capacity card has wrapped to one of its blocks.
-/

namespace OrionBios.PicoIde

/-! ## Calls -/

def sdCommand (writes : Bool) : Byte := if writes then CMD24 else CMD17

/-- Core 1 is in a call of the SD driver for the sector `lba`. -/
def Calls (writes : Bool) (s : Firmware) (lba : BitVec 32) : Prop :=
  ∃ buffer, s.core1 = if writes then .flushing buffer lba else .fetching buffer lba

def callFrame (writes : Bool) (sd : Sd) (lba : BitVec 32) : List Byte :=
  sdFrame (sdCommand writes) (blockAddress sd.isSdhc lba) 0x01

/-- The address of the sector has not wrapped to a block of the card. -/
def Unwrapped (sd : Sd) (lba : BitVec 32) : Prop :=
  sd.ready = true → sd.isSdhc = false → sd.card.sectors ≤ lba.toNat →
    sd.card.sectors ≤ lba.toNat % 2 ^ 23

/-! ## Frames -/

theorem frameArg_sdFrame (cmd : Byte) (arg : BitVec 32) (crc : Byte) :
    frameArg (sdFrame cmd arg crc) = arg := by
  apply BitVec.eq_of_getLsbD_eq
  intro i less
  simp only [frameArg, sdFrame, List.getD_cons_succ, List.getD_cons_zero]
  rw [BitVec.getLsbD_append, BitVec.getLsbD_append, BitVec.getLsbD_append]
  interval_cases i <;> simp

theorem named_blockAddress (sd : Sd) (lba : BitVec 32) :
    sd.card.named (blockAddress sd.isSdhc lba) =
      some (if sd.isSdhc then lba.toNat else lba.toNat % 2 ^ 23) := by
  unfold blockAddress SdCard.named
  rw [← sd.agrees]
  cases sd.isSdhc
  · have product : (lba * 512).toNat = lba.toNat % 2 ^ 23 * 512 := by
      rw [BitVec.toNat_mul]
      show lba.toNat * 512 % 2 ^ 32 = _
      omega
    rw [if_neg Bool.false_ne_true, if_neg Bool.false_ne_true, if_neg Bool.false_ne_true, product,
      Nat.mul_mod_left, if_pos rfl, Nat.mul_div_cancel _ (by decide)]
  · rfl

/-! ## One call -/

/-- The block that the commands of a call name. -/
def blockOf (sd : Sd) (lba : BitVec 32) : Nat :=
  if sd.isSdhc then lba.toNat else lba.toNat % 2 ^ 23

theorem blockOf_below {sd : Sd} {lba : BitVec 32} (below : lba.toNat < sd.card.sectors) :
    blockOf sd lba = lba.toNat := by
  unfold blockOf
  cases capacity : sd.isSdhc with
  | true => rfl
  | false =>
      have reach := sd.card.reachable (sd.agrees.symm.trans capacity)
      exact Nat.mod_eq_of_lt (Nat.lt_of_lt_of_le below reach)

theorem blockOf_beyond {sd : Sd} {lba : BitVec 32} (ready : sd.ready = true)
    (unwrapped : Unwrapped sd lba) (beyond : sd.card.sectors ≤ lba.toNat) :
    sd.card.sectors ≤ blockOf sd lba := by
  unfold blockOf
  cases capacity : sd.isSdhc with
  | true => exact beyond
  | false => exact unwrapped ready capacity beyond

theorem named_callFrame (writes : Bool) (sd : Sd) (lba : BitVec 32) :
    sd.card.named (frameArg (callFrame writes sd lba)) = some (blockOf sd lba) := by
  rw [callFrame, frameArg_sdFrame]
  exact named_blockAddress sd lba

/-- The driver and its card behind a call, with what the driver returns. -/
inductive CallOutcome (writes : Bool) (sd : Sd) (lba : BitVec 32) (src : Block) :
    Bool → Sd → Prop where
  | unready (ready : sd.ready = false) : CallOutcome writes sd lba src false sd
  | refused (ready : sd.ready = true) :
      CallOutcome writes sd lba src false { sd with sent := sd.sent ++ [callFrame writes sd lba] }
  | read (ready : sd.ready = true) (inside : blockOf sd lba < sd.card.sectors)
      (reads : writes = false) :
      CallOutcome writes sd lba src true
        { sd with
          sent := sd.sent ++ [callFrame writes sd lba]
          touched := sd.touched ++ [blockOf sd lba] }
  | written (ready : sd.ready = true) (inside : blockOf sd lba < sd.card.sectors)
      (writing : writes = true) (programmed : Bool) :
      CallOutcome writes sd lba src programmed
        { sd with
          card := sd.card.store (blockOf sd lba) src
          sent := sd.sent ++ [callFrame writes sd lba]
          touched := sd.touched ++ [blockOf sd lba] }

theorem blockOf_inside {writes : Bool} {sd : Sd} {lba : BitVec 32} {answer : Answer}
    (lawful : sd.card.Lawful (callFrame writes sd lba) answer) (accepted : answer.r1 = 0) :
    blockOf sd lba < sd.card.sectors := by
  obtain ⟨number, inside, named⟩ := lawful accepted
  rw [named_callFrame] at named
  cases named
  exact inside

theorem readBlock_outcome {sd : Sd} {lba : BitVec 32} {answer : Answer} (src : Block)
    (lawful : sd.card.Lawful (callFrame false sd lba) answer) :
    CallOutcome false sd lba src (yourSdDriverReadBlock lba answer sd).1.isSome
        (yourSdDriverReadBlock lba answer sd).2 ∧
      ∀ block, (yourSdDriverReadBlock lba answer sd).1 = some block →
        block = sd.card.block (blockOf sd lba) := by
  have named := named_callFrame false sd lba
  cases ready : sd.ready with
  | false =>
    have failed : yourSdDriverReadBlock lba answer sd = (none, sd) := by
      rw [yourSdDriverReadBlock, ready, Bool.not_false, if_pos rfl]
    rw [failed]
    exact ⟨.unready ready, fun block some => by cases some⟩
  | true =>
    have started : ¬ (!sd.ready) = true := by
      rw [ready]
      decide
    unfold yourSdDriverReadBlock
    rw [if_neg started]
    by_cases accepted : answer.r1 = 0
    · rw [if_neg (not_not.mpr accepted)]
      cases answer.token with
      | false => exact ⟨.refused ready, fun block some => by cases some⟩
      | true =>
        have inside := blockOf_inside lawful accepted
        simp only [callFrame, sdCommand] at named
        simp only [Bool.not_true, Bool.false_eq_true, if_false, sdSendCommand] at named ⊢
        rw [named]
        exact ⟨.read ready inside rfl, fun block some => (Option.some.inj some).symm⟩
    · rw [if_pos accepted]
      exact ⟨.refused ready, fun block some => by cases some⟩

theorem writeBlock_outcome {sd : Sd} {lba : BitVec 32} {answer : Answer} (src : Block)
    (lawful : sd.card.Lawful (callFrame true sd lba) answer) :
    CallOutcome true sd lba src (yourSdDriverWriteBlock lba src answer sd).1
      (yourSdDriverWriteBlock lba src answer sd).2 := by
  have named := named_callFrame true sd lba
  cases ready : sd.ready with
  | false =>
    have failed : yourSdDriverWriteBlock lba src answer sd = (false, sd) := by
      rw [yourSdDriverWriteBlock, ready, Bool.not_false, if_pos rfl]
    rw [failed]
    exact .unready ready
  | true =>
    have started : ¬ (!sd.ready) = true := by
      rw [ready]
      decide
    unfold yourSdDriverWriteBlock
    rw [if_neg started]
    by_cases accepted : answer.r1 = 0
    · rw [if_neg (not_not.mpr accepted)]
      by_cases response : answer.response &&& 0x1F = 0x05
      · have inside := blockOf_inside lawful accepted
        rw [if_neg (not_not.mpr response)]
        simp only [callFrame, sdCommand, if_true] at named
        simp only [sdSendCommand]
        rw [named]
        exact .written ready inside rfl answer.ready
      · rw [if_pos response]
        exact .refused ready
    · rw [if_pos accepted]
      exact .refused ready

end OrionBios.PicoIde
