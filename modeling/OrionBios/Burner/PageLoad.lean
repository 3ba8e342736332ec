import OrionBios.Burner.Eeprom
import Mathlib.Data.List.GetD
import Mathlib.Data.List.Induction

/-!
# Page loads

One chunk on chips at rest: the unlock writes reach both chips, the bytes stay in one page of
each, and the poll ends with the cycle of the chip that it reads.
-/

namespace OrionBios.Burner

/-! ## Writes to idle chips -/

@[simp] theorem Chip.write_busy (chip : Chip) (addr : Nat) (value : Byte) :
    (chip.write addr value).busy = chip.busy := by
  unfold Chip.write
  split
  · rfl
  · split
    · rfl
    · split <;> rfl

theorem Chip.write_unlock {chip : Chip} {addr : Nat} {value : Byte} (idle : chip.busy = 0)
    (before : chip.unlocked < 3) (expected : unlockSequence[chip.unlocked]? = some (addr, value)) :
    chip.write addr value = { chip with unlocked := chip.unlocked + 1, last := none } := by
  rw [Chip.write, if_neg (by omega), if_neg (by omega), if_pos expected]

theorem Chip.write_load {chip : Chip} (addr : Nat) (value : Byte) (idle : chip.busy = 0)
    (unlocked : chip.unlocked = 3) :
    chip.write addr value =
      { chip with cells := Function.update chip.cells addr value, last := some addr } := by
  rw [Chip.write, if_neg (by omega), if_pos unlocked]

def Bank.Idle (bank : Bank) : Prop := ∀ which, (bank.chips which).busy = 0

theorem Bank.Idle.update {bank : Bank} (idle : bank.Idle) (addr : Nat) (value : Byte)
    (which : Half) :
    (Function.update bank.chips (half addr)
      ((bank.chips (half addr)).write (addr / 2) value) which).busy = 0 := by
  by_cases written : which = half addr
  · subst written
    rw [Function.update_self, Chip.write_busy]
    exact idle _
  · rw [Function.update_of_ne written]
    exact idle which

theorem Bank.write_idle {bank : Bank} (idle : bank.Idle) (addr : Nat) (value : Byte) :
    bank.write addr value =
      { chips := Function.update bank.chips (half addr)
          ((bank.chips (half addr)).write (addr / 2) value)
        crossed := bank.crossed || (bank.chips (half addr)).crosses (addr / 2)
        interrupted := bank.interrupted } := by
  have quiet : bank.busy = false := by
    rw [Bank.busy, idle .low, idle .high]
    rfl
  simp only [Bank.write, Bank.age, quiet, Bool.or_false,
    Chip.age_idle (idle.update addr value _)]

theorem Bank.Idle.write {bank : Bank} (idle : bank.Idle) (addr : Nat) (value : Byte) :
    (bank.write addr value).Idle := by
  rw [Bank.write_idle idle]
  exact idle.update addr value

/-! ## The unlock writes -/

/-- Both chips have seen so many unlock writes. -/
def Bank.unlockedTo (bank : Bank) (writes : Nat) : Bank :=
  { bank with chips := fun which => { bank.chips which with unlocked := writes, last := none } }

theorem unlock_step (timing : Timing) {writes : Nat} (bank : Bank) {chipAddr : Nat} {value : Byte}
    (idle : bank.Idle) (seen : ∀ which, (bank.chips which).unlocked = writes)
    (before : writes < 3) (expected : unlockSequence[writes]? = some (chipAddr, value)) :
    at28UnlockByte (eeprom timing) chipAddr value bank = bank.unlockedTo (writes + 1) := by
  have lowHalf : half (chipAddr * 2) = .low := by rw [Nat.mul_comm, half_two_mul]
  have highHalf : half (chipAddr * 2 + 1) = .high := by rw [Nat.mul_comm, half_two_mul_add_one]
  have unlock : ∀ which, (bank.chips which).write chipAddr value =
      { bank.chips which with unlocked := writes + 1, last := none } := by
    intro which
    rw [Chip.write_unlock (idle which) (by rw [seen]; exact before) (by rw [seen, expected]), seen]
  have uncrossed : ∀ which, (bank.chips which).crosses chipAddr = false := by
    intro which
    rw [Chip.crosses, seen, beq_false_of_ne (by omega), Bool.false_and]
  change (bank.write (chipAddr * 2) value).write (chipAddr * 2 + 1) value = _
  rw [Bank.write_idle (idle.write _ _), Bank.write_idle idle]
  simp only [lowHalf, highHalf, Nat.mul_div_cancel chipAddr (by decide : 0 < 2),
    show (chipAddr * 2 + 1) / 2 = chipAddr by omega,
    Function.update_of_ne (show Half.high ≠ .low by decide), unlock, uncrossed, Bool.or_false,
    Bank.unlockedTo, Bank.mk.injEq, and_true]
  funext which
  cases which with
  | low =>
    rw [Function.update_of_ne (by decide), Function.update_self]
  | high => rw [Function.update_self]

theorem at28DisableSdpPage_closed (timing : Timing) {bank : Bank} (idle : bank.Idle)
    (closed : bank.Closed) : at28DisableSdpPage (eeprom timing) bank = bank.unlockedTo 3 := by
  rw [at28DisableSdpPage, unlock_step timing bank idle closed (by decide) rfl]
  have second : ∀ which, ((bank.unlockedTo 1).chips which).unlocked = 1 := fun _ => rfl
  rw [unlock_step timing (bank.unlockedTo 1) idle second (by decide) rfl]
  exact unlock_step timing (bank.unlockedTo 2) idle (fun _ => rfl) (by decide) rfl

/-! ## The bytes of a chunk -/

theorem storeBytes_append {σ : Type} (device : Device σ) (bytes : List Byte) (byte : Byte) :
    ∀ (addr : Nat) (s : σ), storeBytes device addr (bytes ++ [byte]) s =
      device.write (addr + bytes.length) byte (storeBytes device addr bytes s) := by
  induction bytes with
  | nil => intro addr s; rfl
  | cons first rest inductionHypothesis =>
    intro addr s
    rw [List.cons_append, storeBytes, inductionHypothesis, storeBytes, List.length_cons,
      show addr + 1 + rest.length = addr + (rest.length + 1) by omega]

/-- Open chips after the bytes of a chunk. -/
structure Loaded (before : Bank) (addr : Nat) (data : List Byte) (after : Bank) : Prop where
  idle : after.Idle
  unlocked : ∀ which, (after.chips which).unlocked = 3
  cycles : ∀ which, (after.chips which).cycles = (before.chips which).cycles
  content : ∀ a, after.content a =
    if addr ≤ a ∧ a < addr + data.length then data.getD (a - addr) 0 else before.content a
  within : ∀ which last, (after.chips which).last = some last →
    addr ≤ address which last ∧ address which last < addr + data.length
  recent : ∀ a, addr ≤ a → a < addr + data.length → addr + data.length ≤ a + 2 →
    (after.chips (half a)).last = some (a / 2)
  crossed : after.crossed = before.crossed
  interrupted : after.interrupted = before.interrupted

theorem eq_of_half {a b : Nat} (sameHalf : half a = half b) (sameByte : a / 2 = b / 2) : a = b := by
  rw [half_eq_half] at sameHalf
  omega

theorem Bank.write_open_chips {bank : Bank} (idle : bank.Idle)
    (unlocked : ∀ which, (bank.chips which).unlocked = 3) (addr : Nat) (byte : Byte)
    (which : Half) :
    (bank.write addr byte).chips which =
      if which = half addr then
        { bank.chips which with
          cells := Function.update (bank.chips which).cells (addr / 2) byte
          last := some (addr / 2) }
      else bank.chips which := by
  rw [Bank.write_idle idle, Chip.write_load _ _ (idle _) (unlocked _)]
  split
  next hit =>
    subst hit
    exact Function.update_self _ _ _
  next miss => exact Function.update_of_ne miss _ _

theorem Bank.write_open_content {bank : Bank} (idle : bank.Idle)
    (unlocked : ∀ which, (bank.chips which).unlocked = 3) (addr : Nat) (byte : Byte) (a : Nat) :
    (bank.write addr byte).content a = if a = addr then byte else bank.content a := by
  rw [Bank.content, Bank.write_open_chips idle unlocked, Bank.content]
  by_cases sameHalf : half a = half addr
  · rw [if_pos sameHalf]
    by_cases sameByte : a / 2 = addr / 2
    · rw [if_pos (eq_of_half sameHalf sameByte), sameByte]
      exact Function.update_self _ _ _
    · have away : a ≠ addr := fun same => sameByte (by rw [same])
      rw [if_neg away]
      exact Function.update_of_ne sameByte _ _
  · have away : a ≠ addr := fun same => sameHalf (by rw [same])
    rw [if_neg sameHalf, if_neg away]

theorem Loaded.write {before after : Bank} {addr : Nat} {data : List Byte}
    (loaded : Loaded before addr data after) (byte : Byte) (aligned : addr % AT28_CHUNK_BYTES = 0)
    (short : data.length < AT28_CHUNK_BYTES) :
    Loaded before addr (data ++ [byte]) (after.write (addr + data.length) byte) := by
  have chunk : AT28_CHUNK_BYTES = 128 := rfl
  have page : AT28_PAGE_BYTES = 64 := rfl
  rw [chunk] at aligned short
  generalize place : addr + data.length = target
  have chips := Bank.write_open_chips loaded.idle loaded.unlocked target byte
  have inPage : (after.chips (half target)).crosses (target / 2) = false := by
    rw [Chip.crosses]
    cases lastIs : (after.chips (half target)).last with
    | none => rw [Option.any_none, Bool.and_false]
    | some last =>
      obtain ⟨lower, upper⟩ := loaded.within _ _ lastIs
      have same := address_div (half target) last
      have samePage : last / AT28_PAGE_BYTES = target / 2 / AT28_PAGE_BYTES := by
        rw [page]
        omega
      rw [Option.any_some, samePage, bne_self_eq_false, Bool.and_false]
  refine ⟨loaded.idle.write target byte, ?_, ?_, ?_, ?_, ?_, ?_, ?_⟩
  · intro which
    rw [chips]
    split <;> exact loaded.unlocked which
  · intro which
    rw [chips]
    split <;> exact loaded.cycles which
  · intro a
    rw [Bank.write_open_content loaded.idle loaded.unlocked, loaded.content, List.length_append,
      List.length_singleton]
    by_cases here : a = target
    · rw [if_pos here, if_pos (by omega), show a - addr = data.length by omega]
      simp
    · rw [if_neg here]
      by_cases inside : addr ≤ a ∧ a < addr + data.length
      · rw [if_pos inside, if_pos (by omega), List.getD_append _ _ _ _ (by omega)]
      · rw [if_neg inside, if_neg (by omega)]
  · intro which last
    rw [chips, List.length_append, List.length_singleton]
    split
    next hit =>
      intro lastIs
      rw [Option.some.injEq] at lastIs
      rw [hit, ← lastIs, address_half]
      omega
    next miss =>
      intro lastIs
      have bounds := loaded.within which last lastIs
      omega
  · intro a lower upper near
    rw [List.length_append, List.length_singleton] at upper near
    rw [chips]
    split
    next hit =>
      rw [half_eq_half] at hit
      rw [show a = target by omega]
    next miss =>
      rw [half_eq_half] at miss
      exact loaded.recent a lower (by omega) (by omega)
  · rw [Bank.write_idle loaded.idle, inPage, Bool.or_false]
    exact loaded.crossed
  · rw [Bank.write_idle loaded.idle]
    exact loaded.interrupted

theorem storeBytes_loaded (timing : Timing) {before : Bank} {addr : Nat} {data : List Byte}
    (idle : before.Idle) (aligned : addr % AT28_CHUNK_BYTES = 0)
    (short : data.length ≤ AT28_CHUNK_BYTES) :
    Loaded before addr data
      (storeBytes (eeprom timing) addr data (before.unlockedTo 3)) := by
  induction data using List.reverseRecOn with
  | nil =>
    refine ⟨idle, fun _ => rfl, fun _ => rfl, fun a => ?_, fun _ _ lastIs => ?_,
      fun a lower upper _ => ?_, rfl, rfl⟩
    · rw [List.length_nil, if_neg (by omega)]
      rfl
    · cases lastIs
    · rw [List.length_nil] at upper
      omega
  | append_singleton bytes byte inductionHypothesis =>
    rw [List.length_append, List.length_singleton] at short
    rw [storeBytes_append]
    exact (inductionHypothesis (by omega)).write byte aligned (by omega)

/-! ## The poll -/

theorem Bank.close_open {bank : Bank} (timing : Timing)
    (unlocked : ∀ which, (bank.chips which).unlocked = 3) (which : Half) :
    (bank.close timing).chips which =
      { bank.chips which with
        unlocked := 0
        busy := timing.cycle which (bank.chips which).cycles
        cycles := (bank.chips which).cycles + 1 } := by
  change (bank.chips which).close (timing.cycle which) = _
  rw [Chip.close, if_pos (unlocked which)]

theorem Bank.value_busy {bank : Bank} {addr : Nat} (busy : 0 < (bank.chips (half addr)).busy)
    (last : (bank.chips (half addr)).last = some (addr / 2)) :
    bank.value addr ≠ bank.content addr := by
  rw [Bank.value, Chip.value, if_pos ⟨busy, last⟩, Bank.content]
  generalize (bank.chips (half addr)).cells (addr / 2) = byte
  intro same
  have flipped : byte ^^^ (byte ^^^ 0x80) = byte ^^^ byte := congrArg (byte ^^^ ·) same
  rw [← BitVec.xor_assoc, BitVec.xor_self, BitVec.zero_xor] at flipped
  exact absurd flipped (by decide)

theorem Bank.value_idle {bank : Bank} {addr : Nat} (idle : (bank.chips (half addr)).busy = 0) :
    bank.value addr = bank.content addr := by
  rw [Bank.value, Chip.value, if_neg (by omega), Bank.content]

theorem pollByte_eeprom (timing : Timing) (addr timeout : Nat) :
    ∀ (bank : Bank), (bank.close timing).Closed →
      ((bank.close timing).chips (half addr)).last = some (addr / 2) →
      ((bank.close timing).chips (half addr)).busy < timeout →
      pollByte (eeprom timing) addr ((bank.close timing).content addr) timeout bank =
        (true, (bank.close timing).age (((bank.close timing).chips (half addr)).busy + 1)) := by
  induction timeout with
  | zero => exact fun _ _ _ inTime => absurd inTime (Nat.not_lt_zero _)
  | succ timeout inductionHypothesis =>
    intro bank closed last inTime
    change (if (bank.close timing).value addr = _ then _ else _) = _
    by_cases done : ((bank.close timing).chips (half addr)).busy = 0
    · rw [if_pos (Bank.value_idle done), done]
      rfl
    · have next : ((bank.close timing).age 1).close timing = (bank.close timing).age 1 :=
        (closed.age 1).close timing
      have earlier := inductionHypothesis ((bank.close timing).age 1)
        (by rw [next]; exact closed) (by rw [next]; exact last)
        (by
          rw [next]
          change ((bank.close timing).chips (half addr)).busy - 1 < timeout
          omega)
      rw [if_neg (Bank.value_busy (Nat.pos_of_ne_zero done) last)]
      rw [next, Bank.age_content, Bank.age_age] at earlier
      have count : 1 + (((bank.close timing).age 1).chips (half addr)).busy =
          ((bank.close timing).chips (half addr)).busy := by
        change 1 + (((bank.close timing).chips (half addr)).busy - 1) = _
        omega
      rw [← Nat.add_assoc, count] at earlier
      exact earlier

/-! ## A chunk -/

/-- The chips after a chunk whose poll has succeeded. -/
structure Written (timing : Timing) (before : Bank) (addr : Nat) (data : List Byte)
    (after : Bank) : Prop where
  closed : after.Closed
  cycles : ∀ which, (after.chips which).cycles = (before.chips which).cycles + 1
  busy : ∀ which, (after.chips which).busy =
    timing.cycle which (before.chips which).cycles -
      (timing.cycle (half (addr + data.length - 1))
        (before.chips (half (addr + data.length - 1))).cycles + 1)
  content : ∀ a, after.content a =
    if addr ≤ a ∧ a < addr + data.length then data.getD (a - addr) 0 else before.content a
  within : ∀ which last, (after.chips which).last = some last →
    addr ≤ address which last ∧ address which last < addr + data.length
  recent : ∀ a, addr ≤ a → a < addr + data.length → addr + data.length ≤ a + 2 →
    (after.chips (half a)).last = some (a / 2)
  crossed : after.crossed = before.crossed
  interrupted : after.interrupted = before.interrupted

theorem flashWriteChunk_written {timing : Timing} {before : Bank} {addr : Nat} {data : List Byte}
    (idle : before.Idle) (closed : before.Closed) (aligned : addr % AT28_CHUNK_BYTES = 0)
    (nonempty : 0 < data.length) (short : data.length ≤ AT28_CHUNK_BYTES)
    (inTime : ∀ which cycle, timing.cycle which cycle < AT28_WRITE_TIMEOUT) :
    (flashWriteChunk (eeprom timing) addr data before).1 = none ∧
      Written timing before addr data (flashWriteChunk (eeprom timing) addr data before).2 := by
  have loaded := storeBytes_loaded timing idle aligned short
  rw [flashWriteChunk, if_neg (by omega), at28DisableSdpPage_closed timing idle closed]
  generalize storeBytes (eeprom timing) addr data (before.unlockedTo 3) = stored at *
  generalize place : addr + data.length - 1 = target
  have chips := Bank.close_open timing loaded.unlocked
  have content : (stored.close timing).content = stored.content := by
    funext a
    rw [Bank.content, chips, Bank.content]
  have lastByte : data.getD (data.length - 1) 0 = (stored.close timing).content target := by
    rw [content, loaded.content, if_pos (by omega), show target - addr = data.length - 1 by omega]
  have shut : (stored.close timing).Closed := by
    intro which
    rw [chips]
  have recent : ((stored.close timing).chips (half target)).last = some (target / 2) := by
    rw [chips]
    exact loaded.recent target (by omega) (by omega) (by omega)
  have busy : ((stored.close timing).chips (half target)).busy =
      timing.cycle (half target) (before.chips (half target)).cycles := by
    rw [chips, loaded.cycles]
  have polled := pollByte_eeprom timing target AT28_WRITE_TIMEOUT stored shut recent
    (by rw [busy]; exact inTime _ _)
  simp only [lastByte, polled, busy]
  refine ⟨trivial, shut.age _, ?_, ?_, ?_, ?_, ?_, ?_, ?_⟩
  · intro which
    change ((stored.close timing).chips which).cycles = _
    rw [chips, loaded.cycles]
  · intro which
    change ((stored.close timing).chips which).busy - _ = _
    rw [chips, loaded.cycles, place]
  · intro a
    rw [Bank.age_content, content, loaded.content]
  · intro which last lastIs
    apply loaded.within which last
    rw [← lastIs]
    change _ = ((stored.close timing).chips which).last
    rw [chips]
  · intro a lower upper near
    change ((stored.close timing).chips (half a)).last = _
    rw [chips]
    exact loaded.recent a lower upper near
  · exact loaded.crossed
  · exact loaded.interrupted

end OrionBios.Burner
