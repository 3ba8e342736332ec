import OrionBios.Burner.Burning
import OrionBios.Burner.ReadBack
import Mathlib.Algebra.GroupWithZero.Nat

/-!
# The burner on sound chips and on any chips

On sound chips the run burns the image and resets exactly when the chip that a chunk does not poll
has ended its cycle before it is needed again: by the next unlock writes, and after the last chunk
by the read of its last byte.
-/

namespace OrionBios.Burner

/-! ## The verification on sound chips -/

/-- The time at which the verification reads a byte. -/
def Timing.readTime (timing : Timing) (addr : Nat) : Nat :=
  addr + ((List.range (addr / AT28_CHUNK_BYTES)).map
    fun chunk => timing.drawing .verificando (chunk + 1)).sum

theorem Timing.readTime_within (timing : Timing) {chunks place : Nat}
    (inside : place < AT28_CHUNK_BYTES) :
    timing.readTime (AT28_CHUNK_BYTES * chunks + place) =
      timing.readTime (AT28_CHUNK_BYTES * chunks) + place := by
  have positive : 0 < AT28_CHUNK_BYTES := by decide
  rw [readTime, readTime, Nat.mul_add_div positive, Nat.div_eq_of_lt inside,
    Nat.mul_div_cancel_left chunks positive, Nat.add_zero]
  omega

theorem Timing.readTime_next (timing : Timing) (chunks : Nat) :
    timing.readTime (AT28_CHUNK_BYTES * (chunks + 1)) =
      timing.readTime (AT28_CHUNK_BYTES * chunks) + AT28_CHUNK_BYTES +
        timing.drawing .verificando (chunks + 1) := by
  have positive : 0 < AT28_CHUNK_BYTES := by decide
  rw [readTime, readTime, Nat.mul_div_cancel_left _ positive, Nat.mul_div_cancel_left _ positive,
    List.range_succ, List.map_append, List.sum_append, Nat.mul_succ]
  simp only [List.map_cons, List.map_nil, List.sum_cons, List.sum_nil]
  omega

theorem compareBytes_eeprom (timing : Timing) (bytes : List Byte) :
    ∀ (addr errors : Nat) {bank : Bank}, bank.Closed →
      (compareBytes (eeprom timing) addr bytes errors bank).2 = bank.age bytes.length ∧
      errors ≤ (compareBytes (eeprom timing) addr bytes errors bank).1 ∧
      ((compareBytes (eeprom timing) addr bytes errors bank).1 = errors ↔
        ∀ place, place < bytes.length →
          (bank.age place).value (addr + place) = bytes.getD place 0) := by
  induction bytes with
  | nil =>
    intro addr errors bank _
    simp [compareBytes]
  | cons byte rest inductionHypothesis =>
    intro addr errors bank closed
    have step : compareBytes (eeprom timing) addr (byte :: rest) errors bank =
        compareBytes (eeprom timing) (addr + 1) rest
          (if bank.value addr ≠ byte then errors + 1 else errors) (bank.age 1) := by
      change compareBytes (eeprom timing) (addr + 1) rest
        (if (bank.close timing).value addr ≠ byte then errors + 1 else errors)
          ((bank.close timing).age 1) = _
      rw [closed.close]
    obtain ⟨aged, grows, right⟩ := inductionHypothesis (addr + 1)
      (if bank.value addr ≠ byte then errors + 1 else errors) (closed.age 1)
    rw [step]
    generalize compareBytes (eeprom timing) (addr + 1) rest _ (bank.age 1) = result at *
    refine ⟨?_, ?_, ?_⟩
    · rw [aged, Bank.age_age, List.length_cons, Nat.add_comm]
    · split at grows <;> omega
    · by_cases same : bank.value addr = byte
      · rw [if_neg (not_not.mpr same)] at right
        rw [right]
        constructor
        · intro others place inside
          cases place with
          | zero => exact same
          | succ place =>
            have other := others place (by rw [List.length_cons] at inside; omega)
            rw [Bank.age_age] at other
            rw [List.getD_cons_succ, ← other, Nat.add_comm place 1, Nat.add_assoc]
        · intro all place inside
          have other := all (place + 1) (by rw [List.length_cons]; omega)
          rw [List.getD_cons_succ] at other
          rw [Bank.age_age, ← other, Nat.add_comm 1 place, Nat.add_assoc, Nat.add_comm 1 place]
      · rw [if_pos same] at grows
        constructor
        · intro equal
          omega
        · intro all
          exact absurd (all 0 (by rw [List.length_cons]; omega)) same

theorem verifyLoop_eeprom (timing : Timing) (image : List Byte) {start : Bank}
    (closed : start.Closed) (rounds : Nat) :
    ∀ (chunks errors : Nat), image.length ≤ AT28_CHUNK_BYTES * chunks + rounds →
      errors ≤ (verifyLoop (eeprom timing) image rounds (AT28_CHUNK_BYTES * chunks) chunks errors
        (start.age (timing.readTime (AT28_CHUNK_BYTES * chunks)))).1 ∧
      ((verifyLoop (eeprom timing) image rounds (AT28_CHUNK_BYTES * chunks) chunks errors
        (start.age (timing.readTime (AT28_CHUNK_BYTES * chunks)))).1 = errors ↔
          ∀ addr, AT28_CHUNK_BYTES * chunks ≤ addr → addr < image.length →
            (start.age (timing.readTime addr)).value addr = image.getD addr 0) ∧
      ∃ ticks, (verifyLoop (eeprom timing) image rounds (AT28_CHUNK_BYTES * chunks) chunks errors
        (start.age (timing.readTime (AT28_CHUNK_BYTES * chunks)))).2 = start.age ticks := by
  induction rounds with
  | zero =>
    intro chunks errors enough
    refine ⟨Nat.le_refl _, ⟨fun _ addr lower upper => ?_, fun _ => rfl⟩, _, rfl⟩
    omega
  | succ rounds inductionHypothesis =>
    intro chunks errors enough
    have next : AT28_CHUNK_BYTES * chunks + AT28_CHUNK_BYTES = AT28_CHUNK_BYTES * (chunks + 1) :=
      (Nat.mul_succ _ _).symm
    have positive : 0 < AT28_CHUNK_BYTES := by decide
    by_cases inside : AT28_CHUNK_BYTES * chunks < image.length
    · have length := chunkAt_length image (AT28_CHUNK_BYTES * chunks)
      obtain ⟨aged, grows, right⟩ := compareBytes_eeprom timing
        (chunkAt image (AT28_CHUNK_BYTES * chunks)) (AT28_CHUNK_BYTES * chunks) errors
        (closed.age (timing.readTime (AT28_CHUNK_BYTES * chunks)))
      have chunkRight : (∀ place, place < (chunkAt image (AT28_CHUNK_BYTES * chunks)).length →
          ((start.age (timing.readTime (AT28_CHUNK_BYTES * chunks))).age place).value
              (AT28_CHUNK_BYTES * chunks + place) =
            (chunkAt image (AT28_CHUNK_BYTES * chunks)).getD place 0) ↔
          ∀ addr, AT28_CHUNK_BYTES * chunks ≤ addr →
            addr < AT28_CHUNK_BYTES * chunks + (chunkAt image (AT28_CHUNK_BYTES * chunks)).length →
              (start.age (timing.readTime addr)).value addr = image.getD addr 0 := by
        constructor
        · intro all addr lower upper
          have here := all (addr - AT28_CHUNK_BYTES * chunks) (by omega)
          rw [Bank.age_age, ← timing.readTime_within (by omega), Nat.add_sub_cancel' lower,
            chunkAt_getD lower upper] at here
          exact here
        · intro all place within
          have here := all (AT28_CHUNK_BYTES * chunks + place) (by omega) (by omega)
          have part : (chunkAt image (AT28_CHUNK_BYTES * chunks)).getD
              (AT28_CHUNK_BYTES * chunks + place - AT28_CHUNK_BYTES * chunks) 0 =
                image.getD (AT28_CHUNK_BYTES * chunks + place) 0 :=
            chunkAt_getD (by omega) (by omega)
          rw [Nat.add_sub_cancel_left] at part
          rw [Bank.age_age, ← timing.readTime_within (by omega), here, part]
      rw [chunkRight] at right
      rw [verifyLoop_inside _ inside, aged, Bank.age_age]
      generalize (compareBytes (eeprom timing) (AT28_CHUNK_BYTES * chunks) _ errors _).1 = found
        at grows right ⊢
      by_cases more : AT28_CHUNK_BYTES * (chunks + 1) < image.length
      · have full : (chunkAt image (AT28_CHUNK_BYTES * chunks)).length = AT28_CHUNK_BYTES := by
          omega
        rw [full] at right ⊢
        change _ ≤ (verifyLoop _ _ _ _ _ _ ((start.age _).age _)).1 ∧
          ((verifyLoop _ _ _ _ _ _ ((start.age _).age _)).1 = _ ↔ _) ∧
          ∃ ticks, (verifyLoop _ _ _ _ _ _ ((start.age _).age _)).2 = start.age ticks
        rw [Bank.age_age, ← timing.readTime_next, next]
        rw [next] at right
        obtain ⟨later, rest, aged⟩ := inductionHypothesis (chunks + 1) found (by omega)
        refine ⟨Nat.le_trans grows later, ?_, aged⟩
        constructor
        · intro equal addr lower upper
          by_cases here : addr < AT28_CHUNK_BYTES * (chunks + 1)
          · exact right.mp (by omega) addr lower here
          · exact rest.mp (by omega) addr (by omega) upper
        · intro all
          have first : found = errors :=
            right.mpr fun addr lower upper => all addr lower (by omega)
          rw [rest.mpr fun addr lower upper => all addr (by omega) upper, first]
      · have last : AT28_CHUNK_BYTES * chunks +
            (chunkAt image (AT28_CHUNK_BYTES * chunks)).length = image.length := by
          omega
        rw [last] at right ⊢
        rw [verifyLoop_outside _ (Nat.lt_irrefl _)]
        exact ⟨grows, right, _, start.age_age _ _⟩
    · rw [verifyLoop_outside _ inside]
      refine ⟨Nat.le_refl _, ⟨fun _ addr lower upper => ?_, fun _ => rfl⟩, _, rfl⟩
      omega

/-! ## The condition -/

/-- The chip that the last chunk does not poll ends its cycle before its last byte is read. -/
def Timing.LastRests (timing : Timing) (lenBytes : Nat) : Prop :=
  AT28_CHUNK_BYTES * (totalChunks lenBytes - 1) + 2 ≤ lenBytes →
    timing.cycle (half (lenBytes - 2)) (totalChunks lenBytes - 1) ≤
      timing.cycle (half (lenBytes - 1)) (totalChunks lenBytes - 1) + 1 +
        timing.drawing .gravando (totalChunks lenBytes) + timing.readTime (lenBytes - 2)

structure Timing.Suits (timing : Timing) (lenBytes : Nat) : Prop where
  between : ∀ chunk, AT28_CHUNK_BYTES * (chunk + 1) < lenBytes → timing.Rests chunk
  last : timing.LastRests lenBytes

/-- On burnt chips every read of the verification is right exactly when the last byte of the
chip that was not polled is. -/
theorem Burnt.verified_iff {timing : Timing} {memory : Nat → Byte} {image : List Byte}
    {bank : Bank} (burnt : Burnt timing memory image bank) (nonempty : 0 < image.length) :
    (∀ addr, addr < image.length →
        (bank.age (timing.readTime addr)).value addr = image.getD addr 0) ↔
      timing.LastRests image.length := by
  have right : ∀ addr, addr < image.length → bank.content addr = image.getD addr 0 := by
    intro addr inside
    rw [burnt.content, if_pos inside]
  have start : AT28_CHUNK_BYTES * (totalChunks image.length - 1) < image.length := by
    rw [totalChunks, AT28_CHUNK_BYTES]
    omega
  constructor
  · intro verified two
    have inside : image.length - 2 < image.length := by omega
    have read := verified (image.length - 2) inside
    by_contra running
    have wrong : (bank.age (timing.readTime (image.length - 2))).value (image.length - 2) ≠
        (bank.age (timing.readTime (image.length - 2))).content (image.length - 2) := by
      apply Bank.value_busy
      · rw [Bank.age_busy, burnt.busy]
        omega
      · exact burnt.recent (image.length - 2) (by omega) inside (by omega)
    rw [read, Bank.age_content, right _ inside] at wrong
    exact wrong rfl
  · intro rests addr inside
    by_cases idle : ((bank.age (timing.readTime addr)).chips (half addr)).busy = 0
    · rw [Bank.value_idle idle, Bank.age_content, right addr inside]
    · rw [Bank.age_busy, burnt.busy] at idle
      have other : half addr ≠ half (image.length - 1) := by
        intro same
        rw [same] at idle
        omega
      rw [Bank.value, Chip.value, if_neg, ← right addr inside]
      · rfl
      · rintro ⟨-, last⟩
        rw [Bank.age_last] at last
        obtain ⟨lower, -⟩ := burnt.within _ _ last
        rw [address_half] at lower
        have notLast : addr ≠ image.length - 1 := fun same => other (by rw [same])
        have recent := burnt.recent (image.length - 2) (by omega) (by omega) (by omega)
        have sameHalf : half addr = half (image.length - 2) := by
          rw [ne_eq, half_eq_half] at other
          rw [half_eq_half]
          omega
        rw [sameHalf, recent, Option.some.injEq] at last
        have here : addr = image.length - 2 := eq_of_half sameHalf last.symm
        have inTime := rests (by omega)
        rw [here] at idle
        omega

/-! ## Whole runs -/

def firmware (image : List Byte) (fits : image.length ≤ MAX_FW_SIZE) : File where
  size := BitVec.ofNat 32 image.length
  bytes := some image
  fits := by
    intro read same
    rw [MAX_FW_SIZE, AT28_CHIP_BYTES] at fits
    rw [Option.some.injEq] at same
    rw [← same, BitVec.toNat_ofNat]
    omega

/-- The run has ended in the reset, with the image and nothing else changed, and no load has
crossed a page or come during a cycle. -/
structure Burned (memory : Nat → Byte) (image : List Byte) (run : Run Bank) : Prop where
  exit : run.exit = .softReset
  crossed : run.device.crossed = false
  interrupted : run.device.interrupted = false
  content : ∀ a, run.device.content a = if a < image.length then image.getD a 0 else memory a

/-- The run has read the whole image back and reset, or else has returned 1 with the old mask. -/
def Guarded {σ : Type} (image : List Byte) (sr : BitVec 16) (run : Run (σ × List Access)) : Prop :=
  (run.exit = .softReset ∧ ∃ earlier, run.device.2 = earlier ++ readBack 0 image) ∨
    (run.exit.status = some 1 ∧ run.sr = sr)

theorem main_firmware {σ : Type} (device : Device σ) {image : List Byte}
    (nonempty : 0 < image.length) (fits : image.length ≤ MAX_FW_SIZE) (sr : BitVec 16) (s : σ) :
    main device 2 (some (firmware image fits)) sr s = burn device image sr s := by
  have size : (firmware image fits).size.toNat = image.length := by
    have bound := fits
    rw [MAX_FW_SIZE, AT28_CHIP_BYTES] at bound
    rw [firmware, BitVec.toNat_ofNat]
    omega
  have nonzero : (firmware image fits).size ≠ 0 := by
    intro zero
    rw [zero] at size
    exact absurd size (by
      change 0 ≠ _
      omega)
  have read : (firmware image fits).bytes.getD [] = image := rfl
  rw [main, if_neg (by decide)]
  dsimp only
  rw [if_neg (by rw [size]; exact fun either => either.elim nonzero (by omega)), read,
    if_neg (by rw [size]; simp)]

theorem progress_rested (memory : Nat → Byte) (image : List Byte) :
    Progress memory image 0 (Bank.rested memory) where
  idle := fun _ => rfl
  closed := fun _ => rfl
  cycles := fun _ => rfl
  content := fun a => by rw [Bank.rested_content, if_neg (by omega)]
  crossed := rfl
  interrupted := rfl

theorem Burnt.verify {timing : Timing} {memory : Nat → Byte} {image : List Byte} {bank : Bank}
    (burnt : Burnt timing memory image bank) (nonempty : 0 < image.length) :
    ((flashVerifyBufferProgress (eeprom timing) image bank).1 = 0 ↔
        timing.LastRests image.length) ∧
      ∃ ticks, (flashVerifyBufferProgress (eeprom timing) image bank).2 = bank.age ticks := by
  obtain ⟨-, errors, aged⟩ :=
    verifyLoop_eeprom timing image burnt.closed image.length 0 0 (by omega)
  rw [← burnt.verified_iff nonempty]
  refine ⟨errors.trans ?_, aged⟩
  constructor
  · exact fun all addr inside => all addr (by omega) inside
  · exact fun all addr _ inside => all addr inside

/-- On sound chips the run does its work exactly when the cycles suit it. -/
theorem burned_iff {timing : Timing} (memory : Nat → Byte) {image : List Byte} (sr : BitVec 16)
    (nonempty : 0 < image.length)
    (inTime : ∀ which cycle, timing.cycle which cycle < AT28_WRITE_TIMEOUT) :
    Burned memory image (burn (eeprom timing) image sr (Bank.rested memory)) ↔
      timing.Suits image.length := by
  by_cases between : ∀ chunk, AT28_CHUNK_BYTES * (chunk + 1) < image.length → timing.Rests chunk
  · obtain ⟨after, written, burnt⟩ :=
      (progress_rested memory image).writeLoop inTime image.length nonempty (by omega)
        (fun chunk _ more => between chunk more)
    obtain ⟨verified, ticks, aged⟩ := burnt.verify nonempty
    have writes : flashWriteBufferProgress (eeprom timing) image (Bank.rested memory) =
        (none, after) := written
    rw [burn, writes]
    dsimp only
    generalize flashVerifyBufferProgress (eeprom timing) image after = result at *
    by_cases rests : timing.LastRests image.length
    · rw [if_neg (not_not.mpr (verified.mpr rests)), aged]
      refine iff_of_true ⟨rfl, burnt.crossed, burnt.interrupted, ?_⟩ ⟨between, rests⟩
      intro a
      rw [Bank.age_content]
      exact burnt.content a
    · rw [if_pos (fun none => rests (verified.mp none))]
      exact iff_of_false (fun burned => by cases burned.exit) fun suits => rests suits.last
  · refine iff_of_false (fun burned => ?_) fun suits => between suits.between
    rw [not_forall] at between
    obtain ⟨chunk, early⟩ := between
    rw [Classical.not_imp] at early
    have interrupted := (progress_rested memory image).writeLoop_interrupted inTime image.length
      (by omega) ⟨chunk, Nat.zero_le _, early⟩
    have last : (burn (eeprom timing) image sr (Bank.rested memory)).device.interrupted = true := by
      rw [burn]
      cases written : flashWriteBufferProgress (eeprom timing) image (Bank.rested memory) with
      | mk failure after =>
        have here : after.interrupted = true := by
          have same : (flashWriteBufferProgress (eeprom timing) image
            (Bank.rested memory)).2.interrupted = true := interrupted
          rwa [written] at same
        cases failure with
        | some failAddr => exact here
        | none =>
          have verified := (interrupted_keeps timing).verifyLoop image image.length 0 0 0 here
          dsimp only
          split
          · exact verified
          · exact verified
    rw [burned.interrupted] at last
    cases last

/-- The burner keeps its promise, on sound chips and under any faults, exactly when the chip that
a chunk does not poll ends its cycle before it is needed. -/
theorem burner_safe_iff (timing : Timing) (memory : Nat → Byte) (image : List Byte)
    (sr : BitVec 16) (nonempty : 0 < image.length) (fits : image.length ≤ MAX_FW_SIZE)
    (inTime : ∀ which cycle, timing.cycle which cycle < AT28_WRITE_TIMEOUT) :
    (Burned memory image
        (main (eeprom timing) 2 (some (firmware image fits)) sr (Bank.rested memory)) ∧
      ∀ {σ : Type} (device : Device σ) (s : σ), Guarded image sr
        (main device.logged 2 (some (firmware image fits)) sr (s, []))) ↔
      timing.Suits image.length := by
  rw [main_firmware _ nonempty fits, burned_iff memory sr nonempty inTime]
  constructor
  · exact And.left
  · intro suits
    refine ⟨suits, fun device s => ?_⟩
    rw [main_firmware _ nonempty fits]
    exact burn_exit device image sr (s, [])

/-- An image of one chunk and a byte. -/
def sample : List Byte := List.replicate 129 0x4E

theorem sample_fits : sample.length ≤ MAX_FW_SIZE := by
  rw [sample, List.length_replicate]
  decide

theorem sample_nonempty : 0 < sample.length := by
  rw [sample, List.length_replicate]
  decide

/-- Cycles of three reads on both chips. -/
def evenTiming : Timing where
  cycle := fun _ _ => 3
  drawing := fun _ _ => 0

theorem evenTiming_short (which : Half) (cycle : Nat) :
    evenTiming.cycle which cycle < AT28_WRITE_TIMEOUT := by
  change 3 < 400000
  decide

theorem burner_safe_iff_even :
    (∀ which cycle, evenTiming.cycle which cycle < AT28_WRITE_TIMEOUT) ∧
      ((Burned (fun _ => 0xFF) sample
          (main (eeprom evenTiming) 2 (some (firmware sample sample_fits)) 0x2000
            (Bank.rested fun _ => 0xFF)) ∧
        ∀ {σ : Type} (device : Device σ) (s : σ), Guarded sample 0x2000
          (main device.logged 2 (some (firmware sample sample_fits)) 0x2000 (s, []))) ↔
        evenTiming.Suits sample.length) :=
  ⟨evenTiming_short, burner_safe_iff evenTiming (fun _ => 0xFF) sample 0x2000 sample_nonempty
    sample_fits evenTiming_short⟩

/-! ## A chip that is slower than the other -/

def slowLow : Timing where
  cycle := fun which _ => if which = .low then 5 else 1
  drawing := fun _ _ => 0

theorem slowLow_short (which : Half) (cycle : Nat) :
    slowLow.cycle which cycle < AT28_WRITE_TIMEOUT := by
  cases which with
  | low =>
    change 5 < 400000
    decide
  | high =>
    change 1 < 400000
    decide

/-- The second chunk is begun while the chip of the even bytes is in its first cycle. -/
theorem begins_during_cycle :
    ¬∀ (timing : Timing) (memory : Nat → Byte) (image : List Byte) (sr : BitVec 16),
      0 < image.length → ∀ fits : image.length ≤ MAX_FW_SIZE,
      (∀ which cycle, timing.cycle which cycle < AT28_WRITE_TIMEOUT) →
      Burned memory image
          (main (eeprom timing) 2 (some (firmware image fits)) sr (Bank.rested memory)) ∧
        ∀ {σ : Type} (device : Device σ) (s : σ), Guarded image sr
          (main device.logged 2 (some (firmware image fits)) sr (s, [])) := by
  intro promised
  obtain ⟨burned, -⟩ := promised slowLow (fun _ => 0xFF) sample 0x2000 sample_nonempty sample_fits
    slowLow_short
  have early : ¬slowLow.Suits sample.length := by
    intro suits
    have rests := suits.between 0 (by
      rw [sample, List.length_replicate]
      decide)
    exact absurd rests (by
      unfold Timing.Rests slowLow
      decide)
  rw [main_firmware _ sample_nonempty, burned_iff _ _ sample_nonempty slowLow_short] at burned
  exact early burned

end OrionBios.Burner
