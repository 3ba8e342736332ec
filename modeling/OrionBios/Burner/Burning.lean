import OrionBios.Burner.PageLoad

/-!
# The write loop on sound chips

The loop burns chunk after chunk as long as the chip that it does not poll ends its cycle before
the next unlock writes; the first chunk that comes too early interrupts a cycle.
-/

namespace OrionBios.Burner

/-! ## Rounds -/

theorem chunkAt_length (data : List Byte) (offset : Nat) :
    (chunkAt data offset).length = min AT28_CHUNK_BYTES (data.length - offset) := by
  rw [chunkAt, List.length_take, List.length_drop]

theorem chunkAt_getD {data : List Byte} {offset place : Nat} (lower : offset ≤ place)
    (upper : place < offset + (chunkAt data offset).length) :
    (chunkAt data offset).getD (place - offset) 0 = data.getD place 0 := by
  rw [chunkAt_length] at upper
  rw [chunkAt, List.getD_eq_getElem?_getD, List.getElem?_take_of_lt (by omega),
    List.getElem?_drop, List.getD_eq_getElem?_getD, Nat.add_sub_cancel' lower]

theorem writeAttempts_first {σ : Type} (device : Device σ) {sysAddr : Nat} {data : List Byte}
    {s : σ} (succeeds : (flashWriteChunk device sysAddr data s).1 = none) (left : Nat) :
    writeAttempts device sysAddr data (left + 1) s = flashWriteChunk device sysAddr data s := by
  rw [writeAttempts]
  cases result : flashWriteChunk device sysAddr data s with
  | mk failure after =>
    rw [result] at succeeds
    dsimp only at succeeds
    subst succeeds
    rfl

theorem writeLoop_round {σ : Type} (device : Device σ) {data : List Byte} {offset : Nat} {s : σ}
    (inside : offset < data.length)
    (succeeds : (flashWriteChunk device offset (chunkAt data offset) s).1 = none)
    (rounds chunkNum : Nat) :
    writeLoop device data (rounds + 1) offset chunkNum s =
      writeLoop device data rounds (offset + (chunkAt data offset).length) (chunkNum + 1)
        (device.draw .gravando (chunkNum + 1) (totalChunks data.length)
          (flashWriteChunk device offset (chunkAt data offset) s).2) := by
  rw [writeLoop, if_pos inside]
  dsimp only
  rw [MAX_PAGE_RETRIES, writeAttempts_first device succeeds]
  generalize flashWriteChunk device offset (chunkAt data offset) s = result at *
  obtain ⟨failure, after⟩ := result
  dsimp only at succeeds
  subst succeeds
  rfl

theorem writeLoop_outside {σ : Type} (device : Device σ) {data : List Byte} {offset : Nat}
    (outside : ¬offset < data.length) (rounds chunkNum : Nat) (s : σ) :
    writeLoop device data rounds offset chunkNum s = (none, s) := by
  cases rounds with
  | zero => rfl
  | succ rounds => rw [writeLoop, if_neg outside]

/-! ## Progress -/

/-- The chips at rest, with the first chunks of the image burnt. -/
structure Progress (memory : Nat → Byte) (image : List Byte) (chunks : Nat) (bank : Bank) :
    Prop where
  idle : bank.Idle
  closed : bank.Closed
  cycles : ∀ which, (bank.chips which).cycles = chunks
  content : ∀ a, bank.content a =
    if a < AT28_CHUNK_BYTES * chunks ∧ a < image.length then image.getD a 0 else memory a
  crossed : bank.crossed = false
  interrupted : bank.interrupted = false

structure Burnt (timing : Timing) (memory : Nat → Byte) (image : List Byte) (bank : Bank) :
    Prop where
  closed : bank.Closed
  content : ∀ a, bank.content a = if a < image.length then image.getD a 0 else memory a
  busy : ∀ which, (bank.chips which).busy =
    timing.cycle which (totalChunks image.length - 1) -
      (timing.cycle (half (image.length - 1)) (totalChunks image.length - 1) + 1 +
        timing.drawing .gravando (totalChunks image.length))
  within : ∀ which last, (bank.chips which).last = some last →
    AT28_CHUNK_BYTES * (totalChunks image.length - 1) ≤ address which last ∧
      address which last < image.length
  recent : ∀ a, AT28_CHUNK_BYTES * (totalChunks image.length - 1) ≤ a → a < image.length →
    image.length ≤ a + 2 → (bank.chips (half a)).last = some (a / 2)
  crossed : bank.crossed = false
  interrupted : bank.interrupted = false

/-- The cycle of the even bytes ends before the next chunk. -/
def Timing.Rests (timing : Timing) (chunk : Nat) : Prop :=
  timing.cycle .low chunk ≤
    timing.cycle .high chunk + 1 + timing.drawing .gravando (chunk + 1)

section Rounds

variable {timing : Timing} {memory : Nat → Byte} {image : List Byte}
  (inTime : ∀ which cycle, timing.cycle which cycle < AT28_WRITE_TIMEOUT)
include inTime

/-- A chunk that is not the last: the high chip is polled, and rests afterwards. -/
theorem Progress.chunk {chunks : Nat} {bank : Bank} (progress : Progress memory image chunks bank)
    (inside : AT28_CHUNK_BYTES * chunks < image.length) :
    (flashWriteChunk (eeprom timing) (AT28_CHUNK_BYTES * chunks)
        (chunkAt image (AT28_CHUNK_BYTES * chunks)) bank).1 = none ∧
      Written timing bank (AT28_CHUNK_BYTES * chunks)
        (chunkAt image (AT28_CHUNK_BYTES * chunks))
        (flashWriteChunk (eeprom timing) (AT28_CHUNK_BYTES * chunks)
          (chunkAt image (AT28_CHUNK_BYTES * chunks)) bank).2 := by
  apply flashWriteChunk_written progress.idle progress.closed
  · exact Nat.mul_mod_right _ _
  · exact chunkAt_length_pos inside
  · rw [chunkAt_length]
    exact Nat.min_le_left _ _
  · exact inTime

/-- After a chunk that is not the last only the chip of the even bytes can be in its cycle. -/
theorem Progress.busy_between {chunks : Nat} {bank : Bank}
    (progress : Progress memory image chunks bank)
    (more : AT28_CHUNK_BYTES * (chunks + 1) < image.length) (which : Half) :
    ((flashWriteChunk (eeprom timing) (AT28_CHUNK_BYTES * chunks)
      (chunkAt image (AT28_CHUNK_BYTES * chunks)) bank).2.chips which).busy =
      timing.cycle which chunks - (timing.cycle .high chunks + 1) := by
  obtain ⟨-, written⟩ := progress.chunk inTime (by rw [Nat.mul_succ] at more; omega)
  have full : (chunkAt image (AT28_CHUNK_BYTES * chunks)).length = AT28_CHUNK_BYTES := by
    rw [chunkAt_length]
    rw [Nat.mul_succ] at more
    omega
  have polled : half (AT28_CHUNK_BYTES * chunks + AT28_CHUNK_BYTES - 1) = .high := by
    rw [half, if_neg]
    rw [AT28_CHUNK_BYTES]
    omega
  rw [written.busy, full, polled, progress.cycles, progress.cycles]

omit inTime in
theorem Progress.burnt_content {chunks : Nat} {bank after : Bank}
    (progress : Progress memory image chunks bank)
    (written : Written timing bank (AT28_CHUNK_BYTES * chunks)
      (chunkAt image (AT28_CHUNK_BYTES * chunks)) after) (a : Nat) :
    after.content a =
      if a < AT28_CHUNK_BYTES * (chunks + 1) ∧ a < image.length then image.getD a 0
      else memory a := by
  have length := chunkAt_length image (AT28_CHUNK_BYTES * chunks)
  rw [written.content, progress.content]
  by_cases here : AT28_CHUNK_BYTES * chunks ≤ a ∧
      a < AT28_CHUNK_BYTES * chunks + (chunkAt image (AT28_CHUNK_BYTES * chunks)).length
  · rw [if_pos here, chunkAt_getD here.1 here.2, if_pos ⟨by rw [Nat.mul_succ]; omega, by omega⟩]
  · rw [if_neg here]
    by_cases earlier : a < AT28_CHUNK_BYTES * chunks ∧ a < image.length
    · rw [if_pos earlier, if_pos ⟨by rw [Nat.mul_succ]; omega, earlier.2⟩]
    · rw [if_neg earlier, if_neg (by rw [Nat.mul_succ]; omega)]

theorem Progress.next {chunks : Nat} {bank : Bank} (progress : Progress memory image chunks bank)
    (more : AT28_CHUNK_BYTES * (chunks + 1) < image.length) (rests : timing.Rests chunks) :
    Progress memory image (chunks + 1)
      ((flashWriteChunk (eeprom timing) (AT28_CHUNK_BYTES * chunks)
        (chunkAt image (AT28_CHUNK_BYTES * chunks)) bank).2.age
          (timing.drawing .gravando (chunks + 1))) := by
  obtain ⟨-, written⟩ := progress.chunk inTime (by rw [Nat.mul_succ] at more; omega)
  have busy := progress.busy_between inTime more
  refine ⟨?_, written.closed.age _, ?_, ?_, ?_, ?_⟩
  · intro which
    rw [Bank.age_busy, busy]
    unfold Timing.Rests at rests
    cases which with
    | low => omega
    | high => omega
  · intro which
    rw [Bank.age_cycles, written.cycles, progress.cycles]
  · intro a
    rw [Bank.age_content]
    exact progress.burnt_content written a
  · exact written.crossed.trans progress.crossed
  · exact written.interrupted.trans progress.interrupted

theorem Progress.last {chunks : Nat} {bank : Bank} (progress : Progress memory image chunks bank)
    (inside : AT28_CHUNK_BYTES * chunks < image.length)
    (done : image.length ≤ AT28_CHUNK_BYTES * (chunks + 1)) :
    Burnt timing memory image
      ((flashWriteChunk (eeprom timing) (AT28_CHUNK_BYTES * chunks)
        (chunkAt image (AT28_CHUNK_BYTES * chunks)) bank).2.age
          (timing.drawing .gravando (chunks + 1))) := by
  have size : AT28_CHUNK_BYTES = 128 := rfl
  obtain ⟨-, written⟩ := progress.chunk inTime inside
  have total : totalChunks image.length = chunks + 1 := by
    rw [size, Nat.mul_succ] at done
    rw [size] at inside
    rw [totalChunks, size]
    omega
  have end_ : AT28_CHUNK_BYTES * chunks + (chunkAt image (AT28_CHUNK_BYTES * chunks)).length =
      image.length := by
    rw [chunkAt_length]
    rw [Nat.mul_succ] at done
    omega
  refine ⟨written.closed.age _, ?_, ?_, ?_, ?_, ?_, ?_⟩
  · intro a
    rw [Bank.age_content, progress.burnt_content written]
    by_cases covered : a < image.length
    · rw [if_pos covered, if_pos ⟨by omega, covered⟩]
    · rw [if_neg covered, if_neg (fun both => covered both.2)]
  · intro which
    rw [Bank.age_busy, written.busy, end_, progress.cycles, progress.cycles, total, Nat.add_sub_cancel,
      Nat.sub_sub]
  · intro which last lastIs
    rw [total, Nat.add_sub_cancel, ← end_]
    exact written.within which last lastIs
  · intro a lower upper near
    rw [total, Nat.add_sub_cancel] at lower
    exact written.recent a lower (by omega) (by omega)
  · exact written.crossed.trans progress.crossed
  · exact written.interrupted.trans progress.interrupted

theorem Progress.writeLoop (rounds : Nat) :
    ∀ {chunks : Nat} {bank : Bank}, Progress memory image chunks bank →
      AT28_CHUNK_BYTES * chunks < image.length →
      image.length ≤ AT28_CHUNK_BYTES * chunks + rounds →
      (∀ chunk, chunks ≤ chunk → AT28_CHUNK_BYTES * (chunk + 1) < image.length →
        timing.Rests chunk) →
      ∃ after, writeLoop (eeprom timing) image rounds (AT28_CHUNK_BYTES * chunks) chunks bank =
        (none, after) ∧ Burnt timing memory image after := by
  induction rounds with
  | zero =>
    intro chunks bank _ inside enough
    omega
  | succ rounds inductionHypothesis =>
    intro chunks bank progress inside enough rests
    obtain ⟨succeeds, -⟩ := progress.chunk inTime inside
    rw [writeLoop_round _ inside succeeds]
    have length := chunkAt_length image (AT28_CHUNK_BYTES * chunks)
    have size : 1 ≤ AT28_CHUNK_BYTES := by decide
    by_cases more : AT28_CHUNK_BYTES * (chunks + 1) < image.length
    · have step : AT28_CHUNK_BYTES * chunks +
          (chunkAt image (AT28_CHUNK_BYTES * chunks)).length = AT28_CHUNK_BYTES * (chunks + 1) := by
        rw [Nat.mul_succ] at more ⊢
        omega
      rw [step]
      exact inductionHypothesis (progress.next inTime more (rests chunks (Nat.le_refl _) more))
        more (by rw [Nat.mul_succ]; omega)
        (fun chunk later => rests chunk (by omega))
    · have step : ¬AT28_CHUNK_BYTES * chunks +
          (chunkAt image (AT28_CHUNK_BYTES * chunks)).length < image.length := by
        rw [Nat.mul_succ] at more
        omega
      rw [writeLoop_outside _ step]
      exact ⟨_, rfl, progress.last inTime inside (by omega)⟩

/-- A chunk that the low chip does not wait for is begun while the chip is in its cycle. -/
theorem Progress.writeLoop_interrupted (rounds : Nat) :
    ∀ {chunks : Nat} {bank : Bank}, Progress memory image chunks bank →
      image.length ≤ AT28_CHUNK_BYTES * chunks + rounds →
      (∃ chunk, chunks ≤ chunk ∧ AT28_CHUNK_BYTES * (chunk + 1) < image.length ∧
        ¬timing.Rests chunk) →
      (Burner.writeLoop (eeprom timing) image rounds (AT28_CHUNK_BYTES * chunks) chunks
        bank).2.interrupted = true := by
  induction rounds with
  | zero =>
    rintro chunks bank _ enough ⟨chunk, later, more, -⟩
    have : AT28_CHUNK_BYTES * chunks ≤ AT28_CHUNK_BYTES * (chunk + 1) :=
      Nat.mul_le_mul_left _ (by omega)
    omega
  | succ rounds inductionHypothesis =>
    rintro chunks bank progress enough ⟨chunk, later, more, early⟩
    have order : AT28_CHUNK_BYTES * (chunks + 1) ≤ AT28_CHUNK_BYTES * (chunk + 1) :=
      Nat.mul_le_mul_left _ (by omega)
    have inside : AT28_CHUNK_BYTES * (chunks + 1) < image.length := by omega
    obtain ⟨succeeds, written⟩ := progress.chunk inTime (by rw [Nat.mul_succ] at inside; omega)
    have length := chunkAt_length image (AT28_CHUNK_BYTES * chunks)
    have size : 1 ≤ AT28_CHUNK_BYTES := by decide
    have step : AT28_CHUNK_BYTES * chunks +
        (chunkAt image (AT28_CHUNK_BYTES * chunks)).length = AT28_CHUNK_BYTES * (chunks + 1) := by
      rw [Nat.mul_succ] at inside ⊢
      omega
    rw [writeLoop_round _ (by rw [Nat.mul_succ] at inside; omega) succeeds, step]
    by_cases rests : timing.Rests chunks
    · refine inductionHypothesis (progress.next inTime inside rests)
        (by rw [Nat.mul_succ]; omega) ⟨chunk, ?_, more, early⟩
      rcases Nat.lt_or_eq_of_le later with beyond | here
      · exact beyond
      · rw [here] at rests
        exact absurd rests early
    · cases rounds with
      | zero =>
        rw [Nat.mul_succ] at inside
        omega
      | succ rounds =>
        -- the first unlock write of the next chunk comes during the cycle
        have running : 0 < (((flashWriteChunk (eeprom timing) (AT28_CHUNK_BYTES * chunks)
            (chunkAt image (AT28_CHUNK_BYTES * chunks)) bank).2.age
              (timing.drawing .gravando (chunks + 1))).chips .low).busy := by
          rw [Bank.age_busy, progress.busy_between inTime inside]
          unfold Timing.Rests at rests
          omega
        exact (interrupted_keeps timing).writeRound rounds (chunks + 1) inside
          (Bank.write_interrupted running _ _)
          fun offset chunkNum _ before =>
            (interrupted_keeps timing).writeLoop image rounds offset chunkNum before

end Rounds

end OrionBios.Burner
