import Mathlib.Data.List.Basic

/-!
# OrionBurn

The burner over any device behind its address space: what a read returns and what a write or the
drawing of the progress line does is the device's. The texts on the screen are left to `Exit`.
-/

namespace OrionBios.Burner

abbrev Byte := BitVec 8

/-- The labels of `video_show_progress`. -/
inductive Label
  | gravando
  | verificando
  deriving DecidableEq

/-- What the program's accesses meet; `draw` is the time and the writes of
`video_show_progress`. -/
structure Device (σ : Type) where
  read : Nat → σ → Byte × σ
  write : Nat → Byte → σ → σ
  draw : Label → (current total : Nat) → σ → σ

def AT28_CHIP_BYTES : Nat := 32768

def AT28_CHUNK_BYTES : Nat := 128

def AT28_WRITE_TIMEOUT : Nat := 400000

def MAX_PAGE_RETRIES : Nat := 3

def MAX_FW_SIZE : Nat := AT28_CHIP_BYTES * 2

section Device

variable {σ : Type} (device : Device σ)

/-! ## Writing -/

def at28UnlockByte (chipAddr : Nat) (value : Byte) (s : σ) : σ :=
  let sysAddr := chipAddr * 2
  device.write (sysAddr + 1) value (device.write sysAddr value s)

def at28DisableSdpPage (s : σ) : σ :=
  let s := at28UnlockByte device 0x5555 0xAA s
  let s := at28UnlockByte device 0x2AAA 0x55 s
  at28UnlockByte device 0x5555 0xA0 s

def storeBytes : Nat → List Byte → σ → σ
  | _, [], s => s
  | addr, byte :: rest, s => storeBytes (addr + 1) rest (device.write addr byte s)

/-- The loop that waits for the last byte, with what is left of the timeout. -/
def pollByte (addr : Nat) (lastByte : Byte) : Nat → σ → Bool × σ
  | 0, s => (false, s)
  | timeout + 1, s =>
    let (value, s) := device.read addr s
    if value = lastByte then (true, s) else pollByte addr lastByte timeout s

/-- `flash_write_chunk`; a failure is `g_last_fail_addr`. -/
def flashWriteChunk (sysAddr : Nat) (data : List Byte) (s : σ) : Option Nat × σ :=
  if data.length = 0 then (none, s)
  else
    let s := storeBytes device sysAddr data (at28DisableSdpPage device s)
    let lastByte := data.getD (data.length - 1) 0
    match pollByte device (sysAddr + data.length - 1) lastByte AT28_WRITE_TIMEOUT s with
    | (true, s) => (none, s)
    | (false, s) => (some (sysAddr + data.length - 1), s)

def writeAttempts (sysAddr : Nat) (data : List Byte) : Nat → σ → Option Nat × σ
  | 0, s => (none, s)
  | left + 1, s =>
    match flashWriteChunk device sysAddr data s with
    | (none, s) => (none, s)
    | (some failAddr, s) =>
      if left = 0 then (some failAddr, s) else writeAttempts sysAddr data left s

def totalChunks (lenBytes : Nat) : Nat := (lenBytes + AT28_CHUNK_BYTES - 1) / AT28_CHUNK_BYTES

def chunkAt (data : List Byte) (offset : Nat) : List Byte :=
  (data.drop offset).take AT28_CHUNK_BYTES

/-- The loop of `flash_write_buffer_progress`; `offset` grows in every round. -/
def writeLoop (data : List Byte) : Nat → (offset chunkNum : Nat) → σ → Option Nat × σ
  | 0, _, _, s => (none, s)
  | rounds + 1, offset, chunkNum, s =>
    if offset < data.length then
      let chunk := chunkAt data offset
      match writeAttempts device offset chunk MAX_PAGE_RETRIES s with
      | (some failAddr, s) => (some failAddr, s)
      | (none, s) =>
        writeLoop data rounds (offset + chunk.length) (chunkNum + 1)
          (device.draw .gravando (chunkNum + 1) (totalChunks data.length) s)
    else (none, s)

def flashWriteBufferProgress (data : List Byte) (s : σ) : Option Nat × σ :=
  writeLoop device data data.length 0 0 s

/-! ## Verification -/

/-- The loop over one chunk, with the errors before it. -/
def compareBytes : Nat → List Byte → Nat → σ → Nat × σ
  | _, [], errors, s => (errors, s)
  | addr, byte :: rest, errors, s =>
    let (value, s) := device.read addr s
    compareBytes (addr + 1) rest (if value ≠ byte then errors + 1 else errors) s

def verifyLoop (data : List Byte) : Nat → (offset chunkNum errors : Nat) → σ → Nat × σ
  | 0, _, _, errors, s => (errors, s)
  | rounds + 1, offset, chunkNum, errors, s =>
    if offset < data.length then
      let chunk := chunkAt data offset
      let (errors, s) := compareBytes device offset chunk errors s
      verifyLoop data rounds (offset + chunk.length) (chunkNum + 1) errors
        (device.draw .verificando (chunkNum + 1) (totalChunks data.length) s)
    else (errors, s)

def flashVerifyBufferProgress (data : List Byte) (s : σ) : Nat × σ :=
  verifyLoop device data data.length 0 0 0 s

/-! ## The program -/

structure File where
  size : BitVec 32
  bytes : Option (List Byte)
  fits : ∀ read, bytes = some read → read.length ≤ size.toNat

/-- How the program ends, with what it reports. -/
inductive Exit
  | usage
  | notOpened
  | invalidSize
  | incomplete
  | timeout (failAddr : Nat)
  | mismatch (errors : Nat)
  | softReset
  deriving DecidableEq

/-- What `main` returns; after `cpu_soft_reset` it does not. -/
def Exit.status : Exit → Option Nat
  | .softReset => none
  | _ => some 1

structure Run (σ : Type) where
  exit : Exit
  sr : BitVec 16
  device : σ

/-- The part of `main` with the interrupts disabled. -/
def burn (image : List Byte) (oldSr : BitVec 16) (s : σ) : Run σ :=
  let sr := oldSr ||| 0x0700
  match flashWriteBufferProgress device image s with
  | (some failAddr, s) => ⟨.timeout failAddr, oldSr, s⟩
  | (none, s) =>
    let (errors, s) := flashVerifyBufferProgress device image s
    if errors ≠ 0 then ⟨.mismatch errors, oldSr, s⟩ else ⟨.softReset, sr, s⟩

/-- `main`, with the file that its argument names. -/
def main (argc : Nat) (file : Option File) (sr : BitVec 16) (s : σ) : Run σ :=
  if argc < 2 then ⟨.usage, sr, s⟩
  else
    match file with
    | none => ⟨.notOpened, sr, s⟩
    | some file =>
      if file.size = 0 ∨ MAX_FW_SIZE < file.size.toNat then ⟨.invalidSize, sr, s⟩
      else
        let read := file.bytes.getD []
        if read.length ≠ file.size.toNat then ⟨.incomplete, sr, s⟩ else burn device read sr s

end Device

/-! ## Chunks -/

theorem chunkAt_length_pos {data : List Byte} {offset : Nat} (inside : offset < data.length) :
    0 < (chunkAt data offset).length := by
  simp only [chunkAt, List.length_take, List.length_drop, AT28_CHUNK_BYTES]
  omega

theorem chunkAt_append (data : List Byte) (offset : Nat) :
    chunkAt data offset ++ data.drop (offset + (chunkAt data offset).length) =
      data.drop offset := by
  have rest : data.drop (offset + (chunkAt data offset).length) =
      (data.drop offset).drop AT28_CHUNK_BYTES := by
    rw [List.drop_drop]
    by_cases short : (data.drop offset).length ≤ AT28_CHUNK_BYTES
    · rw [chunkAt, List.take_of_length_le short]
      rw [List.length_drop] at short ⊢
      rw [List.drop_of_length_le (by omega), List.drop_of_length_le (by omega)]
    · rw [chunkAt, List.length_take_of_le (by omega)]
  rw [rest, chunkAt, List.take_append_drop]

section Rounds

variable {σ : Type} (device : Device σ)

theorem verifyLoop_inside {data : List Byte} {offset : Nat} (inside : offset < data.length)
    (rounds chunkNum errors : Nat) (s : σ) :
    verifyLoop device data (rounds + 1) offset chunkNum errors s =
      verifyLoop device data rounds (offset + (chunkAt data offset).length) (chunkNum + 1)
        (compareBytes device offset (chunkAt data offset) errors s).1
        (device.draw .verificando (chunkNum + 1) (totalChunks data.length)
          (compareBytes device offset (chunkAt data offset) errors s).2) := by
  rw [verifyLoop, if_pos inside]

theorem verifyLoop_outside {data : List Byte} {offset : Nat} (outside : ¬offset < data.length)
    (rounds chunkNum errors : Nat) (s : σ) :
    verifyLoop device data rounds offset chunkNum errors s = (errors, s) := by
  cases rounds with
  | zero => rfl
  | succ rounds => rw [verifyLoop, if_neg outside]

end Rounds

/-! ## What a device keeps -/

/-- A property that no access of the program changes. -/
structure Device.Keeps {σ : Type} (device : Device σ) (kept : σ → Prop) : Prop where
  read : ∀ addr s, kept s → kept (device.read addr s).2
  write : ∀ addr value s, kept s → kept (device.write addr value s)
  draw : ∀ label current total s, kept s → kept (device.draw label current total s)

section Keeps

variable {σ : Type} {device : Device σ} {kept : σ → Prop} (keeps : device.Keeps kept)
include keeps

theorem Device.Keeps.storeBytes (data : List Byte) :
    ∀ (addr : Nat) {s : σ}, kept s → kept (storeBytes device addr data s) := by
  induction data with
  | nil => exact fun _ _ before => before
  | cons byte rest inductionHypothesis =>
    intro addr s before
    exact inductionHypothesis (addr + 1) (keeps.write addr byte s before)

theorem Device.Keeps.pollByte (addr : Nat) (lastByte : Byte) (timeout : Nat) :
    ∀ {s : σ}, kept s → kept (pollByte device addr lastByte timeout s).2 := by
  induction timeout with
  | zero => exact fun before => before
  | succ timeout inductionHypothesis =>
    intro s before
    rw [Burner.pollByte]
    dsimp only
    split
    · exact keeps.read addr s before
    · exact inductionHypothesis (keeps.read addr s before)

/-- The part of a chunk after its first write. -/
theorem Device.Keeps.flashWriteChunk (sysAddr : Nat) {data : List Byte} {s : σ}
    (nonempty : 0 < data.length) (before : kept (device.write (0x5555 * 2) 0xAA s)) :
    kept (flashWriteChunk device sysAddr data s).2 := by
  rw [Burner.flashWriteChunk, if_neg (by omega)]
  have unlocked : kept (at28DisableSdpPage device s) :=
    keeps.write _ _ _ (keeps.write _ _ _ (keeps.write _ _ _ (keeps.write _ _ _
      (keeps.write _ _ _ before))))
  have polled := keeps.pollByte (sysAddr + data.length - 1) (data.getD (data.length - 1) 0)
    AT28_WRITE_TIMEOUT (keeps.storeBytes data sysAddr unlocked)
  dsimp only
  split
  next after result => rwa [result] at polled
  next after result => rwa [result] at polled

theorem Device.Keeps.writeAttempts {sysAddr : Nat} {data : List Byte}
    (nonempty : 0 < data.length) (left : Nat) :
    ∀ {s : σ}, kept (device.write (0x5555 * 2) 0xAA s) →
      kept (writeAttempts device sysAddr data (left + 1) s).2 := by
  induction left with
  | zero =>
    intro s before
    have attempted := keeps.flashWriteChunk sysAddr nonempty before
    rw [Burner.writeAttempts]
    split
    next after result => rwa [result] at attempted
    next after result => rwa [result] at attempted
  | succ left inductionHypothesis =>
    intro s before
    have attempted := keeps.flashWriteChunk sysAddr nonempty before
    rw [Burner.writeAttempts]
    split
    next after result => rwa [result] at attempted
    next failAddr after result =>
      rw [result] at attempted
      rw [if_neg (by omega)]
      exact inductionHypothesis (keeps.write _ _ _ attempted)

theorem Device.Keeps.writeRound {data : List Byte} {offset : Nat} {s : σ} (rounds chunkNum : Nat)
    (inside : offset < data.length) (before : kept (device.write (0x5555 * 2) 0xAA s))
    (later : ∀ (offset chunkNum : Nat) {s : σ}, kept s →
      kept (writeLoop device data rounds offset chunkNum s).2) :
    kept (writeLoop device data (rounds + 1) offset chunkNum s).2 := by
  have attempted : kept
      (Burner.writeAttempts device offset (chunkAt data offset) MAX_PAGE_RETRIES s).2 :=
    keeps.writeAttempts (chunkAt_length_pos inside) 2 before
  rw [Burner.writeLoop, if_pos inside]
  dsimp only
  split
  next failAddr after result => rwa [result] at attempted
  next after result =>
    rw [result] at attempted
    exact later _ _ (keeps.draw _ _ _ _ attempted)

theorem Device.Keeps.writeLoop (data : List Byte) (rounds : Nat) :
    ∀ (offset chunkNum : Nat) {s : σ}, kept s →
      kept (writeLoop device data rounds offset chunkNum s).2 := by
  induction rounds with
  | zero => exact fun _ _ _ before => before
  | succ rounds inductionHypothesis =>
    intro offset chunkNum s before
    by_cases inside : offset < data.length
    · exact keeps.writeRound rounds chunkNum inside (keeps.write _ _ _ before) inductionHypothesis
    · rw [Burner.writeLoop, if_neg inside]
      exact before

theorem Device.Keeps.compareBytes (bytes : List Byte) :
    ∀ (addr errors : Nat) {s : σ}, kept s → kept (compareBytes device addr bytes errors s).2 := by
  induction bytes with
  | nil => exact fun _ _ _ before => before
  | cons byte rest inductionHypothesis =>
    intro addr errors s before
    exact inductionHypothesis _ _ (keeps.read addr s before)

theorem Device.Keeps.verifyLoop (data : List Byte) (rounds : Nat) :
    ∀ (offset chunkNum errors : Nat) {s : σ}, kept s →
      kept (verifyLoop device data rounds offset chunkNum errors s).2 := by
  induction rounds with
  | zero => exact fun _ _ _ _ before => before
  | succ rounds inductionHypothesis =>
    intro offset chunkNum errors s before
    by_cases inside : offset < data.length
    · rw [verifyLoop_inside device inside]
      exact inductionHypothesis _ _ _ (keeps.draw _ _ _ _ (keeps.compareBytes _ _ _ before))
    · rw [verifyLoop_outside device inside]
      exact before

end Keeps

end OrionBios.Burner
