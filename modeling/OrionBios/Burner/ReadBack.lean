import OrionBios.Burner.Program
import Mathlib.Data.List.Basic

/-!
# Reading back

Whatever the chips do, the program resets the machine only after a pass in which every read of the
EEPROM returned the byte of the image; it leaves in no other way without the old interrupt mask.
-/

namespace OrionBios.Burner

inductive Access
  | read (addr : Nat) (value : Byte)
  | write (addr : Nat) (value : Byte)
  deriving DecidableEq

/-- A device that keeps the accesses that it has met. -/
def Device.logged {σ : Type} (device : Device σ) : Device (σ × List Access) where
  read := fun addr s =>
    ((device.read addr s.1).1,
      (device.read addr s.1).2, s.2 ++ [.read addr (device.read addr s.1).1])
  write := fun addr value s => (device.write addr value s.1, s.2 ++ [.write addr value])
  draw := fun label current total s => (device.draw label current total s.1, s.2)

def readBack : Nat → List Byte → List Access
  | _, [] => []
  | addr, byte :: rest => .read addr byte :: readBack (addr + 1) rest

theorem readBack_append (bytes rest : List Byte) :
    ∀ addr, readBack addr (bytes ++ rest) =
      readBack addr bytes ++ readBack (addr + bytes.length) rest := by
  induction bytes with
  | nil => intro addr; rfl
  | cons byte bytes inductionHypothesis =>
    intro addr
    rw [List.cons_append, readBack, inductionHypothesis, readBack, List.cons_append,
      List.length_cons, show addr + 1 + bytes.length = addr + (bytes.length + 1) by omega]

section Logged

variable {σ : Type} (device : Device σ)

theorem compareBytes_errors (bytes : List Byte) :
    ∀ (addr errors : Nat) (s : σ × List Access),
      errors ≤ (compareBytes device.logged addr bytes errors s).1 ∧
      ((compareBytes device.logged addr bytes errors s).1 = errors →
        (compareBytes device.logged addr bytes errors s).2.2 = s.2 ++ readBack addr bytes) := by
  induction bytes with
  | nil =>
    intro addr errors s
    simp [compareBytes, readBack]
  | cons byte rest inductionHypothesis =>
    intro addr errors s
    obtain ⟨grows, found⟩ := inductionHypothesis (addr + 1)
      (if (device.read addr s.1).1 ≠ byte then errors + 1 else errors)
      (device.logged.read addr s).2
    by_cases same : (device.read addr s.1).1 = byte
    · rw [if_neg (not_not.mpr same)] at grows found
      simp only [compareBytes, Device.logged, same, ne_eq, not_true_eq_false, if_false] at *
      refine ⟨grows, fun equal => ?_⟩
      rw [found equal, readBack, List.append_assoc]
      rfl
    · rw [if_pos same] at grows found
      simp only [compareBytes, Device.logged, ne_eq, same, not_false_eq_true, if_true] at *
      exact ⟨by omega, fun equal => absurd equal (by omega)⟩

theorem verifyLoop_errors (data : List Byte) (rounds : Nat) :
    ∀ (offset chunkNum errors : Nat) (s : σ × List Access), data.length ≤ offset + rounds →
      errors ≤ (verifyLoop device.logged data rounds offset chunkNum errors s).1 ∧
      ((verifyLoop device.logged data rounds offset chunkNum errors s).1 = errors →
        (verifyLoop device.logged data rounds offset chunkNum errors s).2.2 =
          s.2 ++ readBack offset (data.drop offset)) := by
  induction rounds with
  | zero =>
    intro offset chunkNum errors s enough
    rw [List.drop_of_length_le (by omega)]
    simp [verifyLoop, readBack]
  | succ rounds inductionHypothesis =>
    intro offset chunkNum errors s enough
    by_cases inside : offset < data.length
    · rw [verifyLoop_inside device.logged inside]
      have progress := chunkAt_length_pos inside
      obtain ⟨chunkGrows, chunkRead⟩ :=
        compareBytes_errors device (chunkAt data offset) offset errors s
      generalize compareBytes device.logged offset (chunkAt data offset) errors s = compared at *
      obtain ⟨grows, found⟩ := inductionHypothesis
        (offset + (chunkAt data offset).length) (chunkNum + 1) compared.1
        (device.logged.draw .verificando (chunkNum + 1) (totalChunks data.length) compared.2)
        (by omega)
      refine ⟨Nat.le_trans chunkGrows grows, fun equal => ?_⟩
      have none : compared.1 = errors := by omega
      rw [found (by omega)]
      change compared.2.2 ++ _ = _
      rw [chunkRead none, List.append_assoc, ← readBack_append, chunkAt_append]
    · rw [verifyLoop_outside device.logged inside, List.drop_of_length_le (by omega)]
      simp [readBack]

theorem burn_exit (image : List Byte) (sr : BitVec 16) (s : σ × List Access) :
    ((burn device.logged image sr s).exit = .softReset ∧
      ∃ earlier, (burn device.logged image sr s).device.2 = earlier ++ readBack 0 image) ∨
    ((burn device.logged image sr s).exit.status = some 1 ∧
      (burn device.logged image sr s).sr = sr) := by
  rw [burn]
  cases written : flashWriteBufferProgress device.logged image s with
  | mk failure after =>
    cases failure with
    | some failAddr => exact .inr ⟨rfl, rfl⟩
    | none =>
      obtain ⟨-, found⟩ := verifyLoop_errors device image image.length 0 0 0 after (by omega)
      dsimp only
      split
      next wrong => exact .inr ⟨rfl, rfl⟩
      next right =>
        rw [not_not] at right
        exact .inl ⟨rfl, after.2, found right⟩

end Logged

end OrionBios.Burner
