import Mathlib.Data.List.GetD
import Mathlib.Data.Nat.ModEq
import Mathlib.Tactic.Common

/-!
# Ring buffers and flat buffers

A ring is a function from cell numbers, read and written modulo a capacity. Its
contents from a position on form a list, and writing behind them appends to that
list as long as the capacity is not exceeded. A flat buffer is the same without
the modulus.
-/

namespace OrionBios.Buffers

universe u

variable {Cell : Type u}

/-! ## Rings -/

/-- The `count` cells from `start` on, around the ring. -/
def ringRead (capacity : Nat) (cells : Nat → Cell) (start count : Nat) : List Cell :=
  (List.range count).map fun index => cells ((start + index) % capacity)

/-- Stores a list from `start` on, around the ring. -/
def ringWrite (capacity : Nat) (cells : Nat → Cell) (start : Nat) : List Cell → Nat → Cell
  | [] => cells
  | first :: rest =>
      ringWrite capacity (Function.update cells (start % capacity) first) (start + 1) rest

variable {capacity : Nat} {cells : Nat → Cell} {start count : Nat}

@[simp] theorem ringRead_length : (ringRead capacity cells start count).length = count := by
  simp [ringRead]

@[simp] theorem ringRead_zero : ringRead capacity cells start 0 = [] := rfl

theorem ringRead_append (first second : Nat) :
    ringRead capacity cells start (first + second) =
      ringRead capacity cells start first ++ ringRead capacity cells (start + first) second := by
  unfold ringRead
  rw [List.range_add, List.map_append, List.map_map]
  congr 1
  apply List.map_congr_left
  intro index _
  rw [Function.comp_apply, Nat.add_assoc]

theorem ringRead_take {first : Nat} (le : first ≤ count) :
    (ringRead capacity cells start count).take first = ringRead capacity cells start first := by
  obtain ⟨second, rfl⟩ := Nat.exists_eq_add_of_le le
  rw [ringRead_append, List.take_left' ringRead_length]

theorem ringRead_drop {first : Nat} (le : first ≤ count) :
    (ringRead capacity cells start count).drop first =
      ringRead capacity cells (start + first) (count - first) := by
  obtain ⟨second, rfl⟩ := Nat.exists_eq_add_of_le le
  rw [ringRead_append, List.drop_left' ringRead_length, Nat.add_sub_cancel_left]

theorem ringRead_mod (capacity factor : Nat) (cells : Nat → Cell) (start count : Nat) :
    ringRead capacity cells (start % (capacity * factor)) count =
      ringRead capacity cells start count := by
  apply List.map_congr_left
  intro index _
  have same : start % (capacity * factor) % capacity = start % capacity :=
    Nat.mod_mul_right_mod start capacity factor
  rw [Nat.add_mod, same, ← Nat.add_mod]

/-- Writing depends on the start modulo the capacity only. -/
theorem ringWrite_congr (cells : Nat → Cell) {first second : Nat}
    (same : first % capacity = second % capacity) (content : List Cell) :
    ringWrite capacity cells first content = ringWrite capacity cells second content := by
  induction content generalizing cells first second with
  | nil => rfl
  | cons cell rest inductionHypothesis =>
      have next : (first + 1) % capacity = (second + 1) % capacity := by
        rw [Nat.add_mod, same, ← Nat.add_mod]
      rw [ringWrite, ringWrite, same]
      exact inductionHypothesis _ next

theorem mod_ne_of_lt (base : Nat) {first second : Nat} (less : first < second)
    (near : second < first + capacity) : (base + first) % capacity ≠ (base + second) % capacity := by
  intro equal
  have shifted : second - first ≡ 0 [MOD capacity] := by
    have cancel : base + first + (second - first) ≡ base + first + 0 [MOD capacity] := by
      have sum : base + first + (second - first) = base + second := by omega
      rw [sum, Nat.add_zero]
      exact equal.symm
    exact Nat.ModEq.add_left_cancel' (base + first) cancel
  have divides := (Nat.modEq_zero_iff_dvd).mp shifted
  have bound := Nat.le_of_dvd (by omega) divides
  omega

theorem ringRead_update {offset : Nat} (cell : Cell) (behind : count ≤ offset)
    (fits : offset < capacity) :
    ringRead capacity (Function.update cells ((start + offset) % capacity) cell) start count =
      ringRead capacity cells start count := by
  apply List.map_congr_left
  intro index member
  have less := List.mem_range.mp member
  have near : offset < index + capacity := by omega
  have apart := mod_ne_of_lt start (less.trans_le behind) near
  rw [Function.update_of_ne apart]

theorem ringRead_ringWrite (cells : Nat → Cell) (added : List Cell)
    (fits : count + added.length ≤ capacity) :
    ringRead capacity (ringWrite capacity cells (start + count) added) start
        (count + added.length) =
      ringRead capacity cells start count ++ added := by
  induction added generalizing cells count with
  | nil => simp [ringWrite]
  | cons first rest inductionHypothesis =>
      have length : count + (first :: rest).length = count + 1 + rest.length := by
        rw [List.length_cons]
        omega
      rw [length] at fits ⊢
      have tail := inductionHypothesis
        (Function.update cells ((start + count) % capacity) first) fits
      have kept : ringRead capacity (Function.update cells ((start + count) % capacity) first)
          start count = ringRead capacity cells start count :=
        ringRead_update first (le_refl count) (by omega)
      rw [ringWrite, Nat.add_assoc, tail, ringRead_append, kept]
      have newest : ringRead capacity (Function.update cells ((start + count) % capacity) first)
          (start + count) 1 = [first] := by
        simp [ringRead]
      rw [newest, List.append_assoc, List.singleton_append]

/-! ## Flat buffers -/

/-- The `count` cells from `start` on. -/
def bufferRead (cells : Nat → Cell) (start count : Nat) : List Cell :=
  (List.range count).map fun index => cells (start + index)

/-- Stores a list from `start` on. -/
def bufferWrite (cells : Nat → Cell) (start : Nat) (content : List Cell) : Nat → Cell :=
  fun index => if start ≤ index then content.getD (index - start) (cells index) else cells index

@[simp] theorem bufferRead_length : (bufferRead cells start count).length = count := by
  simp [bufferRead]

theorem bufferRead_congr {others : Nat → Cell}
    (same : ∀ index, start ≤ index → index < start + count → cells index = others index) :
    bufferRead cells start count = bufferRead others start count := by
  apply List.map_congr_left
  intro index member
  have less := List.mem_range.mp member
  exact same (start + index) (by omega) (by omega)

theorem bufferRead_append (first second : Nat) :
    bufferRead cells start (first + second) =
      bufferRead cells start first ++ bufferRead cells (start + first) second := by
  unfold bufferRead
  rw [List.range_add, List.map_append, List.map_map]
  congr 1
  apply List.map_congr_left
  intro index _
  rw [Function.comp_apply, Nat.add_assoc]

theorem bufferWrite_before {content : List Cell} {index : Nat} (before : index < start) :
    bufferWrite cells start content index = cells index := by
  rw [bufferWrite, if_neg (by omega)]

theorem bufferWrite_behind {content : List Cell} {index : Nat}
    (behind : start + content.length ≤ index) :
    bufferWrite cells start content index = cells index := by
  rw [bufferWrite, if_pos (by omega), List.getD_eq_default _ _ (by omega)]

theorem bufferWrite_nil {start : Nat} : bufferWrite cells start [] = cells := by
  funext index
  unfold bufferWrite
  rw [List.getD_nil, ite_self]

theorem bufferWrite_zero {content : List Cell} {index : Nat} (inside : index < content.length)
    (other : Cell) : bufferWrite cells 0 content index = content.getD index other := by
  rw [bufferWrite, if_pos (Nat.zero_le _), Nat.sub_zero, List.getD_eq_getElem _ _ inside,
    List.getD_eq_getElem _ _ inside]

theorem bufferRead_bufferWrite (cells : Nat → Cell) (start : Nat) (content : List Cell) :
    bufferRead (bufferWrite cells start content) start content.length = content := by
  apply List.ext_getElem (by simp)
  intro index inRead inContent
  simp [bufferRead, bufferWrite, List.getElem?_eq_getElem inContent]

theorem bufferRead_apart {content : List Cell} {other : Nat}
    (apart : start + count ≤ other ∨ other + content.length ≤ start) :
    bufferRead (bufferWrite cells other content) start count = bufferRead cells start count := by
  apply bufferRead_congr
  intro index low high
  rcases apart with behind | before
  · exact bufferWrite_before (by omega)
  · exact bufferWrite_behind (by omega)

theorem bufferRead_extend {content : List Cell}
    (begins : bufferRead cells 0 content.length = content) (more : List Cell) :
    bufferRead (bufferWrite cells content.length more) 0 (content ++ more).length =
      content ++ more := by
  have before : bufferRead (bufferWrite cells content.length more) 0 content.length = content := by
    rw [← begins, bufferRead_length]
    apply bufferRead_congr
    intro index _ less
    rw [Nat.zero_add] at less
    exact bufferWrite_before less
  rw [List.length_append, bufferRead_append, before, Nat.zero_add]
  exact congrArg (content ++ ·) (bufferRead_bufferWrite cells content.length more)

end OrionBios.Buffers
