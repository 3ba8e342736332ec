import Mathlib.Tactic.Common
import OrionBios.Buffers.Ring

/-!
# Copies between overlapping ranges

A copy that reads its source before it writes, and the same copy made in pieces, the first piece
first. The pieces see what earlier ones wrote, which does no harm where the destination begins
before the source.
-/

namespace OrionBios.Buffers

variable {α : Type}

/-- The cells after `n` of them, from `src` on, were copied to `dest`. -/
def move (cells : Nat → α) (dest src n : Nat) : Nat → α := fun place =>
  if dest ≤ place ∧ place < dest + n then cells (src + (place - dest)) else cells place

/-- The copy in `count` pieces of `width` cells, in increasing order. -/
def movePieces (width : Nat) : (count : Nat) → (Nat → α) → Nat → Nat → Nat → α
  | 0, cells, _, _ => cells
  | count + 1, cells, dest, src =>
      movePieces width count (move cells dest src width) (dest + width) (src + width)

/-- No cell of the source is written before it is read, in increasing order. -/
def Forward (dest src n : Nat) : Prop := dest ≤ src ∨ src + n ≤ dest

variable {cells : Nat → α} {dest src n k width count place : Nat}

theorem move_inside (inside : place < n) : move cells dest src n (dest + place) =
    cells (src + place) := by
  rw [move, if_pos (by omega), Nat.add_sub_cancel_left]

theorem move_outside (outside : place < dest ∨ dest + n ≤ place) :
    move cells dest src n place = cells place := if_neg (by omega)

theorem move_zero : move cells dest src 0 = cells := by
  funext place
  exact move_outside (by omega)

theorem Forward.rest (forward : Forward dest src (n + k)) : Forward (dest + n) (src + n) k := by
  unfold Forward at *
  omega

theorem Forward.first (forward : Forward dest src (n + k)) : Forward dest src n := by
  unfold Forward at *
  omega

/-- A second piece continues the first one. -/
theorem move_move (forward : Forward dest src (n + k)) :
    move (move cells dest src n) (dest + n) (src + n) k = move cells dest src (n + k) := by
  funext place
  unfold Forward at forward
  by_cases second : dest + n ≤ place ∧ place < dest + n + k
  · obtain ⟨i, rfl⟩ : ∃ i, place = dest + n + i := ⟨place - (dest + n), by omega⟩
    rw [move_inside (by omega), move_outside (by omega), Nat.add_assoc dest n i,
      move_inside (by omega), Nat.add_assoc]
  · rw [move_outside (by omega)]
    by_cases first : dest ≤ place ∧ place < dest + n
    · obtain ⟨i, rfl⟩ : ∃ i, place = dest + i := ⟨place - dest, by omega⟩
      rw [move_inside (by omega), move_inside (by omega)]
    · rw [move_outside (by omega), move_outside (by omega)]

theorem movePieces_eq_move : ∀ {count : Nat} {cells : Nat → α} {dest src : Nat},
    Forward dest src (width * count) →
      movePieces width count cells dest src = move cells dest src (width * count) := by
  intro count
  induction count with
  | zero =>
      intro cells dest src _
      rw [Nat.mul_zero, move_zero]
      rfl
  | succ count inductionHypothesis =>
      intro cells dest src forward
      have total : width * (count + 1) = width + width * count := by
        rw [Nat.mul_succ, Nat.add_comm]
      rw [total] at forward ⊢
      rw [movePieces, inductionHypothesis forward.rest, move_move forward]

/-! ## Insertion through a gap

A block that lies behind a sequence is put into it, with no more room than the gap between them: as
much as fits into the gap is moved at a time, and the gap moves on by that much. -/

/-- The copy of single cells in decreasing order. The places are behind the last cells. -/
def moveBack : (count : Nat) → (Nat → α) → Nat → Nat → Nat → α
  | 0, cells, _, _ => cells
  | count + 1, cells, dest, src =>
    moveBack count (Function.update cells (dest - 1) (cells (src - 1))) (dest - 1) (src - 1)

variable {cells : Nat → α} {dest src n start last block length fuel : Nat}

theorem moveBack_eq_move (inside : n ≤ src) (behind : src ≤ dest) :
    moveBack n cells dest src = move cells (dest - n) (src - n) n := by
  induction n generalizing cells dest src with
  | zero => exact move_zero.symm
  | succ n inductionHypothesis =>
      rw [moveBack, inductionHypothesis (by omega) (by omega)]
      funext place
      by_cases top : place = dest - 1
      · subst top
        rw [move_outside (by omega), Function.update_self, move, if_pos (by omega)]
        exact congrArg cells (by omega)
      · by_cases among : dest - 1 - n ≤ place ∧ place < dest - 1
        · rw [move, if_pos (by omega), move, if_pos (by omega), Function.update_of_ne (by omega)]
          exact congrArg cells (by omega)
        · rw [move_outside (by omega), move_outside (by omega), Function.update_of_ne top]

/-- A copy within a sequence reads what was at its source. -/
theorem bufferRead_move (cells : Nat → α) (dest src n : Nat) :
    bufferRead (move cells dest src n) dest n = bufferRead cells src n := by
  apply List.map_congr_left
  intro place among
  exact move_inside (List.mem_range.mp among)

theorem bufferRead_move_apart {count : Nat} (apart : start + count ≤ dest ∨ dest + n ≤ start) :
    bufferRead (move cells dest src n) start count = bufferRead cells start count :=
  bufferRead_congr fun place low high => move_outside (by omega)

/-! ## What lies in the cells -/

/-- The cells hold the content from `start` on. -/
def Lies (cells : Nat → α) (start : Nat) (content : List α) : Prop :=
  bufferRead cells start content.length = content

variable {content more : List α} {c : α}

theorem lies_nil : Lies cells start [] := rfl

theorem lies_append :
    Lies cells start (content ++ more) ↔
      Lies cells start content ∧ Lies cells (start + content.length) more := by
  unfold Lies
  rw [List.length_append, bufferRead_append]
  constructor
  · exact fun same => List.append_inj same bufferRead_length
  · exact fun both => congr (congrArg _ both.1) both.2

theorem lies_single : Lies cells start [c] ↔ cells start = c := by
  constructor
  · exact fun same => List.head_eq_of_cons_eq same
  · exact fun same => congrArg (fun first => [first]) same

theorem lies_cons :
    Lies cells start (c :: more) ↔ cells start = c ∧ Lies cells (start + 1) more := by
  rw [← List.singleton_append, lies_append, lies_single]
  rfl

theorem Lies.congr {others : Nat → α} (lies : Lies cells start content)
    (same : ∀ place, start ≤ place → place < start + content.length → others place = cells place) :
    Lies others start content := (bufferRead_congr same).trans lies

theorem Lies.moved (lies : Lies cells src content) :
    Lies (move cells dest src content.length) dest content :=
  (bufferRead_move cells dest src content.length).trans lies

theorem Lies.read (lies : Lies cells start content) (count : content.length = n) :
    bufferRead cells start n = content := count ▸ lies

/-! ## Insertion in pieces -/

/-- One piece of an insertion: the cells behind `start` make room for `n` cells of the block. -/
def shufflePiece (cells : Nat → α) (start last block n : Nat) : Nat → α :=
  movePieces 1 n (moveBack (last - start) cells (last + n) last) start block

theorem shufflePiece_apply (before : start ≤ last) (room : last + n ≤ block) :
    shufflePiece cells start last block n =
      move (move cells (start + n) start (last - start)) start block n := by
  unfold shufflePiece
  rw [moveBack_eq_move (by omega) (by omega), movePieces_eq_move (.inl (by omega)), Nat.one_mul,
    show last + n - (last - start) = start + n by omega,
    show last - (last - start) = start by omega]

/-- What a piece does to the sequence, and to the rest of the block. -/
structure Pieced (cells cells' : Nat → α) (start last block n : Nat) : Prop where
  front : ∀ place, place < start → cells' place = cells place
  piece : bufferRead cells' start n = bufferRead cells block n
  back : bufferRead cells' (start + n) (last - start) = bufferRead cells start (last - start)
  behind : ∀ place, last + n ≤ place → cells' place = cells place

theorem shufflePiece_pieced (before : start ≤ last) (room : last + n ≤ block) :
    Pieced cells (shufflePiece cells start last block n) start last block n := by
  rw [shufflePiece_apply before room]
  refine ⟨fun place less => ?_, ?_, ?_, fun place beyond => ?_⟩
  · rw [move_outside (by omega), move_outside (by omega)]
  · rw [bufferRead_move]
    exact bufferRead_move_apart (by omega)
  · rw [bufferRead_move_apart (by omega), bufferRead_move]
  · rw [move_outside (by omega), move_outside (by omega)]

/-- The insertion of `length` cells at `block`. Without a gap it does not come to an end. -/
def shuffle : Nat → (Nat → α) → (start last block length : Nat) → Option ((Nat → α) × Nat)
  | 0, _, _, _, _, _ => none
  | fuel + 1, cells, start, last, block, length =>
    if length = 0 then some (cells, last)
    else
      let n := min (block - last) length
      shuffle fuel (shufflePiece cells start last block n) (start + n) (last + n) (block + n)
        (length - n)

/-- With a gap the block is put in front of what begins at `start`. -/
theorem shuffle_inserts (before : start ≤ last) (gap : last < block) (enough : length < fuel) :
    ∃ cells', shuffle fuel cells start last block length = some (cells', last + length) ∧
      (∀ place, place < start → cells' place = cells place) ∧
      bufferRead cells' start length = bufferRead cells block length ∧
      bufferRead cells' (start + length) (last - start) = bufferRead cells start (last - start) ∧
      ∀ place, block + length ≤ place → cells' place = cells place := by
  induction fuel generalizing cells start last block length with
  | zero => exact absurd enough (Nat.not_lt_zero _)
  | succ fuel inductionHypothesis =>
      rw [shuffle]
      by_cases done : length = 0
      · subst done
        exact ⟨cells, if_pos rfl, fun _ _ => rfl, rfl, rfl, fun _ _ => rfl⟩
      · rw [if_neg done]
        dsimp only
        generalize count : min (block - last) length = n
        have room : last + n ≤ block := by omega
        have pieced := @shufflePiece_pieced _ cells n start last block before room
        generalize shufflePiece cells start last block n = next at pieced
        have later : start + n ≤ last + n := by omega
        have still : last + n < block + n := by omega
        have left : length - n < fuel := by omega
        obtain ⟨cells', ends, front, middle, back, behind⟩ :=
          @inductionHypothesis next (start + n) (last + n) (block + n) (length - n) later still left
        have split : n + (length - n) = length := by omega
        refine ⟨cells', ?_, fun place less => ?_, ?_, ?_, fun place beyond => ?_⟩
        · rw [ends, Nat.add_assoc, split]
        · rw [front place (by omega), pieced.front place less]
        · have own : bufferRead cells' start n = bufferRead next start n :=
            bufferRead_congr fun place _ less => front place less
          have rest : bufferRead next (block + n) (length - n) =
              bufferRead cells (block + n) (length - n) :=
            bufferRead_congr fun place low _ => pieced.behind place (by omega)
          rw [← split, bufferRead_append, bufferRead_append, own, pieced.piece, middle, rest]
        · rw [Nat.add_assoc, split, show last + n - (start + n) = last - start by omega] at back
          rw [back, pieced.back]
        · rw [behind place (by omega), pieced.behind place (by omega)]

/-- What lies at `block` is put in front of what lies between `start` and `last`. -/
theorem shuffle_lies {content rest : List α} (lies : Lies cells block content)
    (behind : Lies cells start rest) (gap : start + rest.length < block)
    (enough : content.length < fuel) :
    ∃ cells', shuffle fuel cells start (start + rest.length) block content.length =
        some (cells', start + rest.length + content.length) ∧
      Lies cells' start (content ++ rest) ∧
      ∀ place, place < start ∨ block + content.length ≤ place → cells' place = cells place := by
  obtain ⟨cells', ends, front, middle, back, beyond⟩ :=
    @shuffle_inserts α cells start _ block content.length fuel (Nat.le_add_right ..) gap enough
  rw [Nat.add_sub_cancel_left] at back
  refine ⟨cells', ends, lies_append.mpr ⟨middle.trans lies, back.trans behind⟩, ?_⟩
  exact fun place outside => outside.elim (front place) (beyond place)

theorem shuffle_stuck (some : 0 < length) :
    shuffle fuel cells start last last length = none := by
  induction fuel generalizing cells with
  | zero => rfl
  | succ fuel inductionHypothesis =>
      rw [shuffle, if_neg (by omega), Nat.sub_self, Nat.zero_min]
      exact inductionHypothesis

end OrionBios.Buffers
