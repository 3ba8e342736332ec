import OrionBios.Libc.Strings
import OrionBios.Buffers.Ring

/-!
# The string functions that store

An array on the stack is a function of the offset from its start; offsets past its end
are what the stack holds there. `strcpy`, `strcat`, `memcpy`, `memset` and `sprintf` store
without asking for a length, so beside the characters the offsets stored to are kept.
-/

namespace OrionBios.Libc

open Buffers

/-- A C string in an array of `size` characters. -/
structure BoundedString (size : Nat) where
  text : List Char
  noTerminator : '\x00' ∉ text
  fits : text.length < size

structure Local where
  cells : Nat → Char
  written : List Nat

namespace Local

/-- The array before anything is stored to it. -/
def initial (cells : Nat → Char) : Local where
  cells := cells
  written := []

def store (array : Local) (offset : Nat) (text : List Char) : Local where
  cells := bufferWrite array.cells offset text
  written := array.written ++ List.range' offset text.length

/-- The loop of `strlen`, over the addresses there are. -/
def strlenFrom (cells : Nat → Char) : Nat → Nat → Nat
  | 0, _ => 0
  | size + 1, offset =>
      if cells offset = '\x00' then 0 else strlenFrom cells size (offset + 1) + 1

def strlen (array : Local) : Nat := strlenFrom array.cells (2 ^ 32) 0

def memset (array : Local) (letter : Char) (count : Nat) : Local :=
  array.store 0 (List.replicate count letter)

def memcpy (array : Local) (text : List Char) : Local := array.store 0 text

def strcpy (array : Local) (text : List Char) : Local := array.store 0 (text ++ ['\x00'])

def strcat (array : Local) (text : List Char) : Local :=
  array.store array.strlen (text ++ ['\x00'])

/-- `sprintf` of a format whose expansion is the text. -/
def sprintf (array : Local) (text : List Char) : Local := array.store 0 (text ++ ['\x00'])

def Begins (array : Local) (text : List Char) : Prop :=
  bufferRead array.cells 0 text.length = text

/-- Nothing was stored behind the array, and it holds the text with its terminator. -/
structure Holds (array : Local) (size : Nat) (text : List Char) : Prop where
  inside : ∀ offset ∈ array.written, offset < size
  content : array.Begins (text ++ ['\x00'])

/-! ## One store -/

variable {array : Local} {offset index size : Nat} {text : List Char}

theorem cells_store : (array.store offset text).cells = bufferWrite array.cells offset text := rfl

theorem mem_written_store :
    index ∈ (array.store offset text).written ↔
      index ∈ array.written ∨ offset ≤ index ∧ index < offset + text.length := by
  rw [store, List.mem_append, List.mem_range'_1]

theorem inside_store :
    (∀ index ∈ (array.store offset text).written, index < size) ↔
      (∀ index ∈ array.written, index < size) ∧ (text = [] ∨ offset + text.length ≤ size) := by
  simp only [mem_written_store]
  constructor
  · intro inside
    refine ⟨fun index before => inside index (.inl before), ?_⟩
    cases text with
    | nil => exact .inl rfl
    | cons letter rest =>
        have last := inside (offset + rest.length) (.inr ⟨Nat.le_add_right _ _, by simp⟩)
        rw [List.length_cons]
        exact .inr last
  · rintro ⟨before, fits⟩ index (earlier | ⟨le, less⟩)
    · exact before index earlier
    · rcases fits with rfl | fits
      · exact absurd less (Nat.not_lt.mpr le)
      · exact Nat.lt_of_lt_of_le less fits

theorem cells_store_inside (inside : index < text.length) :
    (array.store offset text).cells (offset + index) = text[index] := by
  rw [cells_store, bufferWrite, if_pos (Nat.le_add_right _ _), Nat.add_sub_cancel_left,
    List.getD_eq_getElem _ _ inside]

/-! ## `strlen` -/

theorem le_strlenFrom {cells : Nat → Char} (nonzero : ∀ index < size, cells (offset + index) ≠ '\x00')
    {limit : Nat} (le : size ≤ limit) : size ≤ strlenFrom cells limit offset := by
  induction size generalizing offset limit with
  | zero => exact Nat.zero_le _
  | succ size inductionHypothesis =>
      cases limit with
      | zero => omega
      | succ limit =>
          have first : cells offset ≠ '\x00' := nonzero 0 (Nat.succ_pos size)
          have rest : ∀ index < size, cells (offset + 1 + index) ≠ '\x00' := by
            intro index less
            rw [Nat.add_assoc, Nat.add_comm 1]
            exact nonzero (index + 1) (Nat.succ_lt_succ less)
          rw [strlenFrom, if_neg first]
          exact Nat.succ_le_succ (inductionHypothesis rest (Nat.le_of_succ_le_succ le))

theorem strlenFrom_eq {cells : Nat → Char}
    (nonzero : ∀ index < size, cells (offset + index) ≠ '\x00')
    (zero : cells (offset + size) = '\x00') {limit : Nat} (less : size < limit) :
    strlenFrom cells limit offset = size := by
  induction size generalizing offset limit with
  | zero =>
      cases limit with
      | zero => omega
      | succ limit =>
          have here : cells offset = '\x00' := zero
          rw [strlenFrom, if_pos here]
  | succ size inductionHypothesis =>
      cases limit with
      | zero => omega
      | succ limit =>
          have first : cells offset ≠ '\x00' := nonzero 0 (Nat.succ_pos size)
          have rest : ∀ index < size, cells (offset + 1 + index) ≠ '\x00' := by
            intro index less
            rw [Nat.add_assoc, Nat.add_comm 1]
            exact nonzero (index + 1) (Nat.succ_lt_succ less)
          have last : cells (offset + 1 + size) = '\x00' := by
            rw [Nat.add_assoc, Nat.add_comm 1]
            exact zero
          rw [strlenFrom, if_neg first, inductionHypothesis rest last (Nat.lt_of_succ_lt_succ less)]

theorem Begins.getElem (begins : array.Begins text) (less : index < text.length) :
    array.cells index = text[index] := by
  have same : (bufferRead array.cells 0 text.length)[index]? = text[index]? := by rw [begins]
  rw [List.getElem?_eq_getElem less] at same
  simpa [bufferRead, less] using same

theorem Begins.le_strlen (begins : array.Begins text) (noTerminator : '\x00' ∉ text)
    (short : text.length ≤ 2 ^ 32) : text.length ≤ array.strlen := by
  apply le_strlenFrom _ short
  intro index less zero
  rw [Nat.zero_add, begins.getElem less] at zero
  exact noTerminator (zero ▸ List.getElem_mem less)

theorem Begins.strlen_eq (begins : array.Begins text) (noTerminator : '\x00' ∉ text)
    (short : text.length < 2 ^ 32) (ends : array.cells text.length = '\x00') :
    array.strlen = text.length := by
  apply strlenFrom_eq _ ((congrArg array.cells (Nat.zero_add _)).trans ends) short
  intro index less zero
  rw [Nat.zero_add, begins.getElem less] at zero
  exact noTerminator (zero ▸ List.getElem_mem less)

theorem begins_store : (array.store 0 text).Begins text :=
  bufferRead_bufferWrite array.cells 0 text

theorem Begins.store (begins : array.Begins text) (more : List Char) :
    (array.store text.length more).Begins (text ++ more) :=
  bufferRead_extend begins more

theorem Begins.of_append {more : List Char} (begins : array.Begins (text ++ more)) :
    array.Begins text := by
  rw [Begins, List.length_append, bufferRead_append] at begins
  exact (List.append_inj begins (bufferRead_length ..)).1

/-- The first character is replaced. -/
theorem Begins.overwrite {first : Char} (begins : array.Begins (first :: text)) (letter : Char) :
    (array.store 0 [letter]).Begins (letter :: text) := by
  have split : ∀ {start : Char} {other : Local}, other.Begins (start :: text) ↔
      other.cells 0 = start ∧ bufferRead other.cells 1 text.length = text := by
    intro start other
    rw [Begins, List.length_cons, Nat.add_comm, bufferRead_append]
    exact List.cons_eq_cons
  rw [split] at begins ⊢
  refine ⟨rfl, ?_⟩
  rw [← begins.2, bufferRead_length]
  apply bufferRead_congr
  intro index le _
  have behind : 0 + [letter].length ≤ index := le
  exact bufferWrite_behind behind

theorem holds_sprintf (cells : Nat → Char) :
    ((initial cells).sprintf text).Holds size text ↔ text.length < size := by
  have stores : (∀ offset ∈ ((initial cells).sprintf text).written, offset < size) ↔
      text.length < size := by
    rw [sprintf, inside_store, List.length_append, List.length_singleton, Nat.zero_add]
    constructor
    · rintro ⟨_, none | fits⟩
      · exact absurd none (List.append_ne_nil_of_right_ne_nil text (List.cons_ne_nil _ _))
      · exact fits
    · intro less
      exact ⟨fun _ member => absurd member List.not_mem_nil, .inr less⟩
  exact ⟨fun holds => stores.mp holds.inside, fun less => ⟨stores.mpr less, begins_store⟩⟩

end Local

end OrionBios.Libc
