import OrionBios.LineEditor.Model

/-!
# The reference editor

A line of at most 127 characters, edited at its end, and the lines entered before. The keys for
the history walk over the last sixteen that were not empty, newest first, and back to an empty
line.
-/

namespace OrionBios.LineEditor

open Libc

abbrev Line := BoundedString LINE_MAX

def Line.empty : Line where
  text := []
  noTerminator := List.not_mem_nil
  fits := by decide

/-- The last character is erased. -/
def Line.backspace (line : Line) : Line where
  text := line.text.dropLast
  noTerminator := fun member => line.noTerminator ((List.dropLast_sublist _).subset member)
  fits := by
    rw [List.length_dropLast]
    exact (Nat.sub_le _ _).trans_lt line.fits

def Line.insert (line : Line) (letter : Char) (noNul : letter ≠ '\x00')
    (room : line.text.length < LINE_MAX - 1) : Line where
  text := line.text ++ [letter]
  noTerminator := by
    rw [List.mem_append, List.mem_singleton, not_or]
    exact ⟨line.noTerminator, noNul.symm⟩
  fits := by
    rw [List.length_append, List.length_singleton]
    exact Nat.add_lt_of_lt_sub room

structure Reference where
  /-- The lines entered, oldest first. -/
  entered : List Line
  line : Line
  /-- The recalled line the walk is on, counted from the newest. -/
  place : Option Nat

namespace Reference

def initial : Reference where
  entered := []
  line := Line.empty
  place := none

/-- The lines that were not empty, newest first. -/
def saved (reference : Reference) : List Line :=
  (reference.entered.filter fun line => line.text ≠ []).reverse

/-- The lines the walk goes over. -/
def recallable (reference : Reference) : List Line := reference.saved.take HIST_SIZE

def older (reference : Reference) : Nat := reference.place.elim 0 (· + 1)

/-- Goes to a place of the walk, if it is there. -/
def goTo (reference : Reference) (place : Nat) : Reference :=
  match reference.recallable[place]? with
  | some line => { reference with line := line, place := some place }
  | none => reference

def step (reference : Reference) (received : Received) : Reference :=
  if received.byte = KEY_ENTER then
    { entered := reference.entered ++ [reference.line], line := Line.empty, place := none }
  else if received.byte = KEY_BS then { reference with line := reference.line.backspace }
  else if received.byte = KEY_UP then reference.goTo reference.older
  else if received.byte = KEY_DOWN then
    match reference.place with
    | none => reference
    | some 0 => { reference with line := Line.empty, place := none }
    | some (place + 1) => reference.goTo place
  else if room : reference.line.text.length < LINE_MAX - 1 then
    { reference with line := reference.line.insert received.byte received.noNul room }
  else reference

/-- Counting the lines and computing the slot of a recalled one stay within an `int`. -/
structure Counted (reference : Reference) (received : Received) : Prop where
  counts : received.byte = KEY_ENTER → reference.line.text ≠ [] →
    reference.saved.length + 1 < 2 ^ 31
  recallsOlder : received.byte = KEY_UP → reference.older < reference.recallable.length →
    reference.saved.length - 1 - reference.older + HIST_SIZE < 2 ^ 31
  recallsNewer : received.byte = KEY_DOWN → ∀ place, reference.place = some (place + 1) →
    reference.saved.length - 1 - place + HIST_SIZE < 2 ^ 31

end Reference

end OrionBios.LineEditor
