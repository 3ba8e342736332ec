import OrionBios.Buffers.Ring
import OrionBios.UsbKeyboard.Decoder

/-!
# The parser of the keyboard's frames

`kbd_poll` takes the bytes that have come so far, one at a time, until none is left or a key is
ready. Where it stops in a frame is kept for the next call. The main loop polls and then takes the
key, if there is one.
-/

namespace OrionBios.UsbKeyboard

open Buffers

inductive KbdState where
  | waitHdr1
  | waitHdr2
  | waitCmd
  | wait81Type
  | wait81Len
  | skip81Payload
  | wait82Byte
  | wait85Byte
  | wait88Size
  | read88Payload
  deriving DecidableEq, Repr

/-- `sizeof(key_buffer)`. -/
def keyBufferSize : Nat := 1048

structure Kbd where
  state : KbdState
  size : Byte
  index : Nat
  type : Byte
  length : Byte
  keyBuffer : Nat → Byte
  /-- The places of the buffer that bytes of a payload were stored to. -/
  stored : List Nat
  /-- `none` is -1. -/
  pendingChar : Option Byte
  decoder : Decoder
  /-- What was sent to the keyboard. -/
  sent : List Byte

namespace Kbd

def initial : Kbd where
  state := .waitHdr1
  size := 0
  index := 0
  type := 0
  length := 0
  keyBuffer := fun _ => 0
  stored := []
  pendingChar := none
  decoder := .initial
  sent := []

/-- `kbd_finish_0x88`, on the buffer. -/
def finish (rom : Keymap → Byte → Byte) (s : Kbd) : Kbd :=
  let finished := s.decoder.kbdFinish0x88 rom ⟨s.keyBuffer 2, s.keyBuffer 4⟩
  { s with
    decoder := finished.1
    pendingChar := finished.2.character.or s.pendingChar
    sent := s.sent ++ finished.2.sent }

/-- `key_buffer[kbd_index] = c`, if there is such a place. -/
def storeByte (s : Kbd) (c : Byte) : Kbd :=
  if s.index < keyBufferSize then
    { s with keyBuffer := bufferWrite s.keyBuffer s.index [c], stored := s.stored ++ [s.index] }
  else s

/-- The `switch` of `kbd_poll`. -/
def receive (rom : Keymap → Byte → Byte) (s : Kbd) (c : Byte) : Kbd :=
  match s.state with
  | .waitHdr1 => if c = 0x57 then { s with state := .waitHdr2 } else s
  | .waitHdr2 => { s with state := if c = 0xAB then .waitCmd else .waitHdr1 }
  | .waitCmd =>
      { s with
        state :=
          if c = 0x81 then .wait81Type
          else if c = 0x82 then .wait82Byte
          else if c = 0x85 then .wait85Byte
          else if c = 0x88 then .wait88Size
          else .waitHdr1 }
  | .wait81Type => { s with type := c, state := .wait81Len }
  | .wait81Len =>
      { s with length := c, index := 0, state := if 0 < c.toNat then .skip81Payload else .waitHdr1 }
  | .skip81Payload =>
      { s with
        index := s.index + 1
        state := if s.length.toNat ≤ s.index + 1 then .waitHdr1 else .skip81Payload }
  | .wait82Byte => { s with state := .waitHdr1 }
  | .wait85Byte => { s with state := .waitHdr1 }
  | .wait88Size =>
      let s := { s with size := c, index := 1, keyBuffer := fun _ => 0 }
      if 0 < c.toNat then { s with state := .read88Payload }
      else finish rom { s with state := .waitHdr1 }
  | .read88Payload =>
      let s := s.storeByte c
      let s := { s with index := s.index + 1 }
      if s.size.toNat < s.index then { finish rom s with state := .waitHdr1 } else s

/-- `kbd_poll`, with the bytes that have come. -/
def kbdPoll (rom : Keymap → Byte → Byte) : List Byte → Kbd → List Byte × Kbd
  | [], s => ([], s)
  | c :: rest, s =>
      let s := s.receive rom c
      if s.pendingChar ≠ none then (rest, s) else kbdPoll rom rest s

def getCharNonblocking (s : Kbd) : Option Byte × Kbd := (s.pendingChar, { s with pendingChar := none })

end Kbd

/-- The bytes that have come and were not taken, and the keys taken so far. -/
structure MainLoop where
  fifo : List Byte
  kbd : Kbd
  keys : List Byte

/-- A turn of the main loop, with the bytes that have come since the last one. -/
def MainLoop.turn (rom : Keymap → Byte → Byte) (loop : MainLoop) (arrived : List Byte) : MainLoop :=
  let polled := Kbd.kbdPoll rom (loop.fifo ++ arrived) loop.kbd
  let taken := polled.2.getCharNonblocking
  { fifo := polled.1, kbd := taken.2, keys := loop.keys ++ taken.1.toList }

def MainLoop.run (rom : Keymap → Byte → Byte) (s : Kbd) (arrivals : List (List Byte)) : MainLoop :=
  arrivals.foldl (MainLoop.turn rom) { fifo := [], kbd := s, keys := [] }

/-! ## The bytes one by one -/

namespace Kbd

variable {rom : Keymap → Byte → Byte} {s : Kbd}

/-- One byte, with its key taken at once. -/
def accept (rom : Keymap → Byte → Byte) (s : Kbd) (c : Byte) : Option Byte × Kbd :=
  (s.receive rom c).getCharNonblocking

def feed (rom : Keymap → Byte → Byte) : Kbd → List Byte → List Byte × Kbd
  | s, [] => ([], s)
  | s, c :: rest =>
      let accepted := s.accept rom c
      let fed := feed rom accepted.2 rest
      (accepted.1.toList ++ fed.1, fed.2)

theorem feed_append (s : Kbd) (bytes others : List Byte) :
    feed rom s (bytes ++ others) =
      ((feed rom s bytes).1 ++ (feed rom (feed rom s bytes).2 others).1,
        (feed rom (feed rom s bytes).2 others).2) := by
  induction bytes generalizing s with
  | nil => rfl
  | cons c bytes inductionHypothesis =>
      rw [List.cons_append, feed, feed, inductionHypothesis, List.append_assoc]

theorem feed_singleton (s : Kbd) (c : Byte) :
    feed rom s [c] = ((s.accept rom c).1.toList, (s.accept rom c).2) := by
  rw [feed, feed, List.append_nil]

theorem pendingChar_accept (s : Kbd) (c : Byte) : (s.accept rom c).2.pendingChar = none := rfl

theorem take_idle (idle : s.pendingChar = none) : s.getCharNonblocking = (none, s) := by
  obtain ⟨_, _, _, _, _, _, _, _, _, _⟩ := s
  obtain rfl := idle
  rfl

theorem pendingChar_feed (idle : s.pendingChar = none) (bytes : List Byte) :
    (feed rom s bytes).2.pendingChar = none := by
  induction bytes generalizing s with
  | nil => exact idle
  | cons c bytes inductionHypothesis => exact inductionHypothesis (pendingChar_accept s c)

/-- A poll takes bytes from the front, one at least if there is any, and together with the call for
its key it does what they do one by one. -/
theorem kbdPoll_spec (idle : s.pendingChar = none) (fifo : List Byte) :
    ∃ consumed, fifo = consumed ++ (kbdPoll rom fifo s).1 ∧
      feed rom s consumed =
        ((kbdPoll rom fifo s).2.pendingChar.toList,
          (kbdPoll rom fifo s).2.getCharNonblocking.2) ∧
      (fifo ≠ [] → consumed ≠ []) := by
  induction fifo generalizing s with
  | nil =>
      refine ⟨[], rfl, ?_, fun some => absurd rfl some⟩
      rw [kbdPoll, idle, take_idle idle]
      rfl
  | cons c rest inductionHypothesis =>
      rw [kbdPoll]
      by_cases ready : (s.receive rom c).pendingChar ≠ none
      · rw [if_pos ready]
        exact ⟨[c], rfl, feed_singleton s c, fun _ => List.cons_ne_nil c []⟩
      · rw [if_neg ready]
        have quiet : (s.receive rom c).pendingChar = none := not_not.mp ready
        obtain ⟨consumed, split, fed, -⟩ := inductionHypothesis quiet
        refine ⟨c :: consumed, congrArg (c :: ·) split, ?_, fun _ => List.cons_ne_nil c consumed⟩
        rw [feed, accept, take_idle quiet, fed]
        rfl

end Kbd

/-! ## However the bytes arrive -/

namespace MainLoop

variable {rom : Keymap → Byte → Byte} {loop : MainLoop}

/-- The keys taken and those to come from the bytes not taken yet, and the state behind them. -/
def outlook (rom : Keymap → Byte → Byte) (loop : MainLoop) (arriving : List Byte) :
    List Byte × Kbd :=
  let fed := Kbd.feed rom loop.kbd (loop.fifo ++ arriving)
  (loop.keys ++ fed.1, fed.2)

theorem outlook_turn (idle : loop.kbd.pendingChar = none) (arrived arriving : List Byte) :
    (loop.turn rom arrived).outlook rom arriving = loop.outlook rom (arrived ++ arriving) := by
  obtain ⟨consumed, split, fed, -⟩ := @Kbd.kbdPoll_spec rom loop.kbd idle (loop.fifo ++ arrived)
  have bytes : loop.fifo ++ (arrived ++ arriving) =
      consumed ++ ((loop.turn rom arrived).fifo ++ arriving) := by
    rw [← List.append_assoc, split, List.append_assoc]
    rfl
  have whole := @Kbd.feed_append rom loop.kbd consumed ((loop.turn rom arrived).fifo ++ arriving)
  rw [fed] at whole
  rw [outlook, outlook, bytes, whole, turn, List.append_assoc]
  rfl

theorem idle_turn (arrived : List Byte) : (loop.turn rom arrived).kbd.pendingChar = none := rfl

theorem outlook_foldl (idle : loop.kbd.pendingChar = none) (arrivals : List (List Byte)) :
    (arrivals.foldl (turn rom) loop).outlook rom [] = loop.outlook rom arrivals.flatten := by
  induction arrivals generalizing loop with
  | nil => rfl
  | cons arrived arrivals inductionHypothesis =>
      rw [List.foldl_cons, inductionHypothesis (idle_turn arrived), outlook_turn idle,
        List.flatten_cons]

theorem length_turn (idle : loop.kbd.pendingChar = none) :
    (loop.turn rom []).fifo.length ≤ loop.fifo.length - 1 := by
  obtain ⟨consumed, split, -, some⟩ := @Kbd.kbdPoll_spec rom loop.kbd idle (loop.fifo ++ [])
  rw [List.append_nil] at split some
  have length := congrArg List.length split
  rw [List.length_append] at length
  have fifo : (loop.turn rom []).fifo = (Kbd.kbdPoll rom loop.fifo loop.kbd).1 := by
    rw [turn, List.append_nil]
  rw [fifo]
  by_cases empty : loop.fifo = []
  · rw [empty] at length ⊢
    exact Nat.le_refl 0
  · have positive := List.length_pos_iff.mpr (some empty)
    omega

theorem drained (idle : loop.kbd.pendingChar = none) (turns : Nat) :
    ((List.replicate turns []).foldl (turn rom) loop).fifo.length ≤ loop.fifo.length - turns := by
  induction turns generalizing loop with
  | zero => exact Nat.le_refl _
  | succ turns inductionHypothesis =>
      have one := @length_turn rom loop idle
      have others := @inductionHypothesis (loop.turn rom []) (idle_turn [])
      rw [List.replicate_succ, List.foldl_cons]
      omega

end MainLoop

end OrionBios.UsbKeyboard
