import OrionBios.UsbKeyboard.Parser

/-!
# Frames in a stream of bytes

A frame begins with the bytes 0x57 and 0xAB. Between frames there may be other bytes, and the parser
should find the next frame behind them.
-/

namespace OrionBios.UsbKeyboard

open Buffers

/-! ## Frames -/

inductive Frame where
  | status (type : Byte) (payload : List Byte) (fits : payload.length < 256)
  | version (byte : Byte)
  | log (byte : Byte)
  | sync
  | keys (payload : List Byte) (fits : payload.length < 256)

namespace Frame

def header : List Byte := [0x57, 0xAB]

def body : Frame → List Byte
  | .status type payload _ => 0x81 :: type :: BitVec.ofNat 8 payload.length :: payload
  | .version byte => [0x82, byte]
  | .log byte => [0x85, byte]
  | .sync => [0x87]
  | .keys payload _ => 0x88 :: BitVec.ofNat 8 payload.length :: payload

def bytes (frame : Frame) : List Byte := header ++ frame.body

/-- What a payload stores to `key_buffer[2]` and `key_buffer[4]`. -/
def reportOf (payload : List Byte) : Report := ⟨payload.getD 1 0, payload.getD 3 0⟩

def decode (rom : Keymap → Byte → Byte) (d : Decoder) : Frame → List Byte × Decoder
  | .keys payload _ =>
      let finished := d.kbdFinish0x88 rom (reportOf payload)
      (finished.2.character.toList, finished.1)
  | _ => ([], d)

end Frame

namespace Kbd

variable {rom : Keymap → Byte → Byte} {s : Kbd}

theorem bufferWrite_cons (cells : Nat → Byte) (start : Nat) (c : Byte) (rest : List Byte) :
    bufferWrite (bufferWrite cells start [c]) (start + 1) rest =
      bufferWrite cells start (c :: rest) := by
  funext place
  unfold bufferWrite
  rcases Nat.lt_trichotomy place start with before | rfl | behind
  · rw [if_neg (by omega), if_neg (by omega), if_neg (by omega)]
  · rw [if_neg (by omega), if_pos (Nat.le_refl _), if_pos (Nat.le_refl _), Nat.sub_self,
      List.getD_cons_zero, List.getD_cons_zero]
  · obtain ⟨offset, rfl⟩ := Nat.exists_eq_add_of_lt behind
    rw [if_pos (by omega), if_pos (by omega), if_pos (by omega)]
    have shift : start + offset + 1 - start = offset + 1 := by omega
    have shift' : start + offset + 1 - (start + 1) = offset := by omega
    rw [shift, shift', List.getD_cons_succ, List.getD_cons_succ, List.getD_nil]

theorem accept_eq {next : Kbd} {c : Byte} (received : s.receive rom c = next)
    (quiet : next.pendingChar = none) : s.accept rom c = (none, next) := by
  rw [accept, received, take_idle quiet]

theorem feed_cons {next : Kbd} {c : Byte} (received : s.receive rom c = next)
    (quiet : next.pendingChar = none) (rest : List Byte) :
    feed rom s (c :: rest) = feed rom next rest := by
  rw [feed, accept_eq received quiet]
  rfl

/-- What a frame leaves behind. -/
structure Done (decoded : List Byte × Decoder) (fed : List Byte × Kbd) : Prop where
  keys : fed.1 = decoded.1
  decoder : fed.2.decoder = decoded.2
  state : fed.2.state = .waitHdr1

theorem feed_skip (quiet : s.pendingChar = none) (state : s.state = .skip81Payload)
    (payload : List Byte) (some : payload ≠ [])
    (counted : s.index + payload.length = s.length.toNat) :
    Done ([], s.decoder) (feed rom s payload) := by
  induction payload generalizing s with
  | nil => exact absurd rfl some
  | cons c rest inductionHypothesis =>
      rw [List.length_cons] at counted
      have received : s.receive rom c =
          { s with
            index := s.index + 1
            state := if s.length.toNat ≤ s.index + 1 then .waitHdr1 else .skip81Payload } := by
        rw [receive, state]
      rw [feed_cons received quiet]
      by_cases last : rest = []
      · rw [last] at counted ⊢
        have behind : s.length.toNat ≤ s.index + 1 := Nat.le_of_eq counted.symm
        rw [if_pos behind]
        exact ⟨rfl, rfl, rfl⟩
      · have positive := List.length_pos_iff.mpr last
        have counted' : s.index + 1 + rest.length = s.length.toNat := by omega
        rw [if_neg (by omega)]
        exact @inductionHypothesis
          { s with index := s.index + 1, state := .skip81Payload } quiet rfl last counted'

theorem feed_read (quiet : s.pendingChar = none) (state : s.state = .read88Payload)
    (payload : List Byte) (some : payload ≠ [])
    (counted : s.index + payload.length = s.size.toNat + 1) :
    Done
      ((s.decoder.kbdFinish0x88 rom ⟨bufferWrite s.keyBuffer s.index payload 2,
          bufferWrite s.keyBuffer s.index payload 4⟩).2.character.toList,
        (s.decoder.kbdFinish0x88 rom ⟨bufferWrite s.keyBuffer s.index payload 2,
          bufferWrite s.keyBuffer s.index payload 4⟩).1)
      (feed rom s payload) := by
  induction payload generalizing s with
  | nil => exact absurd rfl some
  | cons c rest inductionHypothesis =>
      rw [List.length_cons] at counted
      have inside : s.index < keyBufferSize := by
        have small := s.size.isLt
        unfold keyBufferSize
        omega
      have stored : s.storeByte c =
          { s with
            keyBuffer := bufferWrite s.keyBuffer s.index [c], stored := s.stored ++ [s.index] } :=
        if_pos inside
      by_cases last : rest = []
      · rw [last] at counted ⊢
        have behind : s.size.toNat < s.index + 1 := by
          rw [List.length_nil] at counted
          omega
        rw [feed_singleton, accept, receive, state]
        simp only [stored, if_pos behind]
        refine ⟨?_, rfl, rfl⟩
        simp only [getCharNonblocking, finish, quiet, Option.or_none]
      · have positive := List.length_pos_iff.mpr last
        have received : s.receive rom c =
            { s with
              state := .read88Payload
              keyBuffer := bufferWrite s.keyBuffer s.index [c]
              stored := s.stored ++ [s.index]
              index := s.index + 1 } := by
          rw [receive, state]
          simp only [stored]
          rw [if_neg (by omega), state]
        have counted' : s.index + 1 + rest.length = s.size.toNat + 1 := by omega
        rw [feed_cons received quiet, ← bufferWrite_cons]
        exact @inductionHypothesis
          { s with
            state := .read88Payload
            keyBuffer := bufferWrite s.keyBuffer s.index [c]
            stored := s.stored ++ [s.index]
            index := s.index + 1 } quiet rfl last counted'

theorem receive_hdr1 (state : s.state = .waitHdr1) :
    s.receive rom 0x57 = { s with state := .waitHdr2 } := by
  rw [receive, state]
  exact if_pos rfl

theorem receive_hdr2 (state : s.state = .waitHdr2) :
    s.receive rom 0xAB = { s with state := .waitCmd } := by
  rw [receive, state]
  rfl

theorem length_ofNat {payload : List Byte} (fits : payload.length < 256) :
    (BitVec.ofNat 8 payload.length).toNat = payload.length := by
  rw [BitVec.toNat_ofNat]
  exact Nat.mod_eq_of_lt fits

theorem feed_body (quiet : s.pendingChar = none) (state : s.state = .waitCmd) (frame : Frame) :
    Done (frame.decode rom s.decoder) (feed rom s frame.body) := by
  cases frame with
  | version byte =>
      have command : s.receive rom 0x82 = { s with state := .wait82Byte } := by
        rw [receive, state]
        rfl
      have taken : Kbd.receive rom { s with state := .wait82Byte } byte =
          { s with state := .waitHdr1 } := rfl
      rw [Frame.body, feed_cons command quiet, feed_cons taken quiet]
      exact ⟨rfl, rfl, rfl⟩
  | log byte =>
      have command : s.receive rom 0x85 = { s with state := .wait85Byte } := by
        rw [receive, state]
        rfl
      have taken : Kbd.receive rom { s with state := .wait85Byte } byte =
          { s with state := .waitHdr1 } := rfl
      rw [Frame.body, feed_cons command quiet, feed_cons taken quiet]
      exact ⟨rfl, rfl, rfl⟩
  | sync =>
      have command : s.receive rom 0x87 = { s with state := .waitHdr1 } := by
        rw [receive, state]
        rfl
      rw [Frame.body, feed_cons command quiet]
      exact ⟨rfl, rfl, rfl⟩
  | status type payload fits =>
      have command : s.receive rom 0x81 = { s with state := .wait81Type } := by
        rw [receive, state]
        rfl
      have typed : Kbd.receive rom { s with state := .wait81Type } type =
          { s with type := type, state := .wait81Len } := rfl
      have length := length_ofNat fits
      rw [Frame.body, feed_cons command quiet, feed_cons typed quiet]
      by_cases empty : payload = []
      · subst empty
        have counted : Kbd.receive rom { s with type := type, state := .wait81Len } 0#8 =
            { s with type := type, length := 0, index := 0, state := .waitHdr1 } := rfl
        rw [List.length_nil, feed_cons counted quiet]
        exact ⟨rfl, rfl, rfl⟩
      · have positive := List.length_pos_iff.mpr empty
        have counted : Kbd.receive rom { s with type := type, state := .wait81Len }
              (BitVec.ofNat 8 payload.length) =
            { s with
              type := type, length := BitVec.ofNat 8 payload.length, index := 0
              state := .skip81Payload } := by
          rw [receive]
          simp only [length, if_pos positive]
        rw [feed_cons counted quiet]
        exact @feed_skip rom
          { s with
            type := type, length := BitVec.ofNat 8 payload.length, index := 0
            state := .skip81Payload } quiet rfl payload empty
          (by rw [length]; exact Nat.zero_add _)
  | keys payload fits =>
      have command : s.receive rom 0x88 = { s with state := .wait88Size } := by
        rw [receive, state]
        rfl
      have length := length_ofNat fits
      rw [Frame.body, feed_cons command quiet]
      by_cases empty : payload = []
      · subst empty
        rw [feed_singleton, accept, receive]
        refine ⟨?_, rfl, rfl⟩
        simp [getCharNonblocking, finish, quiet, Frame.decode, Frame.reportOf]
      · have positive := List.length_pos_iff.mpr empty
        have size : Kbd.receive rom { s with state := .wait88Size } (BitVec.ofNat 8 payload.length) =
            { s with
              size := BitVec.ofNat 8 payload.length, index := 1, keyBuffer := fun _ => 0
              state := .read88Payload } := by
          rw [receive]
          simp only [length, if_pos positive]
        rw [feed_cons size quiet]
        have read := @feed_read rom
          { s with
            size := BitVec.ofNat 8 payload.length, index := 1, keyBuffer := fun _ => 0
            state := .read88Payload } quiet rfl payload empty
          (by rw [length]; exact Nat.add_comm 1 _)
        exact read

end Kbd

/-! ## Bytes between frames -/

/-- There is no header among the bytes. -/
def Free (garbage : List Byte) : Prop := ¬ Frame.header <:+: garbage

instance (garbage : List Byte) : Decidable (Free garbage) := inferInstanceAs (Decidable (¬ _))

/-- How many bytes 0x57 stand at the end. -/
def trailing (garbage : List Byte) : Nat := (garbage.reverse.takeWhile (· = 0x57)).length

theorem trailing_concat (garbage : List Byte) (c : Byte) :
    trailing (garbage ++ [c]) = if c = 0x57 then trailing garbage + 1 else 0 := by
  rw [trailing, List.reverse_append, List.reverse_singleton, List.singleton_append,
    List.takeWhile_cons]
  by_cases first : c = 0x57
  · rw [if_pos (decide_eq_true first), if_pos first]
    rfl
  · rw [if_neg fun holds => first (of_decide_eq_true holds), if_neg first]
    rfl

theorem last_of_trailing {garbage : List Byte} (some : trailing garbage ≠ 0) :
    ∃ before, garbage = before ++ [0x57] := by
  induction garbage using List.reverseRecOn with
  | nil => exact absurd rfl some
  | append_singleton before c _ =>
      rw [trailing_concat] at some
      by_cases first : c = 0x57
      · exact ⟨before, by rw [first]⟩
      · rw [if_neg first] at some
        exact absurd rfl some

theorem Free.of_append {garbage others : List Byte} (free : Free (garbage ++ others)) :
    Free garbage := fun found => free (found.trans (List.prefix_append garbage others).isInfix)

namespace Kbd

variable {rom : Keymap → Byte → Byte} {s : Kbd}

/-- Two bytes 0x57 in a row cancel out: behind an even number of them the parser waits for the
first byte of a header, behind an odd number for the second. -/
theorem feed_free (quiet : s.pendingChar = none) (state : s.state = .waitHdr1)
    {garbage : List Byte} (free : Free garbage) :
    feed rom s garbage =
      ([], { s with state := if trailing garbage % 2 = 0 then .waitHdr1 else .waitHdr2 }) := by
  induction garbage using List.reverseRecOn with
  | nil =>
      obtain ⟨_, _, _, _, _, _, _, _, _, _⟩ := s
      obtain rfl := state
      rfl
  | append_singleton garbage c inductionHypothesis =>
      rw [feed_append, inductionHypothesis free.of_append, trailing_concat, feed_singleton]
      by_cases even : trailing garbage % 2 = 0
      · rw [if_pos even]
        by_cases first : c = 0x57
        · have received : Kbd.receive rom { s with state := .waitHdr1 } c =
              { s with state := .waitHdr2 } := by
            rw [first]
            exact receive_hdr1 rfl
          rw [accept_eq received quiet, if_pos first, if_neg (by omega)]
          rfl
        · have received : Kbd.receive rom { s with state := .waitHdr1 } c =
              { s with state := .waitHdr1 } := if_neg first
          rw [accept_eq received quiet, if_neg first]
          rfl
      · rw [if_neg even]
        have notSecond : c ≠ 0xAB := by
          rintro rfl
          obtain ⟨before, rfl⟩ := last_of_trailing fun none => even (by rw [none])
          exact free ⟨before, [], by rw [List.append_nil, List.append_assoc]; rfl⟩
        have received : Kbd.receive rom { s with state := .waitHdr2 } c =
            { s with state := .waitHdr1 } := by
          rw [receive]
          exact congrArg (fun next => { s with state := next }) (if_neg notSecond)
        rw [accept_eq received quiet]
        by_cases first : c = 0x57
        · rw [if_pos first, if_pos (by omega)]
          rfl
        · rw [if_neg first]
          rfl

/-- Behind such bytes the header is seen if and only if the number of 0x57 at their end is even. -/
theorem feed_header (quiet : s.pendingChar = none) (state : s.state = .waitHdr1)
    {garbage : List Byte} (free : Free garbage) :
    (feed rom s (garbage ++ Frame.header)).2.state = .waitCmd ↔ trailing garbage % 2 = 0 := by
  rw [feed_append, feed_free quiet state free, Frame.header]
  by_cases even : trailing garbage % 2 = 0
  · have first : Kbd.receive rom { s with state := .waitHdr1 } 0x57 =
        { s with state := .waitHdr2 } := receive_hdr1 rfl
    have second : Kbd.receive rom { s with state := .waitHdr2 } 0xAB =
        { s with state := .waitCmd } := receive_hdr2 rfl
    rw [if_pos even, feed_cons first quiet, feed_cons second quiet]
    exact iff_of_true rfl even
  · have first : Kbd.receive rom { s with state := .waitHdr2 } 0x57 =
        { s with state := .waitHdr1 } := rfl
    have second : Kbd.receive rom { s with state := .waitHdr1 } 0xAB =
        { s with state := .waitHdr1 } := rfl
    rw [if_neg even, feed_cons first quiet, feed_cons second quiet]
    exact iff_of_false (fun seen => KbdState.noConfusion seen) even

/-- The header behind the garbage is seen, and the frame is taken as what it is. -/
structure Seen (rom : Keymap → Byte → Byte) (s : Kbd) (before garbage : List Byte)
    (frame : Frame) : Prop where
  header : (feed rom s (before ++ garbage ++ Frame.header)).2.state = .waitCmd
  body : Done (frame.decode rom (feed rom s before).2.decoder)
    (feed rom (feed rom s (before ++ garbage ++ Frame.header)).2 frame.body)

theorem seen_iff (quiet : s.pendingChar = none) {before garbage : List Byte} (frame : Frame)
    (idle : (feed rom s before).2.state = .waitHdr1) (free : Free garbage) :
    Seen rom s before garbage frame ↔ trailing garbage % 2 = 0 := by
  have quiet' := @pendingChar_feed rom s quiet before
  have header : (feed rom s (before ++ garbage ++ Frame.header)).2 =
      (feed rom (feed rom s before).2 (garbage ++ Frame.header)).2 := by
    rw [List.append_assoc, feed_append]
  have state := @feed_header rom (feed rom s before).2 quiet' idle garbage free
  rw [← header] at state
  constructor
  · exact fun seen => state.mp seen.header
  · intro even
    refine ⟨state.mpr even, ?_⟩
    have decoder : (feed rom s (before ++ garbage ++ Frame.header)).2.decoder =
        (feed rom s before).2.decoder := by
      rw [header, feed_append, feed_free quiet' idle free, if_pos even]
      rfl
    rw [← decoder]
    exact feed_body (pendingChar_feed quiet _) (state.mpr even) frame

/-! ## Stores -/

theorem stored_storeByte (s : Kbd) (c : Byte) {place : Nat} (stored : place ∈ (s.storeByte c).stored) :
    place ∈ s.stored ∨ place < keyBufferSize := by
  rw [storeByte] at stored
  split at stored
  · rcases List.mem_append.mp stored with before | now
    · exact Or.inl before
    · rw [List.mem_singleton.mp now]
      exact Or.inr (by assumption)
  · exact Or.inl stored

theorem stored_receive (s : Kbd) (c : Byte) {place : Nat} (stored : place ∈ (s.receive rom c).stored) :
    place ∈ s.stored ∨ place < keyBufferSize := by
  rw [receive] at stored
  split at stored
  case h_10 =>
      -- the payload of a frame 0x88
      apply stored_storeByte s c
      simp only at stored
      split at stored
      · exact stored
      · exact stored
  case h_9 =>
      simp only at stored
      split at stored <;> exact Or.inl stored
  case h_1 => split at stored <;> exact Or.inl stored
  all_goals exact Or.inl stored

theorem stored_feed (s : Kbd) (bytes : List Byte) {place : Nat}
    (stored : place ∈ (feed rom s bytes).2.stored) : place ∈ s.stored ∨ place < keyBufferSize := by
  induction bytes generalizing s with
  | nil => exact Or.inl stored
  | cons c bytes inductionHypothesis =>
      rcases inductionHypothesis _ stored with before | inside
      · exact stored_receive s c before
      · exact Or.inr inside

end Kbd

theorem MainLoop.stored_foldl {rom : Keymap → Byte → Byte} {loop : MainLoop}
    (quiet : loop.kbd.pendingChar = none) (arrivals : List (List Byte)) {place : Nat}
    (stored : place ∈ (arrivals.foldl (turn rom) loop).kbd.stored) :
    place ∈ loop.kbd.stored ∨ place < keyBufferSize := by
  induction arrivals generalizing loop with
  | nil => exact Or.inl stored
  | cons arrived arrivals inductionHypothesis =>
      rcases inductionHypothesis (idle_turn arrived) stored with before | inside
      · obtain ⟨consumed, -, fed, -⟩ :=
          @Kbd.kbdPoll_spec rom loop.kbd quiet (loop.fifo ++ arrived)
        have kbd : (loop.turn rom arrived).kbd = (Kbd.feed rom loop.kbd consumed).2 := by
          rw [fed]
          rfl
        rw [kbd] at before
        exact Kbd.stored_feed loop.kbd consumed before
      · exact Or.inr inside

/-! ## Whole streams -/

/-- The stream arrives before the first poll. -/
def MainLoop.atOnce (rom : Keymap → Byte → Byte) (s : Kbd) (stream : List Byte) : MainLoop :=
  run rom s (stream :: List.replicate stream.length [])

/-- However a stream arrives, its keys are the same, and enough polls take all of it; a frame behind
bytes without a header is seen; and no payload is stored outside the buffer. -/
structure Parses (rom : Keymap → Byte → Byte) (s : Kbd) (stream : List Byte) : Prop where
  split : ∀ arrivals, arrivals.flatten = stream → (MainLoop.run rom s arrivals).fifo = [] →
    (MainLoop.run rom s arrivals).keys = (MainLoop.atOnce rom s stream).keys ∧
      (MainLoop.run rom s arrivals).kbd = (MainLoop.atOnce rom s stream).kbd
  drains : ∀ arrivals, arrivals.flatten = stream →
    (MainLoop.run rom s (arrivals ++ List.replicate stream.length [])).fifo = []
  recognised : ∀ (before garbage : List Byte) (frame : Frame) (rest : List Byte),
    stream = before ++ garbage ++ frame.bytes ++ rest →
    (Kbd.feed rom s before).2.state = .waitHdr1 → Free garbage →
    Kbd.Seen rom s before garbage frame
  inside : ∀ arrivals, arrivals.flatten = stream →
    ∀ place ∈ (MainLoop.run rom s arrivals).kbd.stored, place ∈ s.stored ∨ place < keyBufferSize

section

variable {rom : Keymap → Byte → Byte} {s : Kbd}

theorem MainLoop.run_outlook (quiet : s.pendingChar = none) (arrivals : List (List Byte)) :
    (run rom s arrivals).outlook rom [] = Kbd.feed rom s arrivals.flatten := by
  have kept := @outlook_foldl rom { fifo := [], kbd := s, keys := [] } quiet arrivals
  rw [run, kept]
  rfl

theorem MainLoop.run_drained (quiet : s.pendingChar = none) {arrivals : List (List Byte)}
    (empty : (run rom s arrivals).fifo = []) :
    ((run rom s arrivals).keys, (run rom s arrivals).kbd) = Kbd.feed rom s arrivals.flatten := by
  rw [← run_outlook quiet arrivals, outlook, empty, List.nil_append, Kbd.feed, List.append_nil]

theorem MainLoop.pendingChar_foldl {loop : MainLoop} (quiet : loop.kbd.pendingChar = none)
    (arrivals : List (List Byte)) :
    (arrivals.foldl (turn rom) loop).kbd.pendingChar = none := by
  induction arrivals generalizing loop with
  | nil => exact quiet
  | cons arrived arrivals inductionHypothesis => exact inductionHypothesis (idle_turn arrived)

theorem MainLoop.length_foldl {loop : MainLoop} (quiet : loop.kbd.pendingChar = none)
    (arrivals : List (List Byte)) :
    (arrivals.foldl (turn rom) loop).fifo.length ≤ loop.fifo.length + arrivals.flatten.length := by
  induction arrivals generalizing loop with
  | nil => exact Nat.le_refl _
  | cons arrived arrivals inductionHypothesis =>
      obtain ⟨consumed, split, -, -⟩ := @Kbd.kbdPoll_spec rom loop.kbd quiet (loop.fifo ++ arrived)
      have length := congrArg List.length split
      rw [List.length_append, List.length_append] at length
      have turned : (loop.turn rom arrived).fifo.length =
          (Kbd.kbdPoll rom (loop.fifo ++ arrived) loop.kbd).1.length := rfl
      have later := @inductionHypothesis (loop.turn rom arrived) (idle_turn arrived)
      rw [List.foldl_cons, List.flatten_cons, List.length_append]
      omega

theorem MainLoop.run_drains (quiet : s.pendingChar = none) (arrivals : List (List Byte)) :
    (run rom s (arrivals ++ List.replicate arrivals.flatten.length [])).fifo = [] := by
  have left := @length_foldl rom { fifo := [], kbd := s, keys := [] } quiet arrivals
  have after := @drained rom (run rom s arrivals) (pendingChar_foldl quiet arrivals)
    arrivals.flatten.length
  rw [run, List.foldl_append]
  apply List.length_eq_zero_iff.mp
  rw [List.length_nil, Nat.zero_add] at left
  rw [run] at after
  omega

/-- A stream is parsed as it should be if and only if, wherever a frame follows bytes without a
header, the number of 0x57 at their end is even. -/
theorem parses_iff (rom : Keymap → Byte → Byte) (s : Kbd) (quiet : s.pendingChar = none)
    (stream : List Byte) :
    Parses rom s stream ↔
      ∀ (before garbage : List Byte) (frame : Frame) (rest : List Byte),
        stream = before ++ garbage ++ frame.bytes ++ rest →
        (Kbd.feed rom s before).2.state = .waitHdr1 → Free garbage →
        trailing garbage % 2 = 0 := by
  constructor
  · intro parses before garbage frame rest split idle free
    exact (Kbd.seen_iff quiet frame idle free).mp
      (parses.recognised before garbage frame rest split idle free)
  · intro even
    have drains : ∀ arrivals : List (List Byte), arrivals.flatten = stream →
        (MainLoop.run rom s (arrivals ++ List.replicate stream.length [])).fifo = [] := by
      rintro arrivals rfl
      exact MainLoop.run_drains quiet arrivals
    constructor
    · intro arrivals flat empty
      have whole := MainLoop.run_drained quiet empty
      have once := MainLoop.run_drained quiet (drains [stream] (List.flatten_singleton))
      have flatOnce : ([stream] ++ List.replicate stream.length []).flatten = stream := by simp
      rw [flatOnce] at once
      rw [flat, ← once] at whole
      exact Prod.mk.inj whole
    · exact drains
    · intro before garbage frame rest split idle free
      exact (Kbd.seen_iff quiet frame idle free).mpr
        (even before garbage frame rest split idle free)
    · intro arrivals _ place stored
      exact @MainLoop.stored_foldl rom { fifo := [], kbd := s, keys := [] } quiet arrivals place
        stored

/-- Three bytes that are no frame, and the key `a` behind them. -/
def keyBehindGarbage : List Byte := [0x00, 0x57, 0x12, 0x57, 0xAB, 0x88, 4, 0, 0, 0, 4]

theorem parses_key :
    (MainLoop.atOnce (fun _ _ => 0) .initial keyBehindGarbage).keys = [0x61] ∧
      Parses (fun _ _ => 0) .initial keyBehindGarbage := by
  refine ⟨by decide, (parses_iff (fun _ _ => 0) .initial rfl keyBehindGarbage).mpr ?_⟩
  intro before garbage frame rest split _ _
  have only : ∀ place < 11, keyBehindGarbage[place]? = some 0x57 →
      keyBehindGarbage[place + 1]? = some 0xAB → place = 3 := by decide
  have suffix : ∀ start ≤ 3, trailing ((keyBehindGarbage.take 3).drop start) % 2 = 0 := by decide
  have behind : keyBehindGarbage = (before ++ garbage) ++ 0x57 :: 0xAB :: (frame.body ++ rest) := by
    rw [split, Frame.bytes, Frame.header]
    simp
  have length := congrArg List.length behind
  rw [List.length_append, List.length_cons, List.length_cons] at length
  have place : (before ++ garbage).length = 3 := by
    refine only _ (Nat.lt_of_lt_of_eq (by omega) length.symm) ?_ ?_
    · rw [behind, List.getElem?_append_right (Nat.le_refl _), Nat.sub_self]
      rfl
    · rw [behind, List.getElem?_append_right (Nat.le_succ _), Nat.succ_sub (Nat.le_refl _),
        Nat.sub_self]
      rfl
  have front : keyBehindGarbage.take 3 = before ++ garbage := by
    rw [behind, ← place, List.take_left]
  have inside : before.length ≤ 3 := by
    rw [← place, List.length_append]
    exact Nat.le_add_right _ _
  have even := suffix before.length inside
  rw [front, List.drop_left] at even
  exact even

/-- A stray 0x57 before a frame: the key `a` is lost. -/
theorem stray_byte_loses_key :
    (MainLoop.atOnce (fun _ _ => 0) .initial
        [0x57, 0xAB, 0x88, 4, 0, 0, 0, 4]).keys = [0x61] ∧
      (MainLoop.atOnce (fun _ _ => 0) .initial
        [0x57, 0x57, 0xAB, 0x88, 4, 0, 0, 0, 4]).keys = [] ∧
      ¬ ∀ s : Kbd, s.pendingChar = none → ∀ stream, Parses (fun _ _ => 0) s stream := by
  refine ⟨by decide, by decide, fun all => ?_⟩
  have parses := all .initial rfl [0x57, 0x57, 0xAB, 0x88, 4, 0, 0, 0, 4]
  have free : Free [0x57] := by decide
  have seen := parses.recognised [] [0x57] (.keys [0, 0, 0, 4] (by decide)) [] rfl rfl free
  exact absurd seen.header (by decide)

end

end OrionBios.UsbKeyboard
