import OrionBios.Transition.Runs
import Mathlib.Data.BitVec
import Mathlib.Logic.Function.Basic

/-!
# The keyboard buffer

The interrupt puts characters, the main program gets them. Neither waits for the other: each
access to an index or a slot is a step of its own, and the steps of both interleave in any way.
-/

namespace OrionBios.Keyboard

open Transition

abbrev Byte := BitVec 8

/-! ## The functions, access by access -/

structure RingBuffer where
  buffer : Byte → Byte
  head : Byte
  tail : Byte

/-- `ring_buf_init` leaves the slots as they are. -/
def ringBufInit (buffer : Byte → Byte) : RingBuffer := ⟨buffer, 0, 0⟩

/-- The access that `ring_buf_put` makes next. -/
inductive PutAt where
  | idle
  /-- Read the head. -/
  | entered (c : Byte)
  /-- Read the tail and compare. -/
  | compare (c nextHead : Byte)
  /-- Read the head for the slot. -/
  | index (c nextHead : Byte)
  | store (c nextHead slot : Byte)
  | advance (c nextHead : Byte)

/-- The access that `ring_buf_get_char` makes next. -/
inductive GetAt where
  | idle
  /-- Read the head. -/
  | waiting
  /-- Read the tail and compare. -/
  | compare (head : Byte)
  /-- Read the tail for the slot. -/
  | index
  | load (slot : Byte)
  /-- Read the tail to count it up. -/
  | release (ret : Byte)
  | advance (ret tail : Byte)

structure State where
  rb : RingBuffer
  put : PutAt
  get : GetAt
  /-- The characters that went into a slot, and how many slots were given back. -/
  stored : List Byte
  released : Nat
  /-- Every character put, with the number of characters stored when the buffer was tested. -/
  offered : List (Byte × Nat)
  got : List Byte

namespace State

/-- How many characters are in the buffer. -/
def count (s : State) : Nat := s.stored.length - s.released

def producer (s : State) : Option State :=
  match s.put with
  | .idle => none
  | .entered c => some { s with put := .compare c (s.rb.head + 1) }
  | .compare c nextHead =>
    some { s with
      put := if nextHead = s.rb.tail then .idle else .index c nextHead
      offered := s.offered ++ [(c, s.count)] }
  | .index c nextHead => some { s with put := .store c nextHead s.rb.head }
  | .store c nextHead slot =>
    some { s with
      put := .advance c nextHead
      rb := { s.rb with buffer := Function.update s.rb.buffer slot c } }
  | .advance c nextHead =>
    some { s with
      put := .idle
      rb := { s.rb with head := nextHead }
      stored := s.stored ++ [c] }

def consumer (s : State) : Option State :=
  match s.get with
  | .idle => none
  | .waiting => some { s with get := .compare s.rb.head }
  | .compare head => some { s with get := if head = s.rb.tail then .waiting else .index }
  | .index => some { s with get := .load s.rb.tail }
  | .load slot => some { s with get := .release (s.rb.buffer slot) }
  | .release ret => some { s with get := .advance ret s.rb.tail }
  | .advance ret tail =>
    some { s with
      get := .idle
      rb := { s.rb with tail := tail + 1 }
      released := s.released + 1
      got := s.got ++ [ret] }

end State

/-- Who goes on: an interrupt with a character, or the next access of a function that runs. -/
inductive Label where
  | put (c : Byte)
  | producer
  | get
  | consumer

def step (s : State) : Label → Option State
  | .put c =>
    match s.put with
    | .idle => some { s with put := .entered c }
    | _ => none
  | .producer => s.producer
  | .get =>
    match s.get with
    | .idle => some { s with get := .waiting }
    | _ => none
  | .consumer => s.consumer

def initial (buffer : Byte → Byte) : State where
  rb := ringBufInit buffer
  put := .idle
  get := .idle
  stored := []
  released := 0
  offered := []
  got := []

/-- The characters that were put while there was room. -/
def accepted (offered : List (Byte × Nat)) : List Byte :=
  (offered.filter fun entry => entry.2 ≠ 255).map Prod.fst

theorem accepted_append (first second : List (Byte × Nat)) :
    accepted (first ++ second) = accepted first ++ accepted second := by
  unfold accepted
  rw [List.filter_append, List.map_append]

/-! ## The invariant -/

/-- A character that was let in and is not stored yet. -/
def PutAt.pending : PutAt → List Byte
  | .idle | .entered _ | .compare _ _ => []
  | .index c _ | .store c _ _ | .advance c _ => [c]

def PutKnows (s : State) : PutAt → Prop
  | .idle | .entered _ => True
  | .compare _ nextHead => nextHead = s.rb.head + 1
  | .index _ nextHead => nextHead = s.rb.head + 1 ∧ s.count < 255
  | .store _ nextHead slot => nextHead = s.rb.head + 1 ∧ s.count < 255 ∧ slot = s.rb.head
  | .advance c nextHead =>
    nextHead = s.rb.head + 1 ∧ s.count < 255 ∧ s.rb.buffer s.rb.head = c

def GetKnows (s : State) : GetAt → Prop
  | .idle | .waiting => True
  | .compare head => ∃ seen, s.released ≤ seen ∧ seen ≤ s.stored.length ∧ head = BitVec.ofNat 8 seen
  | .index => s.released < s.stored.length
  | .load slot => s.released < s.stored.length ∧ slot = s.rb.tail
  | .release ret => s.stored[s.released]? = some ret
  | .advance ret tail => s.stored[s.released]? = some ret ∧ tail = s.rb.tail

structure Inv (s : State) : Prop where
  head : s.rb.head = BitVec.ofNat 8 s.stored.length
  tail : s.rb.tail = BitVec.ofNat 8 s.released
  order : s.released ≤ s.stored.length
  room : s.stored.length ≤ s.released + 255
  slots : ∀ i, s.released ≤ i → i < s.stored.length →
    s.stored[i]? = some (s.rb.buffer (BitVec.ofNat 8 i))
  accepted : accepted s.offered = s.stored ++ s.put.pending
  got : s.got = s.stored.take s.released
  put : PutKnows s s.put
  get : GetKnows s s.get

theorem initial_inv (buffer : Byte → Byte) : Inv (initial buffer) where
  head := rfl
  tail := rfl
  order := Nat.le_refl 0
  room := Nat.zero_le _
  slots := fun _ _ less => absurd less (Nat.not_lt_zero _)
  accepted := rfl
  got := rfl
  put := trivial
  get := trivial

theorem ofNat_eq_iff {first second : Nat} (order : first ≤ second) (near : second ≤ first + 255) :
    BitVec.ofNat 8 first = BitVec.ofNat 8 second ↔ first = second := by
  rw [← BitVec.toNat_inj, BitVec.toNat_ofNat, BitVec.toNat_ofNat]
  omega

theorem next_eq_tail {s : State} (inv : Inv s) : s.rb.head + 1 = s.rb.tail ↔ s.count = 255 := by
  have order := inv.order
  have room := inv.room
  unfold State.count
  rw [inv.head, inv.tail, ← BitVec.toNat_inj, BitVec.toNat_add, BitVec.toNat_ofNat,
    BitVec.toNat_ofNat]
  show (s.stored.length % 256 + 1) % 256 = s.released % 256 ↔ _
  omega

/-! ## Steps of the interrupt -/

variable {s t : State}

theorem GetKnows.congr {at_ : GetAt} (knows : GetKnows s at_) (tail : t.rb.tail = s.rb.tail)
    (released : t.released = s.released) (stored : s.stored <+: t.stored) : GetKnows t at_ := by
  obtain ⟨more, same⟩ := stored
  have longer : s.stored.length ≤ t.stored.length := by
    rw [← same, List.length_append]
    omega
  have kept {ret : Byte} (there : s.stored[s.released]? = some ret) :
      t.stored[t.released]? = some ret := by
    have inside := (List.getElem?_eq_some_iff.mp there).1
    rw [← same, released, List.getElem?_append_left inside]
    exact there
  cases at_ with
  | idle => trivial
  | waiting => trivial
  | compare head =>
    obtain ⟨seen, low, high, is⟩ := knows
    exact ⟨seen, released.symm ▸ low, high.trans longer, is⟩
  | index =>
    show t.released < t.stored.length
    rw [released]
    exact Nat.lt_of_lt_of_le knows longer
  | load slot =>
    refine ⟨?_, knows.2.trans tail.symm⟩
    rw [released]
    exact Nat.lt_of_lt_of_le knows.1 longer
  | release ret => exact kept knows
  | advance ret tail' => exact ⟨kept knows.1, knows.2.trans tail.symm⟩

theorem put_inv {c : Byte} (inv : Inv s) (taken : step s (.put c) = some t) : Inv t := by
  have before := inv.accepted
  unfold step at taken
  cases put : s.put with
  | idle =>
    rw [put] at taken before
    cases taken
    exact { inv with accepted := before, put := trivial }
  | _ =>
    rw [put] at taken
    cases taken

theorem compare_inv {c nextHead : Byte} (inv : Inv s) (put : s.put = .compare c nextHead) :
    Inv { s with
      put := if nextHead = s.rb.tail then .idle else .index c nextHead
      offered := s.offered ++ [(c, s.count)] } := by
  have next : nextHead = s.rb.head + 1 := by
    have knows := inv.put
    rw [put] at knows
    exact knows
  have before : accepted s.offered = s.stored := by
    have accepted := inv.accepted
    rw [put] at accepted
    exact accepted.trans (List.append_nil _)
  have order := inv.order
  have room := inv.room
  by_cases full : nextHead = s.rb.tail
  · have number : s.count = 255 := (next_eq_tail inv).mp (next.symm.trans full)
    rw [if_pos full]
    refine { inv with accepted := ?_, put := trivial }
    have dropped : accepted [(c, s.count)] = [] := by
      rw [number]
      rfl
    show accepted (s.offered ++ [(c, s.count)]) = s.stored ++ []
    rw [accepted_append, before, dropped]
  · have number : s.count ≠ 255 := fun same =>
      full (next.trans ((next_eq_tail inv).mpr same))
    have less : s.count < 255 := by
      unfold State.count at number ⊢
      omega
    rw [if_neg full]
    refine { inv with accepted := ?_, put := ⟨next, less⟩ }
    have kept : accepted [(c, s.count)] = [c] := by
      unfold accepted
      rw [List.filter_cons_of_pos (by rw [decide_eq_true_eq]; exact number)]
      rfl
    show accepted (s.offered ++ [(c, s.count)]) = s.stored ++ [c]
    rw [accepted_append, before, kept]

theorem store_inv {c nextHead slot : Byte} (inv : Inv s) (put : s.put = .store c nextHead slot) :
    Inv { s with
      put := .advance c nextHead
      rb := { s.rb with buffer := Function.update s.rb.buffer slot c } } := by
  have knows := inv.put
  rw [put] at knows
  obtain ⟨next, less, own⟩ := knows
  have before := inv.accepted
  rw [put] at before
  have room := inv.room
  refine { inv with slots := ?_, accepted := before, put := ⟨next, less, ?_⟩ }
  · intro i low high
    have used : s.released ≤ i := low
    have behind : i < s.stored.length := high
    have apart : BitVec.ofNat 8 i ≠ slot := by
      rw [own, inv.head]
      unfold State.count at less
      exact fun same => absurd ((ofNat_eq_iff (by omega) (by omega)).mp same) (by omega)
    show s.stored[i]? = some (Function.update s.rb.buffer slot c (BitVec.ofNat 8 i))
    rw [Function.update_of_ne apart]
    exact inv.slots i low high
  · show Function.update s.rb.buffer slot c s.rb.head = c
    rw [own, Function.update_self]

theorem advance_inv {c nextHead : Byte} (inv : Inv s) (put : s.put = .advance c nextHead) :
    Inv { s with
      put := .idle
      rb := { s.rb with head := nextHead }
      stored := s.stored ++ [c] } := by
  have knows := inv.put
  rw [put] at knows
  obtain ⟨next, less, written⟩ := knows
  have before := inv.accepted
  rw [put] at before
  have order := inv.order
  have longer : (s.stored ++ [c]).length = s.stored.length + 1 := List.length_append
  unfold State.count at less
  refine
    { head := ?_, tail := inv.tail, order := ?_, room := ?_, slots := ?_, accepted := ?_,
      got := ?_, put := trivial, get := ?_ }
  · show nextHead = BitVec.ofNat 8 (s.stored ++ [c]).length
    rw [longer, next, inv.head, BitVec.ofNat_add]
    rfl
  · show s.released ≤ (s.stored ++ [c]).length
    omega
  · show (s.stored ++ [c]).length ≤ s.released + 255
    omega
  · intro i low high
    show (s.stored ++ [c])[i]? = some (s.rb.buffer (BitVec.ofNat 8 i))
    by_cases old : i < s.stored.length
    · rw [List.getElem?_append_left old]
      exact inv.slots i low old
    · have last : i = s.stored.length := by
        have bound : i < (s.stored ++ [c]).length := high
        omega
      rw [last, List.getElem?_concat_length, ← inv.head, written]
  · show accepted s.offered = s.stored ++ [c] ++ []
    rw [List.append_nil]
    exact before
  · show s.got = (s.stored ++ [c]).take s.released
    rw [List.take_append_of_le_length order]
    exact inv.got
  · exact inv.get.congr rfl rfl ⟨[c], rfl⟩

theorem producer_inv (inv : Inv s) (taken : s.producer = some t) : Inv t := by
  have knows := inv.put
  have before := inv.accepted
  unfold State.producer at taken
  cases put : s.put with
  | idle =>
    rw [put] at taken
    cases taken
  | entered c =>
    rw [put] at taken before
    cases taken
    exact { inv with accepted := before, put := rfl }
  | compare c nextHead =>
    rw [put] at taken
    cases taken
    exact compare_inv inv put
  | index c nextHead =>
    rw [put] at taken knows before
    cases taken
    exact { inv with accepted := before, put := ⟨knows.1, knows.2, rfl⟩ }
  | store c nextHead slot =>
    rw [put] at taken
    cases taken
    exact store_inv inv put
  | advance c nextHead =>
    rw [put] at taken
    cases taken
    exact advance_inv inv put

/-! ## Steps of the main program -/

theorem PutKnows.congr {at_ : PutAt} (knows : PutKnows s at_) (head : t.rb.head = s.rb.head)
    (buffer : t.rb.buffer = s.rb.buffer) (count : t.count ≤ s.count) : PutKnows t at_ := by
  cases at_ with
  | idle => trivial
  | entered c => trivial
  | compare c nextHead => exact knows.trans (by rw [head])
  | index c nextHead => exact ⟨knows.1.trans (by rw [head]), Nat.lt_of_le_of_lt count knows.2⟩
  | store c nextHead slot =>
    exact ⟨knows.1.trans (by rw [head]), Nat.lt_of_le_of_lt count knows.2.1,
      knows.2.2.trans head.symm⟩
  | advance c nextHead =>
    refine ⟨knows.1.trans (by rw [head]), Nat.lt_of_le_of_lt count knows.2.1, ?_⟩
    rw [buffer, head]
    exact knows.2.2

theorem get_inv (inv : Inv s) (taken : step s .get = some t) : Inv t := by
  unfold step at taken
  cases get : s.get with
  | idle =>
    rw [get] at taken
    cases taken
    exact { inv with get := trivial }
  | _ =>
    rw [get] at taken
    cases taken

theorem get_compare_inv {head : Byte} (inv : Inv s) (get : s.get = .compare head) :
    Inv { s with get := if head = s.rb.tail then .waiting else .index } := by
  have knows := inv.get
  rw [get] at knows
  obtain ⟨seen, low, high, is⟩ := knows
  have room := inv.room
  by_cases empty : head = s.rb.tail
  · rw [if_pos empty]
    exact { inv with get := trivial }
  · rw [if_neg empty]
    have some : s.released < s.stored.length := by
      by_contra none
      have same : seen = s.released := by omega
      exact empty (is.trans (by rw [same, inv.tail]))
    exact { inv with get := some }

theorem get_advance_inv {ret tail : Byte} (inv : Inv s) (get : s.get = .advance ret tail) :
    Inv { s with
      get := .idle
      rb := { s.rb with tail := tail + 1 }
      released := s.released + 1
      got := s.got ++ [ret] } := by
  have knows := inv.get
  rw [get] at knows
  obtain ⟨next, own⟩ := knows
  have inside := (List.getElem?_eq_some_iff.mp next).1
  have room := inv.room
  refine
    { head := inv.head, tail := ?_, order := inside, room := ?_, slots := ?_,
      accepted := inv.accepted, got := ?_, put := ?_, get := trivial }
  · show tail + 1 = BitVec.ofNat 8 (s.released + 1)
    rw [own, inv.tail, BitVec.ofNat_add]
    rfl
  · show s.stored.length ≤ s.released + 1 + 255
    omega
  · intro i low high
    have later : s.released + 1 ≤ i := low
    exact inv.slots i (by omega) high
  · show s.got ++ [ret] = s.stored.take (s.released + 1)
    rw [List.take_add_one, next, inv.got]
    rfl
  · refine inv.put.congr rfl rfl ?_
    show s.stored.length - (s.released + 1) ≤ s.stored.length - s.released
    omega

theorem consumer_inv (inv : Inv s) (taken : s.consumer = some t) : Inv t := by
  have knows := inv.get
  unfold State.consumer at taken
  cases get : s.get with
  | idle =>
    rw [get] at taken
    cases taken
  | waiting =>
    rw [get] at taken
    cases taken
    exact { inv with get := ⟨s.stored.length, inv.order, Nat.le_refl _, inv.head⟩ }
  | compare head =>
    rw [get] at taken
    cases taken
    exact get_compare_inv inv get
  | index =>
    rw [get] at taken knows
    cases taken
    exact { inv with get := ⟨knows, rfl⟩ }
  | load slot =>
    rw [get] at taken knows
    cases taken
    have there := inv.slots s.released (Nat.le_refl _) knows.1
    refine { inv with get := ?_ }
    show s.stored[s.released]? = some (s.rb.buffer slot)
    rw [there, knows.2, inv.tail]
  | release ret =>
    rw [get] at taken knows
    cases taken
    exact { inv with get := ⟨knows, rfl⟩ }
  | advance ret tail =>
    rw [get] at taken
    cases taken
    exact get_advance_inv inv get

theorem step_inv {label : Label} (inv : Inv s) (taken : step s label = some t) : Inv t := by
  cases label with
  | put c => exact put_inv inv taken
  | producer => exact producer_inv inv taken
  | get => exact get_inv inv taken
  | consumer => exact consumer_inv inv taken

theorem run_inv {buffer : Byte → Byte} {labels : List Label}
    (run : exec step (initial buffer) labels = some s) : Inv s :=
  invariant_of_run Inv (fun _ _ _ inv taken => step_inv inv taken) (initial_inv buffer) run

/-! ## Characters in order -/

/-- The characters in the slots from the tail on. -/
def State.contents (s : State) : List Byte :=
  (List.range s.count).map fun i => s.rb.buffer (s.rb.tail + BitVec.ofNat 8 i)

theorem contents_eq (inv : Inv s) : s.contents = s.stored.drop s.released := by
  have order := inv.order
  refine List.ext_getElem? fun i => ?_
  unfold State.contents
  rw [List.getElem?_map, List.getElem?_drop]
  by_cases inside : i < s.count
  · have bound : s.released + i < s.stored.length := by
      unfold State.count at inside
      omega
    rw [List.getElem?_range inside, inv.slots _ (Nat.le_add_right _ i) bound, inv.tail,
      BitVec.ofNat_add]
    rfl
  · have beyond : s.stored.length ≤ s.released + i := by
      unfold State.count at inside
      omega
    have outside : s.count ≤ i := Nat.le_of_not_lt inside
    rw [List.getElem?_eq_none (by rw [List.length_range]; exact outside),
      List.getElem?_eq_none beyond]
    rfl

/-- Alone, a get returns the first character in as many steps as it has accesses. -/
theorem get_alone {c : Byte} (inv : Inv s) (idle : s.get = .idle)
    (first : s.contents.head? = some c) :
    ∃ t, exec step s (.get :: List.replicate 6 .consumer) = some t ∧ t.got = s.got ++ [c] := by
  rw [contents_eq inv, List.head?_drop] at first
  have inside := (List.getElem?_eq_some_iff.mp first).1
  have room := inv.room
  have apart : s.rb.head ≠ s.rb.tail := by
    rw [inv.head, inv.tail]
    intro same
    have equal := (ofNat_eq_iff (Nat.le_of_lt inside) room).mp same.symm
    omega
  have there := inv.slots s.released (Nat.le_refl _) inside
  rw [← inv.tail, first] at there
  have found : s.rb.buffer s.rb.tail = c := (Option.some.inj there).symm
  have starts : step s .get = some { s with get := .waiting } := by
    unfold step
    rw [idle]
  have compares : step { s with get := .compare s.rb.head } .consumer =
      some { s with get := .index } := by
    show some { s with get := if s.rb.head = s.rb.tail then GetAt.waiting else .index } = _
    rw [if_neg apart]
  refine ⟨{ s with
    get := .idle
    rb := { s.rb with tail := s.rb.tail + 1 }
    released := s.released + 1
    got := s.got ++ [s.rb.buffer s.rb.tail] }, ?_, by rw [found]⟩
  refine exec_cons_eq_some.mpr ⟨_, starts, exec_cons_eq_some.mpr ⟨_, rfl, ?_⟩⟩
  exact exec_cons_eq_some.mpr ⟨_, compares, rfl⟩

/-- In any interleaving the characters got are those put in order, without the ones put while 255
were stored; what is not got yet is in the buffer, and a get that is left alone returns it. -/
theorem characters_in_order (buffer : Byte → Byte) (labels : List Label)
    (run : exec step (initial buffer) labels = some s) :
    s.got <+: accepted s.offered ∧
      (s.put = .idle → accepted s.offered = s.got ++ s.contents) ∧
      ∀ c, s.get = .idle → s.contents.head? = some c →
        ∃ t, exec step s (.get :: List.replicate 6 .consumer) = some t ∧ t.got = s.got ++ [c] := by
  have inv := run_inv run
  have parts : s.stored = s.got ++ s.contents := by
    rw [inv.got, contents_eq inv, List.take_append_drop]
  refine ⟨⟨s.contents ++ s.put.pending, ?_⟩, fun idle => ?_, fun c => get_alone inv⟩
  · rw [inv.accepted, parts, List.append_assoc]
  · have all := inv.accepted
    rw [idle] at all
    rw [all, ← parts]
    exact List.append_nil _

/-- Three characters come while two gets are under way, one of them between two steps of a get. -/
def interrupted : List Label :=
  [.get, .consumer, .put 0x41, .producer, .producer, .consumer] ++ List.replicate 3 .producer ++
    List.replicate 6 .consumer ++ [.put 0x42] ++ List.replicate 5 .producer ++
    [.get, .consumer, .consumer, .put 0x43] ++ List.replicate 5 .producer ++
    List.replicate 4 .consumer

theorem characters_in_order_three :
    ∃ s, exec step (initial fun _ => 0) interrupted = some s ∧ s.offered.length = 3 ∧
      s.got = [0x41, 0x42] ∧ s.contents = [0x43] ∧ s.got <+: accepted s.offered := by
  obtain ⟨s, run, offered, got, left⟩ : ∃ s, exec step (initial fun _ => 0) interrupted = some s ∧
      s.offered.length = 3 ∧ s.got = [0x41, 0x42] ∧ s.contents = [0x43] := ⟨_, rfl, rfl, rfl, rfl⟩
  exact ⟨s, run, offered, got, left, (characters_in_order (fun _ => 0) interrupted run).1⟩

end OrionBios.Keyboard
