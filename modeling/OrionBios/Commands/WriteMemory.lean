import OrionBios.Libc.Strtoul

/-!
# Writing to memory from the shell

`do_writemem` checks all values and then writes them. The arguments are strings in the memory it
writes to; the pointers to them, and the variables of the function, are not.
-/

namespace OrionBios.Commands

open Machine Libc

/-! ## Strings in memory -/

def stringFrom (memory : Memory) : Nat → Address → List CChar
  | 0, _ => []
  | count + 1, address =>
      if memory address = 0 then [] else memory address :: stringFrom memory count (address + 1)

def stringAt (memory : Memory) (address : Address) : List CChar := stringFrom memory (2 ^ 32) address

/-! ## The command -/

def fromhex (c : CChar) : Int :=
  if 0x30 ≤ c.toInt ∧ c.toInt ≤ 0x39 then c.toInt - 0x30
  else if 0x61 ≤ c.toInt ∧ c.toInt ≤ 0x66 then 10 + c.toInt - 0x61
  else if 0x41 ≤ c.toInt ∧ c.toInt ≤ 0x46 then 10 + c.toInt - 0x41
  else -1

inductive Complaint where
  /-- `Ambiguous value: "%s" (odd length).` -/
  | ambiguous (value : List CChar)
  /-- `Bad hex character "%c" in value "%s".` -/
  | badCharacter (c : CChar) (value : List CChar)
  deriving DecidableEq, Repr

def checkValue (memory : Memory) (arg : Address) : Option Complaint :=
  let value := stringAt memory arg
  if value.length ≠ 1 ∧ value.length % 2 ≠ 0 then some (.ambiguous value)
  else (value.find? fun c => fromhex c < 0).map fun c => .badCharacter c value

/-- The memory and `ptr`, with the stores made so far. -/
structure Writer where
  memory : Memory
  ptr : Address
  stores : List (Address × CChar)

namespace Writer

/-- `*(ptr++) = byte`. -/
def put (s : Writer) (byte : CChar) : Writer where
  memory := store8 s.memory s.ptr byte
  ptr := s.ptr + 1
  stores := s.stores ++ [(s.ptr, byte)]

def argv (s : Writer) (arg : Address) (j : Nat) : CChar := s.memory (arg + BitVec.ofNat 32 j)

def putPair (s : Writer) (arg : Address) (j : Nat) : Writer :=
  let value : Word := BitVec.ofInt 32 (fromhex (s.argv arg j)) <<< 4 |||
    BitVec.ofInt 32 (fromhex (s.argv arg (j + 1)))
  s.put (value.setWidth 8)

/-- `while (j < l)`, with `l - j` given. -/
def putPairs (arg : Address) : Nat → Nat → Writer → Writer
  | 0, _, s => s
  | 1, j, s => s.putPair arg j
  | left + 2, j, s => putPairs arg left (j + 2) (s.putPair arg j)

def putValue (s : Writer) (arg : Address) : Writer :=
  let value := stringAt s.memory arg
  if value.length ≤ 2 then s.put ((strtoul value 16).setWidth 8)
  else putPairs arg value.length 0 s

end Writer

/-- The complaint printed, if any, and what was written. -/
def doWritemem (memory : Memory) (argv : List Address) : Option Complaint × Writer :=
  let s : Writer :=
    { memory := memory, ptr := strtoul (stringAt memory (argv.headD 0)) 16, stores := [] }
  match argv.tail.findSome? (checkValue memory) with
  | some complaint => (some complaint, s)
  | none => (none, argv.tail.foldl Writer.putValue s)

/-! ## What it is for -/

/-- The bytes of a value: one of a single digit, and one of each pair of digits. -/
def valueBytes : List CChar → List CChar
  | [] => []
  | [digit] => [BitVec.ofNat 8 (hexValue digit)]
  | high :: low :: rest => BitVec.ofNat 8 (16 * hexValue high + hexValue low) :: valueBytes rest

def Malformed (value : List CChar) : Prop :=
  (∃ c ∈ value, ¬ IsHex c) ∨ value.length % 2 = 1 ∧ 1 < value.length

instance (value : List CChar) : Decidable (Malformed value) := inferInstanceAs (Decidable (_ ∨ _))

def argumentBytes (memory : Memory) (args : List Address) : List CChar :=
  args.flatMap fun arg => valueBytes (stringAt memory arg)

/-- None of so many bytes is part of an argument, its terminator included. -/
def ApartFrom (memory : Memory) (args : List Address) (address : Address) (count : Nat) : Prop :=
  ∀ arg ∈ args, ∀ index ≤ (stringAt memory arg).length,
    ¬ Within address count (arg + BitVec.ofNat 32 index)

/-- The bytes were stored one behind the other, and nothing else was. -/
structure Stored (memory : Memory) (address : Address) (bytes : List CChar) (s : Writer) :
    Prop where
  stores : s.stores = bytes.mapIdx fun index byte => (address + BitVec.ofNat 32 index, byte)
  inside : ∀ index, index < bytes.length →
    s.memory (address + BitVec.ofNat 32 index) = bytes.getD index 0
  outside : ∀ other, ¬ Within address bytes.length other → s.memory other = memory other

/-! ## Reading strings -/

variable {memory : Memory}

theorem add_ofNat_succ (address : Address) (index : Nat) :
    address + BitVec.ofNat 32 (index + 1) = address + 1 + BitVec.ofNat 32 index := by
  rw [Nat.add_comm index, BitVec.ofNat_add, ← BitVec.add_assoc]
  rfl

theorem stringFrom_congr {memory' : Memory} {count : Nat} {address : Address}
    (same : ∀ index ≤ (stringFrom memory count address).length,
      memory' (address + BitVec.ofNat 32 index) = memory (address + BitVec.ofNat 32 index)) :
    stringFrom memory' count address = stringFrom memory count address := by
  induction count generalizing address with
  | zero => rfl
  | succ count inductionHypothesis =>
      have first : memory' address = memory address := by
        have at0 := same 0 (Nat.zero_le _)
        rwa [BitVec.add_zero] at at0
      rw [stringFrom, stringFrom, first]
      by_cases terminator : memory address = 0
      · rw [if_pos terminator, if_pos terminator]
      · rw [if_neg terminator, if_neg terminator, inductionHypothesis]
        intro index le
        have later := same (index + 1) (by
          rw [stringFrom, if_neg terminator, List.length_cons]
          omega)
        rwa [add_ofNat_succ] at later

theorem getD_stringFrom {count index : Nat} {address : Address}
    (inside : index < (stringFrom memory count address).length) :
    (stringFrom memory count address).getD index 0 = memory (address + BitVec.ofNat 32 index) := by
  induction count generalizing address index with
  | zero => exact absurd inside (Nat.not_lt_zero index)
  | succ count inductionHypothesis =>
      by_cases terminator : memory address = 0
      · rw [stringFrom, if_pos terminator] at inside
        exact absurd inside (Nat.not_lt_zero index)
      · rw [stringFrom, if_neg terminator] at inside ⊢
        cases index with
        | zero => rw [BitVec.add_zero]; rfl
        | succ index =>
            rw [List.getD_cons_succ, inductionHypothesis (Nat.lt_of_succ_lt_succ inside),
              add_ofNat_succ]

/-! ## Digits -/

theorem fromhex_eq (c : CChar) : fromhex c = if IsHex c then (hexValue c : Int) else -1 := by
  revert c
  decide

theorem fromhex_hex {c : CChar} (hex : IsHex c) : fromhex c = hexValue c := by
  rw [fromhex_eq, if_pos hex]

theorem pair_eq {high low : Nat} (highLt : high < 16) (lowLt : low < 16) :
    (BitVec.ofInt 32 (high : Int) <<< 4 ||| BitVec.ofInt 32 (low : Int)).setWidth 8 =
      BitVec.ofNat 8 (16 * high + low) := by
  have all : ∀ high < 16, ∀ low < 16,
      (BitVec.ofInt 32 (high : Nat) <<< 4 ||| BitVec.ofInt 32 (low : Nat)).setWidth 8 =
        BitVec.ofNat 8 (16 * high + low) := by decide
  exact all high highLt low lowLt

theorem strtoul_short {value : List CChar} (hex : ∀ c ∈ value, IsHex c) (nonempty : value ≠ [])
    (short : value.length ≤ 2) : [(strtoul value 16).setWidth 8] = valueBytes value := by
  rw [strtoul_hex hex]
  obtain _ | ⟨high, _ | ⟨low, rest⟩⟩ := value
  · exact absurd rfl nonempty
  · have lt := hexValue_lt (hex high (by simp))
    have number : hexNumber [high] = hexValue high := by simp [hexNumber, hexNumberFrom]
    rw [number, Nat.min_eq_left (by omega), valueBytes, BitVec.setWidth_ofNat_of_le (by decide)]
  · obtain rfl : rest = [] := List.length_eq_zero_iff.mp (by
      rw [List.length_cons, List.length_cons] at short
      omega)
    have highLt := hexValue_lt (hex high (by simp))
    have lowLt := hexValue_lt (hex low (by simp))
    have number : hexNumber [high, low] = 16 * hexValue high + hexValue low := by
      simp [hexNumber, hexNumberFrom]
    rw [number, Nat.min_eq_left (by omega), valueBytes, valueBytes,
      BitVec.setWidth_ofNat_of_le (by decide)]

/-! ## One byte after the other -/

theorem within_succ {address other : Address} {count : Nat} :
    Within address (count + 1) other ↔ other = address ∨ Within (address + 1) count other := by
  unfold Within
  constructor
  · intro inside
    by_cases same : other = address
    · exact Or.inl same
    · right
      bv_omega
  · rintro (rfl | inside)
    · rw [BitVec.sub_self]
      exact Nat.succ_pos count
    · bv_omega

theorem within_of_le {address other : Address} {count count' : Nat} (le : count ≤ count')
    (inside : Within address count other) : Within address count' other :=
  Nat.lt_of_lt_of_le inside le

theorem within_of_later {address other : Address} {before count : Nat}
    (inside : Within (address + BitVec.ofNat 32 before) count other) :
    Within address (before + count) other := by
  unfold Within at *
  bv_omega

namespace Writer

def putAll (s : Writer) (bytes : List CChar) : Writer := bytes.foldl put s

@[simp] theorem putAll_cons (s : Writer) (byte : CChar) (bytes : List CChar) :
    s.putAll (byte :: bytes) = (s.put byte).putAll bytes := rfl

theorem putAll_append (s : Writer) (bytes others : List CChar) :
    s.putAll (bytes ++ others) = (s.putAll bytes).putAll others := List.foldl_append

theorem ptr_putAll (s : Writer) (bytes : List CChar) :
    (s.putAll bytes).ptr = s.ptr + BitVec.ofNat 32 bytes.length := by
  induction bytes generalizing s with
  | nil => exact (BitVec.add_zero _).symm
  | cons byte bytes inductionHypothesis =>
      rw [putAll_cons, inductionHypothesis, put, List.length_cons, add_ofNat_succ]

theorem memory_put_of_ne {s : Writer} {other : Address} (apart : other ≠ s.ptr) (byte : CChar) :
    (s.put byte).memory other = s.memory other := if_neg apart

theorem memory_putAll_outside (s : Writer) (bytes : List CChar) {other : Address}
    (outside : ¬ Within s.ptr bytes.length other) :
    (s.putAll bytes).memory other = s.memory other := by
  induction bytes generalizing s with
  | nil => rfl
  | cons byte bytes inductionHypothesis =>
      rw [List.length_cons, within_succ, not_or] at outside
      rw [putAll_cons, inductionHypothesis (s.put byte) outside.2, memory_put_of_ne outside.1]

theorem memory_putAll_inside (s : Writer) (bytes : List CChar) (fits : bytes.length < 2 ^ 32)
    {index : Nat} (inside : index < bytes.length) :
    (s.putAll bytes).memory (s.ptr + BitVec.ofNat 32 index) = bytes.getD index 0 := by
  induction bytes generalizing s index with
  | nil => exact absurd inside (Nat.not_lt_zero index)
  | cons byte bytes inductionHypothesis =>
      rw [List.length_cons] at fits inside
      rw [putAll_cons]
      cases index with
      | zero =>
          have outside : ¬ Within (s.put byte).ptr bytes.length (s.ptr + BitVec.ofNat 32 0) := by
            unfold Within put
            bv_omega
          rw [memory_putAll_outside _ _ outside, BitVec.add_zero]
          exact if_pos rfl
      | succ index =>
          have step := inductionHypothesis (s.put byte) (by omega) (Nat.lt_of_succ_lt_succ inside)
          rw [List.getD_cons_succ, ← step, add_ofNat_succ]
          rfl

theorem stores_putAll (s : Writer) (bytes : List CChar) :
    (s.putAll bytes).stores = s.stores ++
      bytes.mapIdx fun index byte => (s.ptr + BitVec.ofNat 32 index, byte) := by
  induction bytes generalizing s with
  | nil => exact (List.append_nil _).symm
  | cons byte bytes inductionHypothesis =>
      have shift : ∀ index, (s.put byte).ptr + BitVec.ofNat 32 index =
          s.ptr + BitVec.ofNat 32 (index + 1) := fun index => (add_ofNat_succ s.ptr index).symm
      rw [putAll_cons, inductionHypothesis, List.mapIdx_cons, BitVec.add_zero]
      simp only [shift]
      rw [put, List.append_assoc, List.singleton_append]

theorem stored_putAll {s : Writer} {bytes : List CChar} (fits : bytes.length < 2 ^ 32)
    (fresh : s.stores = []) : Stored s.memory s.ptr bytes (s.putAll bytes) where
  stores := by rw [stores_putAll, fresh, List.nil_append]
  inside _ := memory_putAll_inside s bytes fits
  outside _ := memory_putAll_outside s bytes

/-! ## One value after the other -/

theorem putPair_hex {s : Writer} {arg : Address} {j : Nat} (high : IsHex (s.argv arg j))
    (low : IsHex (s.argv arg (j + 1))) :
    s.putPair arg j =
      s.put (BitVec.ofNat 8 (16 * hexValue (s.argv arg j) + hexValue (s.argv arg (j + 1)))) := by
  rw [putPair, fromhex_hex high, fromhex_hex low, pair_eq (hexValue_lt high) (hexValue_lt low)]

/-- The pairs of a value that the stores do not reach are written one after the other. -/
theorem putPairs_eq {arg : Address} (text : List CChar) (j : Nat) (s : Writer)
    (reads : ∀ index, index < text.length → s.argv arg (j + index) = text.getD index 0)
    (apart : ∀ index, index < text.length →
      ¬ Within s.ptr (valueBytes text).length (arg + BitVec.ofNat 32 (j + index)))
    (hex : ∀ c ∈ text, IsHex c) (even : text.length % 2 = 0) :
    putPairs arg text.length j s = s.putAll (valueBytes text) := by
  induction text using valueBytes.induct generalizing j s with
  | case1 => rfl
  | case2 digit => exact absurd even Nat.one_ne_zero
  | case3 high low rest inductionHypothesis =>
      have highRead : s.argv arg j = high := reads 0 (Nat.succ_pos _)
      have lowRead : s.argv arg (j + 1) = low := reads 1 (by simp)
      have pair := @putPair_hex s arg j (by rw [highRead]; exact hex high (by simp))
        (by rw [lowRead]; exact hex low (by simp))
      rw [highRead, lowRead] at pair
      have length : (valueBytes (high :: low :: rest)).length = (valueBytes rest).length + 1 := rfl
      rw [length] at apart
      rw [List.length_cons, List.length_cons, putPairs, pair, valueBytes, putAll_cons]
      apply inductionHypothesis
      · intro index inside
        have clear := apart (index + 2) (by simp; omega)
        rw [within_succ, not_or] at clear
        have read := reads (index + 2) (by simp; omega)
        have place : j + 2 + index = j + (index + 2) := by omega
        rw [argv, place, memory_put_of_ne clear.1]
        exact read
      · intro index inside
        have clear := apart (index + 2) (by simp; omega)
        rw [within_succ, not_or] at clear
        have place : j + 2 + index = j + (index + 2) := by omega
        rw [place]
        exact clear.2
      · exact fun c member => hex c (List.mem_cons_of_mem _ (List.mem_cons_of_mem _ member))
      · rw [List.length_cons, List.length_cons] at even
        omega

theorem putValue_eq {s : Writer} {arg : Address} (fine : ¬ Malformed (stringAt s.memory arg))
    (nonempty : stringAt s.memory arg ≠ [])
    (apart : ∀ index ≤ (stringAt s.memory arg).length,
      ¬ Within s.ptr (valueBytes (stringAt s.memory arg)).length (arg + BitVec.ofNat 32 index)) :
    s.putValue arg = s.putAll (valueBytes (stringAt s.memory arg)) := by
  rw [Malformed, not_or, not_and, not_exists] at fine
  have hex : ∀ c ∈ stringAt s.memory arg, IsHex c := fun c member =>
    not_not.mp fun notHex => fine.1 c ⟨member, notHex⟩
  rw [putValue]
  by_cases short : (stringAt s.memory arg).length ≤ 2
  · rw [if_pos short, ← strtoul_short hex nonempty short]
    rfl
  · rw [if_neg short]
    apply putPairs_eq
    · intro index inside
      rw [Nat.zero_add]
      exact (getD_stringFrom inside).symm
    · intro index inside
      rw [Nat.zero_add]
      exact apart index (Nat.le_of_lt inside)
    · exact hex
    · have notOdd := fine.2
      omega

theorem length_argumentBytes_cons (memory : Memory) (arg : Address) (args : List Address) :
    (argumentBytes memory (arg :: args)).length =
      (valueBytes (stringAt memory arg)).length + (argumentBytes memory args).length := by
  rw [argumentBytes, List.flatMap_cons, List.length_append, argumentBytes]

theorem foldl_putValue_eq (args : List Address) (s : Writer)
    (fine : ∀ arg ∈ args, ¬ Malformed (stringAt s.memory arg))
    (nonempty : ∀ arg ∈ args, stringAt s.memory arg ≠ [])
    (apart : ApartFrom s.memory args s.ptr (argumentBytes s.memory args).length) :
    args.foldl putValue s = s.putAll (argumentBytes s.memory args) := by
  induction args generalizing s with
  | nil => rfl
  | cons arg args inductionHypothesis =>
      rw [length_argumentBytes_cons] at apart
      have value := putValue_eq (fine arg List.mem_cons_self) (nonempty arg List.mem_cons_self)
        fun index le inside =>
          apart arg List.mem_cons_self index le (within_of_le (Nat.le_add_right _ _) inside)
      generalize bytesEq : valueBytes (stringAt s.memory arg) = bytes at value apart
      have kept : ∀ other ∈ args,
          stringAt (s.putAll bytes).memory other = stringAt s.memory other := by
        intro other member
        apply stringFrom_congr
        intro index le
        apply memory_putAll_outside
        exact fun inside => apart other (List.mem_cons_of_mem arg member) index le
          (within_of_le (Nat.le_add_right _ _) inside)
      have keptBytes : argumentBytes (s.putAll bytes).memory args = argumentBytes s.memory args := by
        rw [argumentBytes, argumentBytes, List.flatMap_def, List.flatMap_def,
          List.map_congr_left fun other member => congrArg valueBytes (kept other member)]
      have rest := inductionHypothesis (s.putAll bytes)
        (fun other member => by
          rw [kept other member]
          exact fine other (List.mem_cons_of_mem arg member))
        (fun other member => by
          rw [kept other member]
          exact nonempty other (List.mem_cons_of_mem arg member))
        (by
          intro other member index le inside
          rw [kept other member] at le
          rw [keptBytes, ptr_putAll] at inside
          exact apart other (List.mem_cons_of_mem arg member) index le (within_of_later inside))
      rw [List.foldl_cons, value, rest, keptBytes, ← putAll_append, argumentBytes, argumentBytes,
        List.flatMap_cons, bytesEq]

end Writer

/-! ## The checks -/

theorem checkValue_eq_none_iff {arg : Address} :
    checkValue memory arg = none ↔ ¬ Malformed (stringAt memory arg) := by
  have bad : ∀ c, fromhex c < 0 ↔ ¬ IsHex c := by
    intro c
    rw [fromhex_eq]
    split <;> simp_all
  rw [checkValue, Malformed]
  by_cases odd : (stringAt memory arg).length ≠ 1 ∧ (stringAt memory arg).length % 2 ≠ 0
  · rw [if_pos odd]
    refine iff_of_false (Option.some_ne_none _) fun fine => fine (Or.inr ?_)
    omega
  · rw [if_neg odd, Option.map_eq_none_iff, List.find?_eq_none]
    have even : ¬ ((stringAt memory arg).length % 2 = 1 ∧ 1 < (stringAt memory arg).length) := by
      omega
    rw [or_iff_left even]
    simp [bad]

theorem findSome?_checkValue_eq_none_iff {args : List Address} :
    args.findSome? (checkValue memory) = none ↔
      ∀ arg ∈ args, ¬ Malformed (stringAt memory arg) := by
  simp only [List.findSome?_eq_none_iff, checkValue_eq_none_iff]

theorem length_argumentBytes_lt {args : List Address} {address : Address}
    (apart : ApartFrom memory args address (argumentBytes memory args).length) :
    (argumentBytes memory args).length < 2 ^ 32 := by
  cases args with
  | nil => exact Nat.two_pow_pos 32
  | cons arg args =>
      have clear := apart arg List.mem_cons_self 0 (Nat.zero_le _)
      have bounded := (arg + BitVec.ofNat 32 0 - address).isLt
      unfold Within at clear
      omega

/-- A line is rejected exactly if a value is malformed, and then nothing is written; else the bytes
of all values are, and nothing else. -/
theorem doWritemem_exact (memory : Memory) (first : Address) (args : List Address)
    (nonempty : ∀ arg ∈ args, stringAt memory arg ≠ [])
    (apart : (∀ arg ∈ args, ¬ Malformed (stringAt memory arg)) →
      ApartFrom memory args (strtoul (stringAt memory first) 16)
        (argumentBytes memory args).length) :
    ((doWritemem memory (first :: args)).1 ≠ none ↔
        ∃ arg ∈ args, Malformed (stringAt memory arg)) ∧
      ((doWritemem memory (first :: args)).1 ≠ none →
        (doWritemem memory (first :: args)).2.stores = [] ∧
          (doWritemem memory (first :: args)).2.memory = memory) ∧
      ((doWritemem memory (first :: args)).1 = none →
        Stored memory (strtoul (stringAt memory first) 16) (argumentBytes memory args)
          (doWritemem memory (first :: args)).2) := by
  have checked := @findSome?_checkValue_eq_none_iff memory args
  rw [doWritemem, List.headD_cons, List.tail_cons]
  cases complaint : args.findSome? (checkValue memory) with
  | some complaint =>
      have bad : ∃ arg ∈ args, Malformed (stringAt memory arg) := by
        by_contra noBad
        rw [checked.mpr fun arg member malformed => noBad ⟨arg, member, malformed⟩] at complaint
        exact Option.some_ne_none _ complaint.symm
      exact ⟨iff_of_true (Option.some_ne_none _) bad, fun _ => ⟨rfl, rfl⟩,
        fun none => absurd none (Option.some_ne_none _)⟩
  | none =>
      have fine := checked.mp complaint
      have clear := apart fine
      refine ⟨iff_of_false (fun some => some rfl) ?_, fun some => absurd rfl some, fun _ => ?_⟩
      · rintro ⟨arg, member, malformed⟩
        exact fine arg member malformed
      · rw [Writer.foldl_putValue_eq args _ fine nonempty clear]
        have fresh : ({ memory := memory, ptr := strtoul (stringAt memory first) 16, stores := [] } :
            Writer).stores = [] := rfl
        exact Writer.stored_putAll (length_argumentBytes_lt clear) fresh

/-- The strings `40`, `7f`, `5` and `DEADbeef`, at the addresses 0, 3, 6 and 8. -/
def exampleMemory : Memory := fun address =>
  [0x34, 0x30, 0, 0x37, 0x66, 0, 0x35, 0, 0x44, 0x45, 0x41, 0x44, 0x62, 0x65, 0x65, 0x66].getD
    address.toNat 0

theorem exampleMemory_values : [3, 6, 8].map (stringAt exampleMemory) =
    [[0x37, 0x66], [0x35], [0x44, 0x45, 0x41, 0x44, 0x62, 0x65, 0x65, 0x66]] := by decide

/-- `writemem 40 7f 5 DEADbeef`. -/
theorem doWritemem_exact_bytes :
    (doWritemem exampleMemory [0, 3, 6, 8]).1 = none ∧
      (doWritemem exampleMemory [0, 3, 6, 8]).2.stores =
        [(0x40, 0x7F), (0x41, 0x05), (0x42, 0xDE), (0x43, 0xAD), (0x44, 0xBE), (0x45, 0xEF)] := by
  have address : strtoul (stringAt exampleMemory 0) 16 = 0x40 := by decide
  obtain ⟨seven, others⟩ := List.cons.inj exampleMemory_values
  obtain ⟨five, others⟩ := List.cons.inj others
  obtain ⟨dead, -⟩ := List.cons.inj others
  have bytes : argumentBytes exampleMemory [3, 6, 8] = [0x7F, 0x05, 0xDE, 0xAD, 0xBE, 0xEF] := by
    rw [argumentBytes, List.flatMap_cons, List.flatMap_cons, List.flatMap_singleton, seven, five,
      dead]
    decide
  have fine : ∀ arg ∈ [3, 6, 8],
      stringAt exampleMemory arg ≠ [] ∧ ¬ Malformed (stringAt exampleMemory arg) := by
    simp only [List.forall_mem_cons, List.not_mem_nil, false_imp_iff, implies_true, and_true, seven,
      five, dead]
    decide
  have clear : ∀ arg ∈ [3, 6, 8], ∀ index ≤ (stringAt exampleMemory arg).length,
      ¬ Within 0x40 6 (arg + BitVec.ofNat 32 index) := by
    simp only [List.forall_mem_cons, List.not_mem_nil, false_imp_iff, implies_true, and_true, seven,
      five, dead]
    decide
  obtain ⟨rejected, -, written⟩ := doWritemem_exact exampleMemory 0 [3, 6, 8]
    (fun arg member => (fine arg member).1)
    (by
      intro _
      rw [address, bytes]
      exact clear)
  have accepted : (doWritemem exampleMemory [0, 3, 6, 8]).1 = none := by
    by_contra complaint
    obtain ⟨arg, member, malformed⟩ := rejected.mp complaint
    exact (fine arg member).2 malformed
  refine ⟨accepted, (written accepted).stores.trans ?_⟩
  rw [bytes, address]
  decide

end OrionBios.Commands
