import OrionBios.Elf.Loading

/-!
# Executables are loaded as their headers say

When the loader calls the entry point, the memory holds the image of the file, and nothing was
wrong with the file or the reads, save that a segment type without a case in the `switch` does not
keep the program from being called.
-/

namespace OrionBios.Elf

open FatDescriptor (FIL FA_READ)
open Loader (Byte ProgramHeader)
open Machine

/-- A file as `open_executable_file` opens it. -/
structure OpenFile where
  fp : FIL
  reading : fp.flag = FA_READ

def OpenFile.start (file : OpenFile) (memory : Memory) : State where
  fp := file.fp
  calls := 0
  memory := memory

def OpenFile.data (file : OpenFile) : List Byte := file.fp.data

def phnum (data : List Byte) : Nat := (headerOf data).phnum.toNat

/-! ## The files that are run -/

/-- The drive answers, and the file passes every check of the loader. -/
structure Accepted (file : OpenFile) (medium : Medium) : Prop where
  sound : file.fp.err = .FR_OK
  header : Answered medium 0 ∧ Inside file.data 0 headerSize ∧
    headerAccepted (file.data.take headerSize.toNat) = true
  answered : ∀ call ∈ List.range' 1 (callsFor (progHeaders file.data 0 (phnum file.data))),
    Answered medium call
  loadable : ∀ index ∈ List.range' 0 (phnum file.data), Loadable file.data index

variable {file : OpenFile} {medium : Medium} {memory : Memory}

/-- What the loader comes to. -/
structure Called (file : OpenFile) (medium : Medium) (memory : Memory)
    (result : Option Word × State) : Prop where
  called : result.1 ≠ none ↔ Accepted file medium
  entry : ∀ entry, result.1 = some entry → entry = (headerOf file.data).entry
  memory : result.1 ≠ none → result.2.memory =
    (progHeaders file.data 0 (phnum file.data)).foldl (placeLoaded file.data) memory
  calls : result.1 ≠ none →
    result.2.calls = 1 + callsFor (progHeaders file.data 0 (phnum file.data))

theorem called_iff (ready : Ready medium) :
    Called file medium memory (loadElfExecutable medium (file.start memory)) := by
  have handles : Handles file.data (file.start memory).fp := fun _ => ⟨file.reading, rfl⟩
  have fetch := fetched ready handles 0 headerSize
  have sliced : slice file.data 0 headerSize = file.data.take headerSize.toNat := rfl
  unfold loadElfExecutable
  generalize Elf.fetch medium 0 headerSize (file.start memory) = result at fetch ⊢
  obtain ⟨whole, bytes, s⟩ := result
  obtain ⟨wholeIff, bytesEq, fine, handles', calls, memory'⟩ := fetch
  dsimp only [OpenFile.start] at *
  cases whole with
  | false =>
      rw [Bool.false_and, if_neg Bool.false_ne_true]
      refine ⟨iff_of_false (not_not.mpr rfl) fun accepted => ?_, fun entry none => ?_,
        fun some => absurd rfl some, fun some => absurd rfl some⟩
      · exact Bool.false_ne_true
          (wholeIff.mpr ⟨accepted.sound, accepted.header.1, accepted.header.2.1⟩)
      · cases none
  | true =>
      obtain ⟨sound, answered, inside⟩ := wholeIff.mp rfl
      rw [Bool.true_and, bytesEq rfl, sliced]
      by_cases valid : headerAccepted (file.data.take headerSize.toNat) = true
      · have loaded := segmentsLoaded ready handles' (fine rfl) (Nat.zero_add (phnum file.data))
        have header : Header.ofBytes (file.data.take headerSize.toNat) = headerOf file.data := rfl
        rw [if_pos valid, header, show (headerOf file.data).phnum.toNat = phnum file.data from rfl]
        generalize loadSegments medium (headerOf file.data) (phnum file.data) s = result
          at loaded ⊢
        obtain ⟨called, s'⟩ := result
        obtain ⟨calledIff, memoryEq, callsEq⟩ := loaded
        dsimp only at *
        rw [calls, Nat.zero_add] at calledIff callsEq
        rw [memory'] at memoryEq
        have accepted : Accepted file medium ↔ called = true := by
          rw [calledIff]
          exact ⟨fun accepted => ⟨accepted.answered, accepted.loadable⟩,
            fun both => ⟨sound, ⟨answered, inside, valid⟩, both.1, both.2⟩⟩
        cases called with
        | false =>
            refine ⟨iff_of_false (not_not.mpr rfl) fun all => ?_, fun entry none => ?_,
              fun some => absurd rfl some, fun some => absurd rfl some⟩
            · exact Bool.false_ne_true (accepted.mp all)
            · cases none
        | true =>
            exact ⟨iff_of_true (Option.some_ne_none _) (accepted.mpr rfl),
              fun entry same => (Option.some.inj same).symm, fun _ => memoryEq rfl,
              fun _ => callsEq rfl⟩
      · rw [if_neg valid]
        refine ⟨iff_of_false (not_not.mpr rfl) fun accepted => valid accepted.header.2.2,
          fun entry none => ?_, fun some => absurd rfl some, fun some => absurd rfl some⟩
        cases none

/-! ## Faithful loading -/

/-- The types the loader has a use for. -/
def Supported (type : Word) : Prop := type ∈ [PT_NULL, PT_LOAD, PT_NOTE, PT_PHDR]

/-- No two segments share a byte. -/
def Apart (data : List Byte) : Prop :=
  ∀ first < phnum data, ∀ second < phnum data, first ≠ second →
    Loads (progHeaderOf data first) → Loads (progHeaderOf data second) →
    ∀ address, ¬(Covers (progHeaderOf data first) address ∧
      Covers (progHeaderOf data second) address)

/-- The program is called with the image of the file in memory, and rightly so. -/
structure Faithful (data : List Byte) (medium : Medium) (memory : Memory) (entry : Word)
    (after : State) : Prop where
  header : Inside data 0 headerSize ∧ headerAccepted (data.take headerSize.toNat) = true
  entry : entry = (headerOf data).entry
  /-- No read failed. -/
  answered : ∀ call < after.calls,
    (medium.reads call).ready = true ∧ (medium.reads call).answer.error = none
  /-- No read was short. -/
  inside : ∀ index < phnum data, Inside data ((headerOf data).place index) progHeaderSize
  whole : ∀ index < phnum data, Loads (progHeaderOf data index) →
    Inside data (progHeaderOf data index).offset (progHeaderOf data index).filesz
  supported : ∀ index < phnum data, Supported (progHeaderOf data index).type
  copied : Apart data → ∀ index < phnum data, Loads (progHeaderOf data index) → ∀ address,
    Within (progHeaderOf data index).paddr (progHeaderOf data index).filesz.toNat address →
    after.memory address = data.getD ((progHeaderOf data index).offset.toNat +
      (address - (progHeaderOf data index).paddr).toNat) 0
  cleared : Apart data → ∀ index < phnum data, Loads (progHeaderOf data index) → ∀ address,
    ¬Within (progHeaderOf data index).paddr (progHeaderOf data index).filesz.toNat address →
    Within (progHeaderOf data index).paddr (progHeaderOf data index).memsz.toNat address →
    after.memory address = 0
  frame : ∀ address,
    (∀ index < phnum data, Loads (progHeaderOf data index) →
      ¬Covers (progHeaderOf data index) address) →
    after.memory address = memory address

theorem mem_progHeaders {data : List Byte} {index count : Nat} {progHeader : ProgramHeader} :
    progHeader ∈ progHeaders data index count ↔
      ∃ other, index ≤ other ∧ other < index + count ∧ progHeaderOf data other = progHeader := by
  unfold progHeaders
  simp only [List.mem_map, List.mem_range'_1, and_assoc]

theorem progHeaders_split (data : List Byte) {index count : Nat} (less : index < count) :
    progHeaders data 0 count = progHeaders data 0 index ++
      progHeaderOf data index :: progHeaders data (index + 1) (count - (index + 1)) := by
  obtain ⟨more, rfl⟩ := Nat.exists_eq_add_of_lt less
  have left : index + more + 1 - (index + 1) = more := by omega
  unfold progHeaders
  rw [left, ← List.map_cons, ← List.map_append, ← List.range'_succ, Nat.add_assoc,
    ← @List.range'_append_1 0 index (more + 1), Nat.zero_add]

theorem foldl_apart {data : List Byte} (apart : Apart data) {index : Nat}
    (less : index < phnum data) (loads : Loads (progHeaderOf data index)) {address : Address}
    (covered : Covers (progHeaderOf data index) address) (memory : Memory) :
    ∃ memory', (progHeaders data 0 (phnum data)).foldl (placeLoaded data) memory address =
      place data memory' (progHeaderOf data index) address := by
  rw [progHeaders_split data less]
  apply foldl_covered loads
  intro other among otherLoads otherCovers
  obtain ⟨second, le, bound, rfl⟩ := mem_progHeaders.mp among
  exact apart index less second (by omega) (by omega) loads otherLoads address
    ⟨covered, otherCovers⟩

theorem covers_of_within {progHeader : ProgramHeader} {address : Address}
    (within : Within progHeader.paddr progHeader.filesz.toNat address ∨
      Within progHeader.paddr progHeader.memsz.toNat address) : Covers progHeader address := by
  unfold Covers Within at *
  omega

/-- With no seek refused, an executable is loaded faithfully exactly if it is not accepted or has
no segment of a type the loader has no use for. -/
theorem loads_faithfully (file : OpenFile) (medium : Medium) (memory : Memory)
    (ready : Ready medium) :
    (∀ entry, (loadElfExecutable medium (file.start memory)).1 = some entry →
      Faithful file.data medium memory entry
        (loadElfExecutable medium (file.start memory)).2) ↔
    (Accepted file medium →
      ∀ index < phnum file.data, Supported (progHeaderOf file.data index).type) := by
  have called : Called file medium memory _ := called_iff ready
  generalize loadElfExecutable medium (file.start memory) = result at called ⊢
  obtain ⟨entry, after⟩ := result
  obtain ⟨calledIff, entryEq, memoryEq, callsEq⟩ := called
  dsimp only at *
  constructor
  · intro faithful accepted
    obtain ⟨start, some⟩ := Option.ne_none_iff_exists'.mp (calledIff.mpr accepted)
    exact (faithful start some).supported
  · intro supported start some
    have reached : entry ≠ none := by
      rw [some]
      exact Option.some_ne_none start
    have accepted := calledIff.mp reached
    have loadable : ∀ index < phnum file.data, Loadable file.data index :=
      fun index less => accepted.loadable index (List.mem_range'_1.mpr ⟨Nat.zero_le _, by omega⟩)
    have memoryIs := memoryEq reached
    refine ⟨accepted.header.2, entryEq start some, fun call less => ?_,
      fun index less => (loadable index less).inside, fun index less => (loadable index less).whole,
      supported accepted, fun apart index less loads address within => ?_,
      fun apart index less loads address outside within => ?_, fun address apart => ?_⟩
    · rw [callsEq reached] at less
      cases call with
      | zero => exact accepted.header.1.reads
      | succ call =>
          exact (accepted.answered (call + 1) (List.mem_range'_1.mpr ⟨by omega, less⟩)).reads
    · obtain ⟨memory', same⟩ :=
        foldl_apart apart less loads (covers_of_within (.inl within)) memory
      rw [memoryIs, same, place, if_pos within]
    · obtain ⟨memory', same⟩ :=
        foldl_apart apart less loads (covers_of_within (.inr within)) memory
      rw [memoryIs, same, place, if_neg outside, if_pos within]
    · rw [memoryIs]
      apply foldl_frame
      intro progHeader among loads
      obtain ⟨index, _, less, rfl⟩ := mem_progHeaders.mp among
      exact apart index (by omega) loads

/-! ## Examples -/

/-- A drive that answers every call. -/
def prompt : Medium where
  seeks := fun _ => ⟨true, none, 0, fun _ => 0⟩
  reads := fun _ => ⟨true, none, 0, fun _ => 0⟩
  stored := fun _ => []

/-- The same, but not ready at the third seek. -/
def hesitant : Medium where
  seeks := fun call => ⟨call ≠ 2, none, 0, fun _ => 0⟩
  reads := fun _ => ⟨true, none, 0, fun _ => 0⟩
  stored := fun _ => []

/-- An ELF header with one program header behind it, and the entry point 0x82000. -/
def elfHeader : List Byte :=
  [0x7F, 0x45, 0x4C, 0x46, 1, 2, 1, 0, 0, 0, 0, 0, 0, 0, 0, 0, 0, 2, 0, 4, 0, 0, 0, 1,
    0, 8, 0x20, 0, 0, 0, 0, 52, 0, 0, 0, 0, 0, 0, 0, 0, 0, 52, 0, 32, 0, 1, 0, 0, 0, 0, 0, 0]

def oneByte : OpenFile where
  fp := FatDescriptor.opened FA_READ
    (elfHeader ++ [0, 0, 0, 1, 0, 0, 0, 85, 0, 0, 0, 0, 0, 8, 0x20, 0, 0, 0, 0, 1, 0, 0, 0, 1,
      0, 0, 0, 0, 0, 0, 0, 0, 0xAA, 0xBB]) (by decide)
  reading := rfl

def threadLocal : OpenFile where
  fp := FatDescriptor.opened FA_READ
    (elfHeader ++ [0, 0, 0, 7, 0, 0, 0, 0, 0, 0, 0, 0, 0, 0, 0, 0, 0, 0, 0, 0, 0, 0, 0, 0,
      0, 0, 0, 0, 0, 0, 0, 0]) (by decide)
  reading := rfl

/-- Four bytes of code, and behind them two bytes of data with a `.bss` of six. -/
def twoSegments : OpenFile where
  fp := FatDescriptor.opened FA_READ
    (elfHeader.set 45 2 ++
      [0, 0, 0, 1, 0, 0, 0, 116, 0, 8, 0x20, 0, 0, 8, 0x20, 0, 0, 0, 0, 4, 0, 0, 0, 4,
        0, 0, 0, 5, 0, 0, 0, 2] ++
      [0, 0, 0, 1, 0, 0, 0, 120, 0, 8, 0x20, 0x10, 0, 8, 0x20, 0x10, 0, 0, 0, 2, 0, 0, 0, 8,
        0, 0, 0, 6, 0, 0, 0, 2] ++
      [0x70, 0x2A, 0x4E, 0x75, 0xAA, 0xBB]) (by decide)
  reading := rfl

theorem loads_faithfully_two : Ready prompt ∧
    (loadElfExecutable prompt (twoSegments.start fun _ => 0xFF)).1 = some 0x82000 ∧
    (List.range 9).map (fun i => (loadElfExecutable prompt (twoSegments.start fun _ => 0xFF)).2.memory
      (0x82010 + BitVec.ofNat 32 i)) = [0xAA, 0xBB, 0, 0, 0, 0, 0, 0, 0xFF] ∧
    ∀ entry, (loadElfExecutable prompt (twoSegments.start fun _ => 0xFF)).1 = some entry →
      Faithful twoSegments.data prompt (fun _ => 0xFF) entry
        (loadElfExecutable prompt (twoSegments.start fun _ => 0xFF)).2 := by
  have ready : Ready prompt := fun _ => rfl
  refine ⟨ready, by decide +kernel, by decide +kernel,
    (loads_faithfully twoSegments prompt _ ready).mpr fun _ => ?_⟩
  unfold Supported
  decide +kernel

/-- A program with thread-local storage is called; with one seek refused, a byte from elsewhere in
the file is loaded and the program is called. -/
theorem unlisted_type_called :
    (loadElfExecutable prompt (threadLocal.start fun _ => 0)).1 = some 0x82000 ∧
      (progHeaderOf threadLocal.data 0).type = PT_TLS ∧
      (loadElfExecutable hesitant (oneByte.start fun _ => 0)).1 = some 0x82000 ∧
      (loadElfExecutable hesitant (oneByte.start fun _ => 0)).2.memory 0x82000 = 0xAA ∧
      ¬∀ (file : OpenFile) (medium : Medium) (memory : Memory) (entry : Word),
        (loadElfExecutable medium (file.start memory)).1 = some entry →
          Faithful file.data medium memory entry
            (loadElfExecutable medium (file.start memory)).2 := by
  have called : (loadElfExecutable prompt (threadLocal.start fun _ => 0)).1 = some 0x82000 := by
    decide +kernel
  refine ⟨called, by decide +kernel, by decide +kernel, by decide +kernel, fun all => ?_⟩
  have faithful := all threadLocal prompt _ _ called
  have supported := faithful.supported 0 (by decide +kernel)
  exact absurd supported (by unfold Supported; decide +kernel)

end OrionBios.Elf
