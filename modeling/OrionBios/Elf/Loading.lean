import OrionBios.Elf.Image

/-!
# What the loader does with a file

A fetch that succeeds gave the bytes of the file at the place asked for, provided no seek was
refused. From it, by induction on the program headers that are left, follow the image in memory
and which files the loader runs.
-/

namespace OrionBios.Elf

open FatDescriptor (FIL FA_READ FA_WRITE FRESULT f_lseek f_read abort)
open Loader (Byte ProgramHeader)
open Machine

/-! ## One fetch -/

/-- The object reads the file, unless an error stands in it. -/
structure Reads (data : List Byte) (fp : FIL) : Prop where
  reading : fp.flag = FA_READ
  content : fp.data = data

def Handles (data : List Byte) (fp : FIL) : Prop := fp.err = .FR_OK → Reads data fp

structure Answered (medium : Medium) (call : Nat) : Prop where
  seeks : (medium.seeks call).ready = true ∧ (medium.seeks call).answer.error = none
  reads : (medium.reads call).ready = true ∧ (medium.reads call).answer.error = none

/-- No seek is refused because the drive is not ready. -/
def Ready (medium : Medium) : Prop := ∀ call, (medium.seeks call).ready = true

variable {data : List Byte} {medium : Medium} {s s' : State} {ofs btr : Word} {bytes : List Byte}

theorem seek_spec (ready : Ready medium) (handles : Handles data s.fp) :
    Handles data (seek medium ofs s) ∧
      ((seek medium ofs s).err = .FR_OK ↔
        s.fp.err = .FR_OK ∧ (medium.seeks s.calls).answer.error = none) ∧
      ((seek medium ofs s).err = .FR_OK →
        data.drop (seek medium ofs s).fptr = data.drop ofs.toNat) := by
  unfold seek f_lseek
  dsimp only
  rw [if_pos (ready s.calls)]
  by_cases fine : s.fp.err = .FR_OK
  · have reads := handles fine
    have content := reads.content
    rw [if_neg (not_not.mpr fine)]
    cases error : (medium.seeks s.calls).answer.error with
    | some broken =>
        dsimp only
        refine ⟨fun ok => ?_, iff_of_false (fun ok => ?_) (fun both => ?_), fun ok => ?_⟩
        · cases ok
        · cases ok
        · cases both.2
        · cases ok
    | none =>
        dsimp only
        by_cases inside : ofs.toNat ≤ s.fp.objsize
        · rw [dif_pos inside]
          exact ⟨fun _ => ⟨reads.reading, content⟩, iff_of_true fine ⟨fine, rfl⟩, fun _ => rfl⟩
        · have readOnly : s.fp.flag &&& FA_WRITE = 0 := by
            rw [reads.reading]
            decide
          rw [dif_neg inside, if_pos readOnly]
          refine ⟨fun _ => ⟨reads.reading, content⟩, iff_of_true fine ⟨fine, rfl⟩, fun _ => ?_⟩
          have size : s.fp.objsize = data.length := congrArg List.length content
          change data.drop s.fp.objsize = data.drop ofs.toNat
          rw [size] at inside ⊢
          rw [List.drop_length, List.drop_eq_nil_of_le (Nat.le_of_not_le inside)]
  · rw [if_pos fine]
    exact ⟨handles, iff_of_false fine (fun both => fine both.1), fun ok => absurd ok fine⟩

/-- A read gives the bytes at the pointer, or fails and leaves an error. -/
theorem f_read_spec {fp : FIL} (handles : Handles data fp) (btr : Word)
    (answer : FatDescriptor.Answer) :
    (∃ fp', f_read fp btr answer = (.FR_OK, (data.drop fp.fptr).take btr.toNat, fp') ∧
      fp'.err = .FR_OK ∧ Reads data fp' ∧ fp.err = .FR_OK ∧ answer.error = none) ∨
    ∃ result fp', f_read fp btr answer = (result, [], fp') ∧ result ≠ .FR_OK ∧
      fp'.err ≠ .FR_OK ∧ ¬(fp.err = .FR_OK ∧ answer.error = none) := by
  unfold f_read
  by_cases fine : fp.err = .FR_OK
  · have reads := handles fine
    have readable : ¬fp.flag &&& FA_READ = 0 := by
      rw [reads.reading]
      decide
    rw [if_neg (not_not.mpr fine), if_neg readable]
    cases error : answer.error with
    | some broken =>
        refine .inr ⟨_, _, rfl, FRESULT.noConfusion, FRESULT.noConfusion, fun both => ?_⟩
        cases both.2
    | none =>
        dsimp only
        obtain ⟨reading, rfl⟩ := reads
        exact .inl ⟨_, rfl, fine, ⟨reading, rfl⟩, fine, rfl⟩
  · rw [if_pos fine]
    exact .inr ⟨_, _, rfl, fine, fine, fun both => fine both.1⟩

structure Fetched (data : List Byte) (medium : Medium) (ofs btr : Word) (s : State)
    (result : Bool × List Byte × State) : Prop where
  whole : result.1 = true ↔ s.fp.err = .FR_OK ∧ Answered medium s.calls ∧ Inside data ofs btr
  bytes : result.1 = true → result.2.1 = slice data ofs btr
  fine : result.1 = true → result.2.2.fp.err = .FR_OK
  handles : Handles data result.2.2.fp
  calls : result.2.2.calls = s.calls + 1
  memory : result.2.2.memory = s.memory

theorem fetched (ready : Ready medium) (handles : Handles data s.fp) (ofs btr : Word) :
    Fetched data medium ofs btr s (fetch medium ofs btr s) := by
  have sought : Handles data (seek medium ofs s) ∧ _ := seek_spec ready handles
  obtain ⟨handles', fine, stands⟩ := sought
  have seekReady := ready s.calls
  unfold fetch
  dsimp only
  generalize seek medium ofs s = fp at handles' fine stands ⊢
  by_cases readReady : (medium.reads s.calls).ready = true
  · rw [if_pos readReady]
    rcases f_read_spec handles' btr (medium.reads s.calls).answer with
      ⟨fp', read, fine', reads, ok, noError⟩ | ⟨result, fp', read, failed, broken, notBoth⟩
    · have at_ := stands ok
      rw [read]
      dsimp only
      rw [if_pos rfl, at_]
      obtain ⟨sound, noSeekError⟩ := fine.mp ok
      refine ⟨?_, fun _ => rfl, fun _ => fine', fun _ => reads, rfl, rfl⟩
      dsimp only
      rw [beq_iff_eq, ← slice, slice_length]
      exact ⟨fun inside => ⟨sound, ⟨⟨seekReady, noSeekError⟩, readReady, noError⟩, inside⟩,
        fun all => all.2.2⟩
    · rw [read]
      dsimp only
      rw [if_neg failed]
      refine ⟨iff_of_false Bool.false_ne_true fun all => ?_, fun whole => ?_, fun whole => ?_,
        fun ok => absurd ok broken, rfl, rfl⟩
      · exact notBoth ⟨fine.mpr ⟨all.1, all.2.1.seeks.2⟩, all.2.1.reads.2⟩
      · cases whole
      · cases whole
  · rw [if_neg readReady]
    refine ⟨iff_of_false Bool.false_ne_true fun all => readReady all.2.1.reads.1, fun whole => ?_,
      fun whole => ?_, handles', rfl, rfl⟩
    · cases whole
    · cases whole

/-! ## One segment -/

structure SegmentLoaded (data : List Byte) (medium : Medium) (progHeader : ProgramHeader) (s : State)
    (result : Bool × State) : Prop where
  whole : result.1 = true ↔ s.fp.err = .FR_OK ∧ Answered medium s.calls ∧
    Inside data progHeader.offset progHeader.filesz
  memory : result.1 = true → result.2.memory = place data s.memory progHeader
  fine : result.1 = true → result.2.fp.err = .FR_OK
  handles : Handles data result.2.fp
  calls : result.2.calls = s.calls + 1

theorem segmentLoaded (ready : Ready medium) (handles : Handles data s.fp)
    (progHeader : ProgramHeader) :
    SegmentLoaded data medium progHeader s (loadSegment medium progHeader s) := by
  have fetch := fetched ready handles progHeader.offset progHeader.filesz
  unfold loadSegment
  generalize Elf.fetch medium progHeader.offset progHeader.filesz s = result at fetch ⊢
  obtain ⟨whole, bytes, s'⟩ := result
  obtain ⟨wholeIff, bytesEq, fine, handles', calls, memory⟩ := fetch
  dsimp only at *
  cases whole with
  | false =>
      rw [if_neg Bool.false_ne_true]
      exact ⟨wholeIff, fun whole => absurd whole Bool.false_ne_true,
        fun whole => absurd whole Bool.false_ne_true, handles', calls⟩
  | true =>
      have inside := (wholeIff.mp rfl).2.2
      have placed := @storeBytes_place data s.memory progHeader inside
      rw [if_pos rfl, bytesEq rfl, memory]
      by_cases longer : progHeader.filesz < progHeader.memsz
      · rw [if_pos longer] at placed ⊢
        exact ⟨wholeIff, fun _ => placed, fine, handles', calls⟩
      · rw [if_neg longer] at placed ⊢
        exact ⟨wholeIff, fun _ => placed, fine, handles', calls⟩

/-! ## The loop over the program headers -/

/-- The loader gets past a program header. -/
structure Loadable (data : List Byte) (index : Nat) : Prop where
  inside : Inside data ((headerOf data).place index) progHeaderSize
  accepted : treatment (progHeaderOf data index).type ≠ .reject
  whole : Loads (progHeaderOf data index) →
    Inside data (progHeaderOf data index).offset (progHeaderOf data index).filesz

/-- The fetches made for some program headers and their segments. -/
def callsFor (headers : List ProgramHeader) : Nat :=
  headers.length + headers.countP fun progHeader => Loads progHeader

structure SegmentsLoaded (data : List Byte) (medium : Medium) (index count : Nat) (s : State)
    (result : Bool × State) : Prop where
  whole : result.1 = true ↔
    (∀ call ∈ List.range' s.calls (callsFor (progHeaders data index count)),
      Answered medium call) ∧ ∀ other ∈ List.range' index count, Loadable data other
  memory : result.1 = true →
    result.2.memory = (progHeaders data index count).foldl (placeLoaded data) s.memory
  calls : result.1 = true → result.2.calls = s.calls + callsFor (progHeaders data index count)

theorem callsFor_cons (progHeader : ProgramHeader) (headers : List ProgramHeader) :
    callsFor (progHeader :: headers) = callsFor [progHeader] + callsFor headers := by
  simp only [callsFor, List.length_cons, List.countP_cons, List.length_nil, List.countP_nil]
  omega

theorem callsFor_loads {progHeader : ProgramHeader} (loads : Loads progHeader) :
    callsFor [progHeader] = 2 := by
  simp [callsFor, loads]

theorem callsFor_skips {progHeader : ProgramHeader} (skips : ¬Loads progHeader) :
    callsFor [progHeader] = 1 := by
  simp [callsFor, skips]

/-- The fetches for a list of headers begin with those for its first. -/
theorem answered_cons (progHeader : ProgramHeader) (headers : List ProgramHeader) (calls : Nat) :
    (∀ call ∈ List.range' calls (callsFor (progHeader :: headers)), Answered medium call) ↔
      (∀ call ∈ List.range' calls (callsFor [progHeader]), Answered medium call) ∧
      ∀ call ∈ List.range' (calls + callsFor [progHeader]) (callsFor headers),
        Answered medium call := by
  rw [callsFor_cons, ← List.range'_append_1, List.forall_mem_append]

/-- A load that stops is right to where a fetch fails or a header cannot be got past. -/
theorem SegmentsLoaded.stopped {index count : Nat} {result : Bool × State}
    (stops : result.1 = false)
    (failed : ¬((∀ call ∈ List.range' s.calls (callsFor (progHeaders data index count)),
      Answered medium call) ∧ ∀ other ∈ List.range' index count, Loadable data other)) :
    SegmentsLoaded data medium index count s result where
  whole := iff_of_false (stops ▸ Bool.false_ne_true) failed
  memory whole := absurd (stops.symm.trans whole) Bool.false_ne_true
  calls whole := absurd (stops.symm.trans whole) Bool.false_ne_true

/-- One header behind the loader, the others before it. -/
theorem SegmentsLoaded.past {index remaining : Nat} {s' : State} {result : Bool × State}
    (answered : ∀ call ∈ List.range' s.calls (callsFor [progHeaderOf data index]),
      Answered medium call)
    (loadable : Loadable data index)
    (calls : s'.calls = s.calls + callsFor [progHeaderOf data index])
    (memory : s'.memory = placeLoaded data s.memory (progHeaderOf data index))
    (rest : SegmentsLoaded data medium (index + 1) remaining s' result) :
    SegmentsLoaded data medium index (remaining + 1) s result := by
  have list : progHeaders data index (remaining + 1) =
      progHeaderOf data index :: progHeaders data (index + 1) remaining := rfl
  refine ⟨?_, fun whole => ?_, fun whole => ?_⟩
  · rw [rest.whole, list, answered_cons, List.range'_succ, List.forall_mem_cons, calls]
    exact ⟨fun both => ⟨⟨answered, both.1⟩, loadable, both.2⟩,
      fun both => ⟨both.1.2, both.2.2⟩⟩
  · rw [rest.memory whole, list, List.foldl_cons, memory]
  · rw [rest.calls whole, calls, list, Nat.add_assoc, ← callsFor_cons]

theorem segmentsLoaded (ready : Ready medium) {remaining index : Nat} (handles : Handles data s.fp)
    (fine : s.fp.err = .FR_OK) (left : index + remaining = (headerOf data).phnum.toNat) :
    SegmentsLoaded data medium index remaining s
      (loadSegments medium (headerOf data) remaining s) := by
  induction remaining generalizing s index with
  | zero =>
      refine ⟨iff_of_true rfl ⟨fun call member => ?_, fun index member => ?_⟩, fun _ => rfl,
        fun _ => rfl⟩
      · cases member
      · cases member
  | succ remaining inductionHypothesis =>
      have here : (headerOf data).phnum.toNat - (remaining + 1) = index := by omega
      have fetch := fetched ready handles ((headerOf data).place index) progHeaderSize
      have list : progHeaders data index (remaining + 1) =
          progHeaderOf data index :: progHeaders data (index + 1) remaining := rfl
      have first : s.calls ∈ List.range' s.calls (callsFor [progHeaderOf data index]) :=
        List.mem_range'_1.mpr ⟨Nat.le_refl _, by simp only [callsFor, List.length_singleton]; omega⟩
      rw [loadSegments, here]
      generalize Elf.fetch medium ((headerOf data).place index) progHeaderSize s = result
        at fetch ⊢
      obtain ⟨whole, bytes, s₁⟩ := result
      obtain ⟨wholeIff, bytesEq, fine₁, handles₁, calls₁, memory₁⟩ := fetch
      dsimp only at *
      cases whole with
      | false =>
          refine .stopped rfl fun both => ?_
          rw [list, answered_cons] at both
          have loadable := both.2 index List.mem_cons_self
          exact Bool.false_ne_true (wholeIff.mpr ⟨fine, both.1.1 _ first, loadable.inside⟩)
      | true =>
          obtain ⟨_, answered, inside⟩ := wholeIff.mp rfl
          rw [if_pos rfl, bytesEq rfl, ← progHeaderOf]
          cases treated : treatment (progHeaderOf data index).type with
          | skip =>
              have skips : ¬Loads (progHeaderOf data index) := by
                unfold Loads
                rw [treated]
                exact Treatment.noConfusion
              have accepted : treatment (progHeaderOf data index).type ≠ .reject := by
                rw [treated]
                exact Treatment.noConfusion
              have rest := @inductionHypothesis s₁ (index + 1) handles₁ (fine₁ rfl) (by omega)
              refine .past ?_ ⟨inside, accepted, fun loads => absurd loads skips⟩ ?_ ?_ rest
              · rw [callsFor_skips skips, List.range'_one]
                exact List.forall_mem_singleton.mpr answered
              · rw [callsFor_skips skips, calls₁]
              · rw [memory₁, placeLoaded, if_neg skips]
          | reject =>
              refine .stopped rfl fun both => ?_
              exact (both.2 index List.mem_cons_self).accepted treated
          | load =>
              have loads : Loads (progHeaderOf data index) := treated
              have segment := segmentLoaded ready handles₁ (progHeaderOf data index)
              dsimp only
              generalize loadSegment medium (progHeaderOf data index) s₁ = result at segment ⊢
              obtain ⟨loaded, s₂⟩ := result
              obtain ⟨loadedIff, placed, fine₂, handles₂, calls₂⟩ := segment
              dsimp only at *
              rw [calls₁] at loadedIff calls₂
              cases loaded with
              | false =>
                  refine .stopped rfl fun both => ?_
                  rw [list, answered_cons, callsFor_loads loads] at both
                  have second := both.1.1 (s.calls + 1)
                    (List.mem_range'_1.mpr ⟨Nat.le_succ _, Nat.lt_succ_self _⟩)
                  have loadable := both.2 index List.mem_cons_self
                  exact Bool.false_ne_true
                    (loadedIff.mpr ⟨fine₁ rfl, second, loadable.whole loads⟩)
              | true =>
                  obtain ⟨_, second, segmentInside⟩ := loadedIff.mp rfl
                  have accepted : treatment (progHeaderOf data index).type ≠ .reject := by
                    rw [treated]
                    exact Treatment.noConfusion
                  have rest := @inductionHypothesis s₂ (index + 1) handles₂ (fine₂ rfl) (by omega)
                  refine .past ?_ ⟨inside, accepted, fun _ => segmentInside⟩ ?_ ?_ rest
                  · rw [callsFor_loads loads, List.range'_succ, List.range'_one,
                      List.forall_mem_cons, List.forall_mem_singleton]
                    exact ⟨answered, second⟩
                  · rw [callsFor_loads loads, calls₂]
                  · rw [placed rfl, memory₁, placeLoaded, if_pos loads]

end OrionBios.Elf
