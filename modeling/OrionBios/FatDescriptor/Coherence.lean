import OrionBios.FatDescriptor.Model
import OrionBios.Transition.Runs
import Mathlib.Data.BitVec

/-!
# The three positions of a descriptor

Reads and writes keep a `File` that agrees with the FatFs object in agreement. A seek does
so only where `do_lseek` comes to the position 0, which `fat_lseek` takes for `FR_OK`.
-/

namespace OrionBios.FatDescriptor

open Transition

/-- The copies agree with FatFs. -/
structure Coherent (file : File) : Prop where
  position : file.position = f_tell file.fil
  size : file.privateData.size = f_size file.fil

/-- Where `f_lseek` leaves the pointer. -/
def granted (fp : FIL) (answer : Answer) (position : Nat) : Nat :=
  if position ≤ fp.objsize then position
  else if fp.flag &&& FA_WRITE = 0 then fp.objsize
  else min position (max answer.room fp.objsize)

/-- The trap seeks from `base` on, and is not refused. -/
structure Sought (fp : FIL) (offset d2 : BitVec 32) (base : BitVec 32) : Prop where
  known : trapBase d2.toInt (f_tell fp) (f_size fp) = some base
  positive : 0 ≤ (base + offset).toInt

/-- The trap comes to the position 0, which reads as `FR_OK`. -/
def Rewinds (fp : FIL) (offset d2 : BitVec 32) (answer : Answer) : Prop :=
  ∃ base, Sought fp offset d2 base ∧ granted fp answer (base + offset).toNat = 0

/-- The call succeeds: the object works, has the access, and the volume answers. -/
def Accepted (file : File) : Call → Prop
  | .read _ answer =>
    file.fil.err = .FR_OK ∧ file.fil.flag &&& FA_READ ≠ 0 ∧ answer.error = none
  | .write _ seek answer =>
    file.fil.err = .FR_OK ∧ file.fil.flag &&& FA_WRITE ≠ 0 ∧ answer.error = none ∧
      (file.appending → seek.error = none)
  | .lseek offset whence d2 answer =>
    file.fil.err = .FR_OK ∧ answer.error = none ∧
      ∃ target, seekTarget offset whence file = some target ∧ Rewinds file.fil target d2 answer

def writeBase (file : File) : Nat := if file.appending then file.fil.objsize else file.fil.fptr

/-- The bytes that the volume takes of a write: a FAT file stays below 4 GiB. -/
def taken (file : File) (buffer : List Byte) (answer : Answer) : Nat :=
  min (min buffer.length (2 ^ 32 - 1 - writeBase file))
    (max answer.room file.fil.objsize - writeBase file)

/-- The sizes agree, or the write ends behind both. -/
def Covers (file : File) (ending : Nat) : Prop :=
  file.privateData.size = f_size file.fil ∨
    file.privateData.size.toNat ≤ ending ∧ file.fil.objsize ≤ ending

/-- What a call must meet to leave the copies in agreement. -/
def Keeps (file : File) : Call → Prop
  | .read size answer => Accepted file (.read size answer) → Coherent file
  | .write buffer seek answer => Accepted file (.write buffer seek answer) →
    file.position = BitVec.ofNat 32 (writeBase file) ∧
      Covers file (writeBase file + taken file buffer answer)
  | .lseek offset whence d2 answer =>
    (Accepted file (.lseek offset whence d2 answer) →
      seekTarget offset whence file = some 0 ∧ file.privateData.size = f_size file.fil) ∧
    -- `SEEK_END` only finds the end of an empty file
    (offset = 0 → whence = 2 → file.fil.err = .FR_OK → answer.error = none →
      file.fil.objsize = 0 ∧ file.privateData.size = 0 ∧
        ∃ base, trapBase d2.toInt (f_tell file.fil) (f_size file.fil) = some base)

/-- What a call leaves behind. -/
structure Faithful (file : File) (call : Call) (file' : File) : Prop where
  coherent : (perform file call).1 ≠ none → Coherent file'
  /-- `SEEK_END` finds the real end. -/
  seekEnd : ∀ d2 answer, call = .lseek 0 2 d2 answer → file.fil.err = .FR_OK →
    answer.error = none →
      (perform file call).1 = some (f_size file.fil) ∧ f_tell file'.fil = f_size file.fil ∧
        file'.fil.data = file.fil.data
  /-- A write at the end leaves no gap. -/
  appends : ∀ buffer seek answer, call = .write buffer seek answer →
    (perform file call).1 ≠ none → f_tell file.fil = f_size file.fil →
      ∃ n, (perform file call).1 = some (BitVec.ofNat 32 n) ∧
        file'.fil.data = file.fil.data ++ buffer.take n

/-- A seek that leaves the pointer where it is, or goes to 0 as the descriptor does. -/
def Steady (file : File) : Call → Prop
  | .lseek offset whence d2 _ => ∀ target, seekTarget offset whence file = some target →
    ∀ base, Sought file.fil target d2 base →
      target = 0 ∧ base = 0 ∨ base + target = f_tell file.fil ∧ f_tell file.fil ≠ 0
  | _ => True

/-! ## Words of 32 bits -/

theorem ofNat_inj_of_lt {a b : Nat} (smallA : a < 2 ^ 32) (smallB : b < 2 ^ 32) :
    BitVec.ofNat 32 a = BitVec.ofNat 32 b ↔ a = b := by
  constructor
  · intro same
    have values := congrArg BitVec.toNat same
    rwa [BitVec.toNat_ofNat, BitVec.toNat_ofNat, Nat.mod_eq_of_lt smallA,
      Nat.mod_eq_of_lt smallB] at values
  · rintro rfl
    rfl

theorem FIL.fptr_lt (fp : FIL) : fp.fptr < 2 ^ 32 := Nat.lt_of_le_of_lt fp.within fp.small

/-- A position that moves by `n` agrees afterwards exactly when it did before. -/
theorem add_ofNat_inj {position : BitVec 32} {base n : Nat} :
    position + BitVec.ofNat 32 n = BitVec.ofNat 32 (base + n) ↔ position = BitVec.ofNat 32 base := by
  rw [BitVec.ofNat_add]
  exact ⟨add_right_cancel, fun same => by rw [same]⟩

variable {file : File}

/-! ## Reads -/

theorem fatRead_accepted {size : BitVec 32} {answer : Answer}
    (accepted : Accepted file (.read size answer)) :
    ∃ n, (fatRead size answer file).1 = some (BitVec.ofNat 32 n) ∧
      (fatRead size answer file).2.position = file.position + BitVec.ofNat 32 n ∧
      (fatRead size answer file).2.privateData.size = file.privateData.size ∧
      (fatRead size answer file).2.fil.fptr = file.fil.fptr + n ∧
      (fatRead size answer file).2.fil.data = file.fil.data := by
  obtain ⟨works, access, noError⟩ := accepted
  unfold fatRead f_read
  rw [if_neg (not_not_intro works), if_neg access, noError]
  exact ⟨_, rfl, rfl, rfl, rfl, rfl⟩

theorem fatRead_refused {size : BitVec 32} {answer : Answer}
    (refused : ¬ Accepted file (.read size answer)) :
    (fatRead size answer file).1 = none ∧
      ((fatRead size answer file).2.fil.err = .FR_OK → (fatRead size answer file).2 = file) := by
  unfold fatRead f_read
  by_cases works : file.fil.err = .FR_OK
  · rw [if_neg (not_not_intro works)]
    by_cases access : file.fil.flag &&& FA_READ = 0
    · rw [if_pos access]
      exact ⟨rfl, fun _ => rfl⟩
    · rw [if_neg access]
      cases noError : answer.error with
      | none => exact absurd ⟨works, access, noError⟩ refused
      | some broken => exact ⟨rfl, FRESULT.noConfusion⟩
  · rw [if_pos works]
    dsimp only
    rw [if_pos works]
    exact ⟨rfl, fun ok => absurd ok works⟩

theorem fatRead_coherent {size : BitVec 32} {answer : Answer}
    (accepted : Accepted file (.read size answer)) :
    Coherent (fatRead size answer file).2 ↔ Coherent file := by
  obtain ⟨n, _, position, cached, pointer, data⟩ := fatRead_accepted accepted
  have moves : f_tell (fatRead size answer file).2.fil = BitVec.ofNat 32 (file.fil.fptr + n) := by
    rw [f_tell, pointer]
  have stays : f_size (fatRead size answer file).2.fil = f_size file.fil := by
    rw [f_size, FIL.objsize, data]
    rfl
  constructor
  · intro coherent
    have same := coherent.position
    have sizes := coherent.size
    rw [position, moves] at same
    rw [cached, stays] at sizes
    exact ⟨add_ofNat_inj.mp same, sizes⟩
  · intro coherent
    exact
      { position := by
          rw [position, moves]
          exact add_ofNat_inj.mpr coherent.position
        size := by
          rw [cached, stays]
          exact coherent.size }

/-! ## Seeks of FatFs -/

theorem f_lseek_refused {fp : FIL} (ofs : BitVec 32) {answer : Answer}
    (refused : ¬ (fp.err = .FR_OK ∧ answer.error = none)) :
    (f_lseek fp ofs answer).1 ≠ .FR_OK ∧ (f_lseek fp ofs answer).2.err ≠ .FR_OK := by
  unfold f_lseek
  by_cases works : fp.err = .FR_OK
  · rw [if_neg (not_not_intro works)]
    cases noError : answer.error with
    | none => exact absurd ⟨works, noError⟩ refused
    | some broken => exact ⟨FRESULT.noConfusion, FRESULT.noConfusion⟩
  · rw [if_pos works]
    exact ⟨works, works⟩

/-- A seek in the file only moves the pointer. -/
theorem f_lseek_inside {fp : FIL} {ofs : BitVec 32} {answer : Answer} (works : fp.err = .FR_OK)
    (noError : answer.error = none) (inside : ofs.toNat ≤ fp.objsize) :
    f_lseek fp ofs answer = (.FR_OK, { fp with fptr := ofs.toNat, within := inside }) := by
  unfold f_lseek
  rw [if_neg (not_not_intro works), noError]
  exact dif_pos inside

theorem f_size_toNat (fp : FIL) : (f_size fp).toNat = fp.objsize := by
  have small : fp.objsize < 2 ^ 32 := fp.small
  rw [f_size, BitVec.toNat_ofNat, Nat.mod_eq_of_lt small]

theorem f_tell_toNat (fp : FIL) : (f_tell fp).toNat = fp.fptr := by
  rw [f_tell, BitVec.toNat_ofNat, Nat.mod_eq_of_lt fp.fptr_lt]

theorem f_lseek_granted {fp : FIL} (ofs : BitVec 32) {answer : Answer} (works : fp.err = .FR_OK)
    (noError : answer.error = none) :
    (f_lseek fp ofs answer).1 = .FR_OK ∧
      (f_lseek fp ofs answer).2.fptr = granted fp answer ofs.toNat := by
  unfold f_lseek granted
  rw [if_neg (not_not_intro works), noError]
  dsimp only
  by_cases inside : ofs.toNat ≤ fp.objsize
  · rw [dif_pos inside, if_pos inside]
    exact ⟨rfl, rfl⟩
  · rw [dif_neg inside, if_neg inside]
    by_cases access : fp.flag &&& FA_WRITE = 0
    · rw [if_pos access, if_pos access]
      exact ⟨rfl, rfl⟩
    · rw [if_neg access, if_neg access]
      exact ⟨rfl, rfl⟩

theorem f_lseek_zero {fp : FIL} {ofs : BitVec 32} {answer : Answer} (works : fp.err = .FR_OK)
    (noError : answer.error = none) (zero : granted fp answer ofs.toNat = 0) :
    (f_lseek fp ofs answer).2.data = fp.data := by
  unfold f_lseek
  unfold granted at zero
  rw [if_neg (not_not_intro works), noError]
  dsimp only
  by_cases inside : ofs.toNat ≤ fp.objsize
  · rw [dif_pos inside]
  · rw [dif_neg inside]
    rw [if_neg inside] at zero
    by_cases access : fp.flag &&& FA_WRITE = 0
    · rw [if_pos access]
    · rw [if_neg access] at zero ⊢
      dsimp only
      rw [zero, Nat.zero_sub]
      exact List.append_nil _

theorem f_lseek_tell {fp : FIL} {answer : Answer} (works : fp.err = .FR_OK)
    (noError : answer.error = none) : (f_lseek fp (f_tell fp) answer).2 = fp := by
  have here := f_tell_toNat fp
  have inside : (f_tell fp).toNat ≤ fp.objsize := by
    rw [here]
    exact fp.within
  rw [f_lseek_inside works noError inside]
  show ({ fp with fptr := (f_tell fp).toNat, within := inside } : FIL) = fp
  simp only [here]

/-! ## Writes -/

theorem f_write_accepted {fp : FIL} (buffer : List Byte) {answer : Answer} (works : fp.err = .FR_OK)
    (access : fp.flag &&& FA_WRITE ≠ 0) (noError : answer.error = none) :
    ∃ fp', f_write fp buffer answer = (.FR_OK, accepted fp buffer answer.room, fp') ∧
      fp'.fptr = fp.fptr + accepted fp buffer answer.room ∧
      fp'.objsize = max fp.objsize (fp.fptr + accepted fp buffer answer.room) ∧
      (fp.fptr = fp.objsize →
        fp'.data = fp.data ++ buffer.take (accepted fp buffer answer.room)) := by
  unfold f_write
  rw [if_neg (not_not_intro works), if_neg access, noError]
  refine ⟨_, rfl, rfl, ?_, fun atEnd => ?_⟩
  · show (overwritten fp _).length = _
    rw [overwritten_length, take_accepted_length]
  · show overwritten fp _ = _
    have atEnd : fp.fptr = fp.data.length := atEnd
    rw [overwritten, atEnd, List.take_length, List.drop_eq_nil_of_le (by omega), List.append_nil]

theorem f_write_refused {fp : FIL} (buffer : List Byte) {answer : Answer}
    (refused : ¬ (fp.err = .FR_OK ∧ fp.flag &&& FA_WRITE ≠ 0 ∧ answer.error = none)) :
    (f_write fp buffer answer).1 ≠ .FR_OK ∧
      ((f_write fp buffer answer).2.2.err = .FR_OK → (f_write fp buffer answer).2.2 = fp) := by
  unfold f_write
  by_cases works : fp.err = .FR_OK
  · rw [if_neg (not_not_intro works)]
    by_cases access : fp.flag &&& FA_WRITE = 0
    · rw [if_pos access]
      exact ⟨FRESULT.noConfusion, fun _ => rfl⟩
    · rw [if_neg access]
      cases noError : answer.error with
      | none => exact absurd ⟨works, access, noError⟩ refused
      | some broken => exact ⟨FRESULT.noConfusion, FRESULT.noConfusion⟩
  · rw [if_pos works]
    exact ⟨works, fun _ => rfl⟩

theorem File.grow_fil (file : File) : file.grow.fil = file.fil ∧ file.grow.position = file.position := by
  unfold File.grow
  split <;> exact ⟨rfl, rfl⟩

theorem seekToEnd_accepted {seek : Answer} (works : file.fil.err = .FR_OK)
    (noError : file.appending → seek.error = none) :
    (seekToEnd seek file).err = .FR_OK ∧ (seekToEnd seek file).flag = file.fil.flag ∧
      (seekToEnd seek file).data = file.fil.data ∧ (seekToEnd seek file).fptr = writeBase file := by
  unfold seekToEnd writeBase
  by_cases append : file.appending
  · have inside : (f_size file.fil).toNat ≤ file.fil.objsize := Nat.le_of_eq (f_size_toNat _)
    rw [if_pos append, if_pos append, f_lseek_inside works (noError append) inside]
    exact ⟨works, rfl, rfl, f_size_toNat _⟩
  · rw [if_neg append, if_neg append]
    exact ⟨works, rfl, rfl, rfl⟩

theorem fatWrite_accepted {buffer : List Byte} {seek answer : Answer}
    (accepted : Accepted file (.write buffer seek answer)) :
    ∃ n, n = taken file buffer answer ∧
      (fatWrite buffer seek answer file).1 = some (BitVec.ofNat 32 n) ∧
      (fatWrite buffer seek answer file).2.position = file.position + BitVec.ofNat 32 n ∧
      (fatWrite buffer seek answer file).2.privateData.size =
        (if file.privateData.size < file.position + BitVec.ofNat 32 n then
          file.position + BitVec.ofNat 32 n else file.privateData.size) ∧
      (fatWrite buffer seek answer file).2.fil.fptr = writeBase file + n ∧
      (fatWrite buffer seek answer file).2.fil.objsize =
        max file.fil.objsize (writeBase file + n) ∧
      (writeBase file = file.fil.objsize →
        (fatWrite buffer seek answer file).2.fil.data = file.fil.data ++ buffer.take n) := by
  obtain ⟨works, access, noError, noSeekError⟩ := accepted
  obtain ⟨works', flag, data, base⟩ := seekToEnd_accepted works noSeekError
  have length : (seekToEnd seek file).objsize = file.fil.objsize := by
    rw [FIL.objsize, data]
    rfl
  have count : FatDescriptor.accepted (seekToEnd seek file) buffer answer.room =
      taken file buffer answer := by
    rw [FatDescriptor.accepted, base, length, taken]
  rw [← flag] at access
  obtain ⟨fp, written, pointer, size, atEnd⟩ := f_write_accepted buffer works' access noError
  rw [count] at written pointer size atEnd
  generalize taken file buffer answer = n at *
  refine ⟨n, rfl, ?_⟩
  have result : fatWrite buffer seek answer file =
      (some (BitVec.ofNat 32 n), ((file.withFil fp).advance (BitVec.ofNat 32 n)).grow) := by
    unfold fatWrite
    rw [written]
    rfl
  obtain ⟨sameFil, samePosition⟩ := File.grow_fil ((file.withFil fp).advance (BitVec.ofNat 32 n))
  rw [result]
  refine ⟨rfl, samePosition, ?_, ?_, ?_, fun here => ?_⟩
  · show (File.grow _).privateData.size = _
    unfold File.grow
    split
    · next larger => exact (if_pos larger).symm
    · next larger => exact (if_neg larger).symm
  · rw [sameFil, ← base]
    exact pointer
  · rw [sameFil, ← base, ← length]
    exact size
  · rw [sameFil, ← data]
    apply atEnd
    rw [base, here, length]

theorem fatWrite_refused {buffer : List Byte} {seek answer : Answer}
    (refused : ¬ Accepted file (.write buffer seek answer)) :
    (fatWrite buffer seek answer file).1 = none ∧
      (¬ file.appending → (fatWrite buffer seek answer file).2.fil.err = .FR_OK →
        (fatWrite buffer seek answer file).2 = file) := by
  have unwritten : ¬ ((seekToEnd seek file).err = .FR_OK ∧
      (seekToEnd seek file).flag &&& FA_WRITE ≠ 0 ∧ answer.error = none) := by
    by_cases sought : file.fil.err = .FR_OK ∧ (file.appending → seek.error = none)
    · obtain ⟨works, noSeekError⟩ := sought
      obtain ⟨_, flag, _, _⟩ := seekToEnd_accepted works noSeekError
      rw [flag]
      rintro ⟨_, access, noError⟩
      exact refused ⟨works, access, noError, noSeekError⟩
    · rintro ⟨works, -, -⟩
      unfold seekToEnd at works
      by_cases append : file.appending
      · rw [if_pos append] at works
        refine (f_lseek_refused _ ?_).2 works
        rintro ⟨worked, noError⟩
        exact sought ⟨worked, fun _ => noError⟩
      · rw [if_neg append] at works
        exact sought ⟨works, fun other => absurd other append⟩
  obtain ⟨failed, same⟩ := f_write_refused buffer unwritten
  have result : fatWrite buffer seek answer file =
      (none, file.withFil (f_write (seekToEnd seek file) buffer answer).2.2) := if_pos failed
  rw [result]
  refine ⟨rfl, fun plain works => ?_⟩
  have there : seekToEnd seek file = file.fil := if_neg plain
  show file.withFil _ = file
  rw [same works, there]
  rfl

theorem fatWrite_coherent {buffer : List Byte} {seek answer : Answer}
    (accepted : Accepted file (.write buffer seek answer)) :
    Coherent (fatWrite buffer seek answer file).2 ↔
      file.position = BitVec.ofNat 32 (writeBase file) ∧
        Covers file (writeBase file + taken file buffer answer) := by
  obtain ⟨n, rfl, _, position, cached, pointer, size, _⟩ := fatWrite_accepted accepted
  generalize taken file buffer answer = n at *
  have moves : f_tell (fatWrite buffer seek answer file).2.fil =
      BitVec.ofNat 32 (writeBase file + n) := by
    rw [f_tell, pointer]
  have ends : (fatWrite buffer seek answer file).2.fil.objsize < 2 ^ 32 := FIL.small _
  have new : writeBase file + n < 2 ^ 32 := by
    rw [size] at ends
    omega
  -- the cached size becomes the larger of itself and the new end
  have follows (same : file.position = BitVec.ofNat 32 (writeBase file)) :
      (fatWrite buffer seek answer file).2.privateData.size =
          f_size (fatWrite buffer seek answer file).2.fil ↔
        Covers file (writeBase file + n) := by
    have moved : file.position + BitVec.ofNat 32 n = BitVec.ofNat 32 (writeBase file + n) :=
      add_ofNat_inj.mpr same
    have value : (BitVec.ofNat 32 (writeBase file + n)).toNat = writeBase file + n := by
      rw [BitVec.toNat_ofNat, Nat.mod_eq_of_lt new]
    have larger : (fatWrite buffer seek answer file).2.privateData.size.toNat =
        max file.privateData.size.toNat (writeBase file + n) := by
      rw [cached, moved]
      by_cases less : file.privateData.size < BitVec.ofNat 32 (writeBase file + n)
      · rw [if_pos less, value]
        rw [BitVec.lt_def, value] at less
        exact (Nat.max_eq_right (Nat.le_of_lt less)).symm
      · rw [if_neg less]
        rw [BitVec.lt_def, value] at less
        exact (Nat.max_eq_left (Nat.le_of_not_lt less)).symm
    unfold Covers
    rw [← BitVec.toNat_inj, ← BitVec.toNat_inj, larger, f_size_toNat, f_size_toNat, size]
    omega
  constructor
  · intro coherent
    have same := coherent.position
    rw [position, moves] at same
    exact ⟨add_ofNat_inj.mp same, (follows (add_ofNat_inj.mp same)).mp coherent.size⟩
  · rintro ⟨same, covers⟩
    exact
      { position := by
          rw [position, moves]
          exact add_ofNat_inj.mpr same
        size := (follows same).mpr covers }

/-! ## Seeks through the trap -/

variable {fp : FIL} {offset d2 : BitVec 32} {whence : Int} {answer : Answer}

theorem flseek_unsought (refused : ∀ base, ¬ Sought fp offset d2 base) (answer : Answer) :
    flseek fp offset d2 answer = (-1, fp) := by
  unfold flseek doLseek
  rw [if_neg (by decide)]
  cases known : trapBase d2.toInt (f_tell fp) (f_size fp) with
  | none => rfl
  | some base =>
      have negative : (base + offset).toInt < 0 :=
        Int.not_le.mp fun positive => refused base ⟨known, positive⟩
      dsimp only
      rw [if_pos negative]
      rfl

theorem flseek_sought {base : BitVec 32} (sought : Sought fp offset d2 base) (answer : Answer) :
    flseek fp offset d2 answer =
      (if (f_lseek fp (base + offset) answer).1 ≠ .FR_OK then -1
        else f_tell (f_lseek fp (base + offset) answer).2,
        (f_lseek fp (base + offset) answer).2) := by
  unfold flseek doLseek
  rw [if_neg (by decide), sought.known]
  dsimp only
  rw [if_neg (Int.not_lt.mpr sought.positive)]
  split <;> rfl

theorem Sought.unique {base other : BitVec 32} (sought : Sought fp offset d2 base)
    (again : Sought fp offset d2 other) : base = other :=
  Option.some.inj (sought.known.symm.trans again.known)

/-- A seek on an object that fails does not read as `FR_OK`. -/
theorem flseek_refused (refused : ¬ (fp.err = .FR_OK ∧ answer.error = none)) :
    (flseek fp offset d2 answer).1 ≠ 0 ∧
      ((flseek fp offset d2 answer).2.err = .FR_OK → (flseek fp offset d2 answer).2 = fp) := by
  by_cases sought : ∃ base, Sought fp offset d2 base
  · obtain ⟨base, sought⟩ := sought
    obtain ⟨failed, broken⟩ := f_lseek_refused (base + offset) refused
    rw [flseek_sought sought, if_pos failed]
    exact ⟨(by decide : (-1 : BitVec 32) ≠ 0), fun works => absurd works broken⟩
  · rw [flseek_unsought (not_exists.mp sought)]
    exact ⟨(by decide : (-1 : BitVec 32) ≠ 0), fun _ => rfl⟩

/-- The trap's position reads as `FR_OK` exactly at 0. -/
theorem flseek_zero_iff (works : fp.err = .FR_OK) (noError : answer.error = none) :
    (flseek fp offset d2 answer).1 = 0 ↔ Rewinds fp offset d2 answer := by
  by_cases sought : ∃ base, Sought fp offset d2 base
  · obtain ⟨base, sought⟩ := sought
    obtain ⟨ok, pointer⟩ := f_lseek_granted (base + offset) works noError
    rw [flseek_sought sought, if_neg (not_not_intro ok)]
    dsimp only
    rw [← BitVec.toNat_inj, f_tell_toNat, pointer]
    constructor
    · exact fun zero => ⟨base, sought, zero⟩
    · rintro ⟨other, again, zero⟩
      rw [sought.unique again]
      exact zero
  · rw [flseek_unsought (not_exists.mp sought)]
    refine iff_of_false (by decide : (-1 : BitVec 32) ≠ 0) ?_
    rintro ⟨base, again, -⟩
    exact sought ⟨base, again⟩

theorem flseek_rewinds (works : fp.err = .FR_OK) (noError : answer.error = none)
    (rewinds : Rewinds fp offset d2 answer) :
    (flseek fp offset d2 answer).2.fptr = 0 ∧ (flseek fp offset d2 answer).2.data = fp.data := by
  obtain ⟨base, sought, zero⟩ := rewinds
  rw [flseek_sought sought]
  exact ⟨(f_lseek_granted (base + offset) works noError).2.trans zero,
    f_lseek_zero works noError zero⟩

theorem trapBase_zero {whence : Int} {base : BitVec 32} (known : trapBase whence 0 0 = some base) :
    base = 0 := by
  unfold trapBase at known
  repeat' split at known
  all_goals cases known
  all_goals rfl

/-! ## Seeks of the descriptor -/

theorem fatLseek_goes {target : BitVec 32} (wanted : seekTarget offset whence file = some target) :
    fatLseek offset whence d2 answer file =
      if (flseek file.fil target d2 answer).1 ≠ 0 then
        (none, file.withFil (flseek file.fil target d2 answer).2)
      else
        (some target,
        { file.withFil (flseek file.fil target d2 answer).2 with position := target }) := by
  unfold fatLseek
  rw [wanted]

theorem fatLseek_nowhere (unknown : seekTarget offset whence file = none) :
    fatLseek offset whence d2 answer file = (none, file) := by
  unfold fatLseek
  rw [unknown]

theorem fatLseek_refused
    (refused : ¬ Accepted file (.lseek offset whence d2 answer)) :
    (fatLseek offset whence d2 answer file).1 = none := by
  cases wanted : seekTarget offset whence file with
  | none => rw [fatLseek_nowhere wanted]
  | some target =>
      have failed : (flseek file.fil target d2 answer).1 ≠ 0 := by
        by_cases met : file.fil.err = .FR_OK ∧ answer.error = none
        · rw [ne_eq, flseek_zero_iff met.1 met.2]
          exact fun rewinds => refused ⟨met.1, met.2, target, wanted, rewinds⟩
        · exact (flseek_refused met).1
      rw [fatLseek_goes wanted, if_pos failed]

theorem fatLseek_accepted (accepted : Accepted file (.lseek offset whence d2 answer)) :
    ∃ target, seekTarget offset whence file = some target ∧
      (fatLseek offset whence d2 answer file).1 = some target ∧
      (fatLseek offset whence d2 answer file).2.position = target ∧
      (fatLseek offset whence d2 answer file).2.privateData.size = file.privateData.size ∧
      (fatLseek offset whence d2 answer file).2.fil.fptr = 0 ∧
      (fatLseek offset whence d2 answer file).2.fil.data = file.fil.data := by
  obtain ⟨works, noError, target, wanted, rewinds⟩ := accepted
  obtain ⟨pointer, data⟩ := flseek_rewinds works noError rewinds
  have zero := (flseek_zero_iff works noError).mpr rewinds
  have result : fatLseek offset whence d2 answer file =
      (some target,
          { file.withFil (flseek file.fil target d2 answer).2 with position := target }) := by
    rw [fatLseek_goes wanted, if_neg (not_not_intro zero)]
  rw [result]
  exact ⟨target, wanted, rfl, rfl, rfl, pointer, data⟩

theorem fatLseek_coherent (accepted : Accepted file (.lseek offset whence d2 answer)) :
    Coherent (fatLseek offset whence d2 answer file).2 ↔
      seekTarget offset whence file = some 0 ∧ file.privateData.size = f_size file.fil := by
  obtain ⟨target, wanted, _, position, cached, pointer, data⟩ := fatLseek_accepted accepted
  have tells : f_tell (fatLseek offset whence d2 answer file).2.fil = 0 := by
    rw [f_tell, pointer]
    rfl
  have stays : f_size (fatLseek offset whence d2 answer file).2.fil = f_size file.fil := by
    rw [f_size, FIL.objsize, data]
    rfl
  rw [wanted, Option.some_inj]
  constructor
  · intro coherent
    have same := coherent.position
    have sizes := coherent.size
    rw [position, tells] at same
    rw [cached, stays] at sizes
    exact ⟨same, sizes⟩
  · rintro ⟨same, sizes⟩
    exact ⟨by rw [position, tells, same], by rw [cached, stays, sizes]⟩

theorem fatLseek_works (works : (fatLseek offset whence d2 answer file).2.fil.err = .FR_OK) :
    file.fil.err = .FR_OK := by
  cases wanted : seekTarget offset whence file with
  | none =>
      rw [fatLseek_nowhere wanted] at works
      exact works
  | some target =>
      rw [fatLseek_goes wanted] at works
      have there : (flseek file.fil target d2 answer).2.err = .FR_OK := by
        split at works <;> exact works
      by_contra broken
      have same := (flseek_refused (fun met => broken met.1)).2 there
      rw [same] at there
      exact broken there

theorem fatLseek_steady (steady : Steady file (.lseek offset whence d2 answer))
    (coherent : Coherent file)
    (works : (fatLseek offset whence d2 answer file).2.fil.err = .FR_OK) :
    Coherent (fatLseek offset whence d2 answer file).2 := by
  by_cases accepted : Accepted file (.lseek offset whence d2 answer)
  · refine (fatLseek_coherent accepted).mpr ⟨?_, coherent.size⟩
    obtain ⟨worked, noError, target, wanted, base, sought, zero⟩ := accepted
    obtain ⟨rfl, -⟩ | ⟨stays, away⟩ := steady target wanted base sought
    · exact wanted
    · rw [stays, f_tell_toNat] at zero
      have here : file.fil.fptr = 0 := (if_pos file.fil.within).symm.trans zero
      exact absurd (congrArg (BitVec.ofNat 32) here) away
  · have failed := fatLseek_refused accepted
    cases wanted : seekTarget offset whence file with
    | none =>
        rw [fatLseek_nowhere wanted]
        exact coherent
    | some target =>
        rw [fatLseek_goes wanted] at failed works ⊢
        by_cases zero : (flseek file.fil target d2 answer).1 ≠ 0
        · rw [if_pos zero] at works ⊢
          suffices same : (flseek file.fil target d2 answer).2 = file.fil by
            show Coherent (file.withFil _)
            rw [same]
            exact coherent
          by_cases met : file.fil.err = .FR_OK ∧ answer.error = none
          · by_cases sought : ∃ base, Sought file.fil target d2 base
            · obtain ⟨base, sought⟩ := sought
              rw [flseek_sought sought]
              obtain ⟨rfl, rfl⟩ | ⟨stays, -⟩ := steady target wanted base sought
              · rw [ne_eq, flseek_zero_iff met.1 met.2] at zero
                refine absurd ⟨0, sought, ?_⟩ zero
                exact if_pos (Nat.zero_le _)
              · rw [stays]
                exact f_lseek_tell met.1 met.2
            · rw [flseek_unsought (not_exists.mp sought)]
          · exact (flseek_refused met).2 works
        · rw [if_neg zero] at failed
          cases failed

/-! ## Runs -/

theorem perform_refused {call : Call} (refused : ¬ Accepted file call) :
    (perform file call).1 = none := by
  cases call with
  | read size answer => exact (fatRead_refused refused).1
  | write buffer seek answer => exact (fatWrite_refused refused).1
  | lseek offset whence d2 answer => exact fatLseek_refused refused

theorem perform_accepted {call : Call} (accepted : Accepted file call) :
    (perform file call).1 ≠ none := by
  cases call with
  | read size answer =>
    obtain ⟨n, result, _⟩ := fatRead_accepted accepted
    rw [perform, result]
    exact Option.some_ne_none _
  | write buffer seek answer =>
    obtain ⟨n, _, result, _⟩ := fatWrite_accepted accepted
    rw [perform, result]
    exact Option.some_ne_none _
  | lseek offset whence d2 answer =>
    obtain ⟨target, _, result, _⟩ := fatLseek_accepted accepted
    rw [perform, result]
    exact Option.some_ne_none _

theorem perform_succeeds_iff {call : Call} : (perform file call).1 ≠ none ↔ Accepted file call :=
  ⟨fun succeeds => by_contra fun refused => succeeds (perform_refused refused), perform_accepted⟩

/-- `SEEK_END` finds the real end of an empty file, and of no other. -/
theorem seekEnd_iff (works : file.fil.err = .FR_OK) (noError : answer.error = none) :
    ((fatLseek 0 2 d2 answer file).1 = some (f_size file.fil) ∧
        f_tell (fatLseek 0 2 d2 answer file).2.fil = f_size file.fil ∧
          (fatLseek 0 2 d2 answer file).2.fil.data = file.fil.data) ↔
      file.fil.objsize = 0 ∧ file.privateData.size = 0 ∧
        ∃ base, trapBase d2.toInt (f_tell file.fil) (f_size file.fil) = some base := by
  have wanted : seekTarget 0 2 file = some file.privateData.size := congrArg some (add_zero _)
  constructor
  · rintro ⟨result, tells, data⟩
    have accepted : Accepted file (.lseek 0 2 d2 answer) := by
      by_contra refused
      rw [fatLseek_refused refused] at result
      cases result
    obtain ⟨target, same, returned, _, _, pointer, _⟩ := fatLseek_accepted accepted
    obtain ⟨_, _, _, _, base, sought, _⟩ := accepted
    rw [f_tell, pointer] at tells
    have empty : file.fil.objsize = 0 := by
      rw [← f_size_toNat, ← tells]
      rfl
    refine ⟨empty, ?_, base, sought.known⟩
    rw [wanted] at same
    rw [Option.some_inj.mp same, Option.some_inj.mp (returned.symm.trans result), ← tells]
    rfl
  · rintro ⟨empty, cached, base, known⟩
    have size : f_size file.fil = 0 := congrArg (BitVec.ofNat 32) empty
    have tell : f_tell file.fil = 0 := by
      have within := file.fil.within
      change file.fil.fptr ≤ file.fil.objsize at within
      exact congrArg (BitVec.ofNat 32) (Nat.le_zero.mp (empty ▸ within))
    have zero : base = 0 := by
      rw [tell, size] at known
      exact trapBase_zero known
    subst zero
    have accepted : Accepted file (.lseek 0 2 d2 answer) :=
      ⟨works, noError, 0, by rw [wanted, cached], 0, ⟨known, by decide⟩, if_pos (Nat.zero_le _)⟩
    obtain ⟨target, same, returned, _, _, pointer, data⟩ := fatLseek_accepted accepted
    rw [wanted, cached] at same
    rw [returned, ← Option.some_inj.mp same, f_tell, pointer, size]
    exact ⟨rfl, rfl, data⟩

theorem perform_faithful_iff (file : File) (call : Call) :
    Faithful file call (perform file call).2 ↔ Keeps file call := by
  have appends : ∀ buffer seek answer, call = .write buffer seek answer →
      (perform file call).1 ≠ none → f_tell file.fil = f_size file.fil →
        ∃ n, (perform file call).1 = some (BitVec.ofNat 32 n) ∧
          (perform file call).2.fil.data = file.fil.data ++ buffer.take n := by
    rintro buffer seek answer rfl succeeds atEnd
    obtain ⟨n, _, result, _, _, _, _, data⟩ := fatWrite_accepted (perform_succeeds_iff.mp succeeds)
    refine ⟨n, result, data ?_⟩
    have ends : file.fil.fptr = file.fil.objsize :=
      (ofNat_inj_of_lt (FIL.fptr_lt _) file.fil.small).mp atEnd
    unfold writeBase
    split
    · rfl
    · exact ends
  constructor
  · intro faithful
    have coherent := faithful.coherent
    rw [perform_succeeds_iff] at coherent
    cases call with
    | read size answer =>
        exact fun accepted => (fatRead_coherent accepted).mp (coherent accepted)
    | write buffer seek answer =>
        exact fun accepted => (fatWrite_coherent accepted).mp (coherent accepted)
    | lseek offset whence d2 answer =>
        refine ⟨fun accepted => (fatLseek_coherent accepted).mp (coherent accepted), ?_⟩
        rintro rfl rfl works noError
        exact (seekEnd_iff works noError).mp (faithful.seekEnd d2 answer rfl works noError)
  · intro keeps
    refine ⟨fun succeeds => ?_, ?_, appends⟩
    · have accepted := perform_succeeds_iff.mp succeeds
      cases call with
      | read size answer => exact (fatRead_coherent accepted).mpr (keeps accepted)
      | write buffer seek answer => exact (fatWrite_coherent accepted).mpr (keeps accepted)
      | lseek offset whence d2 answer =>
          exact (fatLseek_coherent accepted).mpr (keeps.1 accepted)
    · rintro d2 answer rfl works noError
      exact (seekEnd_iff works noError).mpr (keeps.2 rfl rfl works noError)

theorem Accepted.works {call : Call} (accepted : Accepted file call) : file.fil.err = .FR_OK := by
  cases call <;> exact accepted.1

theorem File.grow_mode (file : File) : file.grow.privateData.mode = file.privateData.mode := by
  unfold File.grow
  split <;> rfl

theorem perform_mode (file : File) (call : Call) :
    (perform file call).2.privateData.mode = file.privateData.mode := by
  cases call with
  | read size answer =>
      rw [perform, fatRead]
      dsimp only
      split <;> rfl
  | write buffer seek answer =>
      rw [perform, fatWrite]
      dsimp only
      split
      · rfl
      · exact File.grow_mode _
  | lseek offset whence d2 answer =>
      rw [perform, fatLseek]
      split
      · rfl
      · dsimp only
        split <;> rfl

/-- A descriptor that does not append, and agrees with FatFs while the object works. -/
structure Settled (file : File) : Prop where
  plain : ¬ file.appending
  coherent : file.fil.err = .FR_OK → Coherent file

theorem Settled.step {call : Call} (settled : Settled file) (steady : Steady file call) :
    Settled (perform file call).2 where
  plain := by
    unfold File.appending
    rw [perform_mode]
    exact settled.plain
  coherent works := by
    by_cases accepted : Accepted file call
    · have coherent := settled.coherent (Accepted.works accepted)
      cases call with
      | read size answer => exact (fatRead_coherent accepted).mpr coherent
      | write buffer seek answer =>
          refine (fatWrite_coherent accepted).mpr ⟨?_, .inl coherent.size⟩
          rw [writeBase, if_neg settled.plain]
          exact coherent.position
      | lseek offset whence d2 answer => exact fatLseek_steady steady coherent works
    · cases call with
      | read size answer =>
          have same := (fatRead_refused accepted).2 works
          rw [perform] at works ⊢
          rw [same] at works ⊢
          exact settled.coherent works
      | write buffer seek answer =>
          have same := (fatWrite_refused accepted).2 settled.plain works
          rw [perform] at works ⊢
          rw [same] at works ⊢
          exact settled.coherent works
      | lseek offset whence d2 answer =>
          exact fatLseek_steady steady (settled.coherent (fatLseek_works works)) works

/-- Without `FA_SEEKEND` a file is opened at its start. -/
theorem f_open_tell {entry : Entry} {mode : Byte} {fails : Bool} {fil : FIL}
    (created : f_open entry mode fails = (.FR_OK, some fil)) (plain : mode &&& FA_OPEN_APPEND = 0) :
    f_tell fil = 0 := by
  have start : mode &&& FA_SEEKEND = 0 := by
    unfold FA_OPEN_APPEND at plain
    unfold FA_SEEKEND
    have part : (0x30 : Byte) &&& 0x20 = 0x20 := by decide
    rw [← part, ← BitVec.and_assoc, plain]
    exact BitVec.zero_and
  have first (data : List Byte) (small : data.length < 2 ^ 32) :
      f_tell (FatDescriptor.opened mode data small) = 0 :=
    congrArg (BitVec.ofNat 32) (if_pos start)
  unfold f_open at created
  repeat' split at created
  all_goals cases created
  all_goals exact first _ _

theorem settled_opened {entry : Entry} {flags : BitVec 32} {fails : Bool}
    (opened : fatOpen entry flags fails = some file) (plain : ¬ file.appending) :
    Settled file := by
  refine ⟨plain, fun _ => ?_⟩
  unfold fatOpen at opened
  split at opened
  · next fil created =>
      cases opened
      exact ⟨(f_open_tell created (not_not.mp plain)).symm, rfl⟩
  · cases opened

def threeBytes : Entry where
  content := some [97, 98, 99]
  small := by
    rintro data ⟨⟩
    decide

/-- A volume with room for ten bytes. -/
def roomy : Answer where
  error := none
  room := 10
  filler := fun _ => 0

/-- In append mode the position is that of the bytes written, not that of FatFs. -/
example :
    (fatOpen threeBytes (O_RDWR ||| O_APPEND) false).bind (fun file =>
      let file := (fatWrite [100] roomy roomy file).2
      some (file.position, f_tell file.fil, file.privateData.size, f_size file.fil)) =
      some (1, 4, 3, 4) := by
  decide

end OrionBios.FatDescriptor
