import OrionBios.FatDescriptor.Coherence

/-!
# The open modes

`fat_open` tests the three access modes as if each had bits of its own, and makes one FatFs mode
of two flags: with `FA_CREATE_ALWAYS` it creates a missing file and empties an existing one.
-/

namespace OrionBios.FatDescriptor

open Transition

def contentAfter (entry : Entry) (flags : BitVec 32) (fails : Bool) : Option (List Byte) :=
  match (f_open entry (fatMode flags) fails).2 with
  | some fil => some fil.data
  | none => entry.content

/-- What the flags promise for a file or the lack of one. -/
structure OpenModes (entry : Entry) (flags : BitVec 32) : Prop where
  /-- `O_RDONLY` alone changes nothing, and neither does any later write. -/
  readOnly : flags = O_RDONLY → (∀ fails, contentAfter entry flags fails = entry.content) ∧
    ∀ fails file, fatOpen entry flags fails = some file →
      ∀ calls last, exec callStep file calls = some last → ∀ buffer seek answer,
        (fatWrite buffer seek answer last).1 = none ∧
          ((fatWrite buffer seek answer last).2.fil.err = .FR_OK →
            (fatWrite buffer seek answer last).2.fil.data = last.fil.data)
  preserves : flags &&& O_WRONLY ≠ 0 → flags &&& O_TRUNC = 0 → entry.content ≠ none →
    ∀ fails, contentAfter entry flags fails = entry.content
  empties : flags &&& O_TRUNC ≠ 0 → contentAfter entry flags false = some []
  creates : flags &&& O_CREAT ≠ 0 → entry.content = none → contentAfter entry flags false = some []
  missing : flags &&& O_CREAT = 0 → flags &&& O_TRUNC = 0 → flags &&& O_APPEND = 0 →
    entry.content = none → ∀ fails, fatOpen entry flags fails = none
  /-- Whatever the calls before, a write puts its bytes behind the file. -/
  appends : flags &&& O_APPEND ≠ 0 → ∀ fails file, fatOpen entry flags fails = some file →
    ∀ calls last, exec callStep file calls = some last → ∀ buffer seek answer written,
      (fatWrite buffer seek answer last).1 = some written → ∃ n, written = BitVec.ofNat 32 n ∧
        (fatWrite buffer seek answer last).2.fil.data = last.fil.data ++ buffer.take n

/-! ## The FatFs mode -/

/-- One step of `fat_open` on the mode. -/
theorem test_or (asked : Prop) [Decidable asked] (mode bits mask : Byte) :
    (if asked then mode ||| bits else mode) &&& mask ≠ 0 ↔
      mode &&& mask ≠ 0 ∨ asked ∧ bits &&& mask ≠ 0 := by
  by_cases here : asked
  · have zero : mode &&& mask ||| bits &&& mask = 0 ↔ mode &&& mask = 0 ∧ bits &&& mask = 0 :=
      BitVec.or_eq_zero_iff
    rw [if_pos here, BitVec.and_comm, BitVec.and_or_distrib_left, BitVec.and_comm mask,
      BitVec.and_comm mask, ne_eq, zero, not_and_or, and_iff_right here]
  · rw [if_neg here, or_iff_left fun both => here both.1]

theorem fatMode_test (flags : BitVec 32) (mask : Byte) :
    fatMode flags &&& mask ≠ 0 ↔
      flags &&& O_RDONLY ≠ 0 ∧ FA_READ &&& mask ≠ 0 ∨
      flags &&& O_WRONLY ≠ 0 ∧ FA_WRITE &&& mask ≠ 0 ∨
      flags &&& O_RDWR ≠ 0 ∧ (FA_READ ||| FA_WRITE) &&& mask ≠ 0 ∨
      flags &&& O_CREAT ≠ 0 ∧ FA_CREATE_ALWAYS &&& mask ≠ 0 ∨
      flags &&& O_TRUNC ≠ 0 ∧ FA_CREATE_ALWAYS &&& mask ≠ 0 ∨
      flags &&& O_APPEND ≠ 0 ∧ FA_OPEN_APPEND &&& mask ≠ 0 := by
  have start : ¬ (0 : Byte) &&& mask ≠ 0 := fun other => other BitVec.zero_and
  unfold fatMode
  rw [test_or, test_or, test_or, test_or, test_or, test_or, or_assoc, or_assoc, or_assoc, or_assoc,
    or_assoc, or_iff_right start]

theorem fatMode_create (flags : BitVec 32) :
    fatMode flags &&& FA_CREATE_ALWAYS ≠ 0 ↔ flags &&& O_CREAT ≠ 0 ∨ flags &&& O_TRUNC ≠ 0 := by
  rw [fatMode_test]
  have read : ¬ FA_READ &&& FA_CREATE_ALWAYS ≠ 0 := by decide
  have write : ¬ FA_WRITE &&& FA_CREATE_ALWAYS ≠ 0 := by decide
  have both : ¬ (FA_READ ||| FA_WRITE) &&& FA_CREATE_ALWAYS ≠ 0 := by decide
  have create : (FA_CREATE_ALWAYS &&& FA_CREATE_ALWAYS ≠ 0) = True := eq_true (by decide)
  have append : ¬ FA_OPEN_APPEND &&& FA_CREATE_ALWAYS ≠ 0 := by decide
  simp only [read, write, both, append, create, and_false, and_true, false_or, or_false]

theorem fatMode_openAlways (flags : BitVec 32) :
    fatMode flags &&& FA_OPEN_ALWAYS ≠ 0 ↔ flags &&& O_APPEND ≠ 0 := by
  rw [fatMode_test]
  have read : ¬ FA_READ &&& FA_OPEN_ALWAYS ≠ 0 := by decide
  have write : ¬ FA_WRITE &&& FA_OPEN_ALWAYS ≠ 0 := by decide
  have both : ¬ (FA_READ ||| FA_WRITE) &&& FA_OPEN_ALWAYS ≠ 0 := by decide
  have create : ¬ FA_CREATE_ALWAYS &&& FA_OPEN_ALWAYS ≠ 0 := by decide
  have append : (FA_OPEN_APPEND &&& FA_OPEN_ALWAYS ≠ 0) = True := eq_true (by decide)
  simp only [read, write, both, append, create, and_false, and_true, false_or]

theorem fatMode_append (flags : BitVec 32) :
    fatMode flags &&& FA_OPEN_APPEND ≠ 0 ↔ flags &&& O_APPEND ≠ 0 := by
  rw [fatMode_test]
  have read : ¬ FA_READ &&& FA_OPEN_APPEND ≠ 0 := by decide
  have write : ¬ FA_WRITE &&& FA_OPEN_APPEND ≠ 0 := by decide
  have both : ¬ (FA_READ ||| FA_WRITE) &&& FA_OPEN_APPEND ≠ 0 := by decide
  have create : ¬ FA_CREATE_ALWAYS &&& FA_OPEN_APPEND ≠ 0 := by decide
  have append : (FA_OPEN_APPEND &&& FA_OPEN_APPEND ≠ 0) = True := eq_true (by decide)
  simp only [read, write, both, append, create, and_false, and_true, false_or]

/-! ## The file after the open -/

theorem f_open_create (entry : Entry) {mode : Byte} (creates : mode &&& FA_CREATE_ALWAYS ≠ 0) :
    ∃ small, f_open entry mode false = (.FR_OK, some (opened mode [] small)) := by
  refine ⟨by decide, ?_⟩
  rw [f_open, if_neg Bool.false_ne_true, if_pos creates]

theorem f_open_existing {entry : Entry} {mode : Byte} {data : List Byte}
    (keeps : ¬ mode &&& FA_CREATE_ALWAYS ≠ 0) (existing : entry.content = some data) :
    ∃ small, f_open entry mode false = (.FR_OK, some (opened mode data small)) := by
  refine ⟨entry.small data existing, ?_⟩
  obtain ⟨content, small⟩ := entry
  cases existing
  rw [f_open, if_neg Bool.false_ne_true, if_neg keeps]

theorem f_open_absent {entry : Entry} {mode : Byte} (keeps : ¬ mode &&& FA_CREATE_ALWAYS ≠ 0)
    (absent : entry.content = none) :
    ∃ small, f_open entry mode false =
      if mode &&& FA_OPEN_ALWAYS ≠ 0 then (.FR_OK, some (opened mode [] small))
      else (.FR_NO_FILE, none) := by
  refine ⟨by decide, ?_⟩
  obtain ⟨content, small⟩ := entry
  cases absent
  rw [f_open, if_neg Bool.false_ne_true, if_neg keeps]

/-- The file is emptied or created where a creation flag stands, and created for `O_APPEND`. -/
theorem contentAfter_eq (entry : Entry) (flags : BitVec 32) :
    contentAfter entry flags false =
      if flags &&& O_CREAT ≠ 0 ∨ flags &&& O_TRUNC ≠ 0 then some []
      else if entry.content = none ∧ flags &&& O_APPEND ≠ 0 then some []
      else entry.content := by
  have create := fatMode_create flags
  have always := fatMode_openAlways flags
  unfold contentAfter
  by_cases creates : fatMode flags &&& FA_CREATE_ALWAYS ≠ 0
  · obtain ⟨small, result⟩ := f_open_create entry creates
    rw [result, if_pos (create.mp creates)]
    rfl
  · rw [if_neg fun asked => creates (create.mpr asked)]
    cases existing : entry.content with
    | some data =>
        obtain ⟨small, result⟩ := f_open_existing creates existing
        rw [result, if_neg fun absent => Option.some_ne_none _ absent.1]
        rfl
    | none =>
        obtain ⟨small, result⟩ := f_open_absent creates existing
        rw [result]
        by_cases appends : fatMode flags &&& FA_OPEN_ALWAYS ≠ 0
        · rw [if_pos appends, if_pos ⟨rfl, always.mp appends⟩]
          rfl
        · rw [if_neg appends, if_neg fun both => appends (always.mpr both.2)]

theorem contentAfter_fails (entry : Entry) (flags : BitVec 32) :
    contentAfter entry flags true = entry.content := by
  rw [contentAfter, f_open, if_pos rfl]

theorem fatOpen_missing {entry : Entry} {flags : BitVec 32} (absent : entry.content = none)
    (creat : flags &&& O_CREAT = 0) (trunc : flags &&& O_TRUNC = 0) (append : flags &&& O_APPEND = 0)
    (fails : Bool) : fatOpen entry flags fails = none := by
  have creates : ¬ fatMode flags &&& FA_CREATE_ALWAYS ≠ 0 := fun asked =>
    ((fatMode_create flags).mp asked).elim (fun other => other creat) fun other => other trunc
  have always : ¬ fatMode flags &&& FA_OPEN_ALWAYS ≠ 0 := fun asked =>
    (fatMode_openAlways flags).mp asked append
  unfold fatOpen
  cases fails with
  | true => rfl
  | false =>
      obtain ⟨small, result⟩ := f_open_absent creates absent
      rw [result, if_neg always]

/-! ## Later writes -/

theorem mode_of_run {file last : File} {calls : List Call}
    (run : exec callStep file calls = some last) :
    last.privateData.mode = file.privateData.mode := by
  refine invariant_of_run (fun f => f.privateData.mode = file.privateData.mode) ?_ rfl run
  intro f call next same taken
  cases taken
  rw [perform_mode]
  exact same

theorem opened_mode {entry : Entry} {flags : BitVec 32} {fails : Bool} {file : File}
    (opened : fatOpen entry flags fails = some file) : file.privateData.mode = fatMode flags := by
  unfold fatOpen at opened
  split at opened
  · cases opened
    rfl
  · cases opened

theorem appended {file : File} (appending : file.appending) {buffer : List Byte}
    {seek answer : Answer} {written : BitVec 32}
    (result : (fatWrite buffer seek answer file).1 = some written) :
    ∃ n, written = BitVec.ofNat 32 n ∧
      (fatWrite buffer seek answer file).2.fil.data = file.fil.data ++ buffer.take n := by
  have accepted : Accepted file (.write buffer seek answer) := by
    by_contra refused
    rw [(fatWrite_refused refused).1] at result
    cases result
  obtain ⟨n, _, count, _, _, _, _, data⟩ := fatWrite_accepted accepted
  rw [result] at count
  exact ⟨n, Option.some.inj count, data (if_pos appending)⟩

/-! ## The promises -/

/-- The descriptor of an existing file that was opened with `O_RDONLY` alone can be written to. -/
theorem readOnly_writes {entry : Entry} (existing : entry.content ≠ none) :
    ∃ file, fatOpen entry O_RDONLY false = some file ∧ ∃ answer,
      (fatWrite [0] answer answer file).1 ≠ none := by
  obtain ⟨data, existing⟩ := Option.ne_none_iff_exists'.mp existing
  obtain ⟨small, result⟩ := f_open_existing
    (show ¬ fatMode O_RDONLY &&& FA_CREATE_ALWAYS ≠ 0 by decide) existing
  let file : File :=
    { position := 0
      privateData :=
        { fatFile := opened (fatMode O_RDONLY) data small
          mode := fatMode O_RDONLY
          size := f_size (opened (fatMode O_RDONLY) data small) } }
  let answer : Answer :=
    { error := none
      room := 1
      filler := fun _ => 0 }
  refine ⟨file, ?_, answer, ?_⟩
  · rw [fatOpen, result]
  · have accepted : Accepted file (.write [0] answer answer) :=
      ⟨rfl, by show fatMode O_RDONLY &&& FA_WRITE ≠ 0; decide, rfl, fun _ => rfl⟩
    obtain ⟨n, _, written, _⟩ := fatWrite_accepted accepted
    rw [written]
    exact Option.some_ne_none _

end OrionBios.FatDescriptor
