import OrionBios.Commands.BiosShell
import OrionBios.Vfs.ProgramName

/-!
# Which command lines stay in the arrays of the commands

Each array is filled from its start with a text made of the argument, and for the
directory commands of the current path. The stores stay inside exactly when the text
and its terminator do.
-/

namespace OrionBios.Commands

open Libc Buffers

/-! ## The BIOS shell -/

/-- The current path with the separator the directory commands put behind it. -/
def separated (syspath : List Char) (below : Char) : List Char :=
  if syspath.getLastD below ≠ '/' then syspath ++ ['/'] else syspath

/-- What a command is to find in the array. -/
def LocalArray.content (array : LocalArray) (syspath : List Char) (below : Char)
    (argument : List Char) : List Char :=
  match array with
  | .arquivo | .text => argument
  | .mkdirPath | .rmdirPath =>
    (separated syspath below ++ argument).modifyHead driveDigit

/-- The command line's call keeps to its array. -/
def BiosKeeps (line syspath : BoundedString 128) (below : Char) (stack : Nat → Char) : Prop :=
  ∀ call, executeCmd line.text = some call →
    ∀ array filled, call.format syspath.text below stack = some (array, filled) →
      filled.Holds array.size (array.content syspath.text below (call.argv.headD []))

/-- The longest argument each command has room for. -/
def Call.Fits (call : Call) (syspath : List Char) (below : Char) : Prop :=
  match call.function with
  | .doCat => (call.argv.headD []).length ≤ 15
  | .doWritemem1 => (call.argv.headD []).length ≤ 63
  | .doMkdirShel | .doRmdir =>
    (separated syspath below).length + (call.argv.headD []).length ≤ 127
  | _ => True

def BiosFits (line syspath : BoundedString 128) (below : Char) : Prop :=
  ∀ call, executeCmd line.text = some call → call.Fits syspath.text below

/-! ### The call -/

theorem executeCmd_call {line : List Char} {call : Call} (called : executeCmd line = some call) :
    ∃ entry ∈ gCmdTable, entry.function = call.function ∧ entry.minArgs ≤ call.argv.length := by
  unfold executeCmd at called
  split at called
  · cases called
  dsimp only at called
  split at called
  · cases called
  unfold processCommandBuiltin at called
  dsimp only at called
  split at called
  · cases called
  obtain ⟨entry, found, called⟩ := Option.bind_eq_some_iff.mp called
  split at called
  next accepted =>
    cases called
    refine ⟨entry, List.mem_of_find?_eq_some found, rfl, ?_⟩
    rw [List.length_tail]
    exact accepted.1
  next => cases called

theorem writemem1_arguments {line : List Char} {call : Call} (called : executeCmd line = some call)
    (function : call.function = .doWritemem1) : 2 ≤ call.argv.length := by
  obtain ⟨entry, member, same, enough⟩ := executeCmd_call called
  have two : ∀ entry ∈ gCmdTable, entry.function = .doWritemem1 → entry.minArgs = 2 := by decide
  rw [two entry member (same.trans function)] at enough
  exact enough

/-! ### The arrays -/

theorem inside_initial (stack : Nat → Char) (size : Nat) :
    ∀ offset ∈ (Local.initial stack).written, offset < size :=
  fun _ member => absurd member List.not_mem_nil

theorem doWritemem1_holds_iff {argv : List (List Char)} (enough : 2 ≤ argv.length)
    (stack : Nat → Char) :
    (doWritemem1 argv (Local.initial stack)).Holds 64 (argv.headD []) ↔
      (argv.headD []).length ≤ 63 := by
  rw [doWritemem1, if_neg (Nat.not_lt.mpr enough)]
  constructor
  · intro holds
    obtain ⟨_, none | fits⟩ := Local.inside_store.mp holds.inside
    · cases none
    · exact Nat.le_of_succ_le_succ fits
  · intro fits
    refine ⟨Local.inside_store.mpr ⟨?_, .inr (Nat.succ_le_succ fits)⟩, Local.begins_store.store _⟩
    rw [Local.memcpy, Local.inside_store, Nat.zero_add]
    exact ⟨inside_initial stack 64, .inr (Nat.le_succ_of_le fits)⟩

/-- The path array once the current path and the separator stand in it: behind them it is cleared
to its end. -/
structure Started (path : Local) (text : List Char) : Prop where
  inside : ∀ offset ∈ path.written, offset < 128
  begins : path.Begins text
  cleared : ∀ offset, text.length ≤ offset → offset < 128 → path.cells offset = '\x00'

theorem started_strcpy {syspath : List Char} (short : syspath.length < 128) (stack : Nat → Char) :
    Started (((Local.initial stack).memset '\x00' 128).strcpy syspath) syspath := by
  refine ⟨?_, Local.begins_store.of_append, ?_⟩
  · rw [Local.strcpy, Local.inside_store, Local.memset, Local.inside_store]
    refine ⟨⟨inside_initial stack 128, .inr ?_⟩, .inr ?_⟩
    · rw [List.length_replicate]
    · rw [List.length_append]
      exact (Nat.zero_add _).trans_le short
  · intro offset le less
    by_cases terminator : offset = syspath.length
    · have begins : (((Local.initial stack).memset '\x00' 128).strcpy syspath).Begins
          (syspath ++ ['\x00']) := Local.begins_store
      have stands : offset < (syspath ++ ['\x00']).length := by
        rw [List.length_append, List.length_singleton]
        omega
      rw [begins.getElem stands]
      simp [terminator]
    · have behind : 0 + (syspath ++ ['\x00']).length ≤ offset := by
        rw [List.length_append, List.length_singleton]
        omega
      have inside : offset < (List.replicate 128 '\x00').length := by
        rw [List.length_replicate]
        exact less
      have cleared := @Local.cells_store_inside (Local.initial stack) 0 offset _ inside
      rw [Nat.zero_add, List.getElem_replicate] at cleared
      rw [Local.strcpy, Local.cells_store, bufferWrite_behind behind]
      exact cleared

theorem started_startPath {syspath : List Char} (noTerminator : '\x00' ∉ syspath)
    (short : syspath.length < 128) (below : Char) (stack : Nat → Char) :
    Started (startPath syspath below (Local.initial stack)) (separated syspath below) := by
  have started := started_strcpy short stack
  unfold startPath separated
  dsimp only
  generalize ((Local.initial stack).memset '\x00' 128).strcpy syspath = path at started ⊢
  obtain ⟨inside, begins, cleared⟩ := started
  have last : (if syspath.length = 0 then below else path.cells (syspath.length - 1)) =
      syspath.getLastD below := by
    by_cases empty : syspath = []
    · subst empty
      rfl
    · have positive := List.length_pos_iff.mpr empty
      rw [if_neg (Nat.ne_of_gt positive), begins.getElem (Nat.sub_lt positive Nat.one_pos),
        List.getLastD_eq_getLast?, List.getLast?_eq_some_getLast empty, Option.getD_some,
        List.getLast_eq_getElem]
  rw [last]
  split
  · have ends := cleared syspath.length (Nat.le_refl _) short
    rw [begins.strlen_eq noTerminator (by omega) ends]
    refine ⟨Local.inside_store.mpr ⟨inside, .inr short⟩, begins.store ['/'], ?_⟩
    intro offset le less
    rw [Local.cells_store, bufferWrite_behind (by rwa [List.length_append] at le)]
    rw [List.length_append] at le
    exact cleared offset (Nat.le_of_add_right_le le) less
  · exact ⟨inside, begins, cleared⟩

/-- Giving the drive its digit changes the first character only. -/
theorem placeDigit_begins {path : Local} {text : List Char}
    (begins : path.Begins (text ++ ['\x00'])) :
    (placeDigit path).Begins (text.modifyHead driveDigit ++ ['\x00']) := by
  cases text with
  | nil =>
      have first : path.cells 0 = '\x00' := begins.getElem (by simp)
      have outside : ¬('A' ≤ path.cells 0 ∧ path.cells 0 ≤ 'I') := by
        rw [first]
        decide
      rw [placeDigit, if_neg outside]
      exact begins
  | cons letter rest =>
      have first : path.cells 0 = letter := begins.getElem (by simp)
      rw [placeDigit, first]
      split
      · exact begins.overwrite (driveDigit letter)
      next outside =>
        have same : driveDigit letter = letter := if_neg outside
        rw [List.modifyHead_cons, same]
        exact begins

theorem placeDigit_written (path : Local) (offset : Nat) (inside : offset ∈ path.written) :
    offset ∈ (placeDigit path).written := by
  unfold placeDigit
  split
  · exact Local.mem_written_store.mpr (.inl inside)
  · exact inside

theorem placeDigit_inside {path : Local} (inside : ∀ offset ∈ path.written, offset < 128) :
    ∀ offset ∈ (placeDigit path).written, offset < 128 := by
  unfold placeDigit
  split
  · exact Local.inside_store.mpr ⟨inside, .inr (by simp)⟩
  · exact inside

theorem separated_noTerminator {syspath : List Char} (noTerminator : '\x00' ∉ syspath)
    (below : Char) : '\x00' ∉ separated syspath below := by
  unfold separated
  split
  · intro member
    rcases List.mem_append.mp member with inside | last
    · exact noTerminator inside
    · rw [List.mem_singleton] at last
      cases last
  · exact noTerminator

theorem separated_length_le (syspath : List Char) (below : Char) :
    (separated syspath below).length ≤ syspath.length + 1 := by
  unfold separated
  split
  · rw [List.length_append, List.length_singleton]
  · exact Nat.le_succ _

theorem formatPath_holds_iff {syspath argument : List Char} (noTerminator : '\x00' ∉ syspath)
    (short : syspath.length < 128) (below : Char) (stack : Nat → Char) :
    (formatPath syspath below argument (Local.initial stack)).Holds 128
        ((separated syspath below ++ argument).modifyHead driveDigit) ↔
      (separated syspath below).length + argument.length ≤ 127 := by
  obtain ⟨inside, begins, cleared⟩ := started_startPath noTerminator short below stack
  have noTerminator' := separated_noTerminator noTerminator below
  have bounded := separated_length_le syspath below
  rw [formatPath]
  generalize startPath syspath below (Local.initial stack) = path at inside begins cleared ⊢
  generalize separated syspath below = text at begins cleared noTerminator' bounded ⊢
  constructor
  · -- the terminator stands at least as far behind as the two texts are long
    intro holds
    have le := begins.le_strlen noTerminator' (by omega)
    have terminator : path.strlen + argument.length ∈ (path.strcat argument).written :=
      Local.mem_written_store.mpr (.inr ⟨Nat.le_add_right _ _, by simp⟩)
    have last := holds.inside _ (placeDigit_written _ _ terminator)
    omega
  · intro fits
    have ends := cleared text.length (Nat.le_refl _) (by omega)
    have length := begins.strlen_eq noTerminator' (by omega) ends
    refine ⟨placeDigit_inside ?_, placeDigit_begins ?_⟩
    · rw [Local.strcat, Local.inside_store, length, List.length_append, List.length_singleton]
      exact ⟨inside, .inr (by omega)⟩
    · rw [Local.strcat, length, List.append_assoc]
      exact begins.store _

theorem call_keeps_iff {line : List Char} {call : Call} (called : executeCmd line = some call)
    (syspath : BoundedString 128) (below : Char) (stack : Nat → Char) :
    (∀ array filled, call.format syspath.text below stack = some (array, filled) →
      filled.Holds array.size (array.content syspath.text below (call.argv.headD []))) ↔
      call.Fits syspath.text below := by
  have only : ∀ {array : LocalArray} {filled : Local} {property : LocalArray → Local → Prop},
      (∀ other last, some (array, filled) = some (other, last) → property other last) ↔
        property array filled := by
    intro array filled property
    refine ⟨fun all => all array filled rfl, fun holds other last same => ?_⟩
    cases same
    exact holds
  unfold Call.format Call.Fits
  cases function : call.function
  case doCat =>
    rw [only]
    exact (Local.holds_sprintf stack).trans Nat.lt_succ_iff
  case doWritemem1 =>
    rw [only]
    exact doWritemem1_holds_iff (writemem1_arguments called function) stack
  case doMkdirShel =>
    rw [only]
    exact formatPath_holds_iff syspath.noTerminator syspath.fits below stack
  case doRmdir =>
    rw [only]
    exact formatPath_holds_iff syspath.noTerminator syspath.fits below stack
  all_goals exact ⟨fun _ => trivial, fun _ _ _ none => absurd none.symm (Option.some_ne_none _)⟩

theorem biosKeeps_iff (line syspath : BoundedString 128) (below : Char) (stack : Nat → Char) :
    BiosKeeps line syspath below stack ↔ BiosFits line syspath below := by
  constructor
  · intro keeps call called
    exact (call_keeps_iff called syspath below stack).mp (keeps call called)
  · intro fits call called
    exact (call_keeps_iff called syspath below stack).mpr (fits call called)

/-! ## The shell of the VFS -/

/-- The line's command keeps to the array for a program's name. -/
def VfsKeeps (line stack : List Char) (s : Vfs.State) (memory : Nat → Char) : Prop :=
  ∀ words result, Vfs.commandResult line stack s = some (words, result) →
    ∀ buf, Vfs.programName words result memory = some buf →
      buf.Holds 16 (words.headD [] ++ ['*'])

/-- A command that is reached is named with at most 14 characters. -/
def VfsFits (line stack : List Char) (s : Vfs.State) : Prop :=
  ∀ words result, Vfs.commandResult line stack s = some (words, result) →
    (words.headD []).length ≤ 14

theorem vfsKeeps_iff (line stack : List Char) (s : Vfs.State) (memory : Nat → Char) :
    VfsKeeps line stack s memory ↔ VfsFits line stack s := by
  constructor
  · intro keeps words result reached
    exact (Vfs.programName_holds_iff reached memory).mp (keeps words result reached)
  · intro fits words result reached
    exact (Vfs.programName_holds_iff reached memory).mpr (fits words result reached)

/-! ## Both shells -/

/-- Over every command line, current path and contents of the stack, the arrays of the commands
hold their strings exactly when the argument, with the path or the suffix, is short enough. -/
theorem command_arrays_hold_iff (line syspath : BoundedString 128) (below : Char)
    (memory : Nat → Char) (vfsLine stack : List Char) (s : Vfs.State) :
    (BiosKeeps line syspath below memory ↔ BiosFits line syspath below) ∧
      (VfsKeeps vfsLine stack s memory ↔ VfsFits vfsLine stack s) :=
  ⟨biosKeeps_iff line syspath below memory, vfsKeeps_iff vfsLine stack s memory⟩

/-- A file in a directory, with 16 characters. -/
def catLine : BoundedString 128 where
  text := "cat /apps/editor.elf".toList
  noTerminator := by decide
  fits := by decide

def rootPath : BoundedString 128 where
  text := "A:/".toList
  noTerminator := by decide
  fits := by decide

/-- The 16 characters of the file name and their terminator go into an array of 16. -/
theorem cat_overruns :
    ¬ ∀ (line syspath : BoundedString 128) (below : Char) (memory : Nat → Char)
      (vfsLine stack : List Char) (s : Vfs.State), vfsLine.length ≤ 255 →
        BiosKeeps line syspath below memory ∧ VfsKeeps vfsLine stack s memory := by
  intro always
  have keeps := (always catLine rootPath '/' (fun _ => '\x00') [] []
    (Vfs.boot fun _ => true) (Nat.zero_le _)).1
  have called : executeCmd catLine.text =
      some { function := .doCat, argv := ["/apps/editor.elf".toList] } := by decide
  have fits := (call_keeps_iff called rootPath '/' fun _ => '\x00').mp (keeps _ called)
  exact absurd fits (show ¬16 ≤ 15 by decide)

end OrionBios.Commands
