import OrionBios.Transition.Runs
import OrionBios.Vfs.Lifecycle
import OrionBios.Vfs.Shell

/-!
# The descriptor table over whole shell runs

A line that performs no redirection leaves heap, FatFs files and descriptor table
as they were, so the table `vfs_init` builds survives any number of such lines. A
line that does redirect aliases or frees the `File` of a standard descriptor.
-/

namespace OrionBios.Vfs

open Transition

/-- One call of `execute_line`: the line, and what lies on the stack behind its copy. -/
structure Line where
  text : List Char
  stack : List Char

def step (s : State) (line : Line) : Option State :=
  some (executeLine line.text line.stack s).2

def ttyPath : Path := "/dev/tty".toList

/-- The descriptor table as every part of the shell relies on it. -/
structure Sound (s : State) : Prop where
  standard : ∀ fd < 3, ∃ file, s.fdTable fd = some file ∧ Serves s ttyPath file
  live : ∀ fd < 256, ∀ file, s.fdTable fd = some file →
    ∃ content, lookup s file = some (.file content)
  single : ∀ fd < 256, ∀ other < 256, ∀ file, s.fdTable fd = some file →
    s.fdTable other = some file → fd = other

def openDescriptors (s : State) : List Nat :=
  (List.range 256).filter fun fd => (s.fdTable fd).isSome

def liveFiles (s : State) : Nat :=
  s.heap.countP fun entry => entry.2.isFile

/-- What a line has to leave: a sound table with the same open descriptors and the same
number of `File` objects. -/
def LineKeeps (before : State) (_line : Line) (after : State) : Prop :=
  Sound after ∧ openDescriptors after = openDescriptors before ∧
    liveFiles after = liveFiles before

/-- The line has no redirection, or the first file it would redirect to does not open. -/
def RedirectsNothing (s : State) (line : Line) : Prop :=
  match scanLine line.text line.stack with
  | .empty => True
  | .heredoc => True
  | .redirections found =>
    found.words = [] ∨
      match found.inputFile with
      | some path => (vfsOpen path O_RDONLY s).1 = none
      | none =>
          found.mode = .none ∨ (vfsOpen found.redirectFile found.mode.flags s).1 = none

/-! ## Lines without redirection -/

theorem Serves.of_same {s t : State} {path : Path} {file : Nat} (same : SameResources s t)
    (serves : Serves s path file) : Serves t path file := by
  have lookupEq : ∀ address, lookup t address = lookup s address := by
    intro address
    rw [lookup, same.heap, lookup]
  unfold Serves
  simp only [lookupEq, same.fatOpened]
  exact serves

theorem Sound.of_same {s t : State} (sound : Sound s) (same : SameResources s t) : Sound t := by
  have lookupEq : ∀ address, lookup t address = lookup s address := by
    intro address
    rw [lookup, same.heap, lookup]
  constructor
  · intro fd small
    obtain ⟨file, entry, serves⟩ := sound.standard fd small
    exact ⟨file, by rw [same.fdTable]; exact entry, serves.of_same same⟩
  · intro fd small file entry
    rw [lookupEq]
    rw [same.fdTable] at entry
    exact sound.live fd small file entry
  · rw [same.fdTable]
    exact sound.single

theorem withOpened_same {path : Path} {flags : Nat} {failed : Int} {s : State} (fresh : Fresh s)
    (freeFd : HasFreeFd s) : SameResources s (withOpened path flags failed s).2 := by
  unfold withOpened
  cases attempt : vfsOpen path flags s with
  | mk result t =>
    rcases vfsOpen_cases fresh freeFd attempt with ⟨rfl, same⟩ | ⟨fd, rfl, opened⟩
    · exact same
    · exact opened.closed

theorem askFat_same (s : State) : SameResources s (askFat s).2 := by
  cases answer : s.outcome s.asked with
  | true => simpa [askFat, ask, answer] using Silent.sameResources ⟨_, rfl⟩
  | false => simpa [askFat, ask, answer] using Silent.sameResources ⟨_, rfl⟩

theorem Command.run_same (command : Command) {argv : List (List Char)} {s : State}
    (fresh : Fresh s) (freeFd : HasFreeFd s) : SameResources s (command.run argv s).2 := by
  cases command with
  | help => exact SameResources.refl s
  | echo => exact SameResources.refl s
  | cat =>
      simp only [Command.run]
      split
      · exact SameResources.refl s
      · exact withOpened_same fresh freeFd
  | ls => exact askFat_same s
  | cd => exact SameResources.refl s
  | mkdir =>
      simp only [Command.run]
      split
      · exact SameResources.refl s
      · exact askFat_same s
  | reboot => exact SameResources.refl s
  | shutdown => exact SameResources.refl s
  | meminfo => exact withOpened_same fresh freeFd
  | clear => exact withOpened_same fresh freeFd
  | exit => exact SameResources.refl s

theorem runCommand_same (argv : List (List Char)) {s : State} (fresh : Fresh s)
    (freeFd : HasFreeFd s) : SameResources s (runCommand argv s).2 := by
  unfold runCommand
  split
  next _path command _found => exact command.run_same fresh freeFd
  next _unknown => exact SameResources.refl s

theorem executeRedirected_same {found : Redirections} {s : State} (fresh : Fresh s)
    (freeFd : HasFreeFd s)
    (plain : found.mode = .none ∨ (vfsOpen found.redirectFile found.mode.flags s).1 = none) :
    SameResources s (executeRedirected found none s).2 := by
  unfold executeRedirected
  by_cases noMode : found.mode = .none
  · simp only [if_pos noMode]
    exact runCommand_same found.words fresh freeFd
  · have refused := plain.resolve_left noMode
    simp only [if_neg noMode]
    cases attempt : vfsOpen found.redirectFile found.mode.flags s with
    | mk result t =>
      rw [attempt] at refused
      obtain rfl : result = none := refused
      rcases vfsOpen_cases fresh freeFd attempt with ⟨_, same⟩ | ⟨fd, impossible, _⟩
      · exact same
      · cases impossible

theorem executeLine_same {line : Line} {s : State} (fresh : Fresh s) (freeFd : HasFreeFd s)
    (plain : RedirectsNothing s line) :
    SameResources s (executeLine line.text line.stack s).2 := by
  unfold RedirectsNothing at plain
  unfold executeLine
  cases scanned : scanLine line.text line.stack with
  | empty => exact SameResources.refl s
  | heredoc => exact SameResources.refl s
  | redirections found =>
      simp only [scanned] at plain
      cases input : found.inputFile with
      | none =>
          simp only [input] at plain ⊢
          by_cases noWords : found.words = []
          · rw [if_pos noWords]
            exact SameResources.refl s
          · rw [if_neg noWords]
            exact executeRedirected_same fresh freeFd (plain.resolve_left noWords)
      | some path =>
          simp only [input] at plain ⊢
          cases attempt : vfsOpen path O_RDONLY s with
          | mk result t =>
            rcases vfsOpen_cases fresh freeFd attempt with ⟨rfl, same⟩ | ⟨fd, rfl, opened⟩
            · exact same
            · rcases plain with noWords | refused
              · simp only [noWords, if_true]
                exact opened.closed
              · rw [attempt] at refused
                cases refused

/-! ## What `vfs_init` builds -/

theorem Opened.fresh {path : Path} {fd : Nat} {s t : State} (opened : Opened path fd s t)
    (fresh : Fresh s) : Fresh t := by
  obtain ⟨added, above, heapEq⟩ := opened.blocks
  obtain ⟨addedFat, aboveFat, fatEq⟩ := opened.fatFiles
  constructor
  · intro entry member
    rw [heapEq] at member
    rcases List.mem_append.mp member with new | old
    · exact (above entry new).2
    · exact (fresh.heap entry old).trans opened.nextAddr
  · intro entry member
    rw [fatEq] at member
    rcases List.mem_append.mp member with new | old
    · exact (aboveFat entry new).2
    · exact (fresh.fatOpened entry old).trans opened.nextAddr

theorem Fresh.lookup_lt {s : State} (fresh : Fresh s) {address : Nat} {object : Object}
    (found : lookup s address = some object) : address < s.nextAddr := by
  obtain ⟨entry, isFound, _⟩ := Option.map_eq_some_iff.mp found
  have isAddress := List.find?_some isFound
  simp only [decide_eq_true_eq] at isAddress
  rw [← isAddress]
  exact fresh.heap entry (List.mem_of_find?_eq_some isFound)

theorem Opened.lookup {path : Path} {fd : Nat} {s t : State} (opened : Opened path fd s t)
    {address : Nat} (below : address < s.nextAddr) :
    Vfs.lookup t address = Vfs.lookup s address := by
  obtain ⟨added, above, heapEq⟩ := opened.blocks
  exact lookup_append heapEq (fun entry member => (above entry member).1) below

/-- Later opens leave an open `File` at work. -/
theorem Opened.serves_before {path other : Path} {fd file : Nat} {s t : State}
    (opened : Opened path fd s t) (fresh : Fresh s) (serves : Serves s other file) :
    Serves t other file := by
  obtain ⟨content, found, kind⟩ := serves
  have foundT : Vfs.lookup t file = some (.file content) := by
    rw [opened.lookup (fresh.lookup_lt found), found]
  refine ⟨content, foundT, ?_⟩
  rcases kind with driver | ⟨priv, fatFile, mode, isFat, hasPriv, block, remembered⟩
  · exact .inl driver
  · obtain ⟨addedFat, _, fatEq⟩ := opened.fatFiles
    refine .inr ⟨priv, fatFile, mode, isFat, hasPriv, ?_, ?_⟩
    · rw [opened.lookup (fresh.lookup_lt block), block]
    · rw [fatEq]
      exact List.mem_append_right _ remembered

/-- The state between two lines: nothing is open beyond the standard descriptors. -/
structure Settled (s : State) : Prop where
  fresh : Fresh s
  spare : ∀ fd, 3 ≤ fd → s.fdTable fd = none
  sound : Sound s

theorem Settled.hasFreeFd {s : State} (settled : Settled s) : HasFreeFd s :=
  ⟨3, by simp, settled.spare 3 (le_refl 3)⟩

theorem Settled.of_same {s t : State} (settled : Settled s) (same : SameResources s t) :
    Settled t := by
  refine ⟨same.fresh settled.fresh, ?_, settled.sound.of_same same⟩
  rw [same.fdTable]
  exact settled.spare

/-- A table with exactly three different open `File` objects, all for the terminal. -/
theorem settled_of_three {s : State} {file0 file1 file2 : Nat} (fresh : Fresh s)
    (table : s.fdTable = fun fd =>
      if fd = 0 then some file0 else if fd = 1 then some file1
      else if fd = 2 then some file2 else none)
    (less : file0 < file1 ∧ file1 < file2)
    (serves : ∀ file, file = file0 ∨ file = file1 ∨ file = file2 → Serves s ttyPath file) :
    Settled s := by
  have entries : ∀ fd file, s.fdTable fd = some file →
      (fd = 0 ∧ file = file0) ∨ (fd = 1 ∧ file = file1) ∨ (fd = 2 ∧ file = file2) := by
    intro fd file entry
    rw [table] at entry
    grind
  refine ⟨fresh, ?_, ?_, ?_, ?_⟩
  · intro fd three
    rw [table]
    grind
  · intro fd small
    have cases : fd = 0 ∨ fd = 1 ∨ fd = 2 := by omega
    rcases cases with rfl | rfl | rfl
    · exact ⟨file0, by rw [table]; rfl, serves file0 (.inl rfl)⟩
    · exact ⟨file1, by rw [table]; rfl, serves file1 (.inr (.inl rfl))⟩
    · exact ⟨file2, by rw [table]; rfl, serves file2 (.inr (.inr rfl))⟩
  · intro fd _ file entry
    have known : file = file0 ∨ file = file1 ∨ file = file2 := by
      rcases entries fd file entry with ⟨_, h⟩ | ⟨_, h⟩ | ⟨_, h⟩
      · exact .inl h
      · exact .inr (.inl h)
      · exact .inr (.inr h)
    obtain ⟨content, found, _⟩ := serves file known
    exact ⟨content, found⟩
  · intro fd _ other _ file entry otherEntry
    have first := entries fd file entry
    have second := entries other file otherEntry
    omega

theorem moveFd_heap (fd target : Nat) (s : State) :
    (moveFd fd target s).heap = s.heap ∧ (moveFd fd target s).fatOpened = s.fatOpened ∧
      (moveFd fd target s).nextAddr = s.nextAddr := by
  unfold moveFd
  split <;> simp [setFd]

theorem moveFd_fdTable {fd target : Nat} (differs : fd ≠ target) (s : State) :
    (moveFd fd target s).fdTable =
      Function.update (Function.update s.fdTable target (s.fdTable fd)) fd none := by
  rw [moveFd, if_pos differs]
  rfl

/-- The three moves of `vfs_init`, from any three different descriptors above 2. -/
theorem moveFd_three {s : State} {fd0 fd1 fd2 file0 file1 file2 : Nat}
    (range : 3 ≤ fd0 ∧ 3 ≤ fd1 ∧ 3 ≤ fd2) (apart : fd1 ≠ fd0 ∧ fd2 ≠ fd0 ∧ fd2 ≠ fd1)
    (table : s.fdTable = Function.update (Function.update (Function.update (fun _ => none)
      fd0 (some file0)) fd1 (some file1)) fd2 (some file2)) :
    (moveFd fd2 2 (moveFd fd1 1 (moveFd fd0 0 s))).fdTable = fun fd =>
      if fd = 0 then some file0 else if fd = 1 then some file1
      else if fd = 2 then some file2 else none := by
  have ne0 : fd0 ≠ 0 := by omega
  have ne1 : fd1 ≠ 1 := by omega
  have ne2 : fd2 ≠ 2 := by omega
  rw [moveFd_fdTable ne2, moveFd_fdTable ne1, moveFd_fdTable ne0, table]
  funext fd
  simp only [Function.update_apply]
  grind

theorem vfsInit_settled {outcome : Nat → Bool} {s : State}
    (init : vfsInit (boot outcome) = some s) : Settled s := by
  have fresh0 : Fresh (boot outcome) := by
    constructor <;> simp [boot]
  have freeFd : ∀ (u : State) (fd other : Nat) (first second : Option Nat),
      u.fdTable = Function.update (Function.update (fun _ => none) fd first) other second →
        HasFreeFd u := by
    intro u fd other first second table
    -- three descriptors are enough to find one that is neither of the two in use
    have pick : ∃ spare, (spare = 3 ∨ spare = 4 ∨ spare = 5) ∧ spare ≠ fd ∧ spare ≠ other := by
      by_cases three : 3 ≠ fd ∧ 3 ≠ other
      · exact ⟨3, .inl rfl, three⟩
      · by_cases four : 4 ≠ fd ∧ 4 ≠ other
        · exact ⟨4, .inr (.inl rfl), four⟩
        · exact ⟨5, .inr (.inr rfl), by omega, by omega⟩
    obtain ⟨spare, which, notFd, notOther⟩ := pick
    refine ⟨spare, List.mem_range'_1.mpr (by omega), ?_⟩
    rw [table, Function.update_of_ne notOther, Function.update_of_ne notFd]
  unfold vfsInit at init
  have start : ({ boot outcome with fdTable := fun _ => none, fdCount := 0 } : State) =
    boot outcome := rfl
  simp only [start] at init
  cases open0 : vfsOpen "/dev/tty".toList O_RDWR (boot outcome) with
  | mk result0 s1 =>
  simp only [open0] at init
  cases open1 : vfsOpen "/dev/tty".toList O_RDWR s1 with
  | mk result1 s2 =>
  simp only [open1] at init
  cases open2 : vfsOpen "/dev/tty".toList O_RDWR s2 with
  | mk result2 s3 =>
  simp only [open2] at init
  split at init
  next fd0 fd1 fd2 =>
    have table0 : (boot outcome).fdTable = fun _ => none := rfl
    obtain ⟨_, same0, opened0⟩ := (vfsOpen_cases fresh0
      (freeFd _ 3 3 none none (by simp [table0])) open0).resolve_left (by simp)
    cases same0
    have fresh1 := opened0.fresh fresh0
    have table1 := opened0.fdTable
    rw [table0] at table1
    obtain ⟨_, same1, opened1⟩ := (vfsOpen_cases fresh1
      (freeFd _ fd0 fd0 none _ (by rw [table1, Function.update_idem])) open1).resolve_left (by simp)
    cases same1
    have fresh2 := opened1.fresh fresh1
    have table2 := opened1.fdTable
    rw [table1] at table2
    obtain ⟨_, same2, opened2⟩ := (vfsOpen_cases fresh2
      (freeFd _ fd0 fd1 _ _ table2) open2).resolve_left (by simp)
    cases same2
    have fresh3 := opened2.fresh fresh2
    have table3 := opened2.fdTable
    rw [table2] at table3
    have apart1 : fd1 ≠ fd0 := by
      intro equal
      have taken := opened1.wasFree
      rw [table1, equal, Function.update_self] at taken
      cases taken
    have apart2 : fd2 ≠ fd0 ∧ fd2 ≠ fd1 := by
      have taken := opened2.wasFree
      rw [table2] at taken
      constructor
      · intro equal
        rw [equal, Function.update_of_ne apart1.symm, Function.update_self] at taken
        cases taken
      · intro equal
        rw [equal, Function.update_self] at taken
        cases taken
    have serves3 : ∀ file, file = (boot outcome).nextAddr ∨ file = s1.nextAddr ∨
        file = s2.nextAddr → Serves s3 ttyPath file := by
      intro file which
      rcases which with rfl | rfl | rfl
      · exact opened2.serves_before fresh2 (opened1.serves_before fresh1 opened0.serves)
      · exact opened2.serves_before fresh2 opened1.serves
      · exact opened2.serves
    have ranges := And.intro opened0.range.1 (And.intro opened1.range.1 opened2.range.1)
    have moved := moveFd_three ranges ⟨apart1, apart2⟩ table3
    rw [Option.some.injEq] at init
    subst s
    have heap0 := moveFd_heap fd0 0 s3
    have heap1 := moveFd_heap fd1 1 (moveFd fd0 0 s3)
    have heap2 := moveFd_heap fd2 2 (moveFd fd1 1 (moveFd fd0 0 s3))
    refine settled_of_three ?_ moved ⟨opened0.nextAddr, opened1.nextAddr⟩ ?_
    · constructor
      · rw [heap2.1, heap1.1, heap0.1, heap2.2.2, heap1.2.2, heap0.2.2]
        exact fresh3.heap
      · rw [heap2.2.1, heap1.2.1, heap0.2.1, heap2.2.2, heap1.2.2, heap0.2.2]
        exact fresh3.fatOpened
    · intro file which
      have serves := serves3 file which
      simpa only [Serves, lookup, heap0, heap1, heap2] using serves
  next => cases init

/-! ## Whole runs -/

theorem settled_step {s t : State} {line : Line} (settled : Settled s)
    (plain : RedirectsNothing s line) (taken : step s line = some t) :
    Settled t ∧ LineKeeps s line t := by
  have same : SameResources s t := by
    rw [← Option.some.inj taken]
    exact executeLine_same settled.fresh settled.hasFreeFd plain
  refine ⟨settled.of_same same, settled.sound.of_same same, ?_, ?_⟩
  · rw [openDescriptors, same.fdTable, openDescriptors]
  · rw [liveFiles, same.heap, liveFiles]

/-- From `vfs_init` on, while no line redirects, every line keeps the descriptor table. -/
theorem lines_keep_descriptorTable (outcome : Nat → Bool) (lines : List Line) (s : State)
    (init : vfsInit (boot outcome) = some s) (plain : Guarded step RedirectsNothing s lines) :
    Sound s ∧ EachStep step LineKeeps s lines := by
  have settled := vfsInit_settled init
  refine ⟨settled.sound, ?_⟩
  exact eachStep_of_guarded Settled
    (fun _ _ _ before guard taken => (settled_step before guard taken).1)
    (fun _ _ _ before guard taken => (settled_step before guard taken).2) settled plain

/-- Every allocation succeeds; FatFs opens everything but the terminal, which is asked
for at these four points of the run. -/
def redirectedOutcome (question : Nat) : Bool :=
  question ∉ [3, 7, 11, 20]

def redirectedLine : Line where
  text := "echo x > f".toList
  stack := []

/-- After `echo x > f`, descriptors 1 and 3 share the `File` of the reopened terminal. -/
theorem redirection_shares_terminal :
    ¬ ∀ (outcome : Nat → Bool) (lines : List Line) (s : State),
      vfsInit (boot outcome) = some s → EachStep step LineKeeps s lines := by
  intro always
  have shared : (vfsInit (boot redirectedOutcome)).all (fun s =>
      let t := (executeLine redirectedLine.text redirectedLine.stack s).2
      decide (t.fdTable 1 = some 14 ∧ t.fdTable 3 = some 14)) = true := by
    decide +kernel
  have started : (vfsInit (boot redirectedOutcome)).isSome = true := by decide +kernel
  obtain ⟨s, init⟩ := Option.isSome_iff_exists.mp started
  rw [init, Option.all_some, decide_eq_true_eq] at shared
  have keeps := always redirectedOutcome [redirectedLine] s init
  have sound := (keeps _ rfl).1.1
  have equal := sound.single 1 (by omega) 3 (by omega) 14 shared.1 shared.2
  omega

/-- Two lines after `vfs_init`: a `cat` that opens its file, and a comment. -/
theorem lines_keep_descriptorTable_plain :
    ∃ s, vfsInit (boot redirectedOutcome) = some s ∧
      EachStep step LineKeeps s [⟨"cat f".toList, []⟩, ⟨"# > f".toList, []⟩] := by
  have started : (vfsInit (boot redirectedOutcome)).isSome = true := by decide +kernel
  obtain ⟨s, init⟩ := Option.isSome_iff_exists.mp started
  refine ⟨s, init, (lines_keep_descriptorTable redirectedOutcome _ s init ?_).2⟩
  have plain : (∀ u, RedirectsNothing u ⟨"cat f".toList, []⟩) ∧
      ∀ u, RedirectsNothing u ⟨"# > f".toList, []⟩ := by
    have scanned : scanLine "cat f".toList [] = .redirections
        { mode := .none, redirectFile := "cat f".toList, inputFile := none,
          words := ["cat".toList, "f".toList] } := by decide +kernel
    have comment : scanLine "# > f".toList [] = .empty := by decide +kernel
    constructor
    · intro u
      simp only [RedirectsNothing, scanned]
      exact .inr (.inl trivial)
    · intro u
      simp only [RedirectsNothing, comment]
  exact ⟨plain.1 s, fun t _ => ⟨plain.2 t, fun _ _ => trivial⟩⟩

end OrionBios.Vfs
