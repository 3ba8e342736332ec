import OrionBios.Vfs.Lifecycle

/-!
# An open that fails

`vfs_open` gives back all it took, or finds no free descriptor for a file that it has opened.
Where each `free` is of a block that is still allocated, the checked functions below answer as
the ones they check.
-/

namespace OrionBios.Vfs

/-! ## Checked frees -/

/-- `free` of NULL, or of a block that is allocated. -/
def freeOnce (pointer : Option Nat) (s : State) : Option State :=
  match pointer with
  | none => some s
  | some address => if (lookup s address).isSome then some (free (some address) s) else none

def fatOpenOnce (file : Nat) (name : Option Nat) (path : Path) (flags : Nat) (s : State) :
    Option (Bool × State) :=
  match malloc .fil s with
  | (none, s) => some (false, s)
  | (some fatFile, s) =>
    match fopen fatFile path (fatMode flags) s with
    | (false, s) => (freeOnce (some fatFile) s).map fun s => (false, s)
    | (true, s) =>
      match malloc (.fatPrivate fatFile (fatMode flags)) s with
      | (none, s) => (freeOnce (some fatFile) (fclose fatFile s)).map fun s => (false, s)
      | (some priv, s) =>
        some (true, store file (.file { name := name, privateData := some priv, ops := some .fat }) s)

/-- The end of a `vfs_open` that returns -1. -/
def releaseOnce (file : Nat) (name : Option Nat) (s : State) : Option (Option Nat × State) :=
  (freeOnce name s).bind fun s => (freeOnce (some file) s).map fun s => (none, s)

def vfsOpenOnce (path : Path) (flags : Nat) (s : State) : Option (Option Nat × State) :=
  match malloc (.file { name := none, privateData := none, ops := none }) s with
  | (none, s) => some (none, s)
  | (some file, s) =>
    let (name, s) := malloc (.text path) s
    let s := store file (.file { name := name, privateData := none, ops := none }) s
    (fatOpenOnce file name path flags s).bind fun
      | (true, s) =>
        match allocateFd file s with
        | (some fd, s) => some (some fd, s)
        | (none, s) => releaseOnce file name s
      | (false, s) =>
        match openDriver file name path drivers s with
        | (some fd, s) => some (some fd, s)
        | (none, s) => releaseOnce file name s

/-! ## The rule -/

/-- The call changes nothing when it fails, frees no block twice, and takes one descriptor when
it succeeds. -/
structure AtomicOpen (path : Path) (flags : Nat) (s : State) : Prop where
  failed : (vfsOpen path flags s).1 = none → SameResources s (vfsOpen path flags s).2
  freed : vfsOpenOnce path flags s = some (vfsOpen path flags s)
  opened : ∀ fd, (vfsOpen path flags s).1 = some fd →
    s.fdTable fd = none ∧ ((vfsOpen path flags s).2.fdTable fd).isSome ∧
      ∀ other, other ≠ fd → (vfsOpen path flags s).2.fdTable other = s.fdTable other

/-- The answer to question `n` of the call: 0 for the `File` and 1 for its name; 2, 3 and 4 for
the FIL, for FatFs and for the private block. -/
def granted (s : State) (n : Nat) : Bool := s.outcome (s.asked + n)

def FatGrants (s : State) : Prop :=
  granted s 2 = true ∧ granted s 3 = true ∧ granted s 4 = true

/-- The questions of a `fat_open` that fails. -/
def fatQuestions (s : State) : Nat :=
  if granted s 2 = false then 1 else if granted s 3 = false then 2 else 3

def IsProc (path : Path) : Prop := ∃ driver, (path, driver) ∈ drivers ∧ driver.isProc

/-- The descriptor is asked for when a FatFs file is open or a `/proc` file is allocated. -/
def Takes (path : Path) (s : State) : Prop :=
  granted s 0 = true ∧ (FatGrants s ∨ IsProc path ∧ granted s (2 + fatQuestions s) = true)

/-! ## Live blocks -/

def Live (s : State) (address : Nat) : Prop := address ∈ s.heap.map Prod.fst

theorem lookup_isSome {s : State} {address : Nat} (live : Live s address) :
    (lookup s address).isSome = true := by
  obtain ⟨entry, among, same⟩ := List.mem_map.mp live
  rw [lookup, Option.isSome_map, List.find?_isSome]
  exact ⟨entry, among, decide_eq_true same⟩

theorem freeOnce_live {s : State} {pointer : Option Nat}
    (live : ∀ address, pointer = some address → Live s address) :
    freeOnce pointer s = some (free pointer s) := by
  cases pointer with
  | none =>
      rw [freeOnce, free, freeHeap_none]
  | some address => exact if_pos (lookup_isSome (live address rfl))

theorem storeHeap_addresses (address : Nat) (object : Object) (heap : List (Nat × Object)) :
    (storeHeap address object heap).map Prod.fst = heap.map Prod.fst := by
  induction heap with
  | nil => rfl
  | cons entry rest inductionHypothesis =>
      rw [storeHeap_cons, List.map_cons, List.map_cons, inductionHypothesis]
      congr 1
      split
      next hit => exact hit.symm
      next => rfl

theorem Live.store {s : State} {address other : Nat} {object : Object} (live : Live s address) :
    Live (store other object s) address := by
  show address ∈ (storeHeap other object s.heap).map Prod.fst
  rw [storeHeap_addresses]
  exact live

theorem Live.malloc {s : State} {address : Nat} (object : Object) (live : Live s address) :
    Live (malloc object s).2 address := by
  rcases malloc_cases object s with taken | refused
  · rw [taken]
    exact List.mem_cons_of_mem _ live
  · rw [refused]
    exact live

theorem Live.freeOther {s : State} {address : Nat} {pointer : Option Nat} (live : Live s address)
    (other : pointer ≠ some address) : Live (free pointer s) address := by
  obtain ⟨entry, among, same⟩ := List.mem_map.mp live
  refine List.mem_map.mpr ⟨entry, List.mem_filter.mpr ⟨among, ?_⟩, same⟩
  rw [decide_eq_true_eq, same]
  exact fun equal => other equal.symm

theorem Live.allocateFd {s : State} {address : Nat} (file : Nat) (live : Live s address) :
    Live (allocateFd file s).2 address := by
  unfold Vfs.allocateFd
  split
  · exact live
  · exact live

theorem Live.procOpen {s : State} {address : Nat} {driver : Driver} {file : Nat}
    {name : Option Nat} (live : Live s address) : Live (procOpen driver file name s).2 address := by
  unfold Vfs.procOpen
  have taken := live.malloc (.procData none)
  generalize Vfs.malloc (.procData none) s = result at taken
  obtain ⟨pointer, t⟩ := result
  cases pointer with
  | none => exact taken
  | some data =>
      have counted : Live (countUptime driver t) address := taken
      exact ((counted.malloc _).store).store

theorem Live.openBy {s : State} {address : Nat} (driver : Driver) (file : Nat) (name : Option Nat)
    (live : Live s address) : Live (driver.open file name s).2 address := by
  cases driver with
  | meminfo | cpuinfo | uptime => exact live.procOpen
  | fat | tty | null | zero | serial => exact live.store

theorem Live.openDriver {address : Nat} (file : Nat) (name : Option Nat) (path : Path)
    (table : List (Path × Driver)) {s : State} (live : Live s address) :
    Live (openDriver file name path table s).2 address := by
  induction table generalizing s with
  | nil => exact live
  | cons entry rest inductionHypothesis =>
      obtain ⟨driverPath, driver⟩ := entry
      unfold Vfs.openDriver
      split
      · have opened := live.openBy driver file name
        generalize driver.open file name s = result at opened
        obtain ⟨ok, t⟩ := result
        cases ok with
        | false => exact inductionHypothesis opened
        | true =>
            have allocated := opened.allocateFd file
            dsimp only
            generalize Vfs.allocateFd file t = result at allocated
            obtain ⟨fd, u⟩ := result
            cases fd with
            | some fd => exact allocated
            | none => exact inductionHypothesis allocated
      · exact inductionHypothesis live

theorem Live.fopen {s : State} {address : Nat} (fatFile : Nat) (path : Path) (mode : Nat) (live : Live s address) :
    Live (fopen fatFile path mode s).2 address := by
  rcases fopen_cases fatFile path mode s with opened | missing
  · rw [opened]
    exact live
  · rw [missing]
    exact live

theorem Live.fatOpen {s : State} {address : Nat} (file : Nat) (name : Option Nat) (path : Path)
    (flags : Nat) (fresh : Fresh s) (live : Live s address) :
    Live (fatOpen file name path flags s).2 address := by
  cases attempt : Vfs.fatOpen file name path flags s with
  | mk ok t =>
    cases ok with
    | false =>
        have same := (fatOpen_false fresh attempt).heap
        show address ∈ t.heap.map Prod.fst
        rw [same]
        exact live
    | true =>
        obtain ⟨taken, opened, kept⟩ : ∃ u object, Live u address ∧ t = Vfs.store file object u := by
          unfold Vfs.fatOpen at attempt
          have fil := live.malloc .fil
          generalize Vfs.malloc .fil s = result at fil attempt
          obtain ⟨fatFile | fatFile, u⟩ := result
          · simp at attempt
          · have opened := fil.fopen fatFile path (fatMode flags)
            dsimp only at attempt
            generalize Vfs.fopen fatFile path (fatMode flags) u = result at opened attempt
            obtain ⟨ok, v⟩ := result
            cases ok with
            | false => simp at attempt
            | true =>
                have priv := opened.malloc (.fatPrivate fatFile (fatMode flags))
                dsimp only at attempt
                generalize Vfs.malloc (.fatPrivate fatFile (fatMode flags)) v = result
                  at priv attempt
                obtain ⟨priv | priv, w⟩ := result
                · simp at attempt
                · exact ⟨w, _, ‹_›, (Prod.mk.inj attempt).2.symm⟩
        rw [kept.2]
        exact kept.1.store

/-! ## No block is freed twice -/

theorem fatOpenOnce_eq (file : Nat) (name : Option Nat) (path : Path) (flags : Nat) (s : State) :
    fatOpenOnce file name path flags s = some (fatOpen file name path flags s) := by
  unfold fatOpenOnce fatOpen
  rcases malloc_cases .fil s with taken | refused
  · rw [taken]
    dsimp only
    rcases fopen_cases s.nextAddr path (fatMode flags)
        { s with
          asked := s.asked + 1
          nextAddr := s.nextAddr + 1
          heap := (s.nextAddr, .fil) :: s.heap } with opened | missing
    · rw [opened]
      dsimp only
      rcases malloc_cases (.fatPrivate s.nextAddr (fatMode flags))
          { s with
            asked := s.asked + 1 + 1
            nextAddr := s.nextAddr + 1
            heap := (s.nextAddr, .fil) :: s.heap
            fatOpened := (s.nextAddr, path, fatMode flags) :: s.fatOpened } with taken' | refused'
      · rw [taken']
      · rw [refused']
        dsimp only
        rw [freeOnce_live]
        · rfl
        · rintro address same
          cases same
          exact List.mem_cons_self
    · rw [missing]
      dsimp only
      rw [freeOnce_live]
      · rfl
      · rintro address same
        cases same
        exact List.mem_cons_self
  · rw [refused]

theorem releaseOnce_eq {file : Nat} {name : Option Nat} {s : State} (live : Live s file)
    (named : ∀ address, name = some address → Live s address) (apart : name ≠ some file) :
    releaseOnce file name s = some (none, free (some file) (free name s)) := by
  rw [releaseOnce, freeOnce_live named, Option.bind_some, freeOnce_live]
  · rfl
  · rintro address same
    cases same
    exact live.freeOther apart

theorem vfsOpenPrepared_once {file : Nat} {name : Option Nat} {path : Path} {flags : Nat} {p : State}
    (fresh : Fresh p) (live : Live p file) (named : ∀ address, name = some address → Live p address)
    (apart : name ≠ some file) :
    ((fatOpenOnce file name path flags p).bind fun
      | (true, s) =>
        match allocateFd file s with
        | (some fd, s) => some (some fd, s)
        | (none, s) => releaseOnce file name s
      | (false, s) =>
        match openDriver file name path drivers s with
        | (some fd, s) => some (some fd, s)
        | (none, s) => releaseOnce file name s) =
      some (vfsOpenPrepared file name path flags p) := by
  rw [fatOpenOnce_eq, Option.bind_some]
  unfold vfsOpenPrepared
  have liveAfter := live.fatOpen file name path flags fresh
  have namedAfter := fun address same => (named address same).fatOpen file name path flags fresh
  generalize fatOpen file name path flags p = result at liveAfter namedAfter
  obtain ⟨ok, t⟩ := result
  cases ok with
  | true =>
      have liveLast := liveAfter.allocateFd file
      have namedLast := fun address same => (namedAfter address same).allocateFd file
      dsimp only
      generalize allocateFd file t = result at liveLast namedLast
      obtain ⟨fd | fd, u⟩ := result
      · exact releaseOnce_eq liveLast namedLast apart
      · rfl
  | false =>
      have liveLast := liveAfter.openDriver file name path drivers
      have namedLast := fun address same => (namedAfter address same).openDriver file name path drivers
      dsimp only
      generalize openDriver file name path drivers t = result at liveLast namedLast
      obtain ⟨fd | fd, u⟩ := result
      · exact releaseOnce_eq liveLast namedLast apart
      · rfl

theorem vfsOpenOnce_eq (path : Path) (flags : Nat) {s : State} (fresh : Fresh s) :
    vfsOpenOnce path flags s = some (vfsOpen path flags s) := by
  unfold vfsOpenOnce vfsOpen
  cases answer : s.outcome s.asked with
  | false =>
    rw [malloc_refused _ answer]
  | true =>
    rw [malloc_granted _ answer]
    dsimp only
    generalize taken : ({ s with
      asked := s.asked + 1
      nextAddr := s.nextAddr + 1
      heap := (s.nextAddr, .file { name := none, privateData := none, ops := none }) ::
        s.heap } : State) = base
    have freshBase : Fresh base := by
      subst base
      constructor
      · intro entry among
        rcases List.mem_cons.mp among with rfl | old
        · exact Nat.lt_succ_self _
        · exact Nat.lt_succ_of_lt (fresh.heap entry old)
      · exact fun entry among => Nat.lt_succ_of_lt (fresh.fatOpened entry among)
    have liveBase : Live base s.nextAddr := by
      subst base
      exact List.mem_cons_self
    have next : base.nextAddr = s.nextAddr + 1 := by rw [← taken]
    have freshStored : ∀ object t, Fresh t → Fresh (store s.nextAddr object t) :=
      fun object t fresh => ⟨storeHeap_below object fresh.heap, fresh.fatOpened⟩
    rcases malloc_cases (.text path) base with named | unnamed
    · rw [named]
      refine vfsOpenPrepared_once (freshStored _ _ ⟨?_, ?_⟩) (Live.store ?_) ?_ ?_
      · intro entry among
        rcases List.mem_cons.mp among with rfl | old
        · exact Nat.lt_succ_self _
        · exact Nat.lt_succ_of_lt (freshBase.heap entry old)
      · exact fun entry among => Nat.lt_succ_of_lt (freshBase.fatOpened entry among)
      · exact List.mem_cons_of_mem _ liveBase
      · rintro address same
        cases same
        exact Live.store List.mem_cons_self
      · rw [next]
        exact fun same => Nat.succ_ne_self _ (Option.some.inj same)
    · rw [unnamed]
      refine vfsOpenPrepared_once (freshStored _ _ ⟨freshBase.heap, freshBase.fatOpened⟩)
        (Live.store liveBase) ?_ ?_
      · rintro address same
        cases same
      · exact fun same => by cases same

/-! ## Without a free descriptor -/

theorem allocateFd_full {s : State} (full : ¬ HasFreeFd s) (file : Nat) :
    allocateFd file s = (none, s) := by
  unfold allocateFd
  split
  next fd search =>
    have isNone := List.find?_some search
    exact absurd ⟨fd, List.mem_of_find?_eq_some search, of_decide_eq_true isNone⟩ full
  next => rfl

/-- What `fat_open` answers, and how many questions a failing one has asked. -/
theorem fatOpen_questions (file : Nat) (name : Option Nat) (path : Path) (flags : Nat) (s : State) :
    (fatOpen file name path flags s).1 =
        (s.outcome s.asked && s.outcome (s.asked + 1) && s.outcome (s.asked + 2)) ∧
      (fatOpen file name path flags s).2.outcome = s.outcome ∧
      ((fatOpen file name path flags s).1 = false → (fatOpen file name path flags s).2.asked =
        s.asked + if s.outcome s.asked = false then 1
          else if s.outcome (s.asked + 1) = false then 2 else 3) := by
  cases fil : s.outcome s.asked with
  | false => simp [fatOpen, malloc, ask, fil]
  | true =>
    cases opened : s.outcome (s.asked + 1) with
    | false => simp [fatOpen, malloc, ask, fopen, fil, opened, free]
    | true =>
      cases priv : s.outcome (s.asked + 2) with
      | false => simp [fatOpen, malloc, ask, fopen, fil, opened, priv, free, fclose]
      | true => simp [fatOpen, malloc, ask, fopen, fil, opened, priv, store]

/-- A `fat_open` that succeeds leaves a FatFs file open. -/
theorem fatOpen_leaves {file : Nat} {name : Option Nat} {path : Path} {flags : Nat} {s t : State}
    (opened : fatOpen file name path flags s = (true, t)) :
    t.fatOpened.length = s.fatOpened.length + 1 := by
  unfold fatOpen at opened
  rcases malloc_cases .fil s with taken | refused
  · simp only [taken] at opened
    rcases fopen_cases s.nextAddr path (fatMode flags)
        { s with
          asked := s.asked + 1
          nextAddr := s.nextAddr + 1
          heap := (s.nextAddr, .fil) :: s.heap } with accepted | missing
    · simp only [accepted] at opened
      rcases malloc_cases (.fatPrivate s.nextAddr (fatMode flags))
          { s with
            asked := s.asked + 1 + 1
            nextAddr := s.nextAddr + 1
            heap := (s.nextAddr, .fil) :: s.heap
            fatOpened := (s.nextAddr, path, fatMode flags) :: s.fatOpened } with taken' | refused'
      · simp only [taken', Prod.mk.injEq, true_and] at opened
        subst t
        rfl
      · simp [refused'] at opened
    · simp [missing] at opened
  · simp [refused] at opened

/-- The three `/proc` files allocate a block; the other drivers only fill in the `File`. -/
theorem Driver.open_eq (driver : Driver) (file : Nat) (name : Option Nat) (s : State) :
    driver.open file name s = if driver.isProc then procOpen driver file name s
      else (true, store file (.file { name := name, privateData := none, ops := some driver }) s) := by
  cases driver <;> rfl

/-- A `/proc` file that is allocated stays allocated, and is none of the blocks before. -/
theorem procOpen_granted (driver : Driver) (file : Nat) (name : Option Nat) {s : State}
    (answer : s.outcome s.asked = true) :
    (procOpen driver file name s).1 = true ∧ Live (procOpen driver file name s).2 s.nextAddr ∧
      (procOpen driver file name s).2.fdTable = s.fdTable := by
  unfold procOpen
  rw [malloc_granted _ answer]
  dsimp only
  generalize counted : countUptime driver _ = base
  have live : Live base s.nextAddr := by
    rw [← counted]
    exact List.mem_cons_self
  have table : base.fdTable = s.fdTable := by
    rw [← counted]
    rfl
  refine ⟨rfl, ((live.malloc _).store).store, ?_⟩
  rcases malloc_cases (.text (procText driver base.uptime)) base with taken | refused
  · rw [taken]
    exact table
  · rw [refused]
    exact table

theorem procOpen_refused {driver : Driver} {file : Nat} {name : Option Nat} {s : State}
    (answer : s.outcome s.asked = false) :
    procOpen driver file name s = (false, { s with asked := s.asked + 1 }) := by
  unfold procOpen
  rw [malloc_refused _ answer]

theorem Driver.open_fdTable (driver : Driver) (file : Nat) (name : Option Nat) (s : State) :
    (driver.open file name s).2.fdTable = s.fdTable := by
  rw [Driver.open_eq]
  split
  · cases answer : s.outcome s.asked with
    | false => rw [procOpen_refused answer]
    | true => exact (procOpen_granted driver file name answer).2.2
  · rfl

theorem openDriver_full (file : Nat) (name : Option Nat) (path : Path)
    {table : List (Path × Driver)} {s : State} (distinct : (table.map Prod.fst).Nodup)
    (full : ¬ HasFreeFd s) :
    (∀ driver, (path, driver) ∉ table) ∧ openDriver file name path table s = (none, s) ∨
      ∃ driver, (path, driver) ∈ table ∧
        openDriver file name path table s = (none, (driver.open file name s).2) := by
  have miss : ∀ (table : List (Path × Driver)) (t : State), (∀ driver, (path, driver) ∉ table) →
      openDriver file name path table t = (none, t) := by
    intro table t absent
    induction table with
    | nil => rfl
    | cons entry rest inductionHypothesis =>
        obtain ⟨driverPath, driver⟩ := entry
        have other : path ≠ driverPath := fun same => absent driver (same ▸ List.mem_cons_self)
        rw [openDriver, if_neg other]
        exact inductionHypothesis fun driver among => absent driver (List.mem_cons_of_mem _ among)
  induction table with
  | nil => exact .inl ⟨fun _ => List.not_mem_nil, rfl⟩
  | cons entry rest inductionHypothesis =>
      obtain ⟨driverPath, driver⟩ := entry
      rw [List.map_cons, List.nodup_cons] at distinct
      by_cases hit : path = driverPath
      · have absent : ∀ driver, (path, driver) ∉ rest := by
          intro driver among
          rw [hit] at among
          exact distinct.1 (List.mem_map.mpr ⟨_, among, rfl⟩)
        refine .inr ⟨driver, hit ▸ List.mem_cons_self, ?_⟩
        rw [openDriver, if_pos hit]
        have table := driver.open_fdTable file name s
        generalize driver.open file name s = result at table
        obtain ⟨ok, t⟩ := result
        have fullAfter : ¬ HasFreeFd t := fun free => full (free.of_fdTable table.symm)
        cases ok with
        | false => exact miss rest t absent
        | true =>
            dsimp only
            rw [allocateFd_full fullAfter]
            exact miss rest t absent
      · rw [openDriver, if_neg hit]
        rcases inductionHypothesis distinct.2 with ⟨absent, ended⟩ | ⟨found, among, ended⟩
        · refine .inl ⟨fun driver among => ?_, ended⟩
          rcases List.mem_cons.mp among with same | among
          · exact hit (Prod.mk.inj same).1
          · exact absent driver among
        · exact .inr ⟨found, List.mem_cons_of_mem _ among, ended⟩

theorem not_same_of_live {s t : State} (address : Nat) (fresh : Fresh s)
    (new : s.nextAddr ≤ address) (live : Live t address) : ¬ SameResources s t := by
  intro same
  obtain ⟨entry, among, rfl⟩ := List.mem_map.mp live
  rw [same.heap] at among
  exact absurd (fresh.heap entry among) (Nat.not_lt_of_le new)

/-- After any part of the call that kept the resources the two frees restore the heap. -/
theorem Prepared.restores {path : Path} {name : Option Nat} {s p u : State}
    (prepared : Prepared path name s p) (fresh : Fresh s) (object : Object)
    (heap : u.heap = storeHeap s.nextAddr object p.heap) (fat : u.fatOpened = p.fatOpened)
    (table : u.fdTable = p.fdTable) (count : u.fdCount = p.fdCount)
    (next : p.nextAddr ≤ u.nextAddr) : SameResources s (free (some s.nextAddr) (free name u)) := by
  refine ⟨?_, fat.trans prepared.fatOpened, table.trans prepared.fdTable,
    count.trans prepared.fdCount, prepared.nextAddr.le.trans next⟩
  show freeHeap (some s.nextAddr) (freeHeap name u.heap) = s.heap
  rw [heap, prepared.stored fresh]
  exact prepared.released fresh object

theorem Prepared.keeps {path : Path} {name : Option Nat} {s p u : State}
    (prepared : Prepared path name s p) (fresh : Fresh s) (same : SameResources p u) :
    SameResources s (free (some s.nextAddr) (free name u)) := by
  refine prepared.restores fresh (.file { name := name, privateData := none, ops := none }) ?_
    same.fatOpened same.fdTable same.fdCount same.nextAddr
  rw [same.heap, prepared.stored fresh, prepared.heap]

theorem isProc_iff {path : Path} {driver : Driver} (among : (path, driver) ∈ drivers) :
    IsProc path ↔ driver.isProc = true := by
  refine ⟨?_, fun proc => ⟨driver, among, proc⟩⟩
  rintro ⟨other, among', proc⟩
  have functional : ∀ a ∈ drivers, ∀ b ∈ drivers, a.1 = b.1 → a.2 = b.2 := by decide
  have unique : driver = other := functional _ among _ among' rfl
  rw [unique]
  exact proc

theorem Prepared.registered_full {path : Path} {name : Option Nat} {s p middle : State}
    (prepared : Prepared path name s p) (fresh : Fresh s) (same : SameResources p middle)
    (driver : Driver) :
    SameResources s (free (some s.nextAddr) (free name (driver.open s.nextAddr name middle).2)) ↔
      ¬ (driver.isProc = true ∧ middle.outcome middle.asked = true) := by
  rw [Driver.open_eq]
  by_cases proc : driver.isProc
  · rw [if_pos proc]
    cases answer : middle.outcome middle.asked with
    | false =>
        rw [procOpen_refused answer]
        exact iff_of_true
          (prepared.keeps fresh (same.trans (Silent.sameResources ⟨_, rfl⟩)))
          fun taken => Bool.noConfusion taken.2
    | true =>
        have live := (procOpen_granted driver s.nextAddr name answer).2.1
        have below := prepared.nextAddr.trans_le same.nextAddr
        refine iff_of_false (not_same_of_live middle.nextAddr fresh ?_ ?_) fun no => no ⟨proc, rfl⟩
        · exact prepared.nextAddr.le.trans same.nextAddr
        · refine Live.freeOther (Live.freeOther live ?_) ?_
          · intro named
            exact absurd (prepared.nameBelow _ named) (Nat.not_lt_of_le same.nextAddr)
          · intro named
            rw [Option.some.inj named] at below
            exact Nat.lt_irrefl _ below
  · rw [if_neg proc]
    let content : File := { name := name, privateData := none, ops := some driver }
    refine iff_of_true (prepared.restores fresh (.file content) ?_ same.fatOpened same.fdTable
      same.fdCount same.nextAddr) fun taken => proc taken.1
    rw [← same.heap]
    rfl

/-- A failing call with a full table has given everything back, unless it had opened a FatFs file
or allocated a `/proc` file. -/
theorem vfsOpenPrepared_full {path : Path} (flags : Nat) {name : Option Nat} {s p : State}
    (prepared : Prepared path name s p) (fresh : Fresh s) (full : ¬ HasFreeFd s)
    (outcomes : p.outcome = s.outcome) (asked : p.asked = s.asked + 2) :
    (vfsOpenPrepared s.nextAddr name path flags p).1 = none ∧
      (SameResources s (vfsOpenPrepared s.nextAddr name path flags p).2 ↔
        ¬ (FatGrants s ∨ IsProc path ∧ granted s (2 + fatQuestions s) = true)) := by
  have freshP := prepared.fresh fresh
  have fullP : ¬ HasFreeFd p := fun free => full (free.of_fdTable prepared.fdTable.symm)
  obtain ⟨answer, outcomes', questions⟩ :=
    fatOpen_questions s.nextAddr name path flags p
  have second : s.asked + 2 + 1 = s.asked + 3 := rfl
  have third : s.asked + 2 + 2 = s.asked + 4 := rfl
  rw [outcomes, asked, second, third] at answer
  rw [outcomes] at outcomes'
  rw [outcomes, asked, second] at questions
  have grants : FatGrants s ↔ (s.outcome (s.asked + 2) && s.outcome (s.asked + 3) &&
      s.outcome (s.asked + 4)) = true := by
    rw [Bool.and_eq_true, Bool.and_eq_true, and_assoc]
    exact Iff.rfl
  rw [← answer] at grants
  unfold vfsOpenPrepared
  cases attempt : fatOpen s.nextAddr name path flags p with
  | mk ok middle =>
    rw [attempt] at grants outcomes' questions
    cases ok with
    | true =>
        have opened := fatOpen_leaves attempt
        obtain ⟨content, _, attached⟩ := fatOpen_true freshP prepared.nextAddr attempt
        have fullM : ¬ HasFreeFd middle := fun free => fullP (free.of_fdTable attached.fdTable.symm)
        dsimp only
        rw [allocateFd_full fullM]
        refine ⟨rfl, iff_of_false (fun same => ?_) (fun no => no (.inl (grants.mpr rfl)))⟩
        have length := congrArg List.length same.fatOpened
        rw [show (free (some s.nextAddr) (free name middle)).fatOpened = middle.fatOpened from rfl,
          opened, prepared.fatOpened] at length
        exact Nat.succ_ne_self _ length
    | false =>
        have refused : ¬ FatGrants s := fun grant => Bool.noConfusion (grants.mp grant)
        have same := fatOpen_false freshP attempt
        have fullM : ¬ HasFreeFd middle := fun free => fullP (free.of_fdTable same.fdTable.symm)
        have place : middle.asked = s.asked + (2 + fatQuestions s) := by
          rw [questions rfl, Nat.add_assoc]
          rfl
        have data : middle.outcome middle.asked = granted s (2 + fatQuestions s) := by
          rw [place, outcomes']
          rfl
        rw [or_iff_right refused, ← data]
        dsimp only
        rcases openDriver_full s.nextAddr name path
            (by decide : (drivers.map Prod.fst).Nodup) fullM with
          ⟨absent, ended⟩ | ⟨driver, among, ended⟩
        · rw [ended]
          refine ⟨rfl, iff_of_true (prepared.keeps fresh same) ?_⟩
          rintro ⟨⟨driver, among, _⟩, _⟩
          exact absent driver among
        · rw [ended, isProc_iff among]
          exact ⟨rfl, prepared.registered_full fresh same driver⟩

/-! ## The rule holds -/

/-- `vfs_open` is atomic unless it finds the table full with a FatFs or `/proc` file in hand. -/
theorem vfsOpen_atomic_iff (path : Path) (flags : Nat) (s : State) (fresh : Fresh s) :
    AtomicOpen path flags s ↔ HasFreeFd s ∨ ¬ Takes path s := by
  have freed := vfsOpenOnce_eq path flags fresh
  by_cases free : HasFreeFd s
  · refine iff_of_true ?_ (.inl free)
    cases call : vfsOpen path flags s with
    | mk result t =>
      rcases vfsOpen_cases fresh free call with ⟨rfl, same⟩ | ⟨fd, rfl, opened⟩
      · exact
          { failed := fun _ => by
              rw [call]
              exact same
            freed := freed
            opened := fun fd some => by
              rw [call] at some
              cases some }
      · exact
          { failed := fun none => by
              rw [call] at none
              cases none
            freed := freed
            opened := fun other some => by
              rw [call] at some ⊢
              cases some
              dsimp only
              rw [opened.fdTable, Function.update_self]
              exact ⟨opened.wasFree, rfl, fun other apart => Function.update_of_ne apart _ _⟩ }
  · have kept : (vfsOpen path flags s).1 = none ∧
        (SameResources s (vfsOpen path flags s).2 ↔ ¬ Takes path s) := by
      rcases vfsOpen_prepared path flags fresh with
        ⟨refused, failed, silent⟩ | ⟨answer, name, p, prepared, outcomes, asked, continued⟩
      · refine ⟨failed, iff_of_true silent.sameResources fun takes => ?_⟩
        have answer : s.outcome s.asked = true := takes.1
        rw [refused] at answer
        cases answer
      · obtain ⟨failed, same⟩ :=
          vfsOpenPrepared_full flags prepared fresh free outcomes asked
        rw [continued]
        refine ⟨failed, same.trans (not_congr ?_)⟩
        exact ⟨fun taken => ⟨answer, taken⟩, fun takes => takes.2⟩
    obtain ⟨failed, same⟩ := kept
    constructor
    · exact fun atomic => .inr (same.mp (atomic.failed failed))
    · rintro (room | gives)
      · exact absurd room free
      · exact
          { failed := fun _ => same.mpr gives
            freed := freed
            opened := fun fd some => by
              rw [failed] at some
              cases some }

theorem boot_fresh (outcome : Nat → Bool) : Fresh (boot outcome) :=
  ⟨fun _ among => absurd among List.not_mem_nil, fun _ among => absurd among List.not_mem_nil⟩

theorem vfsOpen_atomic_iff_boot : AtomicOpen "/dev/tty".toList O_RDWR (boot fun _ => true) :=
  (vfsOpen_atomic_iff _ _ _ (boot_fresh _)).mpr (.inl ⟨3, by decide, rfl⟩)

/-- Every descriptor in use. -/
def fullTable : State := { boot fun _ => true with fdTable := fun _ => some 0, fdCount := 256 }

/-- With a full table a FatFs file stays open. -/
theorem open_leaks_file : ¬ ∀ (path : Path) (flags : Nat) (s : State), Fresh s →
    AtomicOpen path flags s := by
  intro always
  have empty := boot_fresh fun _ => true
  have fresh : Fresh fullTable := ⟨empty.heap, empty.fatOpened⟩
  have same := (always "F".toList O_RDONLY fullTable fresh).failed (by decide)
  exact absurd same.fatOpened (by decide)

end OrionBios.Vfs
