import OrionBios.Vfs.Descriptors
import Mathlib.Order.Nat
import Mathlib.Tactic.Common

/-!
# What an open and the matching close leave behind

A heap address is handed out once, so a block that a call allocated lies above every
block that was there before. On that the two main facts rest: an open that fails
gives back whatever it took, and closing the descriptor of an open that succeeded
restores heap, FatFs files and descriptor table.
-/

namespace OrionBios.Vfs

/-- Every heap block and every open FIL lies below the next address to hand out. -/
structure Fresh (s : State) : Prop where
  heap : ∀ entry ∈ s.heap, entry.1 < s.nextAddr
  fatOpened : ∀ entry ∈ s.fatOpened, entry.1 < s.nextAddr

/-- The two states own the same blocks, FatFs files and descriptors. -/
structure SameResources (s t : State) : Prop where
  heap : t.heap = s.heap
  fatOpened : t.fatOpened = s.fatOpened
  fdTable : t.fdTable = s.fdTable
  fdCount : t.fdCount = s.fdCount
  nextAddr : s.nextAddr ≤ t.nextAddr

theorem SameResources.refl (s : State) : SameResources s s := ⟨rfl, rfl, rfl, rfl, le_rfl⟩

theorem SameResources.trans {s t u : State} (first : SameResources s t)
    (second : SameResources t u) : SameResources s u :=
  ⟨second.heap.trans first.heap, second.fatOpened.trans first.fatOpened,
    second.fdTable.trans first.fdTable, second.fdCount.trans first.fdCount,
    first.nextAddr.trans second.nextAddr⟩

theorem SameResources.fresh {s t : State} (same : SameResources s t) (fresh : Fresh s) :
    Fresh t := by
  constructor
  · rw [same.heap]
    exact fun entry member => (fresh.heap entry member).trans_le same.nextAddr
  · rw [same.fatOpened]
    exact fun entry member => (fresh.fatOpened entry member).trans_le same.nextAddr

/-! ## Lists of heap entries -/

theorem freeHeap_cons (pointer : Option Nat) (address : Nat) (object : Object)
    (heap : List (Nat × Object)) :
    freeHeap pointer ((address, object) :: heap) =
      if some address = pointer then freeHeap pointer heap
      else (address, object) :: freeHeap pointer heap := by
  by_cases hit : some address = pointer <;> simp [freeHeap, hit]

@[simp] theorem freeHeap_none (heap : List (Nat × Object)) : freeHeap none heap = heap := by
  simp [freeHeap]

theorem freeHeap_of_lt {heap : List (Nat × Object)} {bound address : Nat}
    (below : ∀ entry ∈ heap, entry.1 < bound) (le : bound ≤ address) :
    freeHeap (some address) heap = heap := by
  apply List.filter_eq_self.mpr
  intro entry member
  have less := below entry member
  simp only [ne_eq, Option.some.injEq, decide_eq_true_eq]
  omega

theorem freeHeap_top {heap : List (Nat × Object)} {address : Nat} (object : Object)
    (below : ∀ entry ∈ heap, entry.1 < address) :
    freeHeap (some address) ((address, object) :: heap) = heap := by
  rw [freeHeap_cons, if_pos rfl, freeHeap_of_lt below (le_refl address)]

theorem closeFil_top {opened : List (Nat × Path × Nat)} {fatFile : Nat} (file : Path × Nat)
    (below : ∀ entry ∈ opened, entry.1 < fatFile) :
    closeFil fatFile ((fatFile, file) :: opened) = opened := by
  have kept : closeFil fatFile opened = opened := by
    apply List.filter_eq_self.mpr
    intro entry member
    have less := below entry member
    simp only [ne_eq, decide_eq_true_eq]
    omega
  rw [closeFil, List.filter_cons_of_neg (by simp)]
  exact kept

theorem storeHeap_cons (address other : Nat) (object content : Object)
    (heap : List (Nat × Object)) :
    storeHeap address object ((other, content) :: heap) =
      (if other = address then (address, object) else (other, content)) ::
        storeHeap address object heap := rfl

theorem storeHeap_of_lt {heap : List (Nat × Object)} {bound address : Nat} (object : Object)
    (below : ∀ entry ∈ heap, entry.1 < bound) (le : bound ≤ address) :
    storeHeap address object heap = heap := by
  refine (List.map_congr_left ?_).trans (List.map_id heap)
  intro entry member
  have less := below entry member
  have differs : entry.1 ≠ address := by omega
  simp [differs]

theorem storeHeap_below {heap : List (Nat × Object)} {bound address : Nat} (object : Object)
    (below : ∀ entry ∈ heap, entry.1 < bound) :
    ∀ entry ∈ storeHeap address object heap, entry.1 < bound := by
  intro entry member
  obtain ⟨original, originalMember, equality⟩ := List.mem_map.mp member
  have less := below original originalMember
  subst entry
  by_cases hit : original.1 = address
  · rw [if_pos hit]
    simpa only [← hit] using less
  · rw [if_neg hit]
    exact less

theorem find_storeHeap_self {heap : List (Nat × Object)} {address : Nat} (object : Object)
    (present : (heap.find? (·.1 = address)).isSome) :
    (storeHeap address object heap).find? (·.1 = address) = some (address, object) := by
  induction heap with
  | nil => cases present
  | cons entry rest inductionHypothesis =>
      by_cases hit : entry.1 = address
      · simp [storeHeap, hit]
      · simp only [List.find?_cons_of_neg (p := fun entry : Nat × Object => entry.1 = address)
          (by simpa using hit)] at present
        have skipped := inductionHypothesis present
        rw [storeHeap] at skipped
        rw [storeHeap, List.map_cons, if_neg hit, List.find?_cons_of_neg (by simpa using hit)]
        exact skipped

theorem lookup_of_find {s : State} {address : Nat} {object : Object}
    (found : s.heap.find? (·.1 = address) = some (address, object)) :
    lookup s address = some object := by
  rw [lookup, found, Option.map_some]

/-! ## Allocation -/

theorem malloc_granted (object : Object) {s : State} (answer : s.outcome s.asked = true) :
    malloc object s = (some s.nextAddr,
      { s with
        asked := s.asked + 1
        nextAddr := s.nextAddr + 1
        heap := (s.nextAddr, object) :: s.heap }) := by
  simp [malloc, ask, answer]

theorem malloc_refused (object : Object) {s : State} (answer : s.outcome s.asked = false) :
    malloc object s = (none, { s with asked := s.asked + 1 }) := by
  simp [malloc, ask, answer]

/-- `malloc` either takes the next address or only consumes an outcome. -/
theorem malloc_cases (object : Object) (s : State) :
    malloc object s =
        (some s.nextAddr,
          { s with
            asked := s.asked + 1
            nextAddr := s.nextAddr + 1
            heap := (s.nextAddr, object) :: s.heap }) ∨
      malloc object s = (none, { s with asked := s.asked + 1 }) := by
  cases answer : s.outcome s.asked with
  | true => exact .inl (malloc_granted object answer)
  | false => exact .inr (malloc_refused object answer)

theorem fopen_cases (fatFile : Nat) (path : Path) (mode : Nat) (s : State) :
    fopen fatFile path mode s =
        (true, { s with
          asked := s.asked + 1
          fatOpened := (fatFile, path, mode) :: s.fatOpened }) ∨
      fopen fatFile path mode s = (false, { s with asked := s.asked + 1 }) := by
  cases answer : s.outcome s.asked with
  | true => exact .inl (by simp [fopen, ask, answer])
  | false => exact .inr (by simp [fopen, ask, answer])

def HasFreeFd (s : State) : Prop := ∃ fd ∈ List.range' 3 253, s.fdTable fd = none

theorem allocateFd_eq_some {file : Nat} {s t : State} {fd : Nat}
    (allocated : allocateFd file s = (some fd, t)) :
    3 ≤ fd ∧ fd < 256 ∧ s.fdTable fd = none ∧
      t = { setFd fd (some file) s with fdCount := s.fdCount + 1 } := by
  unfold allocateFd at allocated
  split at allocated
  next found search =>
    simp only [Prod.mk.injEq, Option.some.injEq] at allocated
    obtain ⟨rfl, rfl⟩ := allocated
    have free := List.find?_some search
    have range := List.mem_range'_1.mp (List.mem_of_find?_eq_some search)
    exact ⟨range.1, by omega, of_decide_eq_true free, rfl⟩
  next search => simp at allocated

theorem allocateFd_isSome (file : Nat) {s : State} (free : HasFreeFd s) :
    ∃ fd t, allocateFd file s = (some fd, t) := by
  obtain ⟨fd, member, isNone⟩ := free
  unfold allocateFd
  cases search : (List.range' 3 253).find? fun fd => s.fdTable fd = none with
  | some found => exact ⟨found, _, rfl⟩
  | none =>
      have no := List.find?_eq_none.mp search fd member
      exact absurd (decide_eq_true isNone) no

/-! ## The two ways to open -/

/-- The state changed in nothing the VFS owns, and no address was handed out. -/
def Silent (s t : State) : Prop := ∃ asked, t = { s with asked := asked }

theorem Silent.sameResources {s t : State} (silent : Silent s t) : SameResources s t := by
  obtain ⟨asked, rfl⟩ := silent
  exact ⟨rfl, rfl, rfl, rfl, le_rfl⟩

theorem fatOpen_false {file : Nat} {name : Option Nat} {path : Path} {flags : Nat} {s t : State}
    (fresh : Fresh s) (failed : fatOpen file name path flags s = (false, t)) :
    SameResources s t := by
  unfold fatOpen at failed
  rcases malloc_cases .fil s with taken | refused
  · simp only [taken] at failed
    rcases fopen_cases s.nextAddr path (fatMode flags)
        { s with
          asked := s.asked + 1
          nextAddr := s.nextAddr + 1
          heap := (s.nextAddr, .fil) :: s.heap } with opened | missing
    · simp only [opened] at failed
      rcases malloc_cases (.fatPrivate s.nextAddr (fatMode flags))
          { s with
            asked := s.asked + 1 + 1
            nextAddr := s.nextAddr + 1
            heap := (s.nextAddr, .fil) :: s.heap
            fatOpened := (s.nextAddr, path, fatMode flags) :: s.fatOpened } with taken' | refused'
      · simp [taken'] at failed
      · simp only [refused', Prod.mk.injEq, true_and] at failed
        subst t
        exact ⟨freeHeap_top _ fresh.heap, closeFil_top _ fresh.fatOpened, rfl, rfl, Nat.le_succ _⟩
    · simp only [missing, Prod.mk.injEq, true_and] at failed
      subst t
      exact ⟨freeHeap_top _ fresh.heap, rfl, rfl, rfl, Nat.le_succ _⟩
  · simp only [refused, Prod.mk.injEq, true_and] at failed
    subst t
    exact Silent.sameResources ⟨_, rfl⟩

theorem fatClose_top {u : State} {fatFile mode : Nat} {path : Path}
    {heap : List (Nat × Object)} {opened : List (Nat × Path × Nat)}
    (heapEq : u.heap = (fatFile + 1, .fatPrivate fatFile mode) :: (fatFile, .fil) :: heap)
    (fatEq : u.fatOpened = (fatFile, path, mode) :: opened)
    (below : ∀ entry ∈ heap, entry.1 < fatFile) (fatBelow : ∀ entry ∈ opened, entry.1 < fatFile) :
    fatClose (some (fatFile + 1)) u = { u with heap := heap, fatOpened := opened } := by
  have found : lookup u (fatFile + 1) = some (.fatPrivate fatFile mode) := by
    simp [lookup, heapEq]
  have kept : freeHeap (some (fatFile + 1)) heap = heap :=
    freeHeap_of_lt below (Nat.le_succ fatFile)
  simp [fatClose, found, free, fclose, heapEq, fatEq, closeFil_top _ fatBelow, freeHeap_cons,
    freeHeap_of_lt below (le_refl fatFile), kept]

/-- Closing a `/proc` file whose data block and text are the newest blocks. -/
theorem procClose_top {u : State} {data : Nat} {chars : List Char} {heap : List (Nat × Object)}
    (heapEq : u.heap =
      (data + 1, .text chars) :: (data, .procData (some (data + 1))) :: heap)
    (below : ∀ entry ∈ heap, entry.1 < data) :
    procClose (some data) u = { u with heap := heap } := by
  have found : lookup u data = some (.procData (some (data + 1))) := by simp [lookup, heapEq]
  simp [procClose, found, free, heapEq, freeHeap_cons, freeHeap_of_lt below (le_refl data),
    freeHeap_of_lt below (Nat.le_succ data)]

theorem procClose_top_none {u : State} {data : Nat} {heap : List (Nat × Object)}
    (heapEq : u.heap = (data, .procData none) :: heap)
    (below : ∀ entry ∈ heap, entry.1 < data) :
    procClose (some data) u = { u with heap := heap } := by
  have found : lookup u data = some (.procData none) := by simp [lookup, heapEq]
  simp [procClose, found, free, heapEq, freeHeap_top _ below]

/-- The `File` works on the path: through the driver of that name, or through a FIL
that FatFs opened under it. -/
def Serves (s : State) (path : Path) (file : Nat) : Prop :=
  ∃ content, lookup s file = some (.file content) ∧
    ((∃ driver, (path, driver) ∈ drivers ∧ content.ops = some driver) ∨
      ∃ priv fatFile mode, content.ops = some .fat ∧ content.privateData = some priv ∧
        lookup s priv = some (.fatPrivate fatFile mode) ∧ (fatFile, path, mode) ∈ s.fatOpened)

/-- What a successful open function leaves for `close`: the `File` is filled in, the
private blocks lie on top of the heap, and closing takes exactly them away. -/
structure Attached (path : Path) (file : Nat) (content : File) (s t : State) : Prop where
  blocks : ∃ added : List (Nat × Object),
    (∀ entry ∈ added, s.nextAddr ≤ entry.1 ∧ entry.1 < t.nextAddr) ∧
      t.heap = added ++ storeHeap file (.file content) s.heap
  fatFiles : ∃ added : List (Nat × Path × Nat),
    (∀ entry ∈ added, s.nextAddr ≤ entry.1 ∧ entry.1 < t.nextAddr) ∧
      t.fatOpened = added ++ s.fatOpened
  fdTable : t.fdTable = s.fdTable
  fdCount : t.fdCount = s.fdCount
  nextAddr : s.nextAddr ≤ t.nextAddr
  serves : (lookup s file).isSome → Serves t path file
  closes : ∃ driver, content.ops = some driver ∧
    ∀ u : State, u.heap = t.heap → u.fatOpened = t.fatOpened →
      driver.close content.privateData u =
        { u with heap := storeHeap file (.file content) s.heap, fatOpened := s.fatOpened }

theorem Attached.of_same {path : Path} {file : Nat} {content : File} {s s' t : State}
    (attached : Attached path file content s' t) (same : SameResources s s') :
    Attached path file content s t := by
  obtain ⟨⟨added, above, heapEq⟩, ⟨addedFat, aboveFat, fatEq⟩, tableEq, countEq, nextLe, serves,
    driver, opsEq, closes⟩ := attached
  have lookupEq : lookup s' file = lookup s file := by rw [lookup, same.heap, lookup]
  rw [same.heap] at heapEq closes
  rw [same.fatOpened] at fatEq closes
  refine ⟨⟨added, ?_, heapEq⟩, ⟨addedFat, ?_, fatEq⟩, tableEq.trans same.fdTable,
    countEq.trans same.fdCount, same.nextAddr.trans nextLe, ?_, driver, opsEq, closes⟩
  · exact fun entry member => ⟨same.nextAddr.trans (above entry member).1, (above entry member).2⟩
  · exact fun entry member =>
      ⟨same.nextAddr.trans (aboveFat entry member).1, (aboveFat entry member).2⟩
  · rw [← lookupEq]
    exact serves

theorem fatOpen_true {file : Nat} {name : Option Nat} {path : Path} {flags : Nat} {s t : State}
    (fresh : Fresh s) (below : file < s.nextAddr)
    (opened : fatOpen file name path flags s = (true, t)) :
    ∃ content, content.name = name ∧ Attached path file content s t := by
  unfold fatOpen at opened
  rcases malloc_cases .fil s with taken | refused
  · simp only [taken] at opened
    rcases fopen_cases s.nextAddr path (fatMode flags)
        { s with
          asked := s.asked + 1
          nextAddr := s.nextAddr + 1
          heap := (s.nextAddr, .fil) :: s.heap } with accepted | missing
    · simp only [accepted] at opened
      rcases malloc_cases (.fatPrivate s.nextAddr (fatMode flags))
          { s with
            asked := s.asked + 1 + 1
            nextAddr := s.nextAddr + 1
            heap := (s.nextAddr, .fil) :: s.heap
            fatOpened := (s.nextAddr, path, fatMode flags) :: s.fatOpened } with taken' | refused'
      · simp only [taken', Prod.mk.injEq, true_and] at opened
        subst t
        let content : File :=
          { name := name, privateData := some (s.nextAddr + 1), ops := some .fat }
        have apart : s.nextAddr ≠ file := by omega
        have apart' : s.nextAddr + 1 ≠ file := by omega
        refine ⟨content, rfl, ⟨[(s.nextAddr + 1, .fatPrivate s.nextAddr (fatMode flags)),
          (s.nextAddr, .fil)], ?_, ?_⟩, ⟨[(s.nextAddr, path, fatMode flags)], ?_, rfl⟩, rfl, rfl,
          ?_, ?_, .fat, rfl, ?_⟩
        · simp only [store, List.forall_mem_cons, List.not_mem_nil, false_imp_iff, implies_true,
            and_true]
          omega
        · simp [store, storeHeap_cons, apart, apart', content]
        · simp only [store, List.forall_mem_cons, List.not_mem_nil, false_imp_iff, implies_true,
            and_true]
          omega
        · simp only [store]
          omega
        · intro present
          have stored := find_storeHeap_self (.file content) (by simpa [lookup] using present)
          refine ⟨content, ?_, .inr ⟨s.nextAddr + 1, s.nextAddr, fatMode flags, rfl, rfl, ?_, ?_⟩⟩
          · apply lookup_of_find
            simpa [store, storeHeap_cons, apart, apart', content] using stored
          · simp [lookup, store, storeHeap_cons, apart']
          · simp [store]
        · intro u heapEq fatEq
          simp only [store, storeHeap_cons, if_neg apart, if_neg apart'] at heapEq
          exact fatClose_top heapEq fatEq (storeHeap_below _ fresh.heap) fresh.fatOpened
      · simp [refused'] at opened
    · simp [missing] at opened
  · simp [refused] at opened

/-- The three `/proc` files share their open and close functions. -/
def Driver.isProc : Driver → Bool
  | .meminfo | .cpuinfo | .uptime => true
  | _ => false

theorem procOpen_true {driver : Driver} {path : Path} {file : Nat} {name : Option Nat}
    {s t : State} (kind : driver.isProc) (listed : (path, driver) ∈ drivers) (fresh : Fresh s)
    (below : file < s.nextAddr) (opened : procOpen driver file name s = (true, t)) :
    ∃ content, content.name = name ∧ Attached path file content s t := by
  have closing : ∀ data u, driver.close data u = procClose data u := by
    intro data u
    cases driver <;> first | rfl | cases kind
  have apart : s.nextAddr ≠ file := by omega
  have apart' : s.nextAddr + 1 ≠ file := by omega
  unfold procOpen at opened
  rcases malloc_cases (.procData none) s with taken | refused
  · simp only [taken] at opened
    generalize countedEq : countUptime driver _ = counted at opened
    have heapEq : counted.heap = (s.nextAddr, .procData none) :: s.heap := by rw [← countedEq]; rfl
    have fatEq : counted.fatOpened = s.fatOpened := by rw [← countedEq]; rfl
    have tableEq : counted.fdTable = s.fdTable := by rw [← countedEq]; rfl
    have countEq : counted.fdCount = s.fdCount := by rw [← countedEq]; rfl
    have nextEq : counted.nextAddr = s.nextAddr + 1 := by rw [← countedEq]; rfl
    let content : File := { name := name, privateData := some s.nextAddr, ops := some driver }
    have stored : ∀ entry ∈ storeHeap file (.file content) s.heap, entry.1 < s.nextAddr :=
      storeHeap_below _ fresh.heap
    rcases malloc_cases (.text (procText driver counted.uptime)) counted with taken' | refused'
    · simp only [taken', Prod.mk.injEq, true_and] at opened
      subst t
      have heapEq' : storeHeap file (.file content)
            (storeHeap s.nextAddr (.procData (some counted.nextAddr))
              ((counted.nextAddr, .text (procText driver counted.uptime)) :: counted.heap)) =
          (s.nextAddr + 1, .text (procText driver counted.uptime)) ::
            (s.nextAddr, .procData (some (s.nextAddr + 1))) ::
              storeHeap file (.file content) s.heap := by
        simp [heapEq, nextEq, storeHeap_cons, apart, apart',
          storeHeap_of_lt _ fresh.heap (le_refl s.nextAddr)]
      refine ⟨content, rfl, ⟨[(s.nextAddr + 1, .text (procText driver counted.uptime)),
        (s.nextAddr, .procData (some (s.nextAddr + 1)))], ?_, heapEq'⟩, ⟨[], by simp, fatEq⟩,
        tableEq, countEq, ?_, ?_, driver, rfl, ?_⟩
      · simp only [store, nextEq, List.forall_mem_cons, List.not_mem_nil, false_imp_iff,
          implies_true, and_true]
        omega
      · simp only [store]
        omega
      · intro present
        have found := find_storeHeap_self (.file content) (by simpa [lookup] using present)
        refine ⟨content, ?_, .inl ⟨driver, listed, rfl⟩⟩
        apply lookup_of_find
        simpa [store, content, heapEq', apart, apart'] using found
      · intro u heapEqU fatEqU
        have same : u.fatOpened = s.fatOpened := fatEqU.trans fatEq
        rw [closing, procClose_top (heapEqU.trans heapEq') stored, ← same]
    · simp only [refused', Prod.mk.injEq, true_and] at opened
      subst t
      have heapEq' : storeHeap file (.file content)
            (storeHeap s.nextAddr (.procData none) counted.heap) =
          (s.nextAddr, .procData none) :: storeHeap file (.file content) s.heap := by
        simp [heapEq, storeHeap_cons, apart, storeHeap_of_lt _ fresh.heap (le_refl s.nextAddr)]
      refine ⟨content, rfl, ⟨[(s.nextAddr, .procData none)], ?_, heapEq'⟩, ⟨[], by simp, fatEq⟩,
        tableEq, countEq, ?_, ?_, driver, rfl, ?_⟩
      · simp [store, nextEq]
      · simp only [store]
        omega
      · intro present
        have found := find_storeHeap_self (.file content) (by simpa [lookup] using present)
        refine ⟨content, ?_, .inl ⟨driver, listed, rfl⟩⟩
        apply lookup_of_find
        simpa [store, content, heapEq', apart] using found
      · intro u heapEqU fatEqU
        have same : u.fatOpened = s.fatOpened := fatEqU.trans fatEq
        rw [closing, procClose_top_none (heapEqU.trans heapEq') stored, ← same]
  · simp [refused] at opened

theorem procOpen_false {driver : Driver} {file : Nat} {name : Option Nat} {s t : State}
    (failed : procOpen driver file name s = (false, t)) : Silent s t := by
  unfold procOpen at failed
  rcases malloc_cases (.procData none) s with taken | refused
  · simp [taken] at failed
  · simp only [refused, Prod.mk.injEq, true_and] at failed
    exact ⟨_, failed.symm⟩

theorem Driver.open_true {driver : Driver} {path : Path} {file : Nat} {name : Option Nat}
    {s t : State} (listed : (path, driver) ∈ drivers) (fresh : Fresh s) (below : file < s.nextAddr)
    (opened : driver.open file name s = (true, t)) :
    ∃ content, content.name = name ∧ Attached path file content s t := by
  by_cases proc : driver.isProc
  · have opened' : procOpen driver file name s = (true, t) := by
      cases driver <;> first | exact opened | cases proc
    exact procOpen_true proc listed fresh below opened'
  · let content : File := { name := name, privateData := none, ops := some driver }
    have stored : t = store file (.file content) s := by
      cases driver <;> first | exact (Prod.mk.inj opened).2.symm | exact absurd rfl proc
    have closing : ∀ u, driver.close none u = u := by
      intro u
      cases driver <;> rfl
    subst t
    refine ⟨content, rfl, ⟨[], by simp, rfl⟩, ⟨[], by simp, rfl⟩, rfl, rfl, le_refl _, ?_,
      driver, rfl, ?_⟩
    · intro present
      have found := find_storeHeap_self (.file content) (by simpa [lookup] using present)
      refine ⟨content, ?_, .inl ⟨driver, listed, rfl⟩⟩
      exact lookup_of_find found
    · intro u heapEq fatEq
      have heapEq' : u.heap = storeHeap file (.file content) s.heap := heapEq
      have fatEq' : u.fatOpened = s.fatOpened := fatEq
      rw [closing, ← heapEq', ← fatEq']

theorem Driver.open_false {driver : Driver} {file : Nat} {name : Option Nat} {s t : State}
    (failed : driver.open file name s = (false, t)) : Silent s t := by
  by_cases proc : driver.isProc
  · have failed' : procOpen driver file name s = (false, t) := by
      cases driver <;> first | exact failed | cases proc
    exact procOpen_false failed'
  · cases driver <;> first | exact absurd rfl proc | cases failed

/-! ## `vfs_open` and `vfs_close` -/

theorem HasFreeFd.of_fdTable {s t : State} (free : HasFreeFd s) (same : t.fdTable = s.fdTable) :
    HasFreeFd t := by
  obtain ⟨fd, member, isNone⟩ := free
  exact ⟨fd, member, by rw [same]; exact isNone⟩

/-- With a free descriptor the driver loop either changes nothing or ends with the
descriptor of the driver that opened. -/
theorem openDriver_cases {file : Nat} {name : Option Nat} {path : Path}
    {table : List (Path × Driver)} {s t : State} {result : Option Nat}
    (listed : ∀ entry ∈ table, entry ∈ drivers) (fresh : Fresh s) (below : file < s.nextAddr)
    (freeFd : HasFreeFd s)
    (opened : openDriver file name path table s = (result, t)) :
    (result = none ∧ SameResources s t) ∨
      ∃ fd content middle, result = some fd ∧ content.name = name ∧
        Attached path file content s middle ∧ allocateFd file middle = (some fd, t) := by
  induction table generalizing s with
  | nil =>
      simp only [openDriver, Prod.mk.injEq] at opened
      obtain ⟨rfl, rfl⟩ := opened
      exact .inl ⟨rfl, SameResources.refl s⟩
  | cons entry rest inductionHypothesis =>
      obtain ⟨driverPath, driver⟩ := entry
      have listedRest : ∀ entry ∈ rest, entry ∈ drivers :=
        fun entry member => listed entry (List.mem_cons_of_mem _ member)
      unfold openDriver at opened
      split at opened
      next hit =>
        have here : (path, driver) ∈ drivers := by
          rw [hit]
          exact listed _ List.mem_cons_self
        cases attempt : driver.open file name s with
        | mk ok middle =>
          cases ok with
          | true =>
              obtain ⟨content, nameEq, attached⟩ := Driver.open_true here fresh below attempt
              obtain ⟨fd, last, allocated⟩ :=
                allocateFd_isSome file (freeFd.of_fdTable attached.fdTable)
              simp only [attempt, allocated, Prod.mk.injEq] at opened
              obtain ⟨rfl, rfl⟩ := opened
              exact .inr ⟨fd, content, middle, rfl, nameEq, attached, allocated⟩
          | false =>
              -- a driver that fails has only used up an outcome, so the loop starts afresh
              simp only [attempt] at opened
              have same := (Driver.open_false attempt).sameResources
              obtain ⟨asked, rfl⟩ := Driver.open_false attempt
              rcases inductionHypothesis listedRest (same.fresh fresh) below freeFd opened with
                ⟨failed, unchanged⟩ | ⟨fd, content, last, found, nameEq, attached, allocated⟩
              · exact .inl ⟨failed, same.trans unchanged⟩
              · exact .inr ⟨fd, content, last, found, nameEq, attached.of_same same, allocated⟩
      next _miss => exact inductionHypothesis listedRest fresh below freeFd opened

/-- The part of `vfs_open` after the `File` and its name. -/
def vfsOpenPrepared (file : Nat) (name : Option Nat) (path : Path) (flags : Nat) (s : State) :
    Option Nat × State :=
  match fatOpen file name path flags s with
  | (true, s) =>
    match allocateFd file s with
    | (some fd, s) => (some fd, s)
    | (none, s) => (none, free (some file) (free name s))
  | (false, s) =>
    match openDriver file name path drivers s with
    | (some fd, s) => (some fd, s)
    | (none, s) => (none, free (some file) (free name s))

def nameBlock (name : Option Nat) (path : Path) : List (Nat × Object) :=
  name.toList.map fun address => (address, .text path)

/-- The state of `vfs_open` with the `File` block and the name block taken. -/
structure Prepared (path : Path) (name : Option Nat) (s p : State) : Prop where
  heap : p.heap = nameBlock name path ++
    (s.nextAddr, .file { name := name, privateData := none, ops := none }) :: s.heap
  named : name = none ∨ name = some (s.nextAddr + 1)
  nextAddr : s.nextAddr < p.nextAddr
  nameBelow : ∀ address, name = some address → address < p.nextAddr
  fatOpened : p.fatOpened = s.fatOpened
  fdTable : p.fdTable = s.fdTable
  fdCount : p.fdCount = s.fdCount

theorem vfsOpen_prepared {s : State} (path : Path) (flags : Nat) (fresh : Fresh s) :
    s.outcome s.asked = false ∧ (vfsOpen path flags s).1 = none ∧
        Silent s (vfsOpen path flags s).2 ∨
      s.outcome s.asked = true ∧ ∃ name p, Prepared path name s p ∧ p.outcome = s.outcome ∧
        p.asked = s.asked + 2 ∧
        vfsOpen path flags s = vfsOpenPrepared s.nextAddr name path flags p := by
  cases answer : s.outcome s.asked with
  | true =>
    refine .inr ⟨rfl, ?_⟩
    have taken := malloc_granted (.file { name := none, privateData := none, ops := none }) answer
    have unfolded : vfsOpen path flags s =
        let named := malloc (.text path)
          { s with
            asked := s.asked + 1
            nextAddr := s.nextAddr + 1
            heap := (s.nextAddr, .file { name := none, privateData := none, ops := none }) ::
              s.heap }
        vfsOpenPrepared s.nextAddr named.1 path flags
          (store s.nextAddr (.file { name := named.1, privateData := none, ops := none })
            named.2) := by
      rw [vfsOpen, taken]
      rfl
    rw [unfolded]
    generalize baseEq : ({ s with
      asked := s.asked + 1
      nextAddr := s.nextAddr + 1
      heap := (s.nextAddr, .file { name := none, privateData := none, ops := none }) ::
        s.heap } : State) = base
    have kept : ∀ object, storeHeap s.nextAddr object s.heap = s.heap :=
      fun object => storeHeap_of_lt object fresh.heap (le_refl s.nextAddr)
    rcases malloc_cases (.text path) base with named | unnamed
    · rw [named]
      refine ⟨_, _, ?_, by subst base; rfl, by subst base; rfl, rfl⟩
      subst base
      refine ⟨by simp [store, storeHeap_cons, nameBlock, kept], .inr rfl, ?_, ?_, rfl, rfl, rfl⟩
      · simp only [store]
        omega
      · simp [store]
    · rw [unnamed]
      refine ⟨_, _, ?_, by subst base; rfl, by subst base; rfl, rfl⟩
      subst base
      exact ⟨by simp [store, storeHeap_cons, nameBlock, kept], .inl rfl, by simp [store],
        by simp, rfl, rfl, rfl⟩
  | false =>
    refine .inl ⟨rfl, ?_⟩
    rw [vfsOpen, malloc_refused _ answer]
    exact ⟨rfl, _, rfl⟩

theorem Prepared.fresh {path : Path} {name : Option Nat} {s p : State}
    (prepared : Prepared path name s p) (fresh : Fresh s) : Fresh p := by
  have below := prepared.nextAddr
  constructor
  · intro entry member
    rw [prepared.heap] at member
    rcases List.mem_append.mp member with inName | inRest
    · obtain ⟨address, isName, rfl⟩ := List.mem_map.mp inName
      exact prepared.nameBelow address (Option.mem_toList.mp isName)
    · rcases List.mem_cons.mp inRest with isFile | old
      · rw [isFile]
        exact below
      · exact (fresh.heap entry old).trans below
  · rw [prepared.fatOpened]
    exact fun entry member => (fresh.fatOpened entry member).trans below

/-- Freeing the name and the `File` gives the old heap back, whatever the `File` holds. -/
theorem Prepared.released {path : Path} {name : Option Nat} {s p : State}
    (prepared : Prepared path name s p) (fresh : Fresh s) (object : Object) :
    freeHeap (some s.nextAddr) (freeHeap name
      (nameBlock name path ++ (s.nextAddr, object) :: s.heap)) = s.heap := by
  have top := freeHeap_top object fresh.heap
  rcases prepared.named with isNone | isSome
  · subst name
    simpa [nameBlock] using top
  · subst name
    have kept := freeHeap_of_lt fresh.heap (Nat.le_succ s.nextAddr)
    simpa [nameBlock, freeHeap_cons, kept] using top

/-- Filling in the `File` leaves the name block and the old heap alone. -/
theorem Prepared.stored {path : Path} {name : Option Nat} {s p : State}
    (prepared : Prepared path name s p) (fresh : Fresh s) (object : Object) :
    storeHeap s.nextAddr object p.heap =
      nameBlock name path ++ (s.nextAddr, object) :: s.heap := by
  have kept := storeHeap_of_lt object fresh.heap (le_refl s.nextAddr)
  rw [prepared.heap]
  rcases prepared.named with isNone | isSome
  · subst name
    simp [nameBlock, storeHeap_cons, kept]
  · subst name
    simp [nameBlock, storeHeap_cons, kept]

/-- An open that succeeded: one `File` was added, reachable through one new descriptor,
and closing that descriptor takes everything the open added away again. -/
structure Opened (path : Path) (fd : Nat) (s t : State) : Prop where
  range : 3 ≤ fd ∧ fd < 256
  wasFree : s.fdTable fd = none
  fdTable : t.fdTable = Function.update s.fdTable fd (some s.nextAddr)
  fdCount : t.fdCount = s.fdCount + 1
  nextAddr : s.nextAddr < t.nextAddr
  blocks : ∃ added : List (Nat × Object),
    (∀ entry ∈ added, s.nextAddr ≤ entry.1 ∧ entry.1 < t.nextAddr) ∧ t.heap = added ++ s.heap
  fatFiles : ∃ added : List (Nat × Path × Nat),
    (∀ entry ∈ added, s.nextAddr ≤ entry.1 ∧ entry.1 < t.nextAddr) ∧
      t.fatOpened = added ++ s.fatOpened
  serves : Serves t path s.nextAddr
  closes : ∀ u : State, u.heap = t.heap → u.fatOpened = t.fatOpened →
    u.fdTable fd = some s.nextAddr →
      vfsClose fd u = { u with
        heap := s.heap
        fatOpened := s.fatOpened
        fdTable := Function.update u.fdTable fd none
        fdCount := u.fdCount - 1 }

theorem lookup_append {s : State} {added heap : List (Nat × Object)} {bound address : Nat}
    (heapEq : s.heap = added ++ heap) (above : ∀ entry ∈ added, bound ≤ entry.1)
    (below : address < bound) :
    lookup s address = (heap.find? (·.1 = address)).map (·.2) := by
  have absent : added.find? (·.1 = address) = none := by
    apply List.find?_eq_none.mpr
    intro entry member
    have reach := above entry member
    simp only [decide_eq_true_eq]
    omega
  rw [lookup, heapEq, List.find?_append, absent, Option.none_or]

theorem Prepared.opened {path : Path} {name : Option Nat} {s p middle t : State} {content : File}
    {fd : Nat} (prepared : Prepared path name s p) (fresh : Fresh s) (nameEq : content.name = name)
    (attached : Attached path s.nextAddr content p middle)
    (allocated : allocateFd s.nextAddr middle = (some fd, t)) : Opened path fd s t := by
  obtain ⟨three, small, wasFree, rfl⟩ := allocateFd_eq_some allocated
  obtain ⟨added, above, heapEq⟩ := attached.blocks
  obtain ⟨addedFat, aboveFat, fatEq⟩ := attached.fatFiles
  obtain ⟨driver, opsEq, closes⟩ := attached.closes
  have below := prepared.nextAddr
  have le := attached.nextAddr
  rw [prepared.stored fresh] at heapEq closes
  rw [prepared.fatOpened] at fatEq closes
  have present : (lookup p s.nextAddr).isSome := by
    rcases prepared.named with isNone | isSome
    · subst name
      simp [lookup, prepared.heap, nameBlock]
    · subst name
      simp [lookup, prepared.heap, nameBlock]
  refine ⟨⟨three, small⟩, ?_, ?_, ?_, ?_, ?_, ⟨addedFat, ?_, fatEq⟩, attached.serves present, ?_⟩
  · rw [← wasFree, attached.fdTable, prepared.fdTable]
  · rw [setFd, attached.fdTable, prepared.fdTable]
  · rw [setFd, attached.fdCount, prepared.fdCount]
  · exact below.trans_le le
  · refine ⟨added ++ nameBlock name path ++ [(s.nextAddr, .file content)], ?_, ?_⟩
    · intro entry member
      rcases List.mem_append.mp member with inBlocks | isFile
      · rcases List.mem_append.mp inBlocks with inAdded | inName
        · exact ⟨below.le.trans (above entry inAdded).1, (above entry inAdded).2⟩
        · obtain ⟨address, isName, rfl⟩ := List.mem_map.mp inName
          have named : name = some address := Option.mem_toList.mp isName
          have nameBelow := prepared.nameBelow address named
          have nameAbove : s.nextAddr ≤ address := by
            rcases prepared.named with isNone | isSome
            · simp [isNone] at named
            · rw [isSome, Option.some.injEq] at named
              omega
          exact ⟨nameAbove, nameBelow.trans_le le⟩
      · rw [List.mem_singleton.mp isFile]
        exact ⟨le_refl _, below.trans_le le⟩
    · simp [setFd, heapEq]
  · intro entry member
    exact ⟨below.le.trans (aboveFat entry member).1, (aboveFat entry member).2⟩
  · intro u heapU fatU fdU
    have heapU' : u.heap = added ++ (nameBlock name path ++ (s.nextAddr, .file content) :: s.heap) :=
      heapU.trans heapEq
    have reached : getFileFromFd fd u = some s.nextAddr := by rw [getFileFromFd, if_pos small, fdU]
    have found : lookup u s.nextAddr = some (.file content) := by
      rw [lookup_append heapU' (fun entry member => (above entry member).1) below]
      rcases prepared.named with isNone | isSome
      · simp [isNone, nameBlock]
      · simp [isSome, nameBlock]
    have closed := closes u (heapU'.trans heapEq.symm) fatU
    have gone := prepared.released fresh (.file content)
    simp only [vfsClose, reached, found, opsEq, closed, nameEq, free, gone, freeFd, if_pos small,
      setFd]

theorem vfsOpenPrepared_cases {path : Path} {flags : Nat} {name : Option Nat} {s p t : State}
    {result : Option Nat} (prepared : Prepared path name s p) (fresh : Fresh s)
    (freeFd : HasFreeFd s) (opened : vfsOpenPrepared s.nextAddr name path flags p = (result, t)) :
    (result = none ∧ SameResources s t) ∨ ∃ fd, result = some fd ∧ Opened path fd s t := by
  have freshP := prepared.fresh fresh
  have freeFdP := freeFd.of_fdTable prepared.fdTable
  have given : ∀ u, SameResources p u →
      SameResources s (free (some s.nextAddr) (free name u)) := by
    intro u same
    refine ⟨?_, same.fatOpened.trans prepared.fatOpened, same.fdTable.trans prepared.fdTable,
      same.fdCount.trans prepared.fdCount, prepared.nextAddr.le.trans same.nextAddr⟩
    simp only [free, same.heap, prepared.heap]
    exact prepared.released fresh _
  unfold vfsOpenPrepared at opened
  cases attempt : fatOpen s.nextAddr name path flags p with
  | mk ok middle =>
    cases ok with
    | true =>
        obtain ⟨content, nameEq, attached⟩ := fatOpen_true freshP prepared.nextAddr attempt
        obtain ⟨fd, last, allocated⟩ :=
          allocateFd_isSome s.nextAddr (freeFdP.of_fdTable attached.fdTable)
        simp only [attempt, allocated, Prod.mk.injEq] at opened
        obtain ⟨rfl, rfl⟩ := opened
        exact .inr ⟨fd, rfl, prepared.opened fresh nameEq attached allocated⟩
    | false =>
        have same := fatOpen_false freshP attempt
        simp only [attempt] at opened
        cases loop : openDriver s.nextAddr name path drivers middle with
        | mk found last =>
          rcases openDriver_cases (fun _ member => member) (same.fresh freshP)
              (prepared.nextAddr.trans_le same.nextAddr) (freeFdP.of_fdTable same.fdTable) loop with
            ⟨rfl, unchanged⟩ | ⟨fd, content, last', rfl, nameEq, attached, allocated⟩
          · simp only [loop, Prod.mk.injEq] at opened
            obtain ⟨rfl, rfl⟩ := opened
            exact .inl ⟨rfl, given last (same.trans unchanged)⟩
          · simp only [loop, Prod.mk.injEq] at opened
            obtain ⟨rfl, rfl⟩ := opened
            have attached' := attached.of_same same
            exact .inr ⟨fd, rfl, prepared.opened fresh nameEq attached' allocated⟩

/-- `vfs_open`, while some descriptor is free. -/
theorem vfsOpen_cases {path : Path} {flags : Nat} {s t : State} {result : Option Nat}
    (fresh : Fresh s) (freeFd : HasFreeFd s) (opened : vfsOpen path flags s = (result, t)) :
    (result = none ∧ SameResources s t) ∨ ∃ fd, result = some fd ∧ Opened path fd s t := by
  rcases vfsOpen_prepared path flags fresh with
    ⟨_, failed, silent⟩ | ⟨_, name, p, prepared, _, _, continued⟩
  · rw [opened] at failed silent
    exact .inl ⟨failed, silent.sameResources⟩
  · exact vfsOpenPrepared_cases prepared fresh freeFd (continued.symm.trans opened)

theorem Opened.closed {path : Path} {fd : Nat} {s t : State} (opened : Opened path fd s t) :
    SameResources s (vfsClose fd t) := by
  have reached : t.fdTable fd = some s.nextAddr := by rw [opened.fdTable, Function.update_self]
  rw [opened.closes t rfl rfl reached]
  refine ⟨rfl, rfl, ?_, ?_, opened.nextAddr.le⟩
  · rw [opened.fdTable, Function.update_idem, ← opened.wasFree, Function.update_eq_self]
  · simp [opened.fdCount]

end OrionBios.Vfs
