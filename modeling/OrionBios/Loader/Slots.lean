import OrionBios.Loader.Model
import OrionBios.Transition.Runs
import Mathlib.Data.List.Nodup
import Mathlib.Data.List.Range

/-!
# Slots and loads

A load takes a slot and gives it back when it fails or its program returns. A program that runs
may load others, so the loads form a stack, the innermost first.
-/

namespace OrionBios.Loader

open Machine Transition

def SLOT_BASE : Word := 0x00092000

def SLOT_SIZE : Nat := 0x00040000

def SLOT_COUNT : Nat := 10

/-- `Slots_BaseAddr` -/
def slotsBaseAddr (slot : Nat) : Address := SLOT_BASE + BitVec.ofNat 32 slot * 0x00040000

def InSlot (slot : Nat) (address : Address) : Prop := Within (slotsBaseAddr slot) SLOT_SIZE address

/-- A load that has not returned. -/
structure Load where
  slot : Nat
  file : File
  phase : Phase

structure System where
  slotInUse : Nat → Bool
  loads : List Load
  memory : Memory

namespace System

/-- `Slots_Alloc` looks for the first free slot. -/
def slotsAlloc (s : System) : Option Nat :=
  (List.range SLOT_COUNT).find? fun slot => !s.slotInUse slot

/-- `Slots_Free` -/
def slotsFree (s : System) (slot : Nat) : System :=
  if slot < SLOT_COUNT then
    { s with slotInUse := fun other => if other = slot then false else s.slotInUse other }
  else s

def freeSlots (s : System) : Nat := (List.range SLOT_COUNT).countP fun slot => !s.slotInUse slot

end System

/-- A program is loaded from a file, the innermost load goes on with what is in D2, or its program
returns. -/
inductive Label where
  | load (data : List Byte)
  | go (d2 : Word) (outcome : Outcome)
  | ret

/-- What the innermost load writes in a step. -/
def effects (s : System) : Label → List Effect
  | .go d2 outcome =>
    match s.loads with
    | [] => []
    | task :: _ => (advance (task.phase.read task.file d2 outcome).1 task.phase).2
  | _ => []

def step (s : System) : Label → Option System
  | .load data =>
    match s.slotsAlloc with
    -- the loader returns at once
    | none => some s
    | some slot =>
      some { s with
        slotInUse := fun other => if other = slot then true else s.slotInUse other
        loads := ⟨slot, ⟨data, 0⟩, .header⟩ :: s.loads }
  | .go d2 outcome =>
    match s.loads with
    | [] => none
    | task :: rest =>
      let read := task.phase.read task.file d2 outcome
      let memory := runAll (slotsBaseAddr task.slot) (advance read.1 task.phase).2 s.memory
      match (advance read.1 task.phase).1 with
      | .goes phase =>
        some { s with loads := { task with file := read.2, phase := phase } :: rest, memory := memory }
      | .fail => some ({ s with loads := rest, memory := memory }.slotsFree task.slot)
      | .addressError => none
  | .ret =>
    match s.loads with
    | { slot := slot, phase := .running _, .. } :: rest =>
      some ({ s with loads := rest }.slotsFree slot)
    | _ => none

def initial (memory : Memory) : System := ⟨fun _ => false, [], memory⟩

/-! ## Accounting -/

/-- The slots in use are those of the loads, each of its own. -/
structure Accounts (s : System) : Prop where
  used : ∀ slot, slot < SLOT_COUNT → (s.slotInUse slot = true ↔ slot ∈ s.loads.map Load.slot)
  apart : (s.loads.map Load.slot).Nodup
  within : ∀ slot ∈ s.loads.map Load.slot, slot < SLOT_COUNT

variable {s t : System} {label : Label}

theorem initial_accounts (memory : Memory) : Accounts (initial memory) where
  used := fun _ _ => ⟨nofun, fun there => absurd there List.not_mem_nil⟩
  apart := List.nodup_nil
  within := fun _ there => absurd there List.not_mem_nil

theorem Accounts.free (accounts : Accounts s) {task : Load} {rest : List Load} {memory : Memory}
    (loads : s.loads = task :: rest) :
    Accounts ({ s with loads := rest, memory := memory }.slotsFree task.slot) := by
  obtain ⟨used, apart, within⟩ := accounts
  rw [loads] at used apart within
  have inside := within task.slot List.mem_cons_self
  obtain ⟨alone, apart⟩ := List.nodup_cons.mp apart
  unfold System.slotsFree
  rw [if_pos inside]
  refine ⟨fun slot less => ?_, apart, fun slot there => within slot (List.mem_cons_of_mem _ there)⟩
  show (if slot = task.slot then false else s.slotInUse slot) = true ↔ _
  by_cases same : slot = task.slot
  · rw [if_pos same, same]
    exact ⟨nofun, fun there => absurd there alone⟩
  · rw [if_neg same, used slot less]
    exact ⟨fun there => (List.mem_cons.mp there).resolve_left same, List.mem_cons_of_mem _⟩

theorem slotsAlloc_eq_some {slot : Nat} (free : s.slotsAlloc = some slot) :
    slot < SLOT_COUNT ∧ s.slotInUse slot = false := by
  have unused : (!s.slotInUse slot) = true :=
    List.find?_some (p := fun slot => !s.slotInUse slot) free
  rw [Bool.not_eq_true'] at unused
  exact ⟨List.mem_range.mp (List.mem_of_find?_eq_some free), unused⟩

/-- A load takes the slot that `Slots_Alloc` found. -/
theorem Accounts.take (accounts : Accounts s) {slot : Nat} {file : File} {phase : Phase}
    (free : s.slotsAlloc = some slot) :
    Accounts { s with
      slotInUse := fun other => if other = slot then true else s.slotInUse other
      loads := ⟨slot, file, phase⟩ :: s.loads } := by
  obtain ⟨inside, unused⟩ := slotsAlloc_eq_some free
  have alone : slot ∉ s.loads.map Load.slot := fun there => by
    rw [(accounts.used slot inside).mpr there] at unused
    cases unused
  refine ⟨fun other less => ?_, List.nodup_cons.mpr ⟨alone, accounts.apart⟩, fun other there => ?_⟩
  · show (if other = slot then true else s.slotInUse other) = true ↔ other ∈ slot :: _
    by_cases same : other = slot
    · rw [if_pos same, same]
      exact ⟨fun _ => List.mem_cons_self, fun _ => rfl⟩
    · rw [if_neg same, accounts.used other less]
      exact ⟨List.mem_cons_of_mem _, fun there => (List.mem_cons.mp there).resolve_left same⟩
  · obtain rfl | earlier := List.mem_cons.mp there
    · exact inside
    · exact accounts.within other earlier

theorem step_accounts (accounts : Accounts s) (taken : step s label = some t) : Accounts t := by
  cases label with
  | load data =>
    unfold step at taken
    cases free : s.slotsAlloc with
    | none =>
      rw [free] at taken
      cases taken
      exact accounts
    | some slot =>
      rw [free] at taken
      cases taken
      exact accounts.take free
  | go d2 outcome =>
    unfold step at taken
    cases loads : s.loads with
    | nil =>
      rw [loads] at taken
      cases taken
    | cons task rest =>
      rw [loads] at taken
      dsimp only at taken
      cases next : (advance (task.phase.read task.file d2 outcome).1 task.phase).1 with
      | goes phase =>
        rw [next] at taken
        cases taken
        obtain ⟨used, apart, within⟩ := accounts
        rw [loads] at used apart within
        exact ⟨used, apart, within⟩
      | fail =>
        rw [next] at taken
        cases taken
        exact accounts.free loads
      | addressError =>
        rw [next] at taken
        cases taken
  | ret =>
    unfold step at taken
    cases loads : s.loads with
    | nil =>
      rw [loads] at taken
      cases taken
    | cons task rest =>
      rw [loads] at taken
      obtain ⟨slot, file, phase⟩ := task
      cases phase with
      | running l =>
        cases taken
        exact accounts.free loads
      | _ => cases taken

theorem Accounts.count (accounts : Accounts s) : s.freeSlots + s.loads.length = SLOT_COUNT := by
  have taken : (List.range SLOT_COUNT).countP (fun slot => s.slotInUse slot) = s.loads.length := by
    rw [List.countP_eq_length_filter]
    have same : ((List.range SLOT_COUNT).filter fun slot => s.slotInUse slot).Perm
        (s.loads.map Load.slot) := by
      refine (List.perm_ext_iff_of_nodup (List.nodup_range.filter _) accounts.apart).mpr
        fun slot => ?_
      rw [List.mem_filter, List.mem_range]
      constructor
      · rintro ⟨less, used⟩
        exact (accounts.used slot less).mp used
      · intro there
        have less := accounts.within slot there
        exact ⟨less, (accounts.used slot less).mpr there⟩
    rw [same.length_eq, List.length_map]
  have all := List.length_eq_countP_add_countP (fun slot => s.slotInUse slot)
    (l := List.range SLOT_COUNT)
  rw [List.length_range, taken] at all
  unfold System.freeSlots
  have negated : (List.range SLOT_COUNT).countP (fun slot => !s.slotInUse slot) =
      (List.range SLOT_COUNT).countP (fun slot => decide ¬s.slotInUse slot = true) := by
    refine List.countP_congr fun slot _ => ?_
    cases s.slotInUse slot <;> decide
  rw [negated]
  omega

end OrionBios.Loader
