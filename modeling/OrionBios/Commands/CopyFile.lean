import OrionBios.Buffers.Ring

/-!
# Copying a file

`do_copyfile` opens the source, reads all of it to a block from `malloc`, and writes the block to a
new file. Each of its calls may fail, and a read or a write may come short. What is opened or
allocated is a resource, and the calls that take and give back resources are kept in their order.
-/

namespace OrionBios.Commands

open Buffers

inductive Resource where
  | src | dest | buffer
  deriving DecidableEq, Repr

inductive Use where
  | acquire (resource : Resource)
  | release (resource : Resource)
  deriving DecidableEq, Repr

abbrev Byte := BitVec 8

/-- What becomes of the calls. A read or a write that does not fail says how many bytes it handled,
and one that fails leaves something in the new file. -/
structure CopyOutcomes where
  opensSource : Bool
  allocates : Bool
  /-- What the block held before. -/
  block : Nat → Byte
  read : Option Nat
  opensDest : Bool
  write : Option Nat
  ruined : List Byte

structure CopyRun where
  uses : List Use
  /-- The number of bytes in the message `Copied %d bytes`, if it is printed. -/
  copied : Option Nat
  /-- The new file, if it is created. -/
  dest : Option (List Byte)

def readBlock (source : List Byte) (block : Nat → Byte) (bytesRead : Nat) : List Byte :=
  source.take bytesRead ++ bufferRead block bytesRead (source.length - bytesRead)

def doCopyfile (source : List Byte) (outcomes : CopyOutcomes) : CopyRun :=
  if !outcomes.opensSource then { uses := [], copied := none, dest := none }
  else if !outcomes.allocates then
    { uses := [.acquire .src, .release .src], copied := none, dest := none }
  else
    match outcomes.read with
    | none =>
      -- the block is not freed here
      { uses := [.acquire .src, .acquire .buffer, .release .src], copied := none, dest := none }
    | some bytesRead =>
      let buffer := readBlock source outcomes.block bytesRead
      if !outcomes.opensDest then
        { uses := [.acquire .src, .acquire .buffer, .release .src, .release .buffer]
          copied := none
          dest := none }
      else
        let uses := [.acquire .src, .acquire .buffer, .acquire .dest, .release .buffer,
          .release .src, .release .dest]
        match outcomes.write with
        | none => { uses := uses, copied := none, dest := some outcomes.ruined }
        | some bytesWritten =>
          { uses := uses
            copied := some (min bytesWritten source.length)
            dest := some (buffer.take bytesWritten) }

/-! ## What a copy should be -/

/-- How often a resource is held after some calls. -/
def held (resource : Resource) (uses : List Use) : Int :=
  uses.count (.acquire resource) - uses.count (.release resource)

/-- Along the way a resource is given back only while it is held, and in the end none is held. -/
structure Balanced (uses : List Use) : Prop where
  sane : ∀ before ∈ uses.inits, ∀ resource, 0 ≤ held resource before ∧ held resource before ≤ 1
  settled : ∀ resource, held resource uses = 0

structure Copies (source : List Byte) (run : CopyRun) : Prop where
  exact : run.copied ≠ none → run.dest = some source
  balanced : Balanced run.uses

/-- Once there is a block, the read does not fail; and when the new file is written without an
error, all bytes are written, and those a short read left out stood in the block already. -/
structure Undisturbed (source : List Byte) (outcomes : CopyOutcomes) : Prop where
  reads : outcomes.opensSource = true → outcomes.allocates = true → outcomes.read ≠ none
  writes : outcomes.opensSource = true → outcomes.allocates = true → outcomes.opensDest = true →
    ∀ bytesRead bytesWritten, outcomes.read = some bytesRead →
      outcomes.write = some bytesWritten → source.length ≤ bytesWritten ∧
        bufferRead outcomes.block bytesRead (source.length - bytesRead) = source.drop bytesRead

instance (uses : List Use) : Decidable (Balanced uses) :=
  decidable_of_iff
    ((∀ before ∈ uses.inits, ∀ resource ∈ [Resource.src, .dest, .buffer],
      0 ≤ held resource before ∧ held resource before ≤ 1) ∧
      ∀ resource ∈ [Resource.src, .dest, .buffer], held resource uses = 0)
    ⟨fun both => ⟨fun before among resource => both.1 before among resource (by cases resource <;> simp),
      fun resource => both.2 resource (by cases resource <;> simp)⟩,
     fun balanced => ⟨fun before among resource _ => balanced.sane before among resource,
      fun resource _ => balanced.settled resource⟩⟩

/-! ## When it is one -/

theorem readBlock_length (source : List Byte) (block : Nat → Byte) (bytesRead : Nat) :
    (readBlock source block bytesRead).length = source.length := by
  rw [readBlock, List.length_append, List.length_take, bufferRead_length]
  omega

/-- The new file is the source if all bytes are written and the block held the source. -/
theorem take_readBlock_eq {source : List Byte} {block : Nat → Byte} {bytesRead bytesWritten : Nat} :
    (readBlock source block bytesRead).take bytesWritten = source ↔
      source.length ≤ bytesWritten ∧
        bufferRead block bytesRead (source.length - bytesRead) = source.drop bytesRead := by
  have length := readBlock_length source block bytesRead
  have whole : readBlock source block bytesRead = source ↔
      bufferRead block bytesRead (source.length - bytesRead) = source.drop bytesRead := by
    constructor
    · intro same
      exact List.append_cancel_left (same.trans (List.take_append_drop bytesRead source).symm)
    · intro same
      rw [readBlock, same, List.take_append_drop]
  rw [← whole]
  constructor
  · intro same
    have le : source.length ≤ bytesWritten := by
      have shorter := congrArg List.length same
      rw [List.length_take, length] at shorter
      omega
    rw [List.take_of_length_le (length ▸ le)] at same
    exact ⟨le, same⟩
  · rintro ⟨le, same⟩
    rw [List.take_of_length_le (length ▸ le), same]

theorem balanced_none : Balanced [] := by decide

theorem balanced_source : Balanced [.acquire .src, .release .src] := by decide

theorem balanced_block :
    Balanced [.acquire .src, .acquire .buffer, .release .src, .release .buffer] := by decide

theorem balanced_all : Balanced [.acquire .src, .acquire .buffer, .acquire .dest,
    .release .buffer, .release .src, .release .dest] := by decide

theorem not_balanced_read : ¬Balanced [.acquire .src, .acquire .buffer, .release .src] := by decide

/-- A copy is exact, and every resource is given back once, if and only if the calls go
undisturbed. -/
theorem copies_iff (source : List Byte) (outcomes : CopyOutcomes) :
    Copies source (doCopyfile source outcomes) ↔ Undisturbed source outcomes := by
  obtain ⟨opensSource, allocates, block, read, opensDest, write, ruined⟩ := outcomes
  cases opensSource with
  | false =>
      exact iff_of_true ⟨fun some => absurd rfl some, balanced_none⟩
        ⟨fun opens => absurd opens Bool.false_ne_true, fun opens => absurd opens Bool.false_ne_true⟩
  | true =>
    cases allocates with
    | false =>
        exact iff_of_true ⟨fun some => absurd rfl some, balanced_source⟩
          ⟨fun _ allocates => absurd allocates Bool.false_ne_true,
            fun _ allocates => absurd allocates Bool.false_ne_true⟩
    | true =>
      cases read with
      | none =>
          exact iff_of_false (fun copies => not_balanced_read copies.balanced)
            fun undisturbed => undisturbed.reads rfl rfl rfl
      | some bytesRead =>
        cases opensDest with
        | false =>
            exact iff_of_true ⟨fun some => absurd rfl some, balanced_block⟩
              ⟨fun _ _ => Option.some_ne_none bytesRead,
                fun _ _ opens => absurd opens Bool.false_ne_true⟩
        | true =>
          cases write with
          | none =>
              refine iff_of_true ⟨fun some => absurd rfl some, balanced_all⟩
                ⟨fun _ _ => Option.some_ne_none bytesRead, ?_⟩
              rintro _ _ _ _ _ _ ⟨⟩
          | some bytesWritten =>
              constructor
              · intro copies
                have same := Option.some.inj (copies.exact (Option.some_ne_none _))
                refine ⟨fun _ _ => Option.some_ne_none bytesRead, ?_⟩
                rintro _ _ _ _ _ ⟨⟩ ⟨⟩
                exact take_readBlock_eq.mp same
              · intro undisturbed
                refine ⟨fun _ => congrArg some (take_readBlock_eq.mpr ?_), balanced_all⟩
                exact undisturbed.writes rfl rfl rfl bytesRead bytesWritten rfl rfl

/-- A disk with room for one more byte. -/
def fullDisk : CopyOutcomes where
  opensSource := true
  allocates := true
  block := fun _ => 0
  read := some 2
  opensDest := true
  write := some 1
  ruined := []

/-- A source that cannot be read. -/
def badSource : CopyOutcomes where
  opensSource := true
  allocates := true
  block := fun _ => 0
  read := none
  opensDest := true
  write := none
  ruined := []

/-- On a full disk a file of two bytes is copied as one byte, with the message of a success; and
the block of a source that cannot be read is not freed. -/
theorem full_disk_truncates :
    (doCopyfile [1, 2] fullDisk).copied = some 1 ∧ (doCopyfile [1, 2] fullDisk).dest = some [1] ∧
      (doCopyfile [1, 2] badSource).uses = [.acquire .src, .acquire .buffer, .release .src] ∧
      ¬∀ source outcomes, Copies source (doCopyfile source outcomes) := by
  refine ⟨by decide, by decide, by decide, fun all => ?_⟩
  have exact := (all [1, 2] fullDisk).exact (by decide)
  exact absurd exact (by decide)

end OrionBios.Commands
