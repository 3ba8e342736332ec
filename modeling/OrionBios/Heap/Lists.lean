import OrionBios.Heap.Model

/-!
# What the allocator does to its three lists

The free and the used list hold blocks, each a descriptor with the bytes it stands
for; the fresh list holds spare descriptors. A call of the allocator is a change of
these lists and of the high-water mark.
-/

namespace OrionBios.Heap

open Machine

structure Block where
  pointer : Address
  addr : Word
  size : Word
  deriving DecidableEq

structure Lists where
  free : List Block
  used : List Block
  fresh : List Address
  top : Word

/-- Insertion before the first block that does not start below. -/
def insert (block : Block) : List Block → List Block
  | [] => [block]
  | other :: rest =>
      if block.addr ≤ other.addr then block :: other :: rest else other :: insert block rest

/-- Joins `current` with the blocks behind it as long as they are adjacent, and goes on with
the first that is not. The second part lists the descriptors that became spare. -/
def mergeFrom (current : Block) : List Block → List Block × List Address
  | [] => ([current], [])
  | other :: rest =>
      if current.addr + current.size = other.addr then
        let merged := mergeFrom { current with size := current.size + other.size } rest
        (merged.1, other.pointer :: merged.2)
      else
        let merged := mergeFrom other rest
        (current :: merged.1, merged.2)

def coalesce : List Block → List Block × List Address
  | [] => ([], [])
  | first :: rest => mergeFrom first rest

namespace Lists

def compacted (l : Lists) : Lists :=
  { l with free := (coalesce l.free).1, fresh := (coalesce l.free).2.reverse ++ l.fresh }

def release (l : Lists) (block : Block) : Lists :=
  { l with free := insert block l.free }.compacted

/-- The block reaches the high-water mark and can be resized to `num` bytes. -/
def Resizable (l : Lists) (g : Globals) (num : Word) (block : Block) : Prop :=
  l.top ≤ block.addr + block.size ∧ block.addr + num ≤ g.heapLimit

instance (l : Lists) (g : Globals) (num : Word) (block : Block) :
    Decidable (l.Resizable g num block) :=
  inferInstanceAs (Decidable (_ ∧ _))

def Serves (l : Lists) (g : Globals) (num : Word) (block : Block) : Prop :=
  l.Resizable g num block ∨ num ≤ block.size

instance (l : Lists) (g : Globals) (num : Word) (block : Block) :
    Decidable (l.Serves g num block) :=
  inferInstanceAs (Decidable (_ ∨ _))

end Lists

variable {g : Globals} {num : Word} {l : Lists}

/-- A request for `num` bytes, already rounded up: the block it gets, and the lists after. -/
inductive Alloc (g : Globals) (num : Word) (l : Lists) : Option Block → Lists → Prop where
  | resized {before after : List Block} {block : Block}
      (found : l.free = before ++ block :: after)
      (first : ∀ other ∈ before, ¬ l.Serves g num other)
      (top : l.Resizable g num block) :
      Alloc g num l (some { block with size := num })
        { l with
          free := before ++ after
          used := { block with size := num } :: l.used
          top := block.addr + num }
  | whole {before after : List Block} {block : Block}
      (found : l.free = before ++ block :: after)
      (first : ∀ other ∈ before, ¬ l.Serves g num other)
      (inside : ¬ l.Resizable g num block) (big : num ≤ block.size)
      (kept : l.fresh = [] ∨ block.size - num < g.heapSplitThresh) :
      Alloc g num l (some block)
        { l with free := before ++ after, used := block :: l.used }
  | split {before after : List Block} {block : Block} {spare : Address} {fresh : List Address}
      (found : l.free = before ++ block :: after)
      (first : ∀ other ∈ before, ¬ l.Serves g num other)
      (inside : ¬ l.Resizable g num block) (big : num ≤ block.size)
      (spares : l.fresh = spare :: fresh) (excess : g.heapSplitThresh ≤ block.size - num) :
      Alloc g num l (some { block with size := num })
        (Lists.release
          { l with
            free := before ++ after
            used := { block with size := num } :: l.used
            fresh := fresh }
          { pointer := spare, addr := block.addr + num, size := block.size - num })
  | raised {spare : Address} {fresh : List Address}
      (unserved : ∀ block ∈ l.free, ¬ l.Serves g num block)
      (spares : l.fresh = spare :: fresh) (room : l.top + num ≤ g.heapLimit) :
      Alloc g num l (some { pointer := spare, addr := l.top, size := num })
        { l with
          used := { pointer := spare, addr := l.top, size := num } :: l.used
          fresh := fresh
          top := l.top + num }
  | refused (unserved : ∀ block ∈ l.free, ¬ l.Serves g num block)
      (full : l.fresh = [] ∨ ¬ l.top + num ≤ g.heapLimit) :
      Alloc g num l none l

/-- The effect of `free(pointer)`: the first used block with that address is released. -/
inductive Free (pointer : Address) (l : Lists) : Bool → Lists → Prop where
  | found {before after : List Block} {block : Block}
      (found : l.used = before ++ block :: after)
      (first : ∀ other ∈ before, other.addr ≠ pointer) (same : block.addr = pointer) :
      Free pointer l true (Lists.release { l with used := before ++ after } block)
  | absent (unknown : ∀ block ∈ l.used, block.addr ≠ pointer) :
      Free pointer l false l

end OrionBios.Heap
