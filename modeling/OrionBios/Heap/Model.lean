import OrionBios.Machine.Memory
import OrionBios.Machine.LinkedList

/-!
# The heap of `libc/src/string/malloc.c`

The heap header and the descriptor table lie in the memory they manage, so every
access of the allocator is a load or a store at the address of a structure field.
The allocator is compiled with compaction and splitting. Loops that walk a list are
given as many steps as there are addresses: a walk that uses them up has come back
to a descriptor and does not end.
-/

namespace OrionBios.Heap

open Machine

inductive HeapField where
  | free | used | fresh | top
  deriving DecidableEq

def HeapField.offset : HeapField → Nat
  | .free => 0
  | .used => 4
  | .fresh => 8
  | .top => 12

inductive BlockField where
  | addr | next | size
  deriving DecidableEq

def BlockField.offset : BlockField → Nat
  | .addr => 0
  | .next => 4
  | .size => 8

/-- A field of `Heap`, or of the `Block` a pointer points to. -/
inductive Cell where
  | heap (field : HeapField)
  | block (pointer : Address) (field : BlockField)
  deriving DecidableEq

def sizeofHeap : Nat := 16

def sizeofBlock : Nat := 12

def NULL : Address := 0

@[irreducible] def loopFuel : Nat := 2 ^ 32

/-- The static variables of the file, which only `malloc_init` writes. -/
structure Globals where
  heap : Address
  heapLimit : Word
  heapSplitThresh : Word
  heapAlignment : Word
  heapMaxBlocks : Word
  deriving DecidableEq

namespace Globals

def address (g : Globals) : Cell → Address
  | .heap field => g.heap + BitVec.ofNat 32 field.offset
  | .block pointer field => pointer + BitVec.ofNat 32 field.offset

def read (g : Globals) (m : Memory) (cell : Cell) : Word :=
  load32 m (g.address cell)

def write (g : Globals) (m : Memory) (cell : Cell) (value : Word) : Memory :=
  store32 m (g.address cell) value

def addr (g : Globals) (m : Memory) (block : Address) : Word := g.read m (.block block .addr)

def next (g : Globals) (m : Memory) (block : Address) : Address := g.read m (.block block .next)

def size (g : Globals) (m : Memory) (block : Address) : Word := g.read m (.block block .size)

/-- `if (prev) prev->next = value; else heap->root = value;` -/
def relink (g : Globals) (m : Memory) (root : HeapField) (prev value : Address) : Memory :=
  if prev ≠ NULL then g.write m (.block prev .next) value else g.write m (.heap root) value

end Globals

/-! ## Sorted insertion and compaction -/

def insertBlock (g : Globals) (block : Address) (m : Memory) : Option Memory := do
  let (prev, ptr) ← walk (g.next m) (fun _ ptr => g.addr m block ≤ g.addr m ptr) NULL loopFuel
    NULL (g.read m (.heap .free))
  let m := g.relink m .free prev block
  return g.write m (.block block .next) ptr

def releaseBlock (g : Globals) (scan : Address) (m : Memory) : Memory :=
  let m := g.write m (.block scan .next) (g.read m (.heap .fresh))
  let m := g.write m (.heap .fresh) scan
  let m := g.write m (.block scan .addr) 0
  g.write m (.block scan .size) 0

def releaseBlocks (g : Globals) : Nat → Address → Address → Memory → Option Memory
  | 0, _, _, _ => none
  | fuel + 1, scan, upTo, m =>
      if scan = upTo then some m
      else releaseBlocks g fuel (g.next m scan) upTo (releaseBlock g scan m)

/-- The last block of the run of adjacent blocks that starts with `ptr`. -/
def lastAdjacent (g : Globals) (ptr : Address) (m : Memory) : Option Address := do
  let (prev, _) ← walk (g.next m) (fun prev scan => g.addr m prev + g.size m prev ≠ g.addr m scan)
    NULL loopFuel ptr (g.next m ptr)
  return prev

def mergeRun (g : Globals) (ptr prev : Address) (m : Memory) : Option Memory := do
  let newSize := g.addr m prev - g.addr m ptr + g.size m prev
  let m := g.write m (.block ptr .size) newSize
  let next := g.next m prev
  let m ← releaseBlocks g loopFuel (g.next m ptr) next m
  return g.write m (.block ptr .next) next

def compactLoop (g : Globals) : Nat → Address → Memory → Option Memory
  | 0, _, _ => none
  | fuel + 1, ptr, m =>
      if ptr = NULL then some m
      else do
        let prev ← lastAdjacent g ptr m
        let m ← (if prev ≠ ptr then mergeRun g ptr prev m else some m : Option Memory)
        compactLoop g fuel (g.next m ptr) m

def compact (g : Globals) (m : Memory) : Option Memory :=
  compactLoop g loopFuel (g.read m (.heap .free)) m

/-! ## Initialisation -/

/-- Links `i + 1` descriptors, starting with `block`. -/
def linkFresh (g : Globals) : Nat → Address → Memory → Memory
  | 0, block, m => g.write m (.block block .next) NULL
  | i + 1, block, m =>
      linkFresh g i (block + BitVec.ofNat 32 sizeofBlock)
        (g.write m (.block block .next) (block + BitVec.ofNat 32 sizeofBlock))

structure State where
  globals : Globals
  memory : Memory

def mallocInit (memory : Memory) (base limit heapBlocks splitThresh alignment : Word) : State :=
  let g : Globals :=
    { heap := base
      heapLimit := limit
      heapSplitThresh := splitThresh
      heapAlignment := alignment
      heapMaxBlocks := heapBlocks }
  let m := g.write memory (.heap .free) NULL
  let m := g.write m (.heap .used) NULL
  let m := g.write m (.heap .fresh) (base + BitVec.ofNat 32 sizeofHeap)
  let m := g.write m (.heap .top)
    (g.read m (.heap .fresh) + heapBlocks * BitVec.ofNat 32 sizeofBlock)
  { globals := g
    memory := linkFresh g (g.heapMaxBlocks - 1).toNat (g.read m (.heap .fresh)) m }

/-! ## Releasing and allocating -/

def free (g : Globals) (free : Address) (m : Memory) : Option (Bool × Memory) := do
  let (prev, block) ← walk (g.next m) (fun _ block => free = g.addr m block) NULL loopFuel NULL
    (g.read m (.heap .used))
  if block = NULL then
    return (false, m)
  else
    let m := g.relink m .used prev (g.next m block)
    let m ← insertBlock g block m
    let m ← compact g m
    return (true, m)

def roundUp (g : Globals) (num : Word) : Word :=
  (num + g.heapAlignment - 1) &&& -g.heapAlignment

def isTop (g : Globals) (m : Memory) (num : Word) (ptr : Address) : Bool :=
  g.read m (.heap .top) ≤ g.addr m ptr + g.size m ptr ∧ g.addr m ptr + num ≤ g.heapLimit

/-- Gives the part of `ptr` behind its first `num` bytes back, with a fresh descriptor. -/
def splitBlock (g : Globals) (num : Word) (ptr : Address) (m : Memory) : Option Memory := do
  let excess := g.size m ptr - num
  if g.heapSplitThresh ≤ excess then
    let m := g.write m (.block ptr .size) num
    let split := g.read m (.heap .fresh)
    let m := g.write m (.heap .fresh) (g.next m split)
    let m := g.write m (.block split .addr) (g.addr m ptr + num)
    let m := g.write m (.block split .size) excess
    let m ← insertBlock g split m
    compact g m
  else
    return m

/-- Serves a request from the free block `ptr`, which follows `prev` in the free list. -/
def takeFree (g : Globals) (num : Word) (prev ptr : Address) (m : Memory) : Option Memory := do
  let top := isTop g m num ptr
  let m := g.relink m .free prev (g.next m ptr)
  let m := g.write m (.block ptr .next) (g.read m (.heap .used))
  let m := g.write m (.heap .used) ptr
  if top then
    let m := g.write m (.block ptr .size) num
    return g.write m (.heap .top) (g.addr m ptr + num)
  else if g.read m (.heap .fresh) ≠ NULL then
    splitBlock g num ptr m
  else
    return m

/-- Serves a request from the memory above the high-water mark. -/
def takeTop (g : Globals) (num : Word) (m : Memory) : Address × Memory :=
  let top := g.read m (.heap .top)
  let newTop := top + num
  if g.read m (.heap .fresh) ≠ NULL ∧ newTop ≤ g.heapLimit then
    let ptr := g.read m (.heap .fresh)
    let m := g.write m (.heap .fresh) (g.next m ptr)
    let m := g.write m (.block ptr .addr) top
    let m := g.write m (.block ptr .next) (g.read m (.heap .used))
    let m := g.write m (.block ptr .size) num
    let m := g.write m (.heap .used) ptr
    (ptr, g.write m (.heap .top) newTop)
  else
    (NULL, m)

def allocBlock (g : Globals) (num : Word) (m : Memory) : Option (Address × Memory) := do
  let num := roundUp g num
  let (prev, ptr) ← walk (g.next m)
    (fun _ ptr => isTop g m num ptr || decide (num ≤ g.size m ptr)) NULL loopFuel NULL
    (g.read m (.heap .free))
  if ptr ≠ NULL then
    let m ← takeFree g num prev ptr m
    return (ptr, m)
  else
    return takeTop g num m

def malloc (g : Globals) (num : Word) (m : Memory) : Option (Address × Memory) := do
  let (block, m) ← allocBlock g num m
  if block ≠ NULL then
    return (g.addr m block, m)
  else
    return (NULL, m)

def clearWords : Nat → Address → Memory → Address × Memory
  | 0, ptrw, m => (ptrw, m)
  | numw + 1, ptrw, m => clearWords numw (ptrw + 4) (store32 m ptrw 0)

def clearBytes : Nat → Address → Memory → Memory
  | 0, _, m => m
  | num + 1, ptrb, m => clearBytes num (ptrb + 1) (store8 m ptrb 0)

/-- At an odd address, which only an odd alignment gives, the first word is an address error of the
processor: such a call does not return, and what holds behind it holds of nothing. -/
def memclear (ptr : Address) (num : Word) (m : Memory) : Memory :=
  let numw := (num &&& -4) / 4
  let (ptrb, m) := clearWords numw.toNat ptr m
  clearBytes (num &&& 3).toNat ptrb m

def calloc (g : Globals) (num size : Word) (m : Memory) : Option (Address × Memory) := do
  let num := num * size
  let (block, m) ← allocBlock g num m
  if block ≠ NULL then
    let m := memclear (g.addr m block) num m
    return (g.addr m block, m)
  else
    return (NULL, m)

/-! ## Counting -/

def countBlocks (g : Globals) (m : Memory) (root : HeapField) : Option Word :=
  (count (g.next m) NULL loopFuel (g.read m (.heap root))).map (BitVec.ofNat 32)

def mallocCheck (g : Globals) (m : Memory) : Option Bool := do
  let numFree ← countBlocks g m .free
  let numUsed ← countBlocks g m .used
  let numFresh ← countBlocks g m .fresh
  return g.heapMaxBlocks == numFree + numUsed + numFresh

/-! ## Runs -/

inductive Call where
  | malloc (num : Word)
  | calloc (num size : Word)
  | free (pointer : Address)
  deriving DecidableEq

def step (g : Globals) (m : Memory) : Call → Option Memory
  | .malloc num => (malloc g num m).map Prod.snd
  | .calloc num size => (calloc g num size m).map Prod.snd
  | .free pointer => (free g pointer m).map Prod.snd

end OrionBios.Heap
