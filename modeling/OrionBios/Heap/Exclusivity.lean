import OrionBios.Heap.Conservation
import OrionBios.Heap.Coverage

/-!
# Exclusivity of live blocks

A session remembers which blocks the program holds and how many bytes it asked for.
As long as no size computation of a request wraps, live blocks lie between the table
and the limit, are as large as requested and share no byte.
-/

namespace OrionBios.Heap

open Machine Transition

structure Live where
  address : Address
  bytes : Nat
  deriving DecidableEq

structure Session where
  memory : Memory
  live : List Live

/-- The result of a request, `none` for `free`. -/
def allocate (g : Globals) (m : Memory) : Call → Option (Address × Memory)
  | .malloc num => malloc g num m
  | .calloc num size => calloc g num size m
  | .free _ => none

/-- How many bytes a request asks for, as a product of numbers. -/
def requested : Call → Nat
  | .malloc num => num.toNat
  | .calloc num size => num.toNat * size.toNat
  | .free _ => 0

def Session.step (g : Globals) (s : Session) : Call → Option Session
  | .free pointer =>
      (Heap.free g pointer s.memory).map fun result =>
        { memory := result.2
          live := if result.1 then s.live.eraseP fun live => live.address = pointer else s.live }
  | call =>
      (allocate g s.memory call).map fun result =>
        { memory := result.2
          live :=
            if result.1 = NULL then s.live
            else { address := result.1, bytes := requested call } :: s.live }

def Globals.firstByte (g : Globals) : Nat := g.heap.toNat + g.tableBytes

/-- Each live block has a descriptor in the used list, in the same order, whose bytes lie in
the heap, are enough for the request and belong to no other block. -/
def Exclusive (g : Globals) (s : Session) : Prop :=
  ∃ blocks : List Block,
    Chain link (g.read s.memory) (.heap .used) (blocks.map Block.pointer) NULL ∧
    (∀ block ∈ blocks, g.addr s.memory block.pointer = block.addr ∧
      g.size s.memory block.pointer = block.size) ∧
    List.Forall₂ (fun block live => block.addr = live.address ∧ live.bytes ≤ block.size.toNat)
      blocks s.live ∧
    (∀ block ∈ blocks, g.firstByte ≤ block.addr.toNat ∧
      block.addr.toNat + block.size.toNat ≤ g.heapLimit.toNat) ∧
    blocks.Pairwise fun first second => ∀ byte, ¬ (first.Contains byte ∧ second.Contains byte)

/-- Rounding up does not wrap, nor does the end address of the place the request gets. -/
def SumsFit (g : Globals) (num : Word) (m : Memory) : Prop :=
  num.toNat + g.heapAlignment.toNat ≤ 2 ^ 32 ∧
    (placement g (roundUp g num) m).all
      (fun start => start.toNat + (roundUp g num).toNat < 2 ^ 32) = true

instance (g : Globals) (num : Word) (m : Memory) : Decidable (SumsFit g num m) :=
  inferInstanceAs (Decidable (_ ∧ _))

/-- No size computation of the call wraps. -/
def NoWrap (g : Globals) (m : Memory) : Call → Prop
  | .malloc num => SumsFit g num m
  | .calloc num size => num.toNat * size.toNat < 2 ^ 32 ∧ SumsFit g (num * size) m
  | .free _ => True

instance (g : Globals) (m : Memory) : (call : Call) → Decidable (NoWrap g m call)
  | .malloc num => inferInstanceAs (Decidable (SumsFit g num m))
  | .calloc num size =>
      inferInstanceAs (Decidable (num.toNat * size.toNat < 2 ^ 32 ∧ SumsFit g (num * size) m))
  | .free _ => isTrue trivial

variable {g : Globals} {fits : g.Fits} {m : Memory} {l l' : Lists} {num : Word} {block : Block}
  {low limit : Nat}

theorem roundUp_ge (aligned : 1 ≤ g.heapAlignment.toNat)
    (fit : num.toNat + g.heapAlignment.toNat ≤ 2 ^ 32) : num.toNat ≤ (roundUp g num).toNat := by
  have parts := and_neg_add_and (num + g.heapAlignment - 1) g.heapAlignment
  have masked : ((num + g.heapAlignment - 1) &&& (g.heapAlignment - 1)).toNat ≤
      (g.heapAlignment - 1).toNat := by
    rw [BitVec.toNat_and]
    exact Nat.and_le_right
  have sum : (num + g.heapAlignment - 1).toNat = num.toNat + g.heapAlignment.toNat - 1 := by
    bv_omega
  have mask : (g.heapAlignment - 1).toNat = g.heapAlignment.toNat - 1 := by
    bv_omega
  unfold roundUp
  omega

/-- The blocks lie between the table and the limit and cover no byte twice, and none behind
the high-water mark. -/
structure Bounded (low limit : Nat) (l : Lists) : Prop where
  above : low ≤ l.top.toNat
  below : l.top.toNat ≤ limit
  placed : Placed low limit l.blocks
  single : ∀ byte, cover l.blocks byte ≤ between low l.top.toNat byte

theorem Alloc.size_ge (allocated : Alloc g num l (some block) l') : num ≤ block.size := by
  cases allocated with
  | resized => exact BitVec.le_refl _
  | whole _ _ _ big => exact big
  | split => exact BitVec.le_refl _
  | raised => exact BitVec.le_refl _

theorem Alloc.addr_ge (allocated : Alloc g num l (some block) l') (bounded : Bounded low limit l) :
    low ≤ block.addr.toNat := by
  have inFree : ∀ {before after : List Block} {found : Block},
      l.free = before ++ found :: after → low ≤ found.addr.toNat := by
    intro before after found place
    exact (bounded.placed found ((blocks_perm place).symm.subset List.mem_cons_self)).1
  cases allocated with
  | resized place =>
      have start := inFree place
      exact start
  | whole place => exact inFree place
  | split place =>
      have start := inFree place
      exact start
  | raised => exact bounded.above

theorem Bounded.alloc (bounded : Bounded low g.heapLimit.toNat l)
    (allocated : Alloc g num l (some block) l')
    (reach : block.addr.toNat + num.toNat < 2 ^ 32) : Bounded low g.heapLimit.toNat l' := by
  have above := bounded.above
  have start := allocated.addr_ge bounded
  rcases allocated.cover_cases bounded.placed g.heapLimit.isLt reach with
    ⟨topEq, placed, same⟩ | ⟨old, beyond, later, _, topEq, room, size, known, moved⟩
  · refine ⟨topEq ▸ above, topEq ▸ bounded.below, placed, fun byte => ?_⟩
    rw [same, topEq]
    exact bounded.single byte
  · refine ⟨by omega, room, ?_, fun byte => ?_⟩
    · intro other among
      rcases known other among with rfl | before
      · refine ⟨start, ?_⟩
        unfold Block.finish
        rw [size, ← topEq]
        exact room
      · exact bounded.placed other before
    · have single := bounded.single byte
      have balance := moved byte
      unfold between at single balance ⊢
      split at single <;> split at balance <;> split at balance <;> split <;> omega

theorem Bounded.free {pointer : Address} {freed : Bool} (bounded : Bounded low limit l)
    (small : limit < 2 ^ 32) (released : Free pointer l freed l') : Bounded low limit l' := by
  obtain ⟨topEq, placed, same⟩ := released.cover_eq bounded.placed small
  refine ⟨topEq ▸ bounded.above, topEq ▸ bounded.below, placed, fun byte => ?_⟩
  rw [same, topEq]
  exact bounded.single byte

/-! ## Sessions -/

def Serves (block : Block) (live : Live) : Prop :=
  block.addr = live.address ∧ live.bytes ≤ block.size.toNat

/-- The lists in memory meet `Property`, and the used list tracks the live blocks. -/
def Tracks (Property : Lists → Prop) (g : Globals) (fits : g.Fits) (s : Session) : Prop :=
  ∃ l, g.Holds fits s.memory l [] ∧ Property l ∧ List.Forall₂ Serves l.used s.live

theorem firstByte_pos (g : Globals) : 0 < g.firstByte := by
  unfold Globals.firstByte Globals.tableBytes sizeofHeap
  omega

theorem served_spec (holds : g.Holds fits m l [])
    (bounded : Bounded g.firstByte g.heapLimit.toNat l) (aligned : 1 ≤ g.heapAlignment.toNat)
    (fit : SumsFit g num m) (allocated : Alloc g (roundUp g num) l (some block) l') :
    num.toNat ≤ block.size.toNat ∧ block.addr ≠ NULL ∧
      block.addr.toNat + (roundUp g num).toNat < 2 ^ 32 := by
  have reach := fit.2
  rw [placement_eq holds allocated, Option.all_some] at reach
  have start := allocated.addr_ge bounded
  refine ⟨Nat.le_trans (roundUp_ge aligned fit.1) allocated.size_ge, ?_, of_decide_eq_true reach⟩
  intro null
  have positive := firstByte_pos g
  rw [null] at start
  exact absurd start (Nat.not_le.mpr positive)

/-- The size a request passes to `alloc_block`. -/
def sizeArgument : Call → Option Word
  | .malloc num => some num
  | .calloc num size => some (num * size)
  | .free _ => none

theorem allocate_spec (holds : g.Holds fits m l [])
    (bounded : Bounded g.firstByte g.heapLimit.toNat l) (aligned : 1 ≤ g.heapAlignment.toNat)
    {call : Call} (noWrap : NoWrap g m call) (request : sizeArgument call = some num) :
    ∃ (found : Option Block) (l' : Lists) (m' : Memory),
      allocate g m call = some ((found.map Block.addr).getD NULL, m') ∧
      Alloc g (roundUp g num) l found l' ∧ g.Holds fits m' l' [] ∧ num.toNat = requested call ∧
      num.toNat + g.heapAlignment.toNat ≤ 2 ^ 32 ∧
      ∀ block ∈ found, requested call ≤ block.size.toNat ∧ block.addr ≠ NULL ∧
        block.addr.toNat + (roundUp g num).toNat < 2 ^ 32 := by
  cases call with
  | malloc num =>
      obtain rfl := Option.some.inj request
      obtain ⟨found, l', m', result, allocated, holds'⟩ := malloc_spec holds num
      refine ⟨found, l', m', result, allocated, holds', rfl, noWrap.1, ?_⟩
      rintro block rfl
      exact served_spec holds bounded aligned noWrap allocated
  | calloc num size =>
      obtain rfl := Option.some.inj request
      obtain ⟨small, fit⟩ := noWrap
      have product : (num * size).toNat = num.toNat * size.toNat := by
        rw [BitVec.toNat_mul, Nat.mod_eq_of_lt small]
      have clear : ∀ block l', Alloc g (roundUp g (num * size)) l (some block) l' →
          ∀ byte, Within g.heap g.tableBytes byte →
            ¬ Within block.addr (num * size).toNat byte := by
        intro block l' allocated byte inTable inBlock
        obtain ⟨_, _, reach⟩ := served_spec holds bounded aligned fit allocated
        have start := allocated.addr_ge bounded
        have enough := roundUp_ge aligned fit.1
        unfold Globals.firstByte at start
        unfold Within at inTable inBlock
        bv_omega
      obtain ⟨found, l', m', result, allocated, holds'⟩ := calloc_spec holds num size clear
      refine ⟨found, l', m', result, allocated, holds', product, fit.1, ?_⟩
      rintro block rfl
      have served := served_spec holds bounded aligned fit allocated
      rw [product] at served
      exact served
  | free pointer => cases request

theorem forall₂_erase {before after : List Block} {live : List Live} {pointer : Address}
    (tracks : List.Forall₂ Serves (before ++ block :: after) live)
    (first : ∀ other ∈ before, other.addr ≠ pointer) (same : block.addr = pointer) :
    List.Forall₂ Serves (before ++ after) (live.eraseP fun live => live.address = pointer) := by
  induction before generalizing live with
  | nil =>
      cases tracks with
      | @cons _ entry _ rest serves tracks =>
          have hit : entry.address = pointer := serves.1.symm.trans same
          simpa [hit] using tracks
  | cons other before inductionHypothesis =>
      cases tracks with
      | @cons _ entry _ rest serves tracks =>
          have miss : entry.address ≠ pointer := by
            rw [← serves.1]
            exact first other List.mem_cons_self
          have later := inductionHypothesis tracks fun other among =>
            first other (List.mem_cons_of_mem _ among)
          simpa [miss] using List.Forall₂.cons serves later

theorem step_tracks {Property : Lists → Prop} {s : Session} (tracks : Tracks Property g fits s)
    (aligned : 1 ≤ g.heapAlignment.toNat) {call : Call} (noWrap : NoWrap g s.memory call)
    (bounded : ∀ l, Property l → Bounded g.firstByte g.heapLimit.toNat l)
    (alloc : ∀ l l' num block, sizeArgument call = some num → num.toNat = requested call →
      num.toNat + g.heapAlignment.toNat ≤ 2 ^ 32 → Property l →
      Alloc g (roundUp g num) l (some block) l' →
      block.addr.toNat + (roundUp g num).toNat < 2 ^ 32 → Property l')
    (free : ∀ l l' pointer freed, Property l → Free pointer l freed l' → Property l') :
    ∃ next, Session.step g s call = some next ∧ Tracks Property g fits next := by
  obtain ⟨l, holds, property, live⟩ := tracks
  have serve : ∀ num, sizeArgument call = some num →
      ∃ result, allocate g s.memory call = some result ∧
        Tracks Property g fits
          { memory := result.2
            live :=
              if result.1 = NULL then s.live
              else { address := result.1, bytes := requested call } :: s.live } := by
    intro num request
    obtain ⟨found, l', m', result, allocated, holds', product, round, served⟩ :=
      allocate_spec holds (bounded l property) aligned noWrap request
    refine ⟨_, result, l', holds', ?_⟩
    cases found with
    | none =>
        cases allocated
        exact ⟨property, live⟩
    | some block =>
        obtain ⟨enough, real, reach⟩ := served block rfl
        refine ⟨alloc l l' num block request product round property allocated reach, ?_⟩
        rw [allocated.used_eq]
        simp only [Option.map_some, Option.getD_some, if_neg real]
        exact List.Forall₂.cons ⟨rfl, enough⟩ live
  cases call with
  | malloc num =>
      obtain ⟨result, taken, tracks⟩ := serve num rfl
      exact ⟨_, congrArg (Option.map _) taken, tracks⟩
  | calloc num size =>
      obtain ⟨result, taken, tracks⟩ := serve (num * size) rfl
      exact ⟨_, congrArg (Option.map _) taken, tracks⟩
  | free pointer =>
      obtain ⟨freed, m', l', result, released, holds'⟩ := free_spec holds pointer
      refine ⟨_, congrArg (Option.map _) result, l', holds',
        free l l' pointer freed property released, ?_⟩
      cases released with
      | found place first same => exact forall₂_erase (place ▸ live) first same
      | absent => exact live

theorem Tracks.exclusive {s : Session}
    (tracks : Tracks (Bounded g.firstByte g.heapLimit.toNat) g fits s) : Exclusive g s := by
  obtain ⟨l, holds, bounded, live⟩ := tracks
  have known : ∀ block ∈ l.used, block ∈ [] ++ (l.free ++ l.used) := by
    intro block among
    simp [among]
  refine ⟨l.used, Holds.chain holds .used, ?_, live, ?_, ?_⟩
  · intro block among
    exact ⟨Holds.addr_eq holds (known block among), Holds.size_eq holds (known block among)⟩
  · intro block among
    exact bounded.placed block (known block among)
  · apply pairwise_of_cover
    intro byte
    have single := bounded.single byte
    have one : between g.firstByte l.top.toNat byte ≤ 1 := by
      unfold between
      split <;> omega
    rw [Lists.blocks, cover_append] at single
    omega

theorem initial_top (fits : g.Fits) (room : g.firstByte ≤ g.heapLimit.toNat) :
    (Lists.initial g fits).top.toNat = g.firstByte := by
  have small := g.heapLimit.isLt
  unfold Globals.firstByte Globals.tableBytes sizeofHeap sizeofBlock at room ⊢
  unfold Lists.initial Globals.descriptor sizeofHeap sizeofBlock
  dsimp only
  rw [BitVec.toNat_add, BitVec.toNat_ofNat]
  omega

theorem initial_tracks (memory : Memory) (g : Globals) (fits : g.Fits)
    (positive : 0 < g.heapMaxBlocks.toNat) (room : g.firstByte ≤ g.heapLimit.toNat) :
    Tracks (Bounded g.firstByte g.heapLimit.toNat) g fits
      { memory := (mallocInit memory g.heap g.heapLimit g.heapMaxBlocks g.heapSplitThresh
          g.heapAlignment).memory
        live := [] } := by
  have top := initial_top fits room
  refine ⟨_, mallocInit_spec memory g fits positive, ⟨?_, ?_, ?_, ?_⟩, List.Forall₂.nil⟩
  · exact Nat.le_of_eq top.symm
  · exact top ▸ room
  · exact fun _ impossible => nomatch impossible
  · exact fun _ => Nat.zero_le _

/-- In every session without a wrapping size computation the live blocks are exclusive, and a
request for more bytes than the heap has is refused. -/
theorem live_blocks_exclusive (memory : Memory)
    (base limit heapBlocks splitThresh alignment : Word) (positive : 1 ≤ heapBlocks.toNat)
    (aligned : 1 ≤ alignment.toNat)
    (room : base.toNat + (sizeofHeap + sizeofBlock * heapBlocks.toNat) ≤ limit.toNat)
    (start : State)
    (initialised : start = mallocInit memory base limit heapBlocks splitThresh alignment)
    (calls : List Call)
    (guarded : Guarded (Session.step start.globals)
      (fun s call => NoWrap start.globals s.memory call)
      { memory := start.memory, live := [] } calls) :
    ∃ last, exec (Session.step start.globals) { memory := start.memory, live := [] } calls =
        some last ∧
      Exclusive start.globals last ∧
      ∀ call, NoWrap start.globals last.memory call →
        limit.toNat < start.globals.firstByte + requested call →
        (allocate start.globals last.memory call).map Prod.fst = some NULL := by
  subst initialised
  let g : Globals :=
    { heap := base
      heapLimit := limit
      heapSplitThresh := splitThresh
      heapAlignment := alignment
      heapMaxBlocks := heapBlocks }
  have fits : g.Fits := Nat.le_trans room (Nat.le_of_lt limit.isLt)
  let Invariant := Tracks (Bounded g.firstByte g.heapLimit.toNat) g fits
  have enabled : ∀ s call, Invariant s → NoWrap g s.memory call →
      ∃ next, Session.step g s call = some next ∧ Invariant next := by
    intro s call tracks noWrap
    apply step_tracks tracks aligned noWrap (fun l bounded => bounded)
    · intro l l' num block _ _ _ bounded allocated reach
      exact bounded.alloc allocated reach
    · intro l l' pointer freed bounded released
      exact bounded.free limit.isLt released
  obtain ⟨last, run, tracks⟩ := exec_of_guarded Invariant enabled
    (initial_tracks memory g fits positive room) guarded
  refine ⟨last, run, tracks.exclusive, fun call noWrap tooLarge => ?_⟩
  obtain ⟨l, holds, bounded, _⟩ := tracks
  cases request : sizeArgument call with
  | none =>
      cases call with
      | malloc | calloc => cases request
      | free pointer => exact absurd tooLarge (Nat.not_lt.mpr room)
  | some num =>
      obtain ⟨found, l', m', result, allocated, _, _, _, served⟩ :=
        allocate_spec holds bounded aligned noWrap request
      cases found with
      | none => exact congrArg (Option.map Prod.fst) result
      | some block =>
          obtain ⟨enough, _, reach⟩ := served block rfl
          have inUse : block ∈ l'.blocks := by
            rw [Lists.blocks, allocated.used_eq]
            simp
          obtain ⟨above, below⟩ := (bounded.alloc allocated reach).placed block inUse
          unfold Block.finish at below
          change limit.toNat < g.firstByte + requested call at tooLarge
          change block.addr.toNat + block.size.toNat ≤ limit.toNat at below
          omega

/-- A block is freed, split by a `calloc`, and the rest of it joined again. -/
theorem live_blocks_exclusive_plain :
    ∃ last, exec (Session.step (mallocInit (fun _ => 0) 0x1000 0x8000 4 16 4).globals)
        { memory := (mallocInit (fun _ => 0) 0x1000 0x8000 4 16 4).memory, live := [] }
        [.malloc 30, .free 4160, .calloc 2 3, .free 5] = some last ∧
      Exclusive (mallocInit (fun _ => 0) 0x1000 0x8000 4 16 4).globals last ∧
      ∀ call, NoWrap (mallocInit (fun _ => 0) 0x1000 0x8000 4 16 4).globals last.memory call →
        (0x8000 : Word).toNat <
          (mallocInit (fun _ => 0) 0x1000 0x8000 4 16 4).globals.firstByte + requested call →
        (allocate (mallocInit (fun _ => 0) 0x1000 0x8000 4 16 4).globals last.memory call).map
          Prod.fst = some NULL :=
  live_blocks_exclusive (fun _ => 0) 0x1000 0x8000 4 16 4 (by decide) (by decide) (by decide) _ rfl
    [.malloc 30, .free 4160, .calloc 2 3, .free 5] (guarded_of_check (by decide +kernel))

theorem Exclusive.bytes_le {s : Session} (exclusive : Exclusive g s) {live : Live}
    (among : live ∈ s.live) : live.bytes ≤ g.heapLimit.toNat := by
  obtain ⟨blocks, _, _, served, placed, _⟩ := exclusive
  obtain ⟨index, small, rfl⟩ := List.getElem_of_mem among
  have small' : index < blocks.length := served.length_eq ▸ small
  have serves := served.get small' small
  have inside := placed _ (List.getElem_mem small')
  have enough := serves.2
  simp only [List.get_eq_getElem] at enough
  omega

/-- `malloc(2^32 - 1)` rounds up to 0 bytes and returns the first byte of the heap. -/
theorem wrapped_request_returns_empty_block :
    ¬ ∀ last, exec (Session.step (mallocInit (fun _ => 0) 0x1000 0x8000 4 16 4).globals)
        { memory := (mallocInit (fun _ => 0) 0x1000 0x8000 4 16 4).memory, live := [] }
        [.malloc 4294967295] = some last →
      Exclusive (mallocInit (fun _ => 0) 0x1000 0x8000 4 16 4).globals last := by
  intro claimed
  have taken : (exec (Session.step (mallocInit (fun _ => 0) 0x1000 0x8000 4 16 4).globals)
      { memory := (mallocInit (fun _ => 0) 0x1000 0x8000 4 16 4).memory, live := [] }
      [.malloc 4294967295]).map Session.live =
        some [{ address := 4160, bytes := 4294967295 }] := by
    decide +kernel
  obtain ⟨last, run, live⟩ := Option.map_eq_some_iff.mp taken
  have among : { address := 4160, bytes := 4294967295 } ∈ last.live := by
    rw [live]
    exact List.mem_singleton.mpr rfl
  have bound := (claimed last run).bytes_le among
  exact absurd bound (by decide)

end OrionBios.Heap
