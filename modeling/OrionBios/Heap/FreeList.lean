import OrionBios.Heap.Exclusivity

/-!
# The form of the free list

When no size computation wraps, no request is empty and nothing empty is split off,
used and free blocks tile the heap up to the high-water mark, and the free list is
sorted with a gap behind each of its blocks. With nothing in use it is then a single
block, and every request that fits into the heap is served.
-/

namespace OrionBios.Heap

open Machine Transition

/-- Each block ends below the start of every later one. -/
def Separated (blocks : List Block) : Prop :=
  blocks.Pairwise fun first second => first.finish < second.addr.toNat

/-- Each block ends at or below the start of every later one. -/
def Ascending (blocks : List Block) : Prop :=
  blocks.Pairwise fun first second => first.finish ≤ second.addr.toNat

def Nonempty (blocks : List Block) : Prop := ∀ block ∈ blocks, 0 < block.size.toNat

variable {g : Globals} {fits : g.Fits} {m : Memory} {l l' : Lists} {num : Word}
  {block current : Block} {blocks rest : List Block} {low limit : Nat}

theorem Separated.ascending (separated : Separated blocks) : Ascending blocks :=
  separated.imp fun below => Nat.le_of_lt below

/-! ## Coalescing -/

theorem mergeFrom_nonempty (bound : ∀ block ∈ current :: rest, block.finish < 2 ^ 32)
    (nonempty : Nonempty (current :: rest)) : Nonempty (mergeFrom current rest).1 := by
  induction rest generalizing current with
  | nil => exact nonempty
  | cons other later inductionHypothesis =>
      unfold mergeFrom
      split
      next meets =>
        apply inductionHypothesis (join_bound bound meets)
        intro block among
        rcases List.mem_cons.mp among with rfl | inLater
        · obtain ⟨touch, finish⟩ := join_spec (bound current (by simp)) (bound other (by simp)) meets
          have positive := nonempty other (by simp)
          unfold Block.finish at touch finish
          dsimp only at finish ⊢
          omega
        · exact nonempty block (by simp [inLater])
      next apart =>
        have tail := inductionHypothesis
          (fun block among => bound block (List.mem_cons_of_mem current among))
          (fun block among => nonempty block (List.mem_cons_of_mem current among))
        intro block among
        rcases List.mem_cons.mp among with rfl | merged
        · exact nonempty block List.mem_cons_self
        · exact tail block merged

theorem mergeFrom_separated (bound : ∀ block ∈ current :: rest, block.finish < 2 ^ 32)
    (ascending : Ascending (current :: rest)) : Separated (mergeFrom current rest).1 := by
  induction rest generalizing current with
  | nil => exact List.pairwise_singleton _ _
  | cons other later inductionHypothesis =>
      obtain ⟨first, tail⟩ := List.pairwise_cons.mp ascending
      have boundTail : ∀ block ∈ other :: later, block.finish < 2 ^ 32 := fun block among =>
        bound block (List.mem_cons_of_mem current among)
      unfold mergeFrom
      split
      next meets =>
        obtain ⟨_, finish⟩ := join_spec (bound current (by simp)) (bound other (by simp)) meets
        apply inductionHypothesis (join_bound bound meets)
        obtain ⟨second, rest⟩ := List.pairwise_cons.mp tail
        refine List.pairwise_cons.mpr ⟨fun block among => ?_, rest⟩
        rw [finish]
        exact second block among
      next apart =>
        have gap : current.finish < other.addr.toNat := by
          have below := first other List.mem_cons_self
          have boundCurrent := bound current (by simp)
          unfold Block.finish at below boundCurrent ⊢
          bv_omega
        refine List.pairwise_cons.mpr ⟨fun merged among => ?_, inductionHypothesis boundTail tail⟩
        obtain ⟨⟨start, startIn, startEq⟩, _⟩ := mergeFrom_ends boundTail merged among
        rw [startEq]
        rcases List.mem_cons.mp startIn with rfl | inLater
        · exact gap
        · have above := (List.pairwise_cons.mp tail).1 start inLater
          exact Nat.lt_of_lt_of_le gap (Nat.le_trans (Nat.le_add_right _ _) above)

theorem insert_ascending (ascending : Ascending blocks) (nonempty : Nonempty blocks)
    (apart : ∀ other ∈ blocks, other.finish ≤ block.addr.toNat ∨ block.finish ≤ other.addr.toNat) :
    Ascending (insert block blocks) := by
  induction blocks with
  | nil => exact List.pairwise_singleton _ _
  | cons other rest inductionHypothesis =>
      obtain ⟨first, tail⟩ := List.pairwise_cons.mp ascending
      have beside := apart other List.mem_cons_self
      have positive := nonempty other List.mem_cons_self
      unfold insert
      split
      next below =>
        have before : block.finish ≤ other.addr.toNat := by
          rcases beside with left | right
          · have below : block.addr.toNat ≤ other.addr.toNat := below
            unfold Block.finish at left
            omega
          · exact right
        refine List.pairwise_cons.mpr ⟨fun later among => ?_, ascending⟩
        rcases List.mem_cons.mp among with rfl | inRest
        · exact before
        · exact Nat.le_trans before (Nat.le_trans (Nat.le_add_right _ _) (first later inRest))
      next above =>
        have behind : other.finish ≤ block.addr.toNat := by
          rcases beside with left | right
          · exact left
          · have above : ¬ block.addr.toNat ≤ other.addr.toNat := above
            unfold Block.finish at right
            omega
        refine List.pairwise_cons.mpr ⟨fun later among => ?_, ?_⟩
        · rcases List.mem_cons.mp (insert_perm.subset among) with rfl | inRest
          · exact behind
          · exact first later inRest
        · apply inductionHypothesis tail
          · exact fun later among => nonempty later (List.mem_cons_of_mem other among)
          · exact fun later among => apart later (List.mem_cons_of_mem other among)

/-! ## The tiled heap -/

/-- Blocks of positive size tile the heap up to the high-water mark, and the free ones are
separated. -/
structure Tiled (low limit : Nat) (l : Lists) : Prop where
  above : low ≤ l.top.toNat
  below : l.top.toNat ≤ limit
  placed : Placed low limit l.blocks
  tiles : ∀ byte, cover l.blocks byte = between low l.top.toNat byte
  nonempty : Nonempty l.blocks
  separated : Separated l.free

theorem Tiled.bounded (tiled : Tiled low limit l) : Bounded low limit l :=
  ⟨tiled.above, tiled.below, tiled.placed, fun byte => Nat.le_of_eq (tiled.tiles byte)⟩

theorem between_le_one (first last byte : Nat) : between first last byte ≤ 1 := by
  unfold between
  split
  · exact Nat.le_refl 1
  · exact Nat.zero_le 1

theorem release_separated (placed : Placed low limit (block :: l.blocks)) (small : limit < 2 ^ 32)
    (single : ∀ byte, cover (block :: l.blocks) byte ≤ 1) (nonempty : Nonempty (block :: l.blocks))
    (separated : Separated l.free) :
    Nonempty (l.release block).blocks ∧ Separated (l.release block).free := by
  have disjoint := (List.pairwise_cons.mp (pairwise_of_cover single)).1
  have apart : ∀ other ∈ l.free,
      other.finish ≤ block.addr.toNat ∨ block.finish ≤ other.addr.toNat := by
    intro other among
    have noByte := disjoint other (List.mem_append_left l.used among)
    have first := noByte block.addr.toNat
    have second := noByte other.addr.toNat
    have positive := nonempty block List.mem_cons_self
    have positive' := nonempty other (List.mem_cons_of_mem block (List.mem_append_left _ among))
    unfold Block.Contains Block.finish at first second
    unfold Block.finish
    omega
  have freeNonempty : Nonempty l.free := fun other among =>
    nonempty other (List.mem_cons_of_mem block (List.mem_append_left _ among))
  have ascending := insert_ascending separated.ascending freeNonempty apart
  have inserted : Nonempty (insert block l.free) := by
    intro other among
    rcases List.mem_cons.mp (insert_perm.subset among) with rfl | known
    · exact nonempty other List.mem_cons_self
    · exact freeNonempty other known
  have bound : ∀ other ∈ insert block l.free, other.finish < 2 ^ 32 := fun other among =>
    Nat.lt_of_le_of_lt (insert_placed placed other among).2 small
  have coalesced : Separated (coalesce (insert block l.free)).1 ∧
      Nonempty (coalesce (insert block l.free)).1 := by
    cases merging : insert block l.free with
    | nil => exact ⟨List.Pairwise.nil, fun _ impossible => nomatch impossible⟩
    | cons first rest =>
        rw [merging] at bound ascending inserted
        exact ⟨mergeFrom_separated bound ascending, mergeFrom_nonempty bound inserted⟩
  refine ⟨fun other among => ?_, coalesced.1⟩
  rcases List.mem_append.mp among with merged | used
  · exact coalesced.2 other merged
  · exact nonempty other (List.mem_cons_of_mem block (List.mem_append_right _ used))

theorem Alloc.nonempty_separated (allocated : Alloc g num l (some block) l')
    (tiled : Tiled low limit l) (small : limit < 2 ^ 32) (positive : 0 < num.toNat)
    (threshold : 0 < g.heapSplitThresh.toNat) : Nonempty l'.blocks ∧ Separated l'.free := by
  have sublist : ∀ {before after : List Block} {found : Block},
      l.free = before ++ found :: after → (before ++ after).Sublist l.free := by
    intro before after found place
    rw [place]
    exact (List.Sublist.refl before).append (List.sublist_cons_self found after)
  have others : ∀ {before after : List Block} {found : Block},
      l.free = before ++ found :: after → Nonempty (before ++ after) := by
    intro before after found place other among
    exact tiled.nonempty other (List.mem_append_left _ ((sublist place).subset among))
  have used : Nonempty l.used := fun other among =>
    tiled.nonempty other (List.mem_append_right _ among)
  cases allocated with
  | resized place first top =>
      refine ⟨fun other among => ?_, tiled.separated.sublist (sublist place)⟩
      rcases List.mem_append.mp among with free | inUse
      · exact others place other free
      · rcases List.mem_cons.mp inUse with rfl | old
        · exact positive
        · exact used other old
  | whole place first inside big kept =>
      refine ⟨fun other among => ?_, tiled.separated.sublist (sublist place)⟩
      rcases List.mem_append.mp among with free | inUse
      · exact others place other free
      · rcases List.mem_cons.mp inUse with rfl | old
        · exact Nat.lt_of_lt_of_le positive big
        · exact used other old
  | @split before after old spare fresh place first inside big spares excess =>
      obtain ⟨parts, same⟩ := split_parts
        { pointer := spare, addr := old.addr + num, size := old.size - num } place tiled.placed
        small big rfl rfl
      have single : ∀ byte, cover
          ({ pointer := spare, addr := old.addr + num, size := old.size - num } ::
            ((before ++ after) ++ { old with size := num } :: l.used)) byte ≤ 1 := by
        intro byte
        rw [same, tiled.tiles]
        exact between_le_one _ _ _
      have nonempty : Nonempty
          ({ pointer := spare, addr := old.addr + num, size := old.size - num } ::
            ((before ++ after) ++ { old with size := num } :: l.used)) := by
        intro other among
        rcases List.mem_cons.mp among with rfl | among
        · exact Nat.lt_of_lt_of_le threshold excess
        · rcases List.mem_append.mp among with free | inUse
          · exact others place other free
          · rcases List.mem_cons.mp inUse with rfl | old
            · exact positive
            · exact used other old
      have kept : Separated (before ++ after) := tiled.separated.sublist (sublist place)
      exact release_separated parts small single nonempty kept
  | raised unserved spares room =>
      refine ⟨fun other among => ?_, tiled.separated⟩
      rcases List.mem_append.mp among with free | inUse
      · exact tiled.nonempty other (List.mem_append_left _ free)
      · rcases List.mem_cons.mp inUse with rfl | old
        · exact positive
        · exact used other old

theorem Tiled.finish_le (tiled : Tiled low limit l) (among : block ∈ l.blocks) :
    block.finish ≤ l.top.toNat := by
  have positive := tiled.nonempty block among
  have covered : between block.addr.toNat block.finish (block.finish - 1) ≤
      cover l.blocks (block.finish - 1) := between_le_cover among
  rw [tiled.tiles] at covered
  unfold between Block.finish at *
  split at covered <;> split at covered <;> omega

theorem Tiled.alloc (tiled : Tiled low g.heapLimit.toNat l)
    (allocated : Alloc g num l (some block) l') (reach : block.addr.toNat + num.toNat < 2 ^ 32)
    (positive : 0 < num.toNat) (threshold : 0 < g.heapSplitThresh.toNat) :
    Tiled low g.heapLimit.toNat l' := by
  have bounded := tiled.bounded.alloc allocated reach
  have start := allocated.addr_ge tiled.bounded
  obtain ⟨nonempty, separated⟩ :=
    allocated.nonempty_separated tiled g.heapLimit.isLt positive threshold
  refine ⟨bounded.above, bounded.below, bounded.placed, fun byte => ?_, nonempty, separated⟩
  rcases allocated.cover_cases tiled.placed g.heapLimit.isLt reach with
    ⟨topEq, _, same⟩ | ⟨old, beyond, later, ends, topEq, _, _, _, moved⟩
  · rw [same, topEq]
    exact tiled.tiles byte
  · have oldTop : old = l.top.toNat := by
      rcases ends with equal | ⟨other, among, finish⟩
      · exact equal
      · exact Nat.le_antisymm (finish ▸ tiled.finish_le among) beyond
    have balance := moved byte
    rw [tiled.tiles, oldTop] at balance
    rw [oldTop] at later
    have lower : between low l.top.toNat byte = between low block.addr.toNat byte +
        between block.addr.toNat l.top.toNat byte := between_split start later
    have upper : between low l'.top.toNat byte =
        between low block.addr.toNat byte + between block.addr.toNat l'.top.toNat byte :=
      between_split start (topEq ▸ Nat.le_add_right _ _)
    omega

theorem Tiled.free {pointer : Address} {freed : Bool} (tiled : Tiled low limit l)
    (small : limit < 2 ^ 32) (released : Free pointer l freed l') : Tiled low limit l' := by
  have bounded := tiled.bounded.free small released
  obtain ⟨topEq, placed, same⟩ := released.cover_eq tiled.placed small
  have tiles : ∀ byte, cover l'.blocks byte = between low l'.top.toNat byte := by
    intro byte
    rw [same, topEq]
    exact tiled.tiles byte
  have tidy : Nonempty l'.blocks ∧ Separated l'.free := by
    cases released with
    | absent => exact ⟨tiled.nonempty, tiled.separated⟩
    | @found before after block place first equal =>
        have perm : (block :: (l.free ++ (before ++ after))).Perm l.blocks := by
          unfold Lists.blocks
          rw [place, ← List.append_assoc, ← List.append_assoc]
          exact List.perm_middle.symm
        have single : ∀ byte, cover (block :: (l.free ++ (before ++ after))) byte ≤ 1 := by
          intro byte
          rw [cover_perm perm, tiled.tiles]
          exact between_le_one _ _ _
        have kept : Placed low limit (block :: (l.free ++ (before ++ after))) := fun other among =>
          tiled.placed other (perm.subset among)
        have nonempty : Nonempty (block :: (l.free ++ (before ++ after))) := fun other among =>
          tiled.nonempty other (perm.subset among)
        exact release_separated kept small single nonempty tiled.separated
  exact ⟨bounded.above, bounded.below, placed, tiles, tidy.1, tidy.2⟩

/-! ## An unused heap -/

theorem cover_eq_zero {byte : Nat} (later : ∀ block ∈ blocks, byte < block.addr.toNat) :
    cover blocks byte = 0 := by
  induction blocks with
  | nil => rfl
  | cons block rest inductionHypothesis =>
      have first := later block List.mem_cons_self
      have outside : between block.addr.toNat block.finish byte = 0 := if_neg (by omega)
      rw [cover, outside, Nat.zero_add]
      exact inductionHypothesis fun other among => later other (List.mem_cons_of_mem block among)

/-- With nothing in use the free list is empty or one block that spans the heap. -/
theorem Tiled.unused (tiled : Tiled low limit l) (idle : l.used = []) :
    (l.free = [] ∧ l.top.toNat = low) ∨
      ∃ block, l.free = [block] ∧ block.addr.toNat = low ∧ block.finish = l.top.toNat := by
  have tiles : ∀ byte, cover l.free byte = between low l.top.toNat byte := by
    intro byte
    rw [← tiled.tiles, Lists.blocks, idle, List.append_nil]
  have above := tiled.above
  cases shape : l.free with
  | nil =>
      left
      have first := tiles low
      rw [shape, cover, between] at first
      refine ⟨rfl, ?_⟩
      split at first <;> omega
  | cons block rest =>
      right
      have among : block ∈ l.blocks := by
        simp [Lists.blocks, shape]
      have placed := tiled.placed block among
      have positive := tiled.nonempty block among
      have finish := tiled.finish_le among
      obtain ⟨behind, _⟩ := List.pairwise_cons.mp (shape ▸ tiled.separated)
      have size : block.finish = block.addr.toNat + block.size.toNat := rfl
      have start : block.addr.toNat = low := by
        have first := tiles low
        have none : cover rest low = 0 := cover_eq_zero fun other inRest => by
          have gap := behind other inRest
          omega
        rw [shape, cover, none] at first
        unfold between at first
        split at first <;> split at first <;> omega
      have reach : block.finish = l.top.toNat := by
        have next := tiles block.finish
        have none : cover rest block.finish = 0 := cover_eq_zero behind
        rw [shape, cover, none] at next
        unfold between at next
        split at next <;> split at next <;> omega
      have alone : rest = [] := by
        apply List.eq_nil_iff_forall_not_mem.mpr
        intro other inRest
        have gap := behind other inRest
        have inBlocks : other ∈ l.blocks := by
          simp [Lists.blocks, shape, inRest]
        have below := tiled.finish_le inBlocks
        have nonempty := tiled.nonempty other inBlocks
        have size : other.finish = other.addr.toNat + other.size.toNat := rfl
        omega
      exact ⟨block, by rw [alone], start, reach⟩

/-- With nothing in use every request that fits between `low` and the limit is served. -/
theorem Tiled.served (tiled : Tiled low g.heapLimit.toNat l) (idle : l.used = [])
    (spare : l.free = [] → l.fresh ≠ []) (fit : low + num.toNat ≤ g.heapLimit.toNat)
    {found : Option Block} (allocated : Alloc g num l found l') : found ≠ none := by
  rintro rfl
  cases allocated with
  | refused unserved full =>
      have small := g.heapLimit.isLt
      rcases tiled.unused idle with ⟨noFree, top⟩ | ⟨block, shape, start, finish⟩
      · have room : l.top + num ≤ g.heapLimit := by
          bv_omega
        exact full.elim (spare noFree) (fun refused => refused room)
      · have among : block ∈ l.free := by
          simp [shape]
        apply unserved block among
        left
        have below := tiled.below
        unfold Block.finish at finish
        constructor
        · bv_omega
        · bv_omega

/-! ## Sessions -/

/-- The free list in memory is strictly sorted by address, and no two of its blocks touch. -/
def FreeListForm (g : Globals) (m : Memory) : Prop :=
  ∃ free : List Block,
    Chain link (g.read m) (.heap .free) (free.map Block.pointer) NULL ∧
    (∀ block ∈ free, g.addr m block.pointer = block.addr ∧ g.size m block.pointer = block.size) ∧
    (free.Pairwise fun first second => first.addr.toNat < second.addr.toNat) ∧
    free.Pairwise fun first second =>
      first.finish ≠ second.addr.toNat ∧ second.finish ≠ first.addr.toNat

/-- The free list in memory is one block, from the first heap address to the high-water mark. -/
def SpansHeap (g : Globals) (m : Memory) : Prop :=
  ∃ block : Block,
    Chain link (g.read m) (.heap .free) [block.pointer] NULL ∧
    g.addr m block.pointer = block.addr ∧ g.size m block.pointer = block.size ∧
    block.addr.toNat = g.firstByte ∧ block.finish = (g.read m (.heap .top)).toNat

def Positive : Call → Prop
  | .free _ => True
  | call => 1 ≤ requested call

instance : (call : Call) → Decidable (Positive call)
  | .malloc num => inferInstanceAs (Decidable (1 ≤ requested (.malloc num)))
  | .calloc num size => inferInstanceAs (Decidable (1 ≤ requested (.calloc num size)))
  | .free _ => isTrue trivial

/-- The call asks for at least one byte, and none of its size computations wraps. -/
def Sensible (g : Globals) (s : Session) (call : Call) : Prop :=
  NoWrap g s.memory call ∧ Positive call

instance (g : Globals) (s : Session) (call : Call) : Decidable (Sensible g s call) :=
  inferInstanceAs (Decidable (_ ∧ _))

theorem Positive.requested {call : Call} (positive : Positive call)
    (request : sizeArgument call = some num) : 1 ≤ requested call := by
  cases call with
  | malloc | calloc => exact positive
  | free => cases request

/-- Tiled lists, with a high-water mark at `lowest` or above. -/
def TiledFrom (g : Globals) (lowest : Nat) (l : Lists) : Prop :=
  Tiled g.firstByte g.heapLimit.toNat l ∧ lowest ≤ l.top.toNat

theorem step_tiled {s : Session} {lowest : Nat} (tracks : Tracks (TiledFrom g lowest) g fits s)
    (low : lowest ≤ g.firstByte + 1) (aligned : 1 ≤ g.heapAlignment.toNat)
    (threshold : 1 ≤ g.heapSplitThresh.toNat) {call : Call} (sensible : Sensible g s call) :
    ∃ next, Session.step g s call = some next ∧ Tracks (TiledFrom g lowest) g fits next := by
  apply step_tracks tracks aligned sensible.1 (fun l tiled => tiled.1.bounded)
  · rintro l l' num block request product round ⟨tiled, mark⟩ allocated reach
    have asked := sensible.2.requested request
    have positive : 0 < (roundUp g num).toNat := by
      have enough := roundUp_ge aligned round
      omega
    have tiled' := tiled.alloc allocated reach positive threshold
    have start := allocated.addr_ge tiled.bounded
    refine ⟨tiled', ?_⟩
    rcases allocated.cover_cases tiled.placed g.heapLimit.isLt reach with
      ⟨topEq, _, _⟩ | ⟨_, _, _, _, topEq, _⟩
    · rw [topEq]
      exact mark
    · omega
  · rintro l l' pointer freed ⟨tiled, mark⟩ released
    refine ⟨tiled.free g.heapLimit.isLt released, ?_⟩
    rw [(released.cover_eq tiled.placed g.heapLimit.isLt).1]
    exact mark

theorem Tracks.form {s : Session} {lowest : Nat} (tracks : Tracks (TiledFrom g lowest) g fits s) :
    FreeListForm g s.memory := by
  obtain ⟨l, holds, ⟨tiled, _⟩, _⟩ := tracks
  refine ⟨l.free, Holds.chain holds .free, ?_, ?_, ?_⟩
  · intro block among
    have known : block ∈ [] ++ (l.free ++ l.used) := by
      simp [among]
    exact ⟨Holds.addr_eq holds known, Holds.size_eq holds known⟩
  · exact tiled.separated.imp fun below => Nat.lt_of_le_of_lt (Nat.le_add_right _ _) below
  · apply tiled.separated.imp
    intro first second below
    unfold Block.finish at below ⊢
    omega

theorem Tracks.idle {Property : Lists → Prop} {s : Session} (tracks : Tracks Property g fits s)
    (none : s.live = []) :
    ∃ l, g.Holds fits s.memory l [] ∧ Property l ∧ l.used = [] := by
  obtain ⟨l, holds, property, live⟩ := tracks
  rw [none] at live
  exact ⟨l, holds, property, List.forall₂_nil_right_iff.mp live⟩

theorem Tracks.spans {s : Session} (tracks : Tracks (TiledFrom g (g.firstByte + 1)) g fits s)
    (none : s.live = []) : SpansHeap g s.memory := by
  obtain ⟨l, holds, ⟨tiled, mark⟩, idle⟩ := tracks.idle none
  rcases tiled.unused idle with ⟨_, top⟩ | ⟨block, shape, start, finish⟩
  · omega
  · have known : block ∈ [] ++ (l.free ++ l.used) := by
      simp [shape]
    have chain := Holds.chain holds .free
    rw [Lists.pointers, shape] at chain
    refine ⟨block, chain, Holds.addr_eq holds known, Holds.size_eq holds known, start, ?_⟩
    rw [Holds.top_eq holds]
    exact finish

theorem Tracks.raised {s : Session} {lowest : Nat} (tracks : Tracks (TiledFrom g lowest) g fits s)
    (some : s.live ≠ []) : Tracks (TiledFrom g (g.firstByte + 1)) g fits s := by
  obtain ⟨l, holds, ⟨tiled, _⟩, live⟩ := tracks
  refine ⟨l, holds, ⟨tiled, ?_⟩, live⟩
  cases inUse : l.used with
  | nil =>
      rw [inUse] at live
      exact absurd (List.forall₂_nil_left_iff.mp live) some
  | cons block rest =>
      have among : block ∈ l.blocks := by
        simp [Lists.blocks, inUse]
      have placed := (tiled.placed block among).1
      have positive := tiled.nonempty block among
      have below := tiled.finish_le among
      unfold Block.finish at below
      omega

theorem Tracks.serves {s : Session} {lowest : Nat} (tracks : Tracks (TiledFrom g lowest) g fits s)
    (none : s.live = []) (spares : 1 ≤ g.heapMaxBlocks.toNat)
    (aligned : 1 ≤ g.heapAlignment.toNat) {call : Call} (noWrap : NoWrap g s.memory call)
    (request : sizeArgument call = some num)
    (fit : g.firstByte + (roundUp g num).toNat ≤ g.heapLimit.toNat) :
    ∃ pointer memory, allocate g s.memory call = some (pointer, memory) ∧ pointer ≠ NULL := by
  obtain ⟨l, holds, ⟨tiled, _⟩, idle⟩ := tracks.idle none
  obtain ⟨found, l', m', result, allocated, _, _, _, served⟩ :=
    allocate_spec holds tiled.bounded aligned noWrap request
  have spare : l.free = [] → l.fresh ≠ [] := by
    intro noFree noFresh
    have perm := holds.shape.perm.length_eq
    have length : (g.table fits).pointers.length = g.heapMaxBlocks.toNat := by
      simp [Globals.table]
    rw [length] at perm
    simp [Lists.pointers, noFree, noFresh, idle] at perm
    omega
  cases found with
  | none => exact absurd rfl (tiled.served idle spare fit allocated)
  | some block => exact ⟨block.addr, m', result, (served block rfl).2.1⟩

theorem initial_tiled (memory : Memory) (g : Globals) (fits : g.Fits)
    (positive : 0 < g.heapMaxBlocks.toNat) (room : g.firstByte ≤ g.heapLimit.toNat) :
    Tracks (TiledFrom g g.firstByte) g fits
      { memory := (mallocInit memory g.heap g.heapLimit g.heapMaxBlocks g.heapSplitThresh
          g.heapAlignment).memory
        live := [] } := by
  have top := initial_top fits room
  refine ⟨_, mallocInit_spec memory g fits positive, ⟨⟨?_, ?_, ?_, ?_, ?_, ?_⟩, ?_⟩,
    List.Forall₂.nil⟩
  · exact Nat.le_of_eq top.symm
  · exact top ▸ room
  · exact fun _ impossible => nomatch impossible
  · intro byte
    rw [top, between, if_neg (by omega)]
    rfl
  · exact fun _ impossible => nomatch impossible
  · exact List.Pairwise.nil
  · exact Nat.le_of_eq top.symm

/-- In every session of sensible calls the free list has its form. Once all live blocks are
freed it is one block that spans the heap, and then every request that fits is served. -/
theorem free_list_form (memory : Memory)
    (base limit heapBlocks splitThresh alignment : Word) (positive : 1 ≤ heapBlocks.toNat)
    (threshold : 1 ≤ splitThresh.toNat) (aligned : 1 ≤ alignment.toNat)
    (room : base.toNat + (sizeofHeap + sizeofBlock * heapBlocks.toNat) ≤ limit.toNat)
    (start : State)
    (initialised : start = mallocInit memory base limit heapBlocks splitThresh alignment)
    (calls : List Call)
    (guarded : Guarded (Session.step start.globals) (Sensible start.globals)
      { memory := start.memory, live := [] } calls) :
    ∃ last, exec (Session.step start.globals) { memory := start.memory, live := [] } calls =
        some last ∧
      FreeListForm start.globals last.memory ∧
      (∀ earlier later middle, calls = earlier ++ later →
        exec (Session.step start.globals) { memory := start.memory, live := [] } earlier =
          some middle →
        middle.live ≠ [] → last.live = [] → SpansHeap start.globals last.memory) ∧
      (last.live = [] → ∀ call num, sizeArgument call = some num →
        NoWrap start.globals last.memory call →
        start.globals.firstByte + (roundUp start.globals num).toNat ≤ limit.toNat →
        ∃ pointer after, allocate start.globals last.memory call = some (pointer, after) ∧
          pointer ≠ NULL) := by
  subst initialised
  let g : Globals :=
    { heap := base
      heapLimit := limit
      heapSplitThresh := splitThresh
      heapAlignment := alignment
      heapMaxBlocks := heapBlocks }
  have fits : g.Fits := Nat.le_trans room (Nat.le_of_lt limit.isLt)
  have enabled : ∀ lowest, lowest ≤ g.firstByte + 1 → ∀ s call,
      Tracks (TiledFrom g lowest) g fits s → Sensible g s call →
      ∃ next, Session.step g s call = some next ∧ Tracks (TiledFrom g lowest) g fits next :=
    fun lowest low s call tracks sensible => step_tiled tracks low aligned threshold sensible
  have initially := initial_tiled memory g fits positive room
  obtain ⟨last, run, tracks⟩ := exec_of_guarded _ (enabled g.firstByte (Nat.le_succ _)) initially
    guarded
  refine ⟨last, run, tracks.form, ?_, ?_⟩
  · rintro earlier later middle rfl reached held freed
    obtain ⟨guarded₁, guarded₂⟩ := guarded_append guarded
    obtain ⟨middle', run₁, tracks₁⟩ := exec_of_guarded _ (enabled g.firstByte (Nat.le_succ _))
      initially guarded₁
    obtain rfl := Option.some.inj (run₁.symm.trans reached)
    obtain ⟨last', run₂, tracks₂⟩ := exec_of_guarded _ (enabled (g.firstByte + 1) (Nat.le_refl _))
      (tracks₁.raised held) (guarded₂ middle' reached)
    rw [exec_append, run₁] at run
    obtain rfl := Option.some.inj (run₂.symm.trans run)
    exact tracks₂.spans freed
  · intro freed call num request noWrap fit
    exact tracks.serves freed positive aligned noWrap request fit

/-- Two neighbours are freed and become one block, which a third request splits; at the end all is
one block again. -/
def mergingCalls : List Call :=
  [.malloc 30, .malloc 40, .malloc 8, .free 4192, .free 4160, .calloc 5 4, .free 4232, .free 4160]

theorem free_list_form_plain :
    ∃ last, exec (Session.step (mallocInit (fun _ => 0) 0x1000 0x8000 4 16 4).globals)
        { memory := (mallocInit (fun _ => 0) 0x1000 0x8000 4 16 4).memory, live := [] }
        mergingCalls = some last ∧
      FreeListForm (mallocInit (fun _ => 0) 0x1000 0x8000 4 16 4).globals last.memory ∧
      (∀ earlier later middle, mergingCalls = earlier ++ later →
        exec (Session.step (mallocInit (fun _ => 0) 0x1000 0x8000 4 16 4).globals)
          { memory := (mallocInit (fun _ => 0) 0x1000 0x8000 4 16 4).memory, live := [] } earlier =
            some middle →
        middle.live ≠ [] → last.live = [] →
        SpansHeap (mallocInit (fun _ => 0) 0x1000 0x8000 4 16 4).globals last.memory) ∧
      (last.live = [] → ∀ call num, sizeArgument call = some num →
        NoWrap (mallocInit (fun _ => 0) 0x1000 0x8000 4 16 4).globals last.memory call →
        (mallocInit (fun _ => 0) 0x1000 0x8000 4 16 4).globals.firstByte +
          (roundUp (mallocInit (fun _ => 0) 0x1000 0x8000 4 16 4).globals num).toNat ≤
            (0x8000 : Word).toNat →
        ∃ pointer after, allocate (mallocInit (fun _ => 0) 0x1000 0x8000 4 16 4).globals
          last.memory call = some (pointer, after) ∧ pointer ≠ NULL) :=
  free_list_form (fun _ => 0) 0x1000 0x8000 4 16 4 (by decide) (by decide) (by decide) (by decide)
    _ rfl mergingCalls (guarded_of_check (by decide +kernel))

theorem not_form_of_repeated {first second : Address} (head : g.read m (.heap .free) = first)
    (next : g.next m first = second) (real : first ≠ NULL) (real' : second ≠ NULL)
    (same : g.addr m first = g.addr m second) : ¬ FreeListForm g m := by
  rintro ⟨free, chain, contents, sorted, _⟩
  match free, chain, contents, sorted with
  | [], chain, _, _ => exact real (head.symm.trans (chain_nil.mp chain))
  | [block], chain, _, _ =>
      obtain ⟨equal, chain⟩ := chain_cons.mp chain
      obtain rfl : first = block.pointer := head.symm.trans equal
      have ended : g.read m (link block.pointer) = NULL := chain_nil.mp chain
      exact real' (next.symm.trans ended)
  | block :: other :: rest, chain, contents, sorted =>
      obtain ⟨equal, chain⟩ := chain_cons.mp chain
      obtain rfl : first = block.pointer := head.symm.trans equal
      obtain rfl : second = other.pointer := next.symm.trans (chain_cons.mp chain).1
      have below := (List.pairwise_cons.mp sorted).1 other List.mem_cons_self
      rw [← (contents block List.mem_cons_self).1, ← (contents other (by simp)).1, same] at below
      exact Nat.lt_irrefl _ below

/-- With a split threshold of 0 an exact fit splits off an empty block, and the used block behind
it is later freed to the same address. -/
theorem zero_threshold_repeats_address :
    checkGuarded (Session.step (mallocInit (fun _ => 0) 0x1000 0x8000 4 0 4).globals)
        (Sensible (mallocInit (fun _ => 0) 0x1000 0x8000 4 0 4).globals)
        { memory := (mallocInit (fun _ => 0) 0x1000 0x8000 4 0 4).memory, live := [] }
        [.malloc 8, .malloc 8, .free 4160, .malloc 8, .free 4168] = true ∧
      ¬ ∀ last, exec (Session.step (mallocInit (fun _ => 0) 0x1000 0x8000 4 0 4).globals)
          { memory := (mallocInit (fun _ => 0) 0x1000 0x8000 4 0 4).memory, live := [] }
          [.malloc 8, .malloc 8, .free 4160, .malloc 8, .free 4168] = some last →
        FreeListForm (mallocInit (fun _ => 0) 0x1000 0x8000 4 0 4).globals last.memory := by
  constructor
  · decide +kernel
  · intro claimed
    have taken : (exec (Session.step (mallocInit (fun _ => 0) 0x1000 0x8000 4 0 4).globals)
        { memory := (mallocInit (fun _ => 0) 0x1000 0x8000 4 0 4).memory, live := [] }
        [.malloc 8, .malloc 8, .free 4160, .malloc 8, .free 4168]).map (fun s =>
          let g := (mallocInit (fun _ => 0) 0x1000 0x8000 4 0 4).globals
          (g.read s.memory (.heap .free), g.next s.memory 4124, g.addr s.memory 4124,
            g.addr s.memory 4136)) = some (4124, 4136, 4168, 4168) := by
      decide +kernel
    obtain ⟨last, run, read⟩ := Option.map_eq_some_iff.mp taken
    obtain ⟨head, next, first, second⟩ := by simpa only [Prod.mk.injEq] using read
    exact not_form_of_repeated head next (by decide) (by decide) (first.trans second.symm)
      (claimed last run)

end OrionBios.Heap
