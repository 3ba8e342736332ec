import OrionBios.Heap.Lists

/-!
# The bytes the blocks cover

How many blocks contain a byte says everything about overlaps and gaps. Inserting
and coalescing leave that number as it is; a served request changes it only where it
moves the high-water mark. Addresses are taken as numbers, and no block runs over the
end of memory.
-/

namespace OrionBios.Heap

open Machine

namespace Block

/-- The address behind the last byte. -/
def finish (block : Block) : Nat := block.addr.toNat + block.size.toNat

def Contains (block : Block) (byte : Nat) : Prop :=
  block.addr.toNat ≤ byte ∧ byte < block.finish

instance (block : Block) (byte : Nat) : Decidable (block.Contains byte) :=
  inferInstanceAs (Decidable (_ ∧ _))

end Block

/-- The number of intervals, none or one, from `first` up to `last` that contain the byte. -/
def between (first last byte : Nat) : Nat := if first ≤ byte ∧ byte < last then 1 else 0

/-- In how many of the blocks the byte lies. -/
def cover : List Block → Nat → Nat
  | [], _ => 0
  | block :: rest, byte => between block.addr.toNat block.finish byte + cover rest byte

def Lists.blocks (l : Lists) : List Block := l.free ++ l.used

variable {g : Globals} {num : Word} {l l' : Lists} {block current : Block}
  {blocks rest : List Block} {byte : Nat}

theorem between_split {first middle last : Nat} (lower : first ≤ middle) (upper : middle ≤ last) :
    between first last byte = between first middle byte + between middle last byte := by
  unfold between
  split <;> split <;> split <;> omega

theorem cover_append (first second : List Block) :
    cover (first ++ second) byte = cover first byte + cover second byte := by
  induction first with
  | nil => exact (Nat.zero_add _).symm
  | cons block rest inductionHypothesis =>
      rw [List.cons_append, cover, cover, inductionHypothesis, Nat.add_assoc]

theorem cover_perm {other : List Block} (perm : blocks.Perm other) :
    cover blocks byte = cover other byte := by
  induction perm with
  | nil => rfl
  | cons block _ inductionHypothesis => rw [cover, cover, inductionHypothesis]
  | swap first second rest => exact Nat.add_left_comm _ _ _
  | trans _ _ firstHypothesis secondHypothesis => exact firstHypothesis.trans secondHypothesis

theorem between_le_cover (among : block ∈ blocks) :
    between block.addr.toNat block.finish byte ≤ cover blocks byte := by
  obtain ⟨before, after, rfl⟩ := List.append_of_mem among
  rw [cover_append, cover]
  exact Nat.le_trans (Nat.le_add_right _ _) (Nat.le_add_left _ _)

theorem pairwise_of_cover (single : ∀ byte, cover blocks byte ≤ 1) :
    blocks.Pairwise fun first second => ∀ byte, ¬ (first.Contains byte ∧ second.Contains byte) := by
  induction blocks with
  | nil => exact List.Pairwise.nil
  | cons block rest inductionHypothesis =>
      refine List.pairwise_cons.mpr ⟨?_, inductionHypothesis fun byte => ?_⟩
      · rintro other among byte ⟨inBlock, inOther⟩
        have both : between block.addr.toNat block.finish byte + cover rest byte ≤ 1 := single byte
        have below : between other.addr.toNat other.finish byte ≤ cover rest byte :=
          between_le_cover among
        have first : between block.addr.toNat block.finish byte = 1 := if_pos inBlock
        have second : between other.addr.toNat other.finish byte = 1 := if_pos inOther
        omega
      · exact Nat.le_trans (Nat.le_add_left _ _) (single byte)

/-! ## Insertion and coalescing -/

theorem insert_perm : (insert block blocks).Perm (block :: blocks) := by
  induction blocks with
  | nil => exact List.Perm.refl _
  | cons other rest inductionHypothesis =>
      unfold insert
      split
      · exact List.Perm.refl _
      · exact (inductionHypothesis.cons other).trans (List.Perm.swap block other rest)

theorem join_spec {other : Block} (bound : current.finish < 2 ^ 32) (bound' : other.finish < 2 ^ 32)
    (meets : current.addr + current.size = other.addr) :
    current.finish = other.addr.toNat ∧
      ({ current with size := current.size + other.size } : Block).finish = other.finish := by
  unfold Block.finish at *
  bv_omega

theorem join_bound {other : Block} {later : List Block}
    (bound : ∀ block ∈ current :: other :: later, block.finish < 2 ^ 32)
    (meets : current.addr + current.size = other.addr) :
    ∀ block ∈ { current with size := current.size + other.size } :: later,
      block.finish < 2 ^ 32 := by
  intro block among
  rcases List.mem_cons.mp among with rfl | inLater
  · obtain ⟨_, finish⟩ := join_spec (bound current (by simp)) (bound other (by simp)) meets
    rw [finish]
    exact bound other (by simp)
  · exact bound block (by simp [inLater])

theorem mergeFrom_cover (bound : ∀ block ∈ current :: rest, block.finish < 2 ^ 32) :
    cover (mergeFrom current rest).1 byte = cover (current :: rest) byte := by
  induction rest generalizing current with
  | nil => rfl
  | cons other later inductionHypothesis =>
      have boundCurrent := bound current List.mem_cons_self
      have boundOther := bound other (by simp)
      unfold mergeFrom
      split
      next meets =>
        obtain ⟨touch, finish⟩ := join_spec boundCurrent boundOther meets
        have split : between current.addr.toNat other.finish byte =
            between current.addr.toNat current.finish byte +
              between other.addr.toNat other.finish byte := by
          rw [touch]
          apply between_split
          · exact touch ▸ Nat.le_add_right _ _
          · exact Nat.le_add_right _ _
        rw [inductionHypothesis (join_bound bound meets), cover, finish, split, Nat.add_assoc]
        rfl
      next apart =>
        have otherBound : ∀ block ∈ other :: later, block.finish < 2 ^ 32 := fun block among =>
          bound block (List.mem_cons_of_mem current among)
        rw [cover, inductionHypothesis otherBound]
        rfl

theorem mergeFrom_ends (bound : ∀ block ∈ current :: rest, block.finish < 2 ^ 32) :
    ∀ merged ∈ (mergeFrom current rest).1,
      (∃ first ∈ current :: rest, merged.addr = first.addr) ∧
        ∃ last ∈ current :: rest, merged.finish = last.finish := by
  induction rest generalizing current with
  | nil =>
      intro merged among
      exact ⟨⟨merged, among, rfl⟩, merged, among, rfl⟩
  | cons other later inductionHypothesis =>
      have boundCurrent := bound current List.mem_cons_self
      have boundOther := bound other (by simp)
      unfold mergeFrom
      split
      next meets =>
        obtain ⟨_, finish⟩ := join_spec boundCurrent boundOther meets
        intro merged among
        obtain ⟨⟨first, firstIn, firstEq⟩, last, lastIn, lastEq⟩ :=
          inductionHypothesis (join_bound bound meets) merged among
        constructor
        · rcases List.mem_cons.mp firstIn with rfl | inLater
          · exact ⟨current, List.mem_cons_self, firstEq⟩
          · exact ⟨first, by simp [inLater], firstEq⟩
        · rcases List.mem_cons.mp lastIn with rfl | inLater
          · exact ⟨other, by simp, lastEq.trans finish⟩
          · exact ⟨last, by simp [inLater], lastEq⟩
      next apart =>
        have otherBound : ∀ block ∈ other :: later, block.finish < 2 ^ 32 := fun block among =>
          bound block (List.mem_cons_of_mem current among)
        intro merged among
        rcases List.mem_cons.mp among with rfl | later
        · exact ⟨⟨merged, List.mem_cons_self, rfl⟩, merged, List.mem_cons_self, rfl⟩
        · obtain ⟨⟨first, firstIn, firstEq⟩, last, lastIn, lastEq⟩ :=
            inductionHypothesis otherBound merged later
          exact ⟨⟨first, List.mem_cons_of_mem current firstIn, firstEq⟩, last,
            List.mem_cons_of_mem current lastIn, lastEq⟩

/-! ## What the calls do to the blocks -/

/-- Every block lies between two addresses. -/
def Placed (low limit : Nat) (blocks : List Block) : Prop :=
  ∀ block ∈ blocks, low ≤ block.addr.toNat ∧ block.finish ≤ limit

variable {low limit : Nat}

theorem coalesce_cover (bound : ∀ block ∈ blocks, block.finish < 2 ^ 32) :
    cover (coalesce blocks).1 byte = cover blocks byte := by
  cases blocks with
  | nil => rfl
  | cons first rest => exact mergeFrom_cover bound

theorem coalesce_placed (placed : Placed low limit blocks) (small : limit < 2 ^ 32) :
    Placed low limit (coalesce blocks).1 := by
  cases blocks with
  | nil => exact placed
  | cons first rest =>
      intro merged among
      have bound : ∀ block ∈ first :: rest, block.finish < 2 ^ 32 := fun block inBlocks =>
        Nat.lt_of_le_of_lt (placed block inBlocks).2 small
      obtain ⟨⟨start, startIn, startEq⟩, last, lastIn, lastEq⟩ := mergeFrom_ends bound merged among
      rw [startEq, lastEq]
      exact ⟨(placed start startIn).1, (placed last lastIn).2⟩

theorem insert_placed (placed : Placed low limit (block :: l.blocks)) :
    Placed low limit (insert block l.free) := by
  intro other among
  apply placed
  have known := insert_perm.subset among
  simp only [Lists.blocks, List.mem_cons, List.mem_append] at known ⊢
  tauto

theorem release_placed (placed : Placed low limit (block :: l.blocks)) (small : limit < 2 ^ 32) :
    Placed low limit (l.release block).blocks := by
  intro other among
  rcases List.mem_append.mp among with merged | used
  · exact coalesce_placed (insert_placed placed) small other merged
  · exact placed other (List.mem_cons_of_mem block (List.mem_append_right l.free used))

theorem release_cover (placed : Placed low limit (block :: l.blocks)) (small : limit < 2 ^ 32) :
    cover (l.release block).blocks byte = cover (block :: l.blocks) byte := by
  have bound : ∀ other ∈ insert block l.free, other.finish < 2 ^ 32 := fun other among =>
    Nat.lt_of_le_of_lt (insert_placed placed other among).2 small
  have blocksEq : (l.release block).blocks = (coalesce (insert block l.free)).1 ++ l.used := rfl
  rw [blocksEq, cover_append, coalesce_cover bound, cover_perm insert_perm, Lists.blocks, cover,
    cover, cover_append, Nat.add_assoc]

theorem Free.cover_eq {pointer : Address} {freed : Bool} (released : Free pointer l freed l')
    (placed : Placed low limit l.blocks) (small : limit < 2 ^ 32) :
    l'.top = l.top ∧ Placed low limit l'.blocks ∧
      ∀ byte, cover l'.blocks byte = cover l.blocks byte := by
  cases released with
  | absent unknown => exact ⟨rfl, placed, fun _ => rfl⟩
  | @found before after block place first same =>
      have perm : (block :: ({ l with used := before ++ after } : Lists).blocks).Perm l.blocks := by
        unfold Lists.blocks
        rw [place, ← List.append_assoc, ← List.append_assoc]
        exact List.perm_middle.symm
      have placed' : Placed low limit (block :: ({ l with used := before ++ after } : Lists).blocks) :=
        fun other among => placed other (perm.subset among)
      refine ⟨rfl, ?_, fun byte => ?_⟩
      · exact release_placed placed' small
      · rw [release_cover placed' small, cover_perm perm]

theorem blocks_perm {before after : List Block} (place : l.free = before ++ block :: after) :
    l.blocks.Perm (block :: ((before ++ after) ++ l.used)) := by
  unfold Lists.blocks
  rw [place, List.append_assoc, List.append_assoc, List.cons_append]
  exact List.perm_middle

theorem split_spec (bound : block.finish < 2 ^ 32) (big : num ≤ block.size) :
    ({ block with size := num } : Block).finish = (block.addr + num).toNat ∧
      (block.addr + num).toNat + (block.size - num).toNat = block.finish := by
  unfold Block.finish at *
  bv_omega

/-- Splitting a free block: the front becomes used, the rest is about to be released. -/
theorem split_parts {before after : List Block} {old : Block} (rest : Block)
    (place : l.free = before ++ old :: after) (placed : Placed low limit l.blocks)
    (small : limit < 2 ^ 32) (big : num ≤ old.size) (restAddr : rest.addr = old.addr + num)
    (restSize : rest.size = old.size - num) :
    Placed low limit (rest :: ((before ++ after) ++ { old with size := num } :: l.used)) ∧
      ∀ byte, cover (rest :: ((before ++ after) ++ { old with size := num } :: l.used)) byte =
        cover l.blocks byte := by
  have perm := blocks_perm place
  have perm' : ((before ++ after) ++ { old with size := num } :: l.used).Perm
      ({ old with size := num } :: ((before ++ after) ++ l.used)) := List.perm_middle
  have oldPlaced := placed old (perm.symm.subset List.mem_cons_self)
  obtain ⟨front, back⟩ := split_spec (Nat.lt_of_le_of_lt oldPlaced.2 small) big
  have restFinish : rest.finish = old.finish := by
    unfold Block.finish
    rw [restAddr, restSize]
    exact back
  have lower : old.addr.toNat ≤ (old.addr + num).toNat := by
    rw [← front]
    exact Nat.le_add_right _ _
  have upper : (old.addr + num).toNat ≤ old.finish := by
    rw [← back]
    exact Nat.le_add_right _ _
  constructor
  · intro other among
    rcases List.mem_cons.mp among with rfl | among
    · rw [restFinish, restAddr]
      exact ⟨Nat.le_trans oldPlaced.1 lower, oldPlaced.2⟩
    · rcases List.mem_cons.mp (perm'.subset among) with rfl | known
      · exact ⟨oldPlaced.1, front ▸ Nat.le_trans upper oldPlaced.2⟩
      · exact placed other (perm.symm.subset (List.mem_cons_of_mem old known))
  · intro byte
    rw [cover, cover_perm perm', cover, cover_perm perm, cover, front, restFinish, restAddr,
      between_split lower upper]
    dsimp only
    omega

/-- A served request either keeps the covered bytes and the high-water mark, or it places its
block behind everything else and puts the mark behind it. -/
theorem Alloc.cover_cases (allocated : Alloc g num l (some block) l')
    (placed : Placed low limit l.blocks) (small : limit < 2 ^ 32)
    (reach : block.addr.toNat + num.toNat < 2 ^ 32) :
    (l'.top = l.top ∧ Placed low limit l'.blocks ∧
        ∀ byte, cover l'.blocks byte = cover l.blocks byte) ∨
      ∃ old, l.top.toNat ≤ old ∧ block.addr.toNat ≤ old ∧
        (old = l.top.toNat ∨ ∃ other ∈ l.blocks, other.finish = old) ∧
        l'.top.toNat = block.addr.toNat + num.toNat ∧ l'.top ≤ g.heapLimit ∧
        block.size = num ∧ (∀ other ∈ l'.blocks, other = block ∨ other ∈ l.blocks) ∧
        ∀ byte, cover l'.blocks byte + between block.addr.toNat old byte =
          cover l.blocks byte + between block.addr.toNat l'.top.toNat byte := by
  have bound : ∀ other ∈ l.blocks, other.finish < 2 ^ 32 := fun other among =>
    Nat.lt_of_le_of_lt (placed other among).2 small
  cases allocated with
  | @resized before after old place first top =>
      right
      have perm := blocks_perm place
      have oldBound := bound old (perm.symm.subset List.mem_cons_self)
      have perm' : ((before ++ after) ++ { old with size := num } :: l.used).Perm
          ({ old with size := num } :: ((before ++ after) ++ l.used)) := List.perm_middle
      have topEq : (old.addr + num).toNat = old.addr.toNat + num.toNat := by
        bv_omega
      refine ⟨old.finish, ?_, Nat.le_add_right _ _,
        Or.inr ⟨old, perm.symm.subset List.mem_cons_self, rfl⟩, topEq, top.2, rfl, ?_,
        fun byte => ?_⟩
      · have reaches := top.1
        unfold Block.finish at oldBound ⊢
        bv_omega
      · intro other among
        rcases List.mem_cons.mp (perm'.subset among) with rfl | known
        · exact Or.inl rfl
        · exact Or.inr (perm.symm.subset (List.mem_cons_of_mem old known))
      · have finish : ({ old with size := num } : Block).finish = (old.addr + num).toNat := topEq.symm
        rw [cover_perm perm, Lists.blocks, cover_perm perm', cover, cover, finish]
        dsimp only
        omega
  | @whole before after _ place first inside big kept =>
      left
      have perm := blocks_perm place
      have perm' : ((before ++ after) ++ block :: l.used).Perm
          (block :: ((before ++ after) ++ l.used)) := List.perm_middle
      refine ⟨rfl, ?_, fun byte => ?_⟩
      · intro other among
        exact placed other (perm.symm.subset (perm'.subset among))
      · rw [cover_perm perm, Lists.blocks, cover_perm perm']
  | @split before after old spare fresh place first inside big spares excess =>
      left
      obtain ⟨parts, same⟩ := split_parts
        { pointer := spare, addr := old.addr + num, size := old.size - num } place placed small big
        rfl rfl
      refine ⟨rfl, release_placed parts small, fun byte => ?_⟩
      rw [release_cover parts small]
      exact same byte
  | raised unserved spares room =>
      right
      have topEq : (l.top + num).toNat = l.top.toNat + num.toNat := by
        bv_omega
      refine ⟨l.top.toNat, Nat.le_refl _, Nat.le_refl _, Or.inl rfl, topEq, room, rfl, ?_,
        fun byte => ?_⟩
      · intro other among
        rcases List.mem_append.mp among with free | used
        · exact Or.inr (List.mem_append_left _ free)
        · rcases List.mem_cons.mp used with rfl | used
          · exact Or.inl rfl
          · exact Or.inr (List.mem_append_right _ used)
      · have empty : between l.top.toNat l.top.toNat byte = 0 := by
          unfold between
          exact if_neg (by omega)
        rw [Lists.blocks, cover_append, cover, Lists.blocks, cover_append, Block.finish]
        dsimp only
        rw [empty, topEq]
        omega

end OrionBios.Heap
