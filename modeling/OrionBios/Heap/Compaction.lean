import OrionBios.Heap.Represents

/-!
# Sorted insertion and compaction on represented lists

`insert_block` and `compact` on memory do to the lists what `insert` and `coalesce`
say. While `release_blocks` runs, the free list is cut open: the lists are those of
the memory in which the link behind the grown block is already closed.
-/

namespace OrionBios.Heap

open Machine

variable {g : Globals} {fits : g.Fits} {m : Memory} {l : Lists} {detached : List Block}
  {block : Block}

/-- Header and table of the memory represent the lists. -/
def Globals.Holds (g : Globals) (fits : g.Fits) (m : Memory) (l : Lists)
    (detached : List Block) : Prop :=
  Represents (g.table fits) (g.cells fits m) l detached

namespace Holds

theorem pointer_mem (holds : g.Holds fits m l detached)
    (known : block ∈ detached ++ (l.free ++ l.used)) : block.pointer ∈ (g.table fits).pointers := by
  rcases List.mem_append.mp known with loose | listed
  · exact holds.shape.detached_mem (List.mem_map_of_mem loose)
  · rcases List.mem_append.mp listed with free | used
    · have listed : block.pointer ∈ l.pointers .free := List.mem_map_of_mem free
      exact holds.shape.listed_mem listed
    · have listed : block.pointer ∈ l.pointers .used := List.mem_map_of_mem used
      exact holds.shape.listed_mem listed

theorem addr_eq (holds : g.Holds fits m l detached)
    (known : block ∈ detached ++ (l.free ++ l.used)) : g.addr m block.pointer = block.addr := by
  have valid : g.Valid fits (.block block.pointer .addr) := pointer_mem holds known
  exact (Globals.read_eq valid).trans (holds.content block known).1

theorem size_eq (holds : g.Holds fits m l detached)
    (known : block ∈ detached ++ (l.free ++ l.used)) : g.size m block.pointer = block.size := by
  have valid : g.Valid fits (.block block.pointer .size) := pointer_mem holds known
  exact (Globals.read_eq valid).trans (holds.content block known).2

theorem next_eq (holds : g.Holds fits m l detached)
    (known : block ∈ detached ++ (l.free ++ l.used)) :
    g.next m block.pointer = g.cells fits m (link block.pointer) := by
  have valid : g.Valid fits (link block.pointer) := pointer_mem holds known
  exact Globals.read_eq valid

theorem lastCell_valid (holds : g.Holds fits m l detached) {root : Root}
    {before after : List Address} (place : l.pointers root = before ++ after) :
    g.Valid fits (lastCell link root.cell before) := by
  rcases mem_visited.mp (lastCell_mem_visited link root.cell before) with same | ⟨node, kept, same⟩
  · rw [same]
    trivial
  · rw [same]
    have listed : node ∈ l.pointers root := place ▸ List.mem_append_left after kept
    exact holds.shape.listed_mem listed

/-- The value of the cell behind `before` is the next descriptor, or NULL. -/
theorem read_lastCell (holds : g.Holds fits m l detached) {root : Root}
    {before after : List Address} (place : l.pointers root = before ++ after) :
    g.cells fits m (lastCell link root.cell before) = after.headD NULL := by
  have chain := holds.shape.chain root
  rw [place] at chain
  exact (chain_append.mp chain).2.head

theorem relink_eq (holds : g.Holds fits m l detached) {root : Root}
    {before after : List Address} (place : l.pointers root = before ++ after) (value : Word) :
    g.relink m root.field (before.getLastD NULL) value =
      g.write m (lastCell link root.cell before) value := by
  rcases List.eq_nil_or_concat before with rfl | ⟨kept, last, rfl⟩
  · rfl
  · have listed : last ∈ l.pointers root := by
      rw [place]
      simp
    have real : last ≠ NULL := holds.shape.listed_ne_null listed
    rw [List.concat_eq_append, lastCell_append]
    simp [Globals.relink, real, lastCell, link]

theorem length_lt (holds : g.Holds fits m l detached) (root : Root) :
    (l.pointers root).length < loopFuel := by
  have bound := holds.shape.length_le root
  have table : (g.table fits).pointers.length = g.heapMaxBlocks.toNat := by
    simp [Globals.table]
  rw [table] at bound
  unfold loopFuel
  exact Nat.lt_of_le_of_lt bound g.heapMaxBlocks.isLt

theorem walk_eq (holds : g.Holds fits m l detached) {root : Root} {before : List Address}
    {items : List Block} (place : l.pointers root = before ++ items.map Block.pointer)
    (stop : Address → Address → Bool) (prev : Address) :
    ∃ passed rest, items = passed ++ rest ∧ Passed stop prev (passed.map Block.pointer) ∧
      (∀ item ∈ rest.head?,
        stop ((passed.map Block.pointer).getLastD prev) item.pointer = true) ∧
      walk (g.next m) stop NULL loopFuel prev (g.read m (lastCell link root.cell before)) =
        some ((passed.map Block.pointer).getLastD prev, (rest.map Block.pointer).headD NULL) := by
  have chain := holds.shape.chain root
  rw [place] at chain
  have tail := (chain_append.mp chain).2
  have listed : ∀ item ∈ items, item.pointer ∈ l.pointers root := by
    intro item among
    rw [place]
    exact List.mem_append_right before (List.mem_map_of_mem among)
  have enough : items.length < loopFuel := by
    have bound := length_lt holds root
    rw [place, List.length_append, List.length_map] at bound
    exact Nat.lt_of_le_of_lt (Nat.le_add_left _ _) bound
  have concrete : Chain link (g.read m) (lastCell link root.cell before)
      (items.map Block.pointer) NULL := by
    apply tail.congr
    intro cell among
    rcases List.mem_cons.mp among with rfl | later
    · exact Globals.read_eq (lastCell_valid holds place)
    · obtain ⟨node, nodeIn, rfl⟩ := List.mem_map.mp later
      obtain ⟨item, itemIn, rfl⟩ := List.mem_map.mp nodeIn
      have valid : g.Valid fits (link item.pointer) := holds.shape.listed_mem (listed item itemIn)
      exact Globals.read_eq valid
  have nonNull : ∀ item ∈ items, item.pointer ≠ NULL := fun item among =>
    holds.shape.listed_ne_null (listed item among)
  rw [show g.next m = fun node => g.read m (link node) from rfl]
  exact walk_spec prev concrete nonNull enough

end Holds

/-! ## Insertion -/

theorem insert_append {before after : List Block}
    (below : ∀ other ∈ before, ¬ block.addr ≤ other.addr)
    (above : ∀ other ∈ after.head?, block.addr ≤ other.addr) :
    insert block (before ++ after) = before ++ block :: after := by
  induction before with
  | nil =>
      cases after with
      | nil => rfl
      | cons other rest => exact if_pos (above other rfl)
  | cons other rest inductionHypothesis =>
      have later := inductionHypothesis fun next among => below next (List.mem_cons_of_mem other among)
      rw [List.cons_append, insert, if_neg (below other List.mem_cons_self), later]
      rfl

theorem insertBlock_spec (holds : g.Holds fits m l (block :: detached)) :
    ∃ m', insertBlock g block.pointer m = some m' ∧
      g.Holds fits m' { l with free := insert block l.free } detached := by
  have listed : l.pointers .free = [] ++ l.free.map Block.pointer := rfl
  obtain ⟨before, after, place, passed, stopped, walked⟩ := Holds.walk_eq holds listed
    (fun _ ptr => g.addr m block.pointer ≤ g.addr m ptr) NULL
  have own : g.addr m block.pointer = block.addr := Holds.addr_eq holds List.mem_cons_self
  have known : ∀ other ∈ l.free, g.addr m other.pointer = other.addr := by
    intro other among
    apply Holds.addr_eq holds
    simp [among]
  have below : ∀ other ∈ before, ¬ block.addr ≤ other.addr := by
    intro other among
    have past := passed_const.mp passed other.pointer (List.mem_map_of_mem among)
    rw [own, known other (place ▸ List.mem_append_left after among)] at past
    exact of_decide_eq_false past
  have above : ∀ other ∈ after.head?, block.addr ≤ other.addr := by
    intro other among
    have past := stopped other among
    rw [own, known other (place ▸ List.mem_append_right before (List.mem_of_mem_head? among))] at past
    exact of_decide_eq_true past
  have split : l.pointers .free = before.map Block.pointer ++ after.map Block.pointer := by
    rw [← List.map_append, ← place]
    rfl
  have loose : block.pointer ∈ (block :: detached).map Block.pointer := List.mem_cons_self
  have apart : lastCell link Root.free.cell (before.map Block.pointer) ≠ link block.pointer :=
    holds.shape.lastCell_notMem split (Or.inr (holds.shape.unlisted loose .free))
  have valid : g.Valid fits (link block.pointer) := Holds.pointer_mem holds List.mem_cons_self
  have behind : g.Valid fits (lastCell link Root.free.cell (before.map Block.pointer)) :=
    Holds.lastCell_valid holds split
  refine ⟨g.write (g.write m (lastCell link Root.free.cell (before.map Block.pointer))
    block.pointer) (link block.pointer) ((after.map Block.pointer).headD NULL), ?_, ?_⟩
  · have relinked := Holds.relink_eq holds split block.pointer
    unfold insertBlock
    simp only [lastCell, Root.cell, Root.field] at walked
    rw [walked]
    exact congrArg (fun next => some (g.write next _ _)) relinked
  · rw [place, insert_append below above]
    unfold Globals.Holds
    rw [Globals.cells_write valid, Globals.cells_write behind]
    refine holds.enlistFree place ?_ ?_ ?_
    · rw [Function.update_of_ne apart, Function.update_self]
    · rw [Function.update_self, Holds.read_lastCell holds split]
    · intro cell notBehind notLink
      rw [Function.update_of_ne notLink, Function.update_of_ne notBehind]

/-! ## Releasing a run of descriptors -/

theorem releaseBlock_cells {scan : Address} (listed : scan ∈ (g.table fits).pointers) :
    g.cells fits (releaseBlock g scan m) =
      Function.update (Function.update (Function.update (Function.update (g.cells fits m)
        (link scan) (g.cells fits m Root.fresh.cell)) Root.fresh.cell scan)
        (.block scan .addr) 0) (.block scan .size) 0 := by
  have valid : ∀ field, g.Valid fits (.block scan field) := fun _ => listed
  have fresh : g.read m (.heap .fresh) = g.cells fits m Root.fresh.cell :=
    Globals.read_eq (Globals.valid_heap .fresh)
  unfold releaseBlock
  rw [Globals.cells_write (valid .size), Globals.cells_write (valid .addr),
    Globals.cells_write (Globals.valid_heap .fresh), Globals.cells_write (valid .next), fresh]
  rfl

theorem releaseBlock_spec {rest : List Block} {current value : Address}
    (closed : Represents (g.table fits) (Function.update (g.cells fits m) (link current) value) l
      (block :: rest)) (different : block.pointer ≠ current) :
    Represents (g.table fits)
      (Function.update (g.cells fits (releaseBlock g block.pointer m)) (link current) value)
      { l with fresh := block.pointer :: l.fresh } rest := by
  have loose : block.pointer ∈ (block :: rest).map Block.pointer := List.mem_cons_self
  have emptied := (closed.setDetached .addr 0 (by decide)).setDetached .size 0 (by decide)
  rw [releaseBlock_cells (closed.shape.detached_mem loose)]
  refine emptied.enlistFresh ?_ ?_ ?_
  · simp [Root.cell, link, Root.field, Block.set]
  · simp [Root.cell, link, Root.field, Block.set, different]
  · intro cell notRoot notLink
    have notLink : cell ≠ link block.pointer := notLink
    by_cases closing : cell = link current
    · subst closing
      simp [link, Block.set]
    · simp [Function.update_apply, closing, notRoot, notLink, Block.set]

theorem releaseBlocks_spec {run : List Block} {current value upTo scan : Address} {fuel : Nat}
    (closed : Represents (g.table fits) (Function.update (g.cells fits m) (link current) value) l
      (run ++ detached))
    (path : Path (g.next m) scan (run.map Block.pointer) upTo)
    (outside : current ∉ run.map Block.pointer) (bound : upTo ∉ run.map Block.pointer)
    (enough : run.length < fuel) :
    ∃ m', releaseBlocks g fuel scan upTo m = some m' ∧
      Represents (g.table fits) (Function.update (g.cells fits m') (link current) value)
        { l with fresh := (run.map Block.pointer).reverse ++ l.fresh } detached := by
  induction run generalizing m l scan fuel with
  | nil =>
      obtain ⟨fuel, rfl⟩ := Nat.exists_eq_succ_of_ne_zero (Nat.ne_of_gt enough)
      obtain rfl : scan = upTo := path
      exact ⟨m, if_pos rfl, closed⟩
  | cons block rest inductionHypothesis =>
      obtain ⟨fuel, rfl⟩ := Nat.exists_eq_succ_of_ne_zero
        (Nat.ne_of_gt (Nat.lt_of_le_of_lt (Nat.zero_le _) enough))
      obtain ⟨rfl, later⟩ := path
      have running : block.pointer ≠ upTo := by
        rintro rfl
        exact bound List.mem_cons_self
      have different : block.pointer ≠ current := by
        rintro rfl
        exact outside List.mem_cons_self
      have nodup := closed.shape.detachedNodup
      rw [List.cons_append, List.map_cons] at nodup
      have listed : ∀ other ∈ block :: rest, other.pointer ∈ (g.table fits).pointers := by
        intro other among
        apply closed.shape.detached_mem
        exact List.mem_map_of_mem (List.mem_append_left detached among)
      have later' : Path (g.next (releaseBlock g block.pointer m)) (g.next m block.pointer)
          (rest.map Block.pointer) upTo := by
        apply later.congr
        intro node among
        obtain ⟨other, otherIn, rfl⟩ := List.mem_map.mp among
        have valid : g.Valid fits (link other.pointer) :=
          listed other (List.mem_cons_of_mem block otherIn)
        have apart : other.pointer ≠ block.pointer := by
          intro same
          apply (List.nodup_cons.mp nodup).1
          rw [← same, List.map_append]
          exact List.mem_append_left _ among
        have before : g.next m other.pointer = g.cells fits m (link other.pointer) :=
          Globals.read_eq valid
        have after : g.next (releaseBlock g block.pointer m) other.pointer =
            g.cells fits (releaseBlock g block.pointer m) (link other.pointer) :=
          Globals.read_eq valid
        rw [before, after, releaseBlock_cells (listed block List.mem_cons_self)]
        simp [link, Root.cell, apart]
      obtain ⟨m', released, represents⟩ := inductionHypothesis
        (releaseBlock_spec closed different) later'
        (fun among => outside (List.mem_cons_of_mem _ among))
        (fun among => bound (List.mem_cons_of_mem _ among)) (Nat.lt_of_succ_lt_succ enough)
      refine ⟨m', ?_, ?_⟩
      · rw [releaseBlocks, if_neg running]
        exact released
      · rw [List.map_cons, List.reverse_cons, List.append_assoc]
        exact represents

/-! ## Merging a run of adjacent blocks -/

theorem getLastD_pointer (current : Block) (run : List Block) :
    (run.map Block.pointer).getLastD current.pointer = (run.getLastD current).pointer := by
  induction run generalizing current with
  | nil => rfl
  | cons block rest inductionHypothesis =>
      rw [List.map_cons, List.getLastD_cons, List.getLastD_cons]
      exact inductionHypothesis block

theorem getLastD_mem (current : Block) (run : List Block) :
    run.getLastD current ∈ current :: run := by
  induction run generalizing current with
  | nil => exact List.mem_singleton.mpr rfl
  | cons block rest inductionHypothesis =>
      rw [List.getLastD_cons]
      exact List.mem_cons_of_mem current (inductionHypothesis block)

/-- The run between `current` and `after` becomes spare, and `current` is linked to `after`. -/
theorem closeRun_spec {before run after : List Block} {current : Block} {last : Address}
    (holds : g.Holds fits m l detached) (place : l.free = before ++ current :: (run ++ after))
    (lastEq : last = (run.map Block.pointer).getLastD current.pointer) :
    ∃ m', releaseBlocks g loopFuel (g.next m current.pointer) (g.next m last) m = some m' ∧
      g.Holds fits (g.write m' (.block current.pointer .next) (g.next m last))
        { l with
          free := before ++ current :: after
          fresh := (run.map Block.pointer).reverse ++ l.fresh } detached := by
  have split : l.free = (before ++ [current]) ++ (run ++ after) := by
    simp [place]
  have listed : l.pointers .free = (before ++ [current]).map Block.pointer ++
      (run.map Block.pointer ++ after.map Block.pointer) := by
    rw [← List.map_append, ← List.map_append, ← split]
    rfl
  have valid : ∀ block ∈ current :: run, g.Valid fits (link block.pointer) := by
    intro block among
    have known : block ∈ detached ++ (l.free ++ l.used) := by
      simp only [place, List.mem_append, List.mem_cons] at among ⊢
      tauto
    exact Holds.pointer_mem holds known
  have behind : lastCell link Root.free.cell ((before ++ [current]).map Block.pointer) =
      link current.pointer := by
    rw [List.map_append, lastCell_append]
    rfl
  have behindRun : lastCell link (link current.pointer) (run.map Block.pointer) = link last := by
    rw [lastEq]
    exact lastCell_link current.pointer (run.map Block.pointer)
  -- the free list, cut before and behind the run
  have chain := holds.shape.chain .free
  rw [listed] at chain
  obtain ⟨_, tail⟩ := chain_append.mp chain
  rw [behind] at tail
  obtain ⟨linkedRun, rest⟩ := chain_append.mp tail
  have upTo : g.next m last = (after.map Block.pointer).headD NULL := by
    have lastValid : g.Valid fits (link last) := by
      rw [lastEq, getLastD_pointer]
      exact valid _ (getLastD_mem current run)
    rw [← rest.head, behindRun]
    exact Globals.read_eq lastValid
  have path : Path (g.next m) (g.next m current.pointer) (run.map Block.pointer)
      ((after.map Block.pointer).headD NULL) := by
    have first : g.next m current.pointer = g.cells fits m (link current.pointer) :=
      Globals.read_eq (valid current List.mem_cons_self)
    rw [first]
    apply (Chain.path ⟨linkedRun, rest.head⟩).congr
    intro node among
    obtain ⟨block, blockIn, rfl⟩ := List.mem_map.mp among
    exact Globals.read_eq (valid block (List.mem_cons_of_mem current blockIn))
  have nodup : (current.pointer :: (run.map Block.pointer ++ after.map Block.pointer)).Nodup := by
    have whole := holds.shape.listNodup .free
    rw [listed, List.map_append, List.append_assoc] at whole
    exact (List.nodup_append.mp whole).2.1
  have outside : current.pointer ∉ run.map Block.pointer := fun among =>
    (List.nodup_cons.mp nodup).1 (List.mem_append_left _ among)
  have bound : (after.map Block.pointer).headD NULL ∉ run.map Block.pointer := by
    intro among
    cases after with
    | nil =>
        have inFree : NULL ∈ l.pointers .free := by
          rw [listed]
          exact List.mem_append_right _ (List.mem_append_left _ among)
        exact holds.shape.listed_ne_null inFree rfl
    | cons other later =>
        have apart := (List.nodup_append.mp (List.nodup_cons.mp nodup).2).2.2
        exact apart other.pointer among other.pointer List.mem_cons_self rfl
  have enough : run.length < loopFuel := by
    have length := Holds.length_lt holds .free
    rw [listed] at length
    simp only [List.length_append, List.length_map] at length
    omega
  have closed := holds.unlinkFree split
  rw [lastCell_append, behind, behindRun] at closed
  have closing : g.cells fits m (link last) = (after.map Block.pointer).headD NULL := by
    rw [← behindRun]
    exact rest.head
  rw [closing] at closed
  obtain ⟨m', released, represents⟩ := releaseBlocks_spec closed path outside bound enough
  rw [upTo]
  refine ⟨m', released, ?_⟩
  have ownLink : g.Valid fits (.block current.pointer .next) := valid current List.mem_cons_self
  unfold Globals.Holds
  rw [Globals.cells_write ownLink]
  simp only [List.append_assoc, List.singleton_append] at represents
  exact represents

/-- The first block of a run, grown to the end of the last one. -/
def joined (current : Block) (run : List Block) : Block :=
  { current with
    size := (run.getLastD current).addr - current.addr + (run.getLastD current).size }

theorem mergeRun_spec {before run after : List Block} {current : Block}
    (holds : g.Holds fits m l detached) (place : l.free = before ++ current :: (run ++ after)) :
    ∃ m', mergeRun g current.pointer ((run.map Block.pointer).getLastD current.pointer) m = some m' ∧
      g.Holds fits m'
        { l with
          free := before ++ joined current run :: after
          fresh := (run.map Block.pointer).reverse ++ l.fresh } detached := by
  have known : ∀ block ∈ current :: run, block ∈ detached ++ (l.free ++ l.used) := by
    intro block among
    simp only [place, List.mem_append, List.mem_cons] at among ⊢
    tauto
  have lastKnown := known _ (getLastD_mem current run)
  have currentKnown := known current List.mem_cons_self
  have newSize : g.addr m ((run.map Block.pointer).getLastD current.pointer) -
      g.addr m current.pointer + g.size m ((run.map Block.pointer).getLastD current.pointer) =
      (joined current run).size := by
    rw [getLastD_pointer, Holds.addr_eq holds lastKnown, Holds.size_eq holds lastKnown,
      Holds.addr_eq holds currentKnown]
    rfl
  have grown : g.Holds fits (g.write m (.block current.pointer .size) (joined current run).size)
      { l with free := before ++ joined current run :: (run ++ after) } detached := by
    have valid : g.Valid fits (.block current.pointer .size) := Holds.pointer_mem holds currentKnown
    unfold Globals.Holds
    rw [Globals.cells_write valid]
    exact holds.sizeFree place
  obtain ⟨m', released, result⟩ := closeRun_spec grown rfl rfl
  unfold mergeRun
  simp only [newSize]
  refine ⟨_, ?_, result⟩
  exact Option.bind_eq_some_iff.mpr ⟨m', released, rfl⟩

/-! ## Compaction -/

/-- Each block of the run starts where the one before it ends. -/
def Adjacent : Block → List Block → Prop
  | _, [] => True
  | current, block :: rest => current.addr + current.size = block.addr ∧ Adjacent block rest

theorem mergeFrom_append {current last : Block} {run after : List Block}
    (adjacent : Adjacent last run) (reached : current.addr + current.size = last.addr + last.size) :
    mergeFrom current (run ++ after) =
      ((mergeFrom { current with
          size := (run.getLastD last).addr - current.addr + (run.getLastD last).size } after).1,
        run.map Block.pointer ++ (mergeFrom { current with
          size := (run.getLastD last).addr - current.addr + (run.getLastD last).size } after).2) := by
  induction run generalizing current last with
  | nil =>
      have size : current.size = last.addr - current.addr + last.size := by
        bv_omega
      simp only [List.getLastD_nil, ← size]
      rfl
  | cons block rest inductionHypothesis =>
      obtain ⟨meets, later⟩ := adjacent
      have grown : current.addr + (current.size + block.size) = block.addr + block.size := by
        rw [← BitVec.add_assoc, reached, meets]
      have merged : mergeFrom { current with size := current.size + block.size } (rest ++ after) =
          _ := inductionHypothesis later grown
      rw [List.cons_append, mergeFrom, if_pos (reached.trans meets), List.getLastD_cons, merged]
      rfl

/-- Coalescing joins the first run and goes on behind it. -/
theorem coalesce_run {current : Block} {run after : List Block} (adjacent : Adjacent current run)
    (ends : ∀ block ∈ after.head?,
      (run.getLastD current).addr + (run.getLastD current).size ≠ block.addr) :
    coalesce (current :: (run ++ after)) =
      (joined current run :: (coalesce after).1,
        run.map Block.pointer ++ (coalesce after).2) := by
  have merged : coalesce (current :: (run ++ after)) = _ := mergeFrom_append adjacent rfl
  cases after with
  | nil => exact merged
  | cons block rest =>
      have reach : (joined current run).addr + (joined current run).size ≠ block.addr := by
        have apart := ends block rfl
        intro meets
        apply apart
        rw [← meets]
        unfold joined
        bv_omega
      have stops : mergeFrom (joined current run) (block :: rest) =
          (joined current run :: (mergeFrom block rest).1, (mergeFrom block rest).2) := by
        rw [mergeFrom, if_neg reach]
      exact merged.trans (by rw [← joined, stops]; rfl)

/-- The inner loop of `compact` finds the run that starts with `current`. -/
theorem lastAdjacent_spec {before later : List Block} {current : Block}
    (holds : g.Holds fits m l detached) (place : l.free = before ++ current :: later) :
    ∃ run after, later = run ++ after ∧ Adjacent current run ∧
      (∀ block ∈ after.head?,
        (run.getLastD current).addr + (run.getLastD current).size ≠ block.addr) ∧
      lastAdjacent g current.pointer m =
        some ((run.map Block.pointer).getLastD current.pointer) := by
  have listed : l.pointers .free =
      (before ++ [current]).map Block.pointer ++ later.map Block.pointer := by
    rw [← List.map_append, List.append_assoc, List.singleton_append, ← place]
    rfl
  have behind : lastCell link Root.free.cell ((before ++ [current]).map Block.pointer) =
      link current.pointer := by
    rw [List.map_append, lastCell_append]
    rfl
  obtain ⟨run, after, rfl, passed, stopped, walked⟩ := Holds.walk_eq holds listed
    (fun prev scan => g.addr m prev + g.size m prev ≠ g.addr m scan) current.pointer
  rw [behind] at walked
  have known : ∀ block ∈ current :: (run ++ after), block ∈ detached ++ (l.free ++ l.used) := by
    intro block among
    simp only [place, List.mem_append, List.mem_cons] at among ⊢
    tauto
  have adjacent : ∀ (first : Block) (blocks : List Block),
      (∀ block ∈ first :: blocks, block ∈ detached ++ (l.free ++ l.used)) →
      Passed (fun prev scan => g.addr m prev + g.size m prev ≠ g.addr m scan) first.pointer
        (blocks.map Block.pointer) → Adjacent first blocks := by
    intro first blocks
    induction blocks generalizing first with
    | nil => exact fun _ _ => trivial
    | cons block rest inductionHypothesis =>
        rintro known ⟨meets, past⟩
        have meets := of_decide_eq_false meets
        rw [Holds.addr_eq holds (known first (by simp)), Holds.size_eq holds (known first (by simp)),
          Holds.addr_eq holds (known block (by simp)), not_not] at meets
        refine ⟨meets, inductionHypothesis block ?_ past⟩
        intro other among
        exact known other (List.mem_cons_of_mem first among)
  refine ⟨run, after, rfl, adjacent current run ?_ passed, ?_, ?_⟩
  · intro block among
    apply known
    simp only [List.mem_cons, List.mem_append] at among ⊢
    tauto
  · intro block among
    have apart := of_decide_eq_true (stopped block among)
    have lastKnown : run.getLastD current ∈ detached ++ (l.free ++ l.used) := by
      apply known
      have among := getLastD_mem current run
      simp only [List.mem_cons, List.mem_append] at among ⊢
      tauto
    have blockKnown : block ∈ detached ++ (l.free ++ l.used) := by
      apply known
      have among := List.mem_of_mem_head? among
      simp [among]
    rw [getLastD_pointer, Holds.addr_eq holds lastKnown, Holds.size_eq holds lastKnown,
      Holds.addr_eq holds blockKnown] at apart
    exact apart
  · unfold lastAdjacent
    exact Option.bind_eq_some_iff.mpr ⟨_, walked, rfl⟩

/-- One turn of the outer loop of `compact`. -/
theorem compactStep_spec {before run after : List Block} {current : Block} {prev : Address}
    (holds : g.Holds fits m l detached) (place : l.free = before ++ current :: (run ++ after))
    (prevEq : prev = (run.map Block.pointer).getLastD current.pointer) :
    ∃ m', (if prev ≠ current.pointer then mergeRun g current.pointer prev m else some m) = some m' ∧
      g.next m' current.pointer = (after.map Block.pointer).headD NULL ∧
      g.Holds fits m'
        { l with
          free := before ++ joined current run :: after
          fresh := (run.map Block.pointer).reverse ++ l.fresh } detached := by
  obtain ⟨m', taken, result⟩ : ∃ m',
      (if prev ≠ current.pointer then mergeRun g current.pointer prev m else some m) = some m' ∧
      g.Holds fits m'
        { l with
          free := before ++ joined current run :: after
          fresh := (run.map Block.pointer).reverse ++ l.fresh } detached := by
    cases run with
    | nil =>
        have same : joined current [] = current := by
          simp [joined]
        refine ⟨m, if_neg (by simp [prevEq]), ?_⟩
        simp only [List.nil_append, List.map_nil, List.reverse_nil] at place ⊢
        rw [same, ← place]
        exact holds
    | cons block rest =>
        have later : prev ∈ (block :: rest).map Block.pointer := by
          rw [prevEq, List.map_cons, List.getLastD_cons, getLastD_pointer]
          exact List.mem_map_of_mem (getLastD_mem block rest)
        have nodup : (l.free.map Block.pointer).Nodup := holds.shape.listNodup .free
        rw [place, List.map_append, List.map_cons, List.map_append] at nodup
        have apart : prev ≠ current.pointer := by
          rintro rfl
          have tail := (List.nodup_append.mp nodup).2.1
          exact (List.nodup_cons.mp tail).1 (List.mem_append_left _ later)
        rw [if_pos apart, prevEq]
        exact mergeRun_spec holds place
  have listed : Lists.pointers
      { l with
        free := before ++ joined current run :: after
        fresh := (run.map Block.pointer).reverse ++ l.fresh } .free =
        (before ++ [joined current run]).map Block.pointer ++ after.map Block.pointer := by
    rw [← List.map_append, List.append_assoc]
    rfl
  have known : joined current run ∈ detached ++ ((before ++ joined current run :: after) ++ l.used) := by
    simp
  refine ⟨m', taken, ?_, result⟩
  have next := Holds.next_eq result known
  rw [← Holds.read_lastCell result listed, List.map_append, lastCell_append]
  exact next

theorem compactLoop_spec {before rest : List Block} {fuel : Nat}
    (holds : g.Holds fits m l detached) (place : l.free = before ++ rest)
    (enough : rest.length < fuel) :
    ∃ m', compactLoop g fuel ((rest.map Block.pointer).headD NULL) m = some m' ∧
      g.Holds fits m'
        { l with
          free := before ++ (coalesce rest).1
          fresh := (coalesce rest).2.reverse ++ l.fresh } detached := by
  induction fuel generalizing m l before rest with
  | zero => exact absurd enough (Nat.not_lt_zero _)
  | succ fuel inductionHypothesis =>
      cases rest with
      | nil =>
          refine ⟨m, if_pos rfl, ?_⟩
          simpa [coalesce, ← place] using holds
      | cons current later =>
          have real : current.pointer ≠ NULL := by
            have listed : current.pointer ∈ l.pointers .free := by
              apply List.mem_map_of_mem
              rw [place]
              exact List.mem_append_right before List.mem_cons_self
            exact holds.shape.listed_ne_null listed
          obtain ⟨run, after, rfl, adjacent, ends, found⟩ := lastAdjacent_spec holds place
          obtain ⟨m₁, merged, next, holds₁⟩ := compactStep_spec holds place rfl
          have place₁ : before ++ joined current run :: after =
              (before ++ [joined current run]) ++ after := by
            simp
          have shorter : after.length < fuel := by
            rw [List.length_cons, List.length_append] at enough
            omega
          obtain ⟨m₂, finished, holds₂⟩ := inductionHypothesis holds₁ place₁ shorter
          refine ⟨m₂, ?_, ?_⟩
          · rw [List.map_cons, List.headD_cons, compactLoop, if_neg real]
            simp only [found, merged, next, Option.bind_eq_bind, Option.bind_some]
            exact finished
          · rw [coalesce_run adjacent ends]
            simpa using holds₂

theorem compact_spec (holds : g.Holds fits m l detached) :
    ∃ m', compact g m = some m' ∧ g.Holds fits m' l.compacted detached := by
  have listed : l.pointers .free = [] ++ l.free.map Block.pointer := rfl
  have root : g.read m (.heap .free) = (l.free.map Block.pointer).headD NULL :=
    (Globals.read_eq (Globals.valid_heap .free)).trans (Holds.read_lastCell holds listed)
  have enough : l.free.length < loopFuel := by
    have bound := Holds.length_lt holds .free
    rw [listed, List.nil_append, List.length_map] at bound
    exact bound
  unfold compact
  rw [root]
  exact compactLoop_spec holds (List.nil_append l.free).symm enough

/-- `insert_block` followed by `compact`. -/
theorem release_spec (holds : g.Holds fits m l (block :: detached)) :
    ∃ m', (insertBlock g block.pointer m).bind (compact g) = some m' ∧
      g.Holds fits m' (l.release block) detached := by
  obtain ⟨m₁, inserted, holds₁⟩ := insertBlock_spec holds
  obtain ⟨m₂, compacted, holds₂⟩ := compact_spec holds₁
  exact ⟨m₂, Option.bind_eq_some_iff.mpr ⟨m₁, inserted, compacted⟩, holds₂⟩

end OrionBios.Heap
