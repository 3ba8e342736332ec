import OrionBios.Heap.Compaction

/-!
# The allocator refines the list operations

On memory whose header and table represent lists, every call returns and does to the
lists what `Alloc` and `Free` allow. For `calloc` the bytes it clears must lie outside
header and table.
-/

namespace OrionBios.Heap

open Machine

variable {g : Globals} {fits : g.Fits} {m : Memory} {l : Lists} {num : Word}

theorem Alloc.used_eq {block : Block} {l' : Lists} (allocated : Alloc g num l (some block) l') :
    l'.used = block :: l.used := by
  cases allocated <;> rfl

namespace Holds

theorem top_eq (holds : g.Holds fits m l []) : g.read m (.heap .top) = l.top :=
  (Globals.read_eq (Globals.valid_heap .top)).trans holds.top

theorem fresh_eq (holds : g.Holds fits m l []) :
    g.read m (.heap .fresh) = l.fresh.headD NULL := by
  have listed : l.pointers .fresh = [] ++ l.fresh := rfl
  exact (Globals.read_eq (Globals.valid_heap .fresh)).trans (read_lastCell holds listed)

theorem fresh_nonNull (holds : g.Holds fits m l []) :
    g.read m (.heap .fresh) ≠ NULL ↔ l.fresh ≠ [] := by
  rw [fresh_eq holds]
  cases spares : l.fresh with
  | nil => simp
  | cons spare fresh =>
      have listed : spare ∈ l.pointers .fresh := by
        simp [Lists.pointers, spares]
      simp [holds.shape.listed_ne_null listed]

theorem isTop_eq (holds : g.Holds fits m l []) {block : Block} (known : block ∈ l.free) :
    isTop g m num block.pointer = decide (l.Resizable g num block) := by
  have known : block ∈ [] ++ (l.free ++ l.used) := by
    simp [known]
  unfold isTop
  rw [top_eq holds, addr_eq holds known, size_eq holds known]
  exact decide_eq_decide.mpr Iff.rfl

end Holds

/-! ## free -/

theorem free_spec (holds : g.Holds fits m l []) (pointer : Address) :
    ∃ freed m' l', free g pointer m = some (freed, m') ∧ Free pointer l freed l' ∧
      g.Holds fits m' l' [] := by
  have listed : l.pointers .used = [] ++ l.used.map Block.pointer := rfl
  obtain ⟨before, rest, place, passed, stopped, walked⟩ := Holds.walk_eq holds listed
    (fun _ block => pointer = g.addr m block) NULL
  simp only [lastCell, Root.cell, Root.field] at walked
  have known : ∀ block ∈ l.used, g.addr m block.pointer = block.addr := by
    intro block among
    apply Holds.addr_eq holds
    simp [among]
  have first : ∀ other ∈ before, other.addr ≠ pointer := by
    intro other among same
    have past := passed_const.mp passed other.pointer (List.mem_map_of_mem among)
    rw [known other (place ▸ List.mem_append_left rest among)] at past
    exact of_decide_eq_false past same.symm
  cases rest with
  | nil =>
      rw [List.append_nil] at place
      refine ⟨false, m, l, ?_, Free.absent (place ▸ first), holds⟩
      unfold free
      exact Option.bind_eq_some_iff.mpr ⟨_, walked, rfl⟩
  | cons block after =>
      have among : block ∈ l.used := by
        simp [place]
      have same : block.addr = pointer := by
        have hit := of_decide_eq_true (stopped block rfl)
        rw [known block among] at hit
        exact hit.symm
      have split : l.pointers .used =
          before.map Block.pointer ++ (block :: after).map Block.pointer := by
        rw [← List.map_append, ← place]
        rfl
      have real : block.pointer ≠ NULL := by
        have listed : block.pointer ∈ l.pointers .used := List.mem_map_of_mem among
        exact holds.shape.listed_ne_null listed
      have unlinked : g.Holds fits
          (g.relink m .used ((before.map Block.pointer).getLastD NULL) (g.next m block.pointer))
          { l with used := before ++ after } [block] := by
        have relinked := Holds.relink_eq holds split (g.next m block.pointer)
        have next : g.next m block.pointer = g.cells fits m (link block.pointer) :=
          Holds.next_eq holds (by simp [among])
        have represents := holds.unlinkUsed place
        rw [← next, ← Globals.cells_write (Holds.lastCell_valid holds split), ← relinked] at represents
        exact represents
      obtain ⟨m', released, result⟩ := release_spec unlinked
      obtain ⟨m₁, inserted, compacted⟩ := Option.bind_eq_some_iff.mp released
      refine ⟨true, m', _, ?_, Free.found place first same, result⟩
      unfold free
      refine Option.bind_eq_some_iff.mpr ⟨_, walked, ?_⟩
      simp only [List.map_cons, List.headD_cons, if_neg real, inserted, compacted,
        Option.bind_eq_bind, Option.bind_some]
      rfl

/-! ## malloc -/

variable {block : Block}

theorem takeBlock_spec {before after : List Block} (holds : g.Holds fits m l [])
    (place : l.free = before ++ block :: after) {m₁ : Memory}
    (unlinked : m₁ = g.relink m .free ((before.map Block.pointer).getLastD NULL)
      (g.next m block.pointer)) :
    g.Holds fits
      (g.write (g.write m₁ (.block block.pointer .next) (g.read m₁ (.heap .used))) (.heap .used)
        block.pointer)
      { l with free := before ++ after, used := block :: l.used } [] := by
  have among : block ∈ l.free := by
    simp [place]
  have split : l.pointers .free =
      before.map Block.pointer ++ (block :: after).map Block.pointer := by
    rw [← List.map_append, ← place]
    rfl
  have next : g.next m block.pointer = g.cells fits m
      (lastCell link Root.free.cell (before.map Block.pointer ++ [block].map Block.pointer)) := by
    rw [lastCell_append]
    exact Holds.next_eq holds (by simp [among])
  have loose : g.Holds fits m₁ { l with free := before ++ after } [block] := by
    have place' : l.free = before ++ ([block] ++ after) := place
    have represents := holds.unlinkFree place'
    rw [← next, ← Globals.cells_write (Holds.lastCell_valid holds split),
      ← Holds.relink_eq holds split (g.next m block.pointer)] at represents
    rw [unlinked]
    exact represents
  have used : g.read m₁ (.heap .used) = g.cells fits m₁ Root.used.cell :=
    Globals.read_eq (Globals.valid_heap .used)
  have valid : g.Valid fits (.block block.pointer .next) :=
    Holds.pointer_mem loose (List.mem_append_left _ List.mem_cons_self)
  unfold Globals.Holds
  rw [Globals.cells_write (Globals.valid_heap .used), Globals.cells_write valid, used]
  refine loose.enlistUsed (Function.update_self _ _ _) ?_ ?_
  · rw [Function.update_of_ne Cell.noConfusion]
    exact Function.update_self _ _ _
  · intro cell notRoot notLink
    have notRoot : cell ≠ .heap .used := notRoot
    have notLink : cell ≠ .block block.pointer .next := notLink
    rw [Function.update_of_ne notRoot, Function.update_of_ne notLink]

theorem splitBlock_spec {used : List Block} {spare : Address} {fresh : List Address}
    (holds : g.Holds fits m l []) (first : l.used = block :: used)
    (spares : l.fresh = spare :: fresh)
    (excess : g.heapSplitThresh ≤ block.size - num) :
    ∃ m', splitBlock g num block.pointer m = some m' ∧
      g.Holds fits m'
        (Lists.release
          { l with used := { block with size := num } :: used, fresh := fresh }
          { pointer := spare, addr := block.addr + num, size := block.size - num }) [] := by
  have known : block ∈ [] ++ (l.free ++ l.used) := by
    simp [first]
  have sizeEq := Holds.size_eq holds known
  have shrunk : g.Holds fits (g.write m (.block block.pointer .size) num)
      { l with used := { block with size := num } :: used } [] := by
    have valid : g.Valid fits (.block block.pointer .size) := Holds.pointer_mem holds known
    unfold Globals.Holds
    rw [Globals.cells_write valid]
    exact holds.sizeUsed first
  unfold splitBlock
  rw [sizeEq, if_pos excess]
  dsimp only
  generalize g.write m (.block block.pointer .size) num = m₁ at shrunk
  have root : g.read m₁ (.heap .fresh) = spare := by
    rw [Holds.fresh_eq shrunk]
    simp [spares]
  have listed : spare ∈ (g.table fits).pointers := by
    have inFresh : spare ∈ l.pointers .fresh := by
      simp [Lists.pointers, spares]
    exact holds.shape.listed_mem inFresh
  have valid : ∀ field, g.Valid fits (.block spare field) := fun _ => listed
  have popped : g.Holds fits (g.write m₁ (.heap .fresh) (g.next m₁ spare))
      { l with used := { block with size := num } :: used, fresh := fresh }
      [{ pointer := spare
         addr := g.cells fits m₁ (.block spare .addr)
         size := g.cells fits m₁ (.block spare .size) }] := by
    have next : g.next m₁ spare = g.cells fits m₁ (link spare) := Globals.read_eq (valid .next)
    unfold Globals.Holds
    rw [Globals.cells_write (Globals.valid_heap .fresh), next]
    exact shrunk.takeFresh spares
  rw [root]
  generalize g.write m₁ (.heap .fresh) (g.next m₁ spare) = m₂ at popped
  have addrEq : g.addr m₂ block.pointer = block.addr := by
    have known' : { block with size := num } ∈ l.free ++ { block with size := num } :: used := by
      simp
    have found := Holds.addr_eq popped (List.mem_append_right _ known')
    exact found
  have filled : g.Holds fits
      (g.write (g.write m₂ (.block spare .addr) (block.addr + num)) (.block spare .size)
        (block.size - num))
      { l with used := { block with size := num } :: used, fresh := fresh }
      [{ pointer := spare, addr := block.addr + num, size := block.size - num }] := by
    unfold Globals.Holds
    rw [Globals.cells_write (valid .size), Globals.cells_write (valid .addr)]
    exact (popped.setDetached .addr (block.addr + num) (by decide)).setDetached .size
      (block.size - num) (by decide)
  obtain ⟨m', released, result⟩ := release_spec filled
  refine ⟨m', ?_, result⟩
  rw [addrEq]
  exact released

theorem takeFree_spec {before after : List Block} (holds : g.Holds fits m l [])
    (place : l.free = before ++ block :: after)
    (first : ∀ other ∈ before, ¬ l.Serves g num other) (serves : l.Serves g num block) :
    ∃ found l' m',
      takeFree g num ((before.map Block.pointer).getLastD NULL) block.pointer m = some m' ∧
      Alloc g num l (some found) l' ∧ found.pointer = block.pointer ∧ g.Holds fits m' l' [] := by
  have among : block ∈ l.free := by
    simp [place]
  have taken := takeBlock_spec holds place rfl
  have known : block ∈ [] ++ ((before ++ after) ++ block :: l.used) := by
    simp
  unfold takeFree
  simp only [Holds.isTop_eq holds among]
  generalize g.write (g.write (g.relink m .free ((before.map Block.pointer).getLastD NULL)
    (g.next m block.pointer)) (.block block.pointer .next) (g.read (g.relink m .free
    ((before.map Block.pointer).getLastD NULL) (g.next m block.pointer)) (.heap .used)))
    (.heap .used) block.pointer = m₁ at taken
  by_cases top : l.Resizable g num block
  · have sized : g.Holds fits (g.write m₁ (.block block.pointer .size) num)
        { l with free := before ++ after, used := { block with size := num } :: l.used } [] := by
      have valid : g.Valid fits (.block block.pointer .size) := Holds.pointer_mem taken known
      unfold Globals.Holds
      rw [Globals.cells_write valid]
      exact taken.sizeUsed rfl
    have addrEq : g.addr (g.write m₁ (.block block.pointer .size) num) block.pointer = block.addr := by
      have known' : { block with size := num } ∈
          [] ++ ((before ++ after) ++ { block with size := num } :: l.used) := by
        simp
      have found := Holds.addr_eq sized known'
      exact found
    refine ⟨_, _, g.write (g.write m₁ (.block block.pointer .size) num) (.heap .top)
      (block.addr + num), ?_, Alloc.resized place first top, rfl, ?_⟩
    · rw [decide_eq_true top, if_pos rfl, addrEq]
      rfl
    · unfold Globals.Holds
      rw [Globals.cells_write (Globals.valid_heap .top)]
      exact sized.setTop
  · have big : num ≤ block.size := serves.resolve_left top
    rw [decide_eq_false top]
    simp only [Bool.false_eq_true, if_false]
    cases spares : l.fresh with
    | nil =>
        have noSpare : ¬ g.read m₁ (.heap .fresh) ≠ NULL := by
          rw [Holds.fresh_nonNull taken]
          simp [spares]
        rw [if_neg noSpare]
        exact ⟨_, _, _, rfl, Alloc.whole place first top big (Or.inl spares), rfl, taken⟩
    | cons spare fresh =>
        have hasSpare : g.read m₁ (.heap .fresh) ≠ NULL := by
          rw [Holds.fresh_nonNull taken]
          simp [spares]
        rw [if_pos hasSpare]
        by_cases excess : g.heapSplitThresh ≤ block.size - num
        · obtain ⟨m', split, result⟩ := splitBlock_spec taken rfl spares excess
          exact ⟨_, _, m', split, Alloc.split place first top big spares excess, rfl, result⟩
        · refine ⟨_, _, m₁, ?_, Alloc.whole place first top big (Or.inr ?_), rfl, taken⟩
          · unfold splitBlock
            rw [Holds.size_eq taken known, if_neg excess]
            rfl
          · exact BitVec.not_le.mp excess

theorem takeTop_spec (holds : g.Holds fits m l [])
    (unserved : ∀ block ∈ l.free, ¬ l.Serves g num block) :
    ∃ found l', (takeTop g num m).1 = (found.map Block.pointer).getD NULL ∧
      Alloc g num l found l' ∧ g.Holds fits (takeTop g num m).2 l' [] := by
  unfold takeTop
  rw [Holds.top_eq holds]
  cases spares : l.fresh with
  | nil =>
      have noSpare : ¬ (g.read m (.heap .fresh) ≠ NULL ∧ l.top + num ≤ g.heapLimit) := by
        rw [Holds.fresh_nonNull holds]
        simp [spares]
      rw [if_neg noSpare]
      exact ⟨none, l, rfl, Alloc.refused unserved (Or.inl spares), holds⟩
  | cons spare fresh =>
      have hasSpare : g.read m (.heap .fresh) ≠ NULL := by
        rw [Holds.fresh_nonNull holds]
        simp [spares]
      have root : g.read m (.heap .fresh) = spare := by
        rw [Holds.fresh_eq holds]
        simp [spares]
      by_cases room : l.top + num ≤ g.heapLimit
      · rw [if_pos ⟨hasSpare, room⟩, root]
        dsimp only
        refine ⟨_, _, rfl, Alloc.raised unserved spares room, ?_⟩
        have listed : spare ∈ (g.table fits).pointers := by
          have inFresh : spare ∈ l.pointers .fresh := by
            simp [Lists.pointers, spares]
          exact holds.shape.listed_mem inFresh
        have valid : ∀ field, g.Valid fits (.block spare field) := fun _ => listed
        have next : g.next m spare = g.cells fits m (link spare) := Globals.read_eq (valid .next)
        have popped : g.Holds fits (g.write m (.heap .fresh) (g.next m spare))
            { l with fresh := fresh }
            [{ pointer := spare
               addr := g.cells fits m (.block spare .addr)
               size := g.cells fits m (.block spare .size) }] := by
          unfold Globals.Holds
          rw [Globals.cells_write (Globals.valid_heap .fresh), next]
          exact holds.takeFresh spares
        generalize g.write m (.heap .fresh) (g.next m spare) = m₁ at popped
        have used : g.read (g.write m₁ (.block spare .addr) l.top) (.heap .used) =
            g.cells fits m₁ Root.used.cell := by
          have read : g.read (g.write m₁ (.block spare .addr) l.top) (.heap .used) =
              g.cells fits (g.write m₁ (.block spare .addr) l.top) Root.used.cell :=
            Globals.read_eq (Globals.valid_heap .used)
          rw [read, Globals.cells_write (valid .addr)]
          exact Function.update_of_ne Cell.noConfusion _ _
        have filled := (popped.setDetached .addr l.top (by decide)).setDetached .size num (by decide)
        rw [used]
        unfold Globals.Holds
        rw [Globals.cells_write (Globals.valid_heap .top),
          Globals.cells_write (Globals.valid_heap .used), Globals.cells_write (valid .size),
          Globals.cells_write (valid .next), Globals.cells_write (valid .addr)]
        refine (filled.enlistUsed (Function.update_self _ _ _) ?_ ?_).setTop
        · simp [link, Root.cell, Root.field, Block.set]
        · intro cell notRoot notLink
          have notLink : cell ≠ .block spare .next := notLink
          simp [Function.update_apply, notRoot, notLink, Block.set]
      · have noRoom : ¬ (g.read m (.heap .fresh) ≠ NULL ∧ l.top + num ≤ g.heapLimit) := by
          simp [room]
        rw [if_neg noRoom]
        exact ⟨none, l, rfl, Alloc.refused unserved (Or.inr room), holds⟩

theorem allocBlock_spec (holds : g.Holds fits m l []) (num : Word) :
    ∃ found l' m',
      allocBlock g num m = some ((found.map Block.pointer).getD NULL, m') ∧
      Alloc g (roundUp g num) l found l' ∧ g.Holds fits m' l' [] := by
  have listed : l.pointers .free = [] ++ l.free.map Block.pointer := rfl
  obtain ⟨before, rest, place, passed, stopped, walked⟩ := Holds.walk_eq holds listed
    (fun _ ptr => isTop g m (roundUp g num) ptr || decide (roundUp g num ≤ g.size m ptr)) NULL
  simp only [lastCell, Root.cell, Root.field] at walked
  have served : ∀ block ∈ l.free, (isTop g m (roundUp g num) block.pointer ||
      decide (roundUp g num ≤ g.size m block.pointer)) = decide (l.Serves g (roundUp g num) block) := by
    intro block among
    rw [Holds.isTop_eq holds among, Holds.size_eq holds (by simp [among]), ← Bool.decide_or]
    exact decide_eq_decide.mpr Iff.rfl
  have first : ∀ other ∈ before, ¬ l.Serves g (roundUp g num) other := by
    intro other among
    have past := passed_const.mp passed other.pointer (List.mem_map_of_mem among)
    rw [served other (place ▸ List.mem_append_left rest among)] at past
    exact of_decide_eq_false past
  unfold allocBlock
  cases rest with
  | nil =>
      rw [List.append_nil] at place
      obtain ⟨found, l', result, allocated, holds'⟩ := takeTop_spec holds (place ▸ first)
      refine ⟨found, l', _, ?_, allocated, holds'⟩
      rw [← result]
      exact Option.bind_eq_some_iff.mpr ⟨_, walked, rfl⟩
  | cons block after =>
      have among : block ∈ l.free := by
        simp [place]
      have serves : l.Serves g (roundUp g num) block := by
        have hit := stopped block rfl
        rw [served block among] at hit
        exact of_decide_eq_true hit
      have real : block.pointer ≠ NULL := by
        have listed : block.pointer ∈ l.pointers .free := List.mem_map_of_mem among
        exact holds.shape.listed_ne_null listed
      obtain ⟨found, l', m', taken, allocated, same, holds'⟩ := takeFree_spec holds place first serves
      refine ⟨some found, l', m', ?_, allocated, holds'⟩
      refine Option.bind_eq_some_iff.mpr ⟨_, walked, ?_⟩
      simp only [List.map_cons, List.headD_cons, Option.map_some, Option.getD_some, same]
      rw [if_pos real, taken]
      rfl

theorem malloc_spec (holds : g.Holds fits m l []) (num : Word) :
    ∃ found l' m', malloc g num m = some ((found.map Block.addr).getD NULL, m') ∧
      Alloc g (roundUp g num) l found l' ∧ g.Holds fits m' l' [] := by
  obtain ⟨found, l', m', result, allocated, holds'⟩ := allocBlock_spec holds num
  refine ⟨found, l', m', ?_, allocated, holds'⟩
  unfold malloc
  refine Option.bind_eq_some_iff.mpr ⟨_, result, ?_⟩
  cases found with
  | none => exact if_neg (not_not.mpr rfl)
  | some block =>
      have first := allocated.used_eq
      have real : block.pointer ≠ NULL := by
        have listed : block.pointer ∈ l'.pointers .used := by
          simp [Lists.pointers, first]
        exact holds'.shape.listed_ne_null listed
      have addrEq : g.addr m' block.pointer = block.addr := Holds.addr_eq holds' (by simp [first])
      simp only [Option.map_some, Option.getD_some]
      rw [if_pos real, addrEq]
      rfl

/-! ## calloc -/

theorem memclear_cells {ptr : Address}
    (clear : ∀ byte, Within g.heap g.tableBytes byte → ¬ Within ptr num.toNat byte) :
    g.cells fits (memclear ptr num m) = g.cells fits m := by
  funext cell
  by_cases valid : g.Valid fits cell
  · rw [← Globals.read_eq valid, ← Globals.read_eq valid]
    apply load32_congr
    intro byte within
    apply memclear_outside
    apply clear
    have inside := Globals.address_fits valid
    have room := fits
    unfold Globals.Fits at room
    unfold Within at within ⊢
    bv_omega
  · rw [Globals.cells, Globals.cells, if_neg valid, if_neg valid]

theorem calloc_spec (holds : g.Holds fits m l []) (num size : Word)
    (clear : ∀ block l', Alloc g (roundUp g (num * size)) l (some block) l' →
      ∀ byte, Within g.heap g.tableBytes byte → ¬ Within block.addr (num * size).toNat byte) :
    ∃ found l' m', calloc g num size m = some ((found.map Block.addr).getD NULL, m') ∧
      Alloc g (roundUp g (num * size)) l found l' ∧ g.Holds fits m' l' [] := by
  obtain ⟨found, l', m', result, allocated, holds'⟩ := allocBlock_spec holds (num * size)
  unfold calloc
  cases found with
  | none =>
      refine ⟨none, l', m', ?_, allocated, holds'⟩
      exact Option.bind_eq_some_iff.mpr ⟨_, result, if_neg (not_not.mpr rfl)⟩
  | some block =>
      have first := allocated.used_eq
      have known : block ∈ [] ++ (l'.free ++ l'.used) := by
        simp [first]
      have real : block.pointer ≠ NULL := by
        have listed : block.pointer ∈ l'.pointers .used := by
          simp [Lists.pointers, first]
        exact holds'.shape.listed_ne_null listed
      have addrEq := Holds.addr_eq holds' known
      have cleared : g.Holds fits (memclear block.addr (num * size) m') l' [] := by
        unfold Globals.Holds
        rw [memclear_cells (clear block l' allocated)]
        exact holds'
      refine ⟨some block, l', memclear block.addr (num * size) m', ?_, allocated, cleared⟩
      refine Option.bind_eq_some_iff.mpr ⟨_, result, ?_⟩
      simp only [Option.map_some, Option.getD_some]
      rw [if_pos real, addrEq, Holds.addr_eq cleared known]
      rfl

/-! ## Initialisation -/

namespace Globals

theorem descriptor_succ (g : Globals) (index : Nat) :
    g.descriptor index + BitVec.ofNat 32 sizeofBlock = g.descriptor (index + 1) := by
  unfold descriptor
  rw [BitVec.add_assoc, ← BitVec.ofNat_add, Nat.add_assoc, ← Nat.mul_succ]

theorem descriptor_ne (fits : g.Fits) {index other : Nat} (small : index < other)
    (bound : other < g.heapMaxBlocks.toNat) : g.descriptor index ≠ g.descriptor other := by
  intro same
  have equal := congrArg BitVec.toNat same
  rw [descriptor_toNat fits (Nat.lt_trans small bound), descriptor_toNat fits bound] at equal
  unfold sizeofBlock at equal
  omega

theorem descriptor_mem (fits : g.Fits) {index : Nat} (small : index < g.heapMaxBlocks.toNat) :
    g.descriptor index ∈ (g.table fits).pointers :=
  List.mem_map_of_mem (List.mem_range.mpr small)

end Globals

/-- `linkFresh` writes the links of its descriptors only. -/
theorem linkFresh_frame {index count : Nat} (room : index + count < g.heapMaxBlocks.toNat)
    {other : Cell}
    (elsewhere : ∀ step, index ≤ step → step ≤ index + count → other ≠ link (g.descriptor step)) :
    g.cells fits (linkFresh g count (g.descriptor index) m) other = g.cells fits m other := by
  induction count generalizing index m with
  | zero =>
      have valid : g.Valid fits (.block (g.descriptor index) .next) :=
        Globals.descriptor_mem fits room
      rw [linkFresh, Globals.cells_write valid]
      exact Function.update_of_ne (elsewhere index (Nat.le_refl _) (Nat.le_refl _)) _ _
  | succ count inductionHypothesis =>
      have valid : g.Valid fits (.block (g.descriptor index) .next) :=
        Globals.descriptor_mem fits (Nat.lt_of_le_of_lt (Nat.le_add_right _ _) room)
      have later : g.cells fits (linkFresh g count (g.descriptor (index + 1))
          (g.write m (.block (g.descriptor index) .next) (g.descriptor (index + 1)))) other = _ :=
        inductionHypothesis (Nat.succ_add_eq_add_succ index count ▸ room)
          fun step above below => elsewhere step (Nat.le_of_succ_le above)
            (Nat.succ_add_eq_add_succ index count ▸ below)
      rw [linkFresh, Globals.descriptor_succ, later, Globals.cells_write valid]
      exact Function.update_of_ne (elsewhere index (Nat.le_refl _) (Nat.le_add_right _ _)) _ _

theorem linkFresh_chain {index count : Nat} (room : index + count < g.heapMaxBlocks.toNat)
    {start : Cell} (points : g.cells fits m start = g.descriptor index)
    (elsewhere : ∀ step, index ≤ step → step ≤ index + count → start ≠ link (g.descriptor step)) :
    Chain link (g.cells fits (linkFresh g count (g.descriptor index) m)) start
      ((List.range' index (count + 1)).map g.descriptor) NULL := by
  have head : g.cells fits (linkFresh g count (g.descriptor index) m) start = g.descriptor index :=
    (linkFresh_frame room elsewhere).trans points
  rw [List.range'_succ, List.map_cons]
  refine chain_cons.mpr ⟨head, ?_⟩
  have valid : g.Valid fits (.block (g.descriptor index) .next) :=
    Globals.descriptor_mem fits (Nat.lt_of_le_of_lt (Nat.le_add_right _ _) room)
  induction count generalizing index start m with
  | zero =>
      apply chain_nil.mpr
      rw [linkFresh, Globals.cells_write valid]
      exact Function.update_self _ _ _
  | succ count inductionHypothesis =>
      have room' : index + 1 + count < g.heapMaxBlocks.toNat :=
        Nat.succ_add_eq_add_succ index count ▸ room
      have own : g.cells fits (g.write m (.block (g.descriptor index) .next)
          (g.descriptor (index + 1))) (link (g.descriptor index)) = g.descriptor (index + 1) := by
        rw [Globals.cells_write valid]
        exact Function.update_self _ _ _
      have apart : ∀ step, index + 1 ≤ step → step ≤ index + 1 + count →
          link (g.descriptor index) ≠ link (g.descriptor step) := fun step above below same =>
        Globals.descriptor_ne fits above (Nat.lt_of_le_of_lt below room') (link_injective same)
      have next := (linkFresh_frame room' apart).trans own
      rw [linkFresh, Globals.descriptor_succ, List.range'_succ, List.map_cons]
      refine chain_cons.mpr ⟨next, ?_⟩
      exact inductionHypothesis room' own apart next
        (Globals.descriptor_mem fits (Nat.lt_of_le_of_lt (Nat.le_add_right _ _) room'))

/-- The lists `malloc_init` builds: everything is spare. -/
def Lists.initial (g : Globals) (fits : g.Fits) : Lists where
  free := []
  used := []
  fresh := (g.table fits).pointers
  top := g.descriptor g.heapMaxBlocks.toNat

/-- The top of the table, as `malloc_init` computes it. -/
theorem Globals.descriptor_past (g : Globals) :
    g.descriptor 0 + g.heapMaxBlocks * BitVec.ofNat 32 sizeofBlock =
      g.descriptor g.heapMaxBlocks.toNat := by
  unfold Globals.descriptor sizeofBlock
  rw [BitVec.add_assoc, Nat.mul_zero, Nat.add_zero, BitVec.ofNat_add, BitVec.ofNat_mul,
    BitVec.ofNat_toNat, BitVec.setWidth_eq, BitVec.mul_comm]

theorem linkFresh_spec (positive : 0 < g.heapMaxBlocks.toNat)
    (free : g.cells fits m (.heap .free) = NULL) (used : g.cells fits m (.heap .used) = NULL)
    (fresh : g.cells fits m (.heap .fresh) = g.descriptor 0)
    (top : g.cells fits m (.heap .top) = g.descriptor g.heapMaxBlocks.toNat) :
    g.Holds fits (linkFresh g (g.heapMaxBlocks - 1).toNat (g.descriptor 0) m)
      (Lists.initial g fits) [] := by
  have count : (g.heapMaxBlocks - 1).toNat = g.heapMaxBlocks.toNat - 1 := by
    bv_omega
  have room : 0 + (g.heapMaxBlocks.toNat - 1) < g.heapMaxBlocks.toNat := by
    rw [Nat.zero_add]
    exact Nat.sub_one_lt_of_lt positive
  have frame : ∀ field, g.cells fits (linkFresh g (g.heapMaxBlocks.toNat - 1) (g.descriptor 0) m)
      (.heap field) = g.cells fits m (.heap field) := fun field =>
    linkFresh_frame room fun _ _ _ => Cell.noConfusion
  have spares := linkFresh_chain room fresh fun _ _ _ => Cell.noConfusion
  rw [Nat.sub_add_cancel positive, ← List.range_eq_range'] at spares
  rw [count]
  refine ⟨⟨?_, ?_⟩, ?_, ?_⟩
  · intro root
    cases root with
    | free => exact chain_nil.mpr ((frame .free).trans free)
    | used => exact chain_nil.mpr ((frame .used).trans used)
    | fresh => exact spares
  · intro pointer
    simp [occurrences, Lists.pointers, Lists.initial]
  · intro block among
    cases among
  · exact (frame .top).trans top

theorem mallocInit_spec (memory : Memory) (g : Globals) (fits : g.Fits)
    (positive : 0 < g.heapMaxBlocks.toNat) :
    g.Holds fits (mallocInit memory g.heap g.heapLimit g.heapMaxBlocks g.heapSplitThresh
      g.heapAlignment).memory (Lists.initial g fits) [] := by
  have heapValid : ∀ field, g.Valid fits (.heap field) := Globals.valid_heap
  have first : g.heap + BitVec.ofNat 32 sizeofHeap = g.descriptor 0 := rfl
  unfold mallocInit
  dsimp only
  rw [first]
  have fresh₁ : g.read (g.write (g.write (g.write memory (.heap .free) NULL) (.heap .used) NULL)
      (.heap .fresh) (g.descriptor 0)) (.heap .fresh) = g.descriptor 0 := load32_store32_same
  rw [fresh₁, Globals.descriptor_past]
  have cells₂ : g.cells fits (g.write (g.write (g.write (g.write memory (.heap .free) NULL)
      (.heap .used) NULL) (.heap .fresh) (g.descriptor 0)) (.heap .top)
      (g.descriptor g.heapMaxBlocks.toNat)) =
      Function.update (Function.update (Function.update (Function.update (g.cells fits memory)
        (.heap .free) NULL) (.heap .used) NULL) (.heap .fresh) (g.descriptor 0)) (.heap .top)
        (g.descriptor g.heapMaxBlocks.toNat) := by
    rw [Globals.cells_write (heapValid .top), Globals.cells_write (heapValid .fresh),
      Globals.cells_write (heapValid .used), Globals.cells_write (heapValid .free)]
  have fresh₂ : g.read (g.write (g.write (g.write (g.write memory (.heap .free) NULL)
      (.heap .used) NULL) (.heap .fresh) (g.descriptor 0)) (.heap .top)
      (g.descriptor g.heapMaxBlocks.toNat)) (.heap .fresh) = g.descriptor 0 := by
    rw [Globals.read_eq (heapValid .fresh), cells₂]
    simp
  rw [fresh₂]
  apply linkFresh_spec positive <;> simp [cells₂]

end OrionBios.Heap
