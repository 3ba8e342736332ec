import OrionBios.Heap.Cells

/-!
# Memory that represents the three lists

The relation between the cells of header and table and the abstract lists, how it
follows the single moves of a descriptor, and what a walk over a represented list
finds.
-/

namespace OrionBios.Heap

open Machine

def Lists.pointers (l : Lists) : Root → List Address
  | .free => l.free.map Block.pointer
  | .used => l.used.map Block.pointer
  | .fresh => l.fresh

/-- The cells hold the lists, and `detached` are the blocks on their way between two lists. -/
structure Represents (table : Table) (cells : Cell → Word) (l : Lists) (detached : List Block) :
    Prop where
  shape : Shape table cells l.pointers (detached.map Block.pointer)
  content : ∀ block ∈ detached ++ (l.free ++ l.used),
    cells (.block block.pointer .addr) = block.addr ∧
      cells (.block block.pointer .size) = block.size
  top : cells (.heap .top) = l.top

theorem pointers_free (l : Lists) (blocks : List Block) :
    Lists.pointers { l with free := blocks } =
      Function.update l.pointers .free (blocks.map Block.pointer) := by
  funext root
  cases root <;> rfl

theorem pointers_used (l : Lists) (blocks : List Block) :
    Lists.pointers { l with used := blocks } =
      Function.update l.pointers .used (blocks.map Block.pointer) := by
  funext root
  cases root <;> rfl

theorem pointers_fresh (l : Lists) (pointers : List Address) :
    Lists.pointers { l with fresh := pointers } = Function.update l.pointers .fresh pointers := by
  funext root
  cases root <;> rfl

/-! ## Writing the contents of a descriptor -/

def Block.set (block : Block) (field : BlockField) (value : Word) : Block :=
  match field with
  | .addr => { block with addr := value }
  | .next => block
  | .size => { block with size := value }

@[simp] theorem Block.set_pointer (block : Block) (field : BlockField) (value : Word) :
    (block.set field value).pointer = block.pointer := by
  cases field <;> rfl

def assign (pointer : Address) (field : BlockField) (value : Word) (block : Block) : Block :=
  if block.pointer = pointer then block.set field value else block

@[simp] theorem assign_pointer (pointer : Address) (field : BlockField) (value : Word)
    (block : Block) : (assign pointer field value block).pointer = block.pointer := by
  unfold assign
  split
  · exact block.set_pointer field value
  · rfl

variable {pointer : Address} {field : BlockField} {value : Word}

theorem map_assign_pointer (blocks : List Block) :
    (blocks.map (assign pointer field value)).map Block.pointer = blocks.map Block.pointer := by
  rw [List.map_map]
  exact List.map_congr_left fun block _ => assign_pointer pointer field value block

theorem map_assign_of_notMem {blocks : List Block}
    (absent : pointer ∉ blocks.map Block.pointer) :
    blocks.map (assign pointer field value) = blocks := by
  conv_rhs => rw [← List.map_id blocks]
  apply List.map_congr_left
  intro block among
  have different : block.pointer ≠ pointer := by
    rintro rfl
    exact absent (List.mem_map_of_mem among)
  exact if_neg different

theorem map_assign_append {before after : List Block} {block : Block}
    (nodup : ((before ++ block :: after).map Block.pointer).Nodup) :
    (before ++ block :: after).map (assign block.pointer field value) =
      before ++ block.set field value :: after := by
  rw [List.map_append, List.map_cons] at nodup
  obtain ⟨_, later, apart⟩ := List.nodup_append.mp nodup
  have notBefore : block.pointer ∉ before.map Block.pointer := fun among =>
    apart block.pointer among block.pointer List.mem_cons_self rfl
  rw [List.map_append, List.map_cons, map_assign_of_notMem notBefore,
    map_assign_of_notMem (List.nodup_cons.mp later).1]
  simp [assign]

namespace Represents

variable {table : Table} {cells cells' : Cell → Word} {l l' : Lists}
  {detached detached' : List Block} {before after : List Block} {block : Block}

theorem assigned (represents : Represents table cells l detached) (pointer : Address)
    (field : BlockField) (value : Word) (data : field ≠ .next) :
    Represents table (Function.update cells (.block pointer field) value)
      { l with
        free := l.free.map (assign pointer field value)
        used := l.used.map (assign pointer field value) }
      (detached.map (assign pointer field value)) := by
  constructor
  · have lists : Lists.pointers
        { l with
          free := l.free.map (assign pointer field value)
          used := l.used.map (assign pointer field value) } = l.pointers := by
      funext root
      cases root with
      | free => exact map_assign_pointer l.free
      | used => exact map_assign_pointer l.used
      | fresh => rfl
    rw [lists, map_assign_pointer]
    apply represents.shape.congr
    · intro root
      exact Function.update_of_ne Cell.noConfusion _ _
    · intro other
      apply Function.update_of_ne
      intro same
      injection same with _ next
      exact data next.symm
  · intro block among
    rw [← List.map_append, ← List.map_append] at among
    obtain ⟨old, listed, rfl⟩ := List.mem_map.mp among
    obtain ⟨addr, size⟩ := represents.content old listed
    unfold assign
    by_cases same : old.pointer = pointer
    · subst same
      cases field <;> simp [Block.set, addr, size]
    · simp [same, addr, size]
  · rw [Function.update_of_ne Cell.noConfusion]
    exact represents.top

theorem notUsed_of_free (represents : Represents table cells l detached)
    (listed : pointer ∈ l.free.map Block.pointer) : pointer ∉ l.used.map Block.pointer :=
  represents.shape.apart (show Root.used ≠ Root.free by decide) listed

theorem sizeFree (represents : Represents table cells l detached)
    (place : l.free = before ++ block :: after) :
    Represents table (Function.update cells (.block block.pointer .size) value)
      { l with free := before ++ { block with size := value } :: after } detached := by
  have listed : block.pointer ∈ l.free.map Block.pointer := by
    rw [place]
    exact List.mem_map_of_mem (List.mem_append_right before List.mem_cons_self)
  have nodup := represents.shape.listNodup .free
  have notUsed := represents.notUsed_of_free listed
  have notDetached : block.pointer ∉ detached.map Block.pointer := fun loose =>
    represents.shape.unlisted loose .free listed
  have result := represents.assigned block.pointer .size value (by decide)
  rw [map_assign_of_notMem notUsed, map_assign_of_notMem notDetached, place,
    map_assign_append (place ▸ nodup)] at result
  exact result

/-- The first used block gets a new size. -/
theorem sizeUsed (represents : Represents table cells l detached) (place : l.used = block :: after) :
    Represents table (Function.update cells (.block block.pointer .size) value)
      { l with used := { block with size := value } :: after } detached := by
  have listed : block.pointer ∈ l.used.map Block.pointer := by
    rw [place]
    exact List.mem_map_of_mem List.mem_cons_self
  have nodup : (([] ++ block :: after).map Block.pointer).Nodup :=
    place ▸ represents.shape.listNodup .used
  have notFree : block.pointer ∉ l.free.map Block.pointer := fun free =>
    represents.notUsed_of_free free listed
  have notDetached : block.pointer ∉ detached.map Block.pointer := fun loose =>
    represents.shape.unlisted loose .used listed
  have result := represents.assigned block.pointer .size value (by decide)
  rw [map_assign_of_notMem notFree, map_assign_of_notMem notDetached, place] at result
  rw [show block :: after = [] ++ block :: after from rfl, map_assign_append nodup] at result
  exact result

theorem setDetached (represents : Represents table cells l (block :: detached))
    (field : BlockField) (value : Word) (data : field ≠ .next) :
    Represents table (Function.update cells (.block block.pointer field) value) l
      (block.set field value :: detached) := by
  have loose : block.pointer ∈ (block :: detached).map Block.pointer := List.mem_cons_self
  have nodup : (([] ++ block :: detached).map Block.pointer).Nodup :=
    represents.shape.detachedNodup
  have notFree : block.pointer ∉ l.free.map Block.pointer := represents.shape.unlisted loose .free
  have notUsed : block.pointer ∉ l.used.map Block.pointer := represents.shape.unlisted loose .used
  have result := represents.assigned block.pointer field value data
  rw [map_assign_of_notMem notFree, map_assign_of_notMem notUsed] at result
  rw [show block :: detached = [] ++ block :: detached from rfl, map_assign_append nodup] at result
  exact result

theorem setTop (represents : Represents table cells l detached) :
    Represents table (Function.update cells (.heap .top) value) { l with top := value }
      detached := by
  constructor
  · apply represents.shape.congr
    · intro root
      apply Function.update_of_ne
      cases root <;> intro same <;> cases same
    · intro other
      exact Function.update_of_ne Cell.noConfusion _ _
  · intro block among
    rw [Function.update_of_ne Cell.noConfusion, Function.update_of_ne Cell.noConfusion]
    exact represents.content block among
  · exact Function.update_self _ _ _

/-! ## Moving a descriptor -/

/-- Blocks keep their contents when only links and roots of lists are written. -/
theorem moved (represents : Represents table cells l detached)
    (shape : Shape table cells' l'.pointers (detached'.map Block.pointer))
    (same : ∀ cell, (∀ root : Root, cell ≠ root.cell) → (∀ pointer, cell ≠ link pointer) →
      cells' cell = cells cell)
    (top : l'.top = l.top)
    (known : ∀ block ∈ detached' ++ (l'.free ++ l'.used), block ∈ detached ++ (l.free ++ l.used)) :
    Represents table cells' l' detached' := by
  refine ⟨shape, ?_, ?_⟩
  · intro block among
    have addr := same (.block block.pointer .addr) (fun _ => Cell.noConfusion)
      (fun _ equal => by cases equal)
    have size := same (.block block.pointer .size) (fun _ => Cell.noConfusion)
      (fun _ equal => by cases equal)
    rw [addr, size]
    exact represents.content block (known block among)
  · rw [top, ← represents.top]
    apply same
    · intro root equal
      cases root <;> cases equal
    · intro pointer
      exact Cell.noConfusion

theorem update_lastCell (root : Root) (nodes : List Address) (cell : Cell)
    (notRoot : ∀ root : Root, cell ≠ root.cell) (notLink : ∀ pointer, cell ≠ link pointer) :
    Function.update cells (lastCell link root.cell nodes) value cell = cells cell := by
  apply Function.update_of_ne
  rcases mem_visited.mp (lastCell_mem_visited link root.cell nodes) with same | ⟨node, _, same⟩
  · rw [same]
    exact notRoot root
  · rw [same]
    exact notLink node

theorem unlinkFree {removed : List Block} (represents : Represents table cells l detached)
    (place : l.free = before ++ (removed ++ after)) :
    Represents table
      (Function.update cells (lastCell link Root.free.cell (before.map Block.pointer))
        (cells (lastCell link Root.free.cell
          (before.map Block.pointer ++ removed.map Block.pointer))))
      { l with free := before ++ after } (removed ++ detached) := by
  have listed : l.pointers .free =
      before.map Block.pointer ++ (removed.map Block.pointer ++ after.map Block.pointer) := by
    rw [← List.map_append, ← List.map_append, ← place]
    rfl
  refine represents.moved ?_ (update_lastCell .free _) rfl ?_
  · rw [pointers_free, List.map_append, List.map_append]
    exact represents.shape.unlink listed
  · intro block among
    simp only [place, List.mem_append] at among ⊢
    tauto

theorem unlinkUsed (represents : Represents table cells l detached)
    (place : l.used = before ++ block :: after) :
    Represents table
      (Function.update cells (lastCell link Root.used.cell (before.map Block.pointer))
        (cells (link block.pointer)))
      { l with used := before ++ after } (block :: detached) := by
  have listed : l.pointers .used =
      before.map Block.pointer ++ ([block.pointer] ++ after.map Block.pointer) := by
    rw [List.singleton_append, ← List.map_cons, ← List.map_append, ← place]
    rfl
  have shape := represents.shape.unlink listed
  rw [lastCell_append] at shape
  refine represents.moved ?_ (update_lastCell .used _) rfl ?_
  · rw [pointers_used, List.map_append]
    exact shape
  · intro other among
    simp only [place, List.mem_append, List.mem_cons] at among ⊢
    tauto

theorem takeFresh {spare : Address} {fresh : List Address}
    (represents : Represents table cells l detached) (place : l.fresh = spare :: fresh) :
    Represents table (Function.update cells Root.fresh.cell (cells (link spare)))
      { l with fresh := fresh }
      ({ pointer := spare
         addr := cells (.block spare .addr)
         size := cells (.block spare .size) } :: detached) := by
  have listed : l.pointers .fresh = [] ++ ([spare] ++ fresh) := place
  have shape := represents.shape.unlink listed
  refine ⟨?_, ?_, ?_⟩
  · rw [pointers_fresh]
    exact shape
  · intro block among
    rw [Function.update_of_ne Cell.noConfusion, Function.update_of_ne Cell.noConfusion]
    rcases List.mem_cons.mp among with rfl | known
    · exact ⟨rfl, rfl⟩
    · exact represents.content block known
  · rw [Function.update_of_ne (by decide)]
    exact represents.top

theorem enlistFree (represents : Represents table cells l (block :: detached))
    (place : l.free = before ++ after)
    (points : cells' (lastCell link Root.free.cell (before.map Block.pointer)) = block.pointer)
    (follows : cells' (link block.pointer) =
      cells (lastCell link Root.free.cell (before.map Block.pointer)))
    (same : ∀ cell, cell ≠ lastCell link Root.free.cell (before.map Block.pointer) →
      cell ≠ link block.pointer → cells' cell = cells cell) :
    Represents table cells' { l with free := before ++ block :: after } detached := by
  have listed : l.pointers .free = before.map Block.pointer ++ after.map Block.pointer := by
    rw [← List.map_append, ← place]
    rfl
  refine represents.moved ?_ ?_ rfl ?_
  · rw [pointers_free, List.map_append, List.map_cons]
    exact represents.shape.enlist listed points follows same
  · intro cell notRoot notLink
    refine same cell ?_ (notLink block.pointer)
    intro equal
    rcases mem_visited.mp (equal ▸ lastCell_mem_visited link _ _) with root | ⟨node, _, link⟩
    · exact notRoot .free root
    · exact notLink node link
  · intro other among
    simp only [place, List.mem_append, List.mem_cons] at among ⊢
    tauto

/-- A block becomes the first used one; its link may be written before or after the root. -/
theorem enlistUsed (represents : Represents table cells l (block :: detached))
    (points : cells' Root.used.cell = block.pointer)
    (follows : cells' (link block.pointer) = cells Root.used.cell)
    (same : ∀ cell, cell ≠ Root.used.cell → cell ≠ link block.pointer →
      cells' cell = cells cell) :
    Represents table cells' { l with used := block :: l.used } detached := by
  refine represents.moved ?_ ?_ rfl ?_
  · rw [pointers_used]
    have listed : l.pointers .used = [] ++ l.used.map Block.pointer := rfl
    exact represents.shape.enlist listed points follows same
  · intro cell notRoot notLink
    exact same cell (notRoot .used) (notLink block.pointer)
  · intro other among
    simp only [List.mem_append, List.mem_cons] at among ⊢
    tauto

theorem enlistFresh (represents : Represents table cells l (block :: detached))
    (points : cells' Root.fresh.cell = block.pointer)
    (follows : cells' (link block.pointer) = cells Root.fresh.cell)
    (same : ∀ cell, cell ≠ Root.fresh.cell → cell ≠ link block.pointer →
      cells' cell = cells cell) :
    Represents table cells' { l with fresh := block.pointer :: l.fresh } detached := by
  refine represents.moved ?_ ?_ rfl ?_
  · rw [pointers_fresh]
    have listed : l.pointers .fresh = [] ++ l.fresh := rfl
    exact represents.shape.enlist listed points follows same
  · intro cell notRoot notLink
    exact same cell (notRoot .fresh) (notLink block.pointer)
  · intro other among
    exact List.mem_cons_of_mem block among

end Represents

end OrionBios.Heap
