import OrionBios.Heap.Lists

/-!
# Three lists over one descriptor table

Every descriptor of the table hangs in exactly one of the lists, or is detached: in
the middle of a move from one list to another. The two moves, out of a list and into
one, keep that.
-/

namespace OrionBios.Heap

open Machine

/-- The descriptor table: distinct descriptors, none of them at address 0. -/
structure Table where
  pointers : List Address
  nodup : pointers.Nodup
  nonNull : NULL ∉ pointers

inductive Root where
  | free | used | fresh
  deriving DecidableEq

def Root.field : Root → HeapField
  | .free => .free
  | .used => .used
  | .fresh => .fresh

def Root.cell (root : Root) : Cell := .heap root.field

def link (pointer : Address) : Cell := .block pointer .next

theorem link_injective {first second : Address} (same : link first = link second) :
    first = second := by
  injection same

theorem Root.cell_injective {first second : Root} (same : first.cell = second.cell) :
    first = second := by
  cases first <;> cases second <;> first | rfl | cases same

theorem visited_nodup {root : Root} {nodes : List Address} (nodup : nodes.Nodup) :
    (visited link root.cell nodes).Nodup := by
  apply List.nodup_cons.mpr
  constructor
  · intro among
    obtain ⟨_, _, same⟩ := List.mem_map.mp among
    cases same
  · exact nodup.map fun _ _ same => link_injective same

theorem mem_visited {root : Root} {nodes : List Address} {cell : Cell} :
    cell ∈ visited link root.cell nodes ↔ cell = root.cell ∨ ∃ node ∈ nodes, cell = link node := by
  unfold visited
  rw [List.mem_cons, List.mem_map]
  constructor
  · rintro (same | ⟨node, among, same⟩)
    · exact Or.inl same
    · exact Or.inr ⟨node, among, same.symm⟩
  · rintro (same | ⟨node, among, same⟩)
    · exact Or.inl same
    · exact Or.inr ⟨node, among, same.symm⟩

variable {table : Table} {cells cells' : Cell → Word} {lists : Root → List Address}
  {detached : List Address}

/-- How often a descriptor occurs in the three lists. -/
def occurrences (lists : Root → List Address) (pointer : Address) : Nat :=
  (lists .free).count pointer + (lists .used).count pointer + (lists .fresh).count pointer

theorem occurrences_update (lists : Root → List Address) (root : Root) (nodes : List Address)
    (pointer : Address) :
    occurrences (Function.update lists root nodes) pointer + (lists root).count pointer =
      occurrences lists pointer + nodes.count pointer := by
  unfold occurrences
  cases root <;> simp only [Function.update_apply, reduceCtorEq, if_true, if_false] <;> omega

theorem count_le_occurrences (lists : Root → List Address) (root : Root) (pointer : Address) :
    (lists root).count pointer ≤ occurrences lists pointer := by
  unfold occurrences
  cases root <;> omega

/-- The lists hang from their roots, and together with the detached descriptors they are the
table. -/
structure Shape (table : Table) (cells : Cell → Word) (lists : Root → List Address)
    (detached : List Address) : Prop where
  chain : ∀ root, Chain link cells root.cell (lists root) NULL
  conserved : ∀ pointer,
    detached.count pointer + occurrences lists pointer = table.pointers.count pointer

namespace Shape

theorem count_le (shape : Shape table cells lists detached) (pointer : Address) :
    detached.count pointer + occurrences lists pointer ≤ 1 := by
  rw [shape.conserved]
  exact List.nodup_iff_count_le_one.mp table.nodup pointer

theorem perm (shape : Shape table cells lists detached) :
    (detached ++ (lists .free ++ lists .used ++ lists .fresh)).Perm table.pointers := by
  apply List.perm_iff_count.mpr
  intro pointer
  rw [← shape.conserved, List.count_append, List.count_append, List.count_append]
  rfl

theorem length_le (shape : Shape table cells lists detached) (root : Root) :
    (lists root).length ≤ table.pointers.length := by
  rw [← shape.perm.length_eq]
  simp only [List.length_append]
  cases root <;> omega

theorem listNodup (shape : Shape table cells lists detached) (root : Root) :
    (lists root).Nodup := by
  apply List.nodup_iff_count_le_one.mpr
  intro pointer
  have bound := shape.count_le pointer
  have part := count_le_occurrences lists root pointer
  omega

theorem detachedNodup (shape : Shape table cells lists detached) : detached.Nodup := by
  apply List.nodup_iff_count_le_one.mpr
  intro pointer
  have bound := shape.count_le pointer
  omega

theorem apart (shape : Shape table cells lists detached) {root other : Root}
    (different : other ≠ root) {pointer : Address} (listed : pointer ∈ lists root) :
    pointer ∉ lists other := by
  intro again
  have first := List.count_pos_iff.mpr listed
  have second := List.count_pos_iff.mpr again
  have bound := shape.count_le pointer
  unfold occurrences at bound
  cases root <;> cases other <;> first | exact different rfl | omega

theorem unlisted (shape : Shape table cells lists detached) {pointer : Address}
    (loose : pointer ∈ detached) (root : Root) : pointer ∉ lists root := by
  intro listed
  have first := List.count_pos_iff.mpr loose
  have second := List.count_pos_iff.mpr listed
  have bound := shape.count_le pointer
  have part := count_le_occurrences lists root pointer
  omega

theorem listed_mem (shape : Shape table cells lists detached) {root : Root} {pointer : Address}
    (listed : pointer ∈ lists root) : pointer ∈ table.pointers := by
  apply List.count_pos_iff.mp
  have first := List.count_pos_iff.mpr listed
  have total := shape.conserved pointer
  have part := count_le_occurrences lists root pointer
  omega

theorem detached_mem (shape : Shape table cells lists detached) {pointer : Address}
    (loose : pointer ∈ detached) : pointer ∈ table.pointers := by
  apply List.count_pos_iff.mp
  have first := List.count_pos_iff.mpr loose
  have total := shape.conserved pointer
  omega

theorem listed_ne_null (shape : Shape table cells lists detached) {root : Root}
    {pointer : Address} (listed : pointer ∈ lists root) : pointer ≠ NULL := by
  rintro rfl
  exact table.nonNull (shape.listed_mem listed)

/-- Only the roots and the links matter. -/
theorem congr (shape : Shape table cells lists detached)
    (roots : ∀ root : Root, cells' root.cell = cells root.cell)
    (links : ∀ pointer, cells' (link pointer) = cells (link pointer)) :
    Shape table cells' lists detached := by
  refine ⟨fun root => (shape.chain root).congr ?_, shape.conserved⟩
  intro cell among
  rcases mem_visited.mp among with rfl | ⟨node, _, rfl⟩
  · exact roots root
  · exact links node

/-- The cells of another list are not the one behind `before`. -/
theorem otherCell (shape : Shape table cells lists detached) {root other : Root}
    (different : other ≠ root) {before after : List Address}
    (place : lists root = before ++ after) {cell : Cell}
    (among : cell ∈ visited link other.cell (lists other)) :
    cell ≠ lastCell link root.cell before := by
  rintro rfl
  have behind := lastCell_mem_visited link root.cell before
  rcases mem_visited.mp among with equal | ⟨node, listed, equal⟩
  · rcases mem_visited.mp behind with equal' | ⟨node, _, equal'⟩
    · exact different (Root.cell_injective (equal.symm.trans equal'))
    · cases equal.symm.trans equal'
  · rcases mem_visited.mp behind with equal' | ⟨node', kept, equal'⟩
    · cases equal.symm.trans equal'
    · obtain rfl := link_injective (equal.symm.trans equal')
      have inRoot : node ∈ lists root := place ▸ List.mem_append_left after kept
      exact shape.apart different inRoot listed

theorem lastCell_notMem (shape : Shape table cells lists detached) {root : Root}
    {before after : List Address} (place : lists root = before ++ after) {pointer : Address}
    (later : pointer ∈ after ∨ pointer ∉ lists root) : lastCell link root.cell before ≠ link pointer := by
  intro equal
  have nodup := shape.listNodup root
  rw [place] at nodup later
  rcases mem_visited.mp (equal ▸ lastCell_mem_visited link root.cell before) with
    same | ⟨node, kept, same⟩
  · cases same
  · obtain rfl := link_injective same
    rcases later with listed | loose
    · exact (List.nodup_append.mp nodup).2.2 pointer kept pointer listed rfl
    · exact loose (List.mem_append_left after kept)

theorem unlink (shape : Shape table cells lists detached) {root : Root}
    {before removed after : List Address} (place : lists root = before ++ (removed ++ after)) :
    Shape table
      (Function.update cells (lastCell link root.cell before)
        (cells (lastCell link root.cell (before ++ removed))))
      (Function.update lists root (before ++ after)) (removed ++ detached) := by
  have chain := shape.chain root
  have nodup := shape.listNodup root
  rw [place] at chain nodup
  obtain ⟨linked, tail⟩ := chain_append.mp chain
  obtain ⟨_, remaining⟩ := chain_append.mp tail
  rw [← lastCell_append] at remaining
  constructor
  · intro other
    by_cases same : other = root
    · subst same
      rw [Function.update_self]
      refine Chain.relink linked (visited_nodup (nodup.sublist (List.sublist_append_left _ _)))
        ?_ ?_
      · intro cell _ elsewhere
        exact Function.update_of_ne elsewhere _ _
      · refine remaining.restart (Function.update_self _ _ _) ?_
        intro cell among
        obtain ⟨node, listed, rfl⟩ := List.mem_map.mp among
        apply Function.update_of_ne
        exact (shape.lastCell_notMem place (Or.inl (List.mem_append_right removed listed))).symm
    · rw [Function.update_of_ne same]
      apply (shape.chain other).congr
      intro cell among
      apply Function.update_of_ne
      exact shape.otherCell same place among
  · intro other
    have total := shape.conserved other
    have moved := occurrences_update lists root (before ++ after) other
    rw [place] at moved
    simp only [List.count_append] at total moved ⊢
    omega

theorem enlist {pointer : Address} (shape : Shape table cells lists (pointer :: detached))
    {root : Root} {before after : List Address} (place : lists root = before ++ after)
    (points : cells' (lastCell link root.cell before) = pointer)
    (follows : cells' (link pointer) = cells (lastCell link root.cell before))
    (same : ∀ cell, cell ≠ lastCell link root.cell before → cell ≠ link pointer →
      cells' cell = cells cell) :
    Shape table cells' (Function.update lists root (before ++ pointer :: after)) detached := by
  have chain := shape.chain root
  have nodup := shape.listNodup root
  have loose := shape.unlisted List.mem_cons_self
  rw [place] at chain nodup
  obtain ⟨linked, tail⟩ := chain_append.mp chain
  constructor
  · intro other
    by_cases equal : other = root
    · subst equal
      rw [Function.update_self]
      refine Chain.relink linked (visited_nodup (nodup.sublist (List.sublist_append_left _ _)))
        ?_ ?_
      · intro cell among elsewhere
        refine same cell elsewhere ?_
        rintro rfl
        rcases mem_visited.mp among with equal | ⟨node, kept, equal⟩
        · cases equal
        · obtain rfl := link_injective equal
          exact loose other (place ▸ List.mem_append_left after kept)
      · refine chain_cons.mpr ⟨points, tail.restart follows ?_⟩
        intro cell among
        obtain ⟨node, listed, rfl⟩ := List.mem_map.mp among
        apply same
        · exact (shape.lastCell_notMem place (Or.inl listed)).symm
        · intro equal
          obtain rfl := link_injective equal
          exact loose other (place ▸ List.mem_append_right before listed)
    · rw [Function.update_of_ne equal]
      apply (shape.chain other).congr
      intro cell among
      refine same cell (shape.otherCell equal place among) ?_
      rintro rfl
      rcases mem_visited.mp among with equal' | ⟨node, listed, equal'⟩
      · cases equal'
      · obtain rfl := link_injective equal'
        exact loose other listed
  · intro other
    have total := shape.conserved other
    have moved := occurrences_update lists root (before ++ pointer :: after) other
    rw [place] at moved
    simp only [List.count_append, List.count_cons] at total moved ⊢
    omega

end Shape

end OrionBios.Heap
