import OrionBios.Heap.Refinement
import OrionBios.Transition.Runs

/-!
# Descriptor conservation

The three lists keep all descriptors, without loss or duplication, in every run in
which `calloc` clears no byte of header and table. A wrapped size breaks this: it
moves the high-water mark back into the table, and the next `calloc` clears a
descriptor.
-/

namespace OrionBios.Heap

open Machine Transition

/-- What the lists in memory are: acyclic, disjoint, made of table descriptors, complete. -/
structure Conserved (g : Globals) (m : Memory) : Prop where
  lists : ∃ free used fresh : List Address,
    Chain link (g.read m) (.heap .free) free NULL ∧
    Chain link (g.read m) (.heap .used) used NULL ∧
    Chain link (g.read m) (.heap .fresh) fresh NULL ∧
    (free ++ used ++ fresh).Nodup ∧
    (∀ pointer ∈ free ++ used ++ fresh,
      ∃ index < g.heapMaxBlocks.toNat, pointer = g.descriptor index) ∧
    (free ++ used ++ fresh).length = g.heapMaxBlocks.toNat
  check : mallocCheck g m = some true

/-- The first free block that serves a request for `num` bytes, already rounded up. -/
def serving (g : Globals) (num : Word) (m : Memory) : Option Address :=
  (nodesFrom (g.next m) NULL loopFuel (g.read m (.heap .free))).find?
    fun ptr => isTop g m num ptr || decide (num ≤ g.size m ptr)

/-- Where the request is placed: in that block, else at the high-water mark. -/
def placement (g : Globals) (num : Word) (m : Memory) : Option Word :=
  match serving g num m with
  | some ptr => some (g.addr m ptr)
  | none =>
      if g.read m (.heap .fresh) ≠ NULL ∧ g.read m (.heap .top) + num ≤ g.heapLimit then
        some (g.read m (.heap .top))
      else none

/-- The bytes from `start` on lie behind the table and do not run over the end of memory. -/
def ClearOfTable (g : Globals) (start length : Word) : Prop :=
  length = 0 ∨
    g.tableBytes ≤ (start - g.heap).toNat ∧ (start - g.heap).toNat + length.toNat ≤ 2 ^ 32

instance (g : Globals) (start length : Word) : Decidable (ClearOfTable g start length) :=
  inferInstanceAs (Decidable (_ ∨ _))

/-- The bytes a `calloc` clears miss header and table. -/
def SparesTable (g : Globals) (m : Memory) : Call → Prop
  | .malloc _ => True
  | .calloc num size =>
      (placement g (roundUp g (num * size)) m).all (fun start => ClearOfTable g start (num * size))
  | .free _ => True

instance (g : Globals) (m : Memory) : (call : Call) → Decidable (SparesTable g m call)
  | .malloc _ => isTrue trivial
  | .calloc _ _ => inferInstanceAs (Decidable (_ = true))
  | .free _ => isTrue trivial

variable {g : Globals} {fits : g.Fits} {m : Memory} {l : Lists} {num : Word}

theorem ClearOfTable.outside {start length : Word} (clear : ClearOfTable g start length)
    {byte : Address} (inside : Within g.heap g.tableBytes byte) :
    ¬ Within start length.toNat byte := by
  unfold Within at inside ⊢
  rcases clear with rfl | ⟨behind, below⟩
  · simp
  · bv_omega

theorem Holds.chain (holds : g.Holds fits m l []) (root : Root) :
    Chain link (g.read m) root.cell (l.pointers root) NULL := by
  apply (holds.shape.chain root).congr
  intro cell among
  rcases mem_visited.mp among with rfl | ⟨node, listed, rfl⟩
  · exact Globals.read_eq (Globals.valid_heap root.field)
  · have valid : g.Valid fits (link node) := holds.shape.listed_mem listed
    exact Globals.read_eq valid

theorem Holds.nodes (holds : g.Holds fits m l []) (root : Root) :
    nodesFrom (g.next m) NULL loopFuel (g.read m root.cell) = l.pointers root := by
  rw [show g.next m = fun node => g.read m (link node) from rfl]
  refine nodesFrom_spec (Holds.chain holds root) ?_ (Holds.length_lt holds root)
  intro listed
  exact holds.shape.listed_ne_null listed rfl

theorem Holds.countBlocks_eq (holds : g.Holds fits m l []) (root : Root) :
    countBlocks g m root.field = some (BitVec.ofNat 32 (l.pointers root).length) := by
  have counted : count (g.next m) NULL loopFuel (g.read m root.cell) =
      some (l.pointers root).length := by
    rw [show g.next m = fun node => g.read m (link node) from rfl]
    refine count_spec (Holds.chain holds root) ?_ (Holds.length_lt holds root)
    intro listed
    exact holds.shape.listed_ne_null listed rfl
  exact congrArg (Option.map (BitVec.ofNat 32)) counted

theorem Holds.serves_eq (holds : g.Holds fits m l []) (num : Word) {block : Block}
    (among : block ∈ l.free) :
    (isTop g m num block.pointer || decide (num ≤ g.size m block.pointer)) =
      decide (l.Serves g num block) := by
  rw [Holds.isTop_eq holds among, Holds.size_eq holds (by simp [among]), ← Bool.decide_or]
  exact decide_eq_decide.mpr Iff.rfl

/-- The first serving block of the lists is the one found in memory. -/
theorem serving_eq_some (holds : g.Holds fits m l []) {before after : List Block} {block : Block}
    (found : l.free = before ++ block :: after)
    (first : ∀ other ∈ before, ¬ l.Serves g num other) (serves : l.Serves g num block) :
    serving g num m = some block.pointer := by
  have nodes := Holds.nodes holds .free
  have among : ∀ other ∈ block :: before, other ∈ l.free := by
    intro other among
    rw [found]
    simp only [List.mem_cons, List.mem_append] at among ⊢
    tauto
  unfold serving
  rw [show g.read m (.heap .free) = g.read m Root.free.cell from rfl, nodes]
  apply List.find?_eq_some_iff_append.mpr
  refine ⟨?_, before.map Block.pointer, after.map Block.pointer, ?_, ?_⟩
  · rw [Holds.serves_eq holds num (among block List.mem_cons_self)]
    exact decide_eq_true serves
  · rw [← List.map_cons, ← List.map_append, ← found]
    rfl
  · intro pointer listed
    obtain ⟨other, otherIn, rfl⟩ := List.mem_map.mp listed
    rw [Holds.serves_eq holds num (among other (List.mem_cons_of_mem block otherIn)),
      decide_eq_false (first other otherIn)]
    rfl

theorem serving_eq_none (holds : g.Holds fits m l [])
    (unserved : ∀ block ∈ l.free, ¬ l.Serves g num block) : serving g num m = none := by
  have nodes := Holds.nodes holds .free
  unfold serving
  rw [show g.read m (.heap .free) = g.read m Root.free.cell from rfl, nodes]
  apply List.find?_eq_none.mpr
  intro pointer listed
  obtain ⟨block, blockIn, rfl⟩ := List.mem_map.mp listed
  rw [Holds.serves_eq holds num blockIn, decide_eq_false (unserved block blockIn)]
  exact Bool.false_ne_true

theorem placement_eq (holds : g.Holds fits m l []) {block : Block} {l' : Lists}
    (allocated : Alloc g num l (some block) l') : placement g num m = some block.addr := by
  have inFree : ∀ {before after : List Block} {found : Block},
      l.free = before ++ found :: after → (∀ other ∈ before, ¬ l.Serves g num other) →
      l.Serves g num found → placement g num m = some found.addr := by
    intro before after found place first serves
    unfold placement
    rw [serving_eq_some holds place first serves]
    have known : found ∈ [] ++ (l.free ++ l.used) := by
      simp [place]
    exact congrArg some (Holds.addr_eq holds known)
  cases allocated with
  | resized found first top =>
      have placed := inFree found first (Or.inl top)
      exact placed
  | whole found first inside big kept => exact inFree found first (Or.inr big)
  | split found first inside big spares excess =>
      have placed := inFree found first (Or.inr big)
      exact placed
  | raised unserved spares room =>
      have hasSpare : g.read m (.heap .fresh) ≠ NULL := by
        rw [Holds.fresh_nonNull holds]
        simp [spares]
      unfold placement
      rw [serving_eq_none holds unserved, Holds.top_eq holds]
      exact if_pos ⟨hasSpare, room⟩

theorem conserved_of_holds (holds : g.Holds fits m l []) : Conserved g m := by
  have perm : (l.pointers .free ++ l.pointers .used ++ l.pointers .fresh).Perm
      (g.table fits).pointers := holds.shape.perm
  have length : (g.table fits).pointers.length = g.heapMaxBlocks.toNat := by
    simp [Globals.table]
  refine ⟨⟨l.pointers .free, l.pointers .used, l.pointers .fresh, Holds.chain holds .free,
    Holds.chain holds .used, Holds.chain holds .fresh, ?_, ?_, ?_⟩, ?_⟩
  · exact perm.nodup_iff.mpr (g.table fits).nodup
  · intro pointer listed
    obtain ⟨index, small, rfl⟩ := List.mem_map.mp (perm.subset listed)
    exact ⟨index, List.mem_range.mp small, rfl⟩
  · rw [perm.length_eq, length]
  · have total : g.heapMaxBlocks = BitVec.ofNat 32 (l.pointers .free).length +
        BitVec.ofNat 32 (l.pointers .used).length +
        BitVec.ofNat 32 (l.pointers .fresh).length := by
      rw [← BitVec.ofNat_add, ← BitVec.ofNat_add, ← List.length_append, ← List.length_append,
        perm.length_eq, length, BitVec.ofNat_toNat, BitVec.setWidth_eq]
    have free := Holds.countBlocks_eq holds .free
    have used := Holds.countBlocks_eq holds .used
    have fresh := Holds.countBlocks_eq holds .fresh
    unfold mallocCheck
    simp only [Root.field] at free used fresh
    simp only [free, used, fresh, Option.bind_eq_bind, Option.bind_some, ← total]
    simp

theorem step_holds (holds : g.Holds fits m l []) {call : Call} (spares : SparesTable g m call) :
    ∃ m' l', step g m call = some m' ∧ g.Holds fits m' l' [] := by
  cases call with
  | malloc num =>
      obtain ⟨_, l', m', result, _, holds'⟩ := malloc_spec holds num
      exact ⟨m', l', congrArg (Option.map Prod.snd) result, holds'⟩
  | calloc num size =>
      have clear : ∀ block l', Alloc g (roundUp g (num * size)) l (some block) l' →
          ∀ byte, Within g.heap g.tableBytes byte →
            ¬ Within block.addr (num * size).toNat byte := by
        intro block l' allocated byte inside
        rw [SparesTable, placement_eq holds allocated, Option.all_some] at spares
        exact (of_decide_eq_true spares).outside inside
      obtain ⟨_, l', m', result, _, holds'⟩ := calloc_spec holds num size clear
      exact ⟨m', l', congrArg (Option.map Prod.snd) result, holds'⟩
  | free pointer =>
      obtain ⟨_, m', l', result, _, holds'⟩ := free_spec holds pointer
      exact ⟨m', l', congrArg (Option.map Prod.snd) result, holds'⟩

/-- Every run in which no `calloc` clears a byte of header or table ends with all descriptors
in their lists. -/
theorem calls_conserve_descriptors (memory : Memory)
    (base limit heapBlocks splitThresh alignment : Word) (positive : 1 ≤ heapBlocks.toNat)
    (room : base.toNat + (sizeofHeap + sizeofBlock * heapBlocks.toNat) ≤ 2 ^ 32) (start : State)
    (initialised : start = mallocInit memory base limit heapBlocks splitThresh alignment)
    (calls : List Call)
    (guarded : Guarded (step start.globals) (SparesTable start.globals) start.memory calls) :
    ∃ last, exec (step start.globals) start.memory calls = some last ∧
      Conserved start.globals last := by
  subst initialised
  let g : Globals :=
    { heap := base
      heapLimit := limit
      heapSplitThresh := splitThresh
      heapAlignment := alignment
      heapMaxBlocks := heapBlocks }
  have fits : g.Fits := room
  have initially := mallocInit_spec memory g fits positive
  have enabled : ∀ m call, (∃ l, g.Holds fits m l []) → SparesTable g m call →
      ∃ m', step g m call = some m' ∧ ∃ l', g.Holds fits m' l' [] := by
    rintro m call ⟨l, holds⟩ spares
    obtain ⟨m', l', taken, holds'⟩ := step_holds holds spares
    exact ⟨m', taken, l', holds'⟩
  obtain ⟨last, run, l, holds⟩ := exec_of_guarded (fun m => ∃ l, g.Holds fits m l []) enabled
    ⟨_, initially⟩ guarded
  exact ⟨last, run, conserved_of_holds holds⟩

/-- The second `calloc` splits the block that the first `malloc` returned. -/
theorem calls_conserve_descriptors_plain :
    ∃ last, exec (step (mallocInit (fun _ => 0) 0x1000 0x8000 4 16 4).globals)
        (mallocInit (fun _ => 0) 0x1000 0x8000 4 16 4).memory
        [.malloc 24, .calloc 2 4, .free 4160, .calloc 1 8] = some last ∧
      Conserved (mallocInit (fun _ => 0) 0x1000 0x8000 4 16 4).globals last :=
  calls_conserve_descriptors (fun _ => 0) 0x1000 0x8000 4 16 4 (by decide) (by decide) _ rfl
    [.malloc 24, .calloc 2 4, .free 4160, .calloc 1 8]
    (guarded_of_check (by decide +kernel))

/-- Two descriptors: `malloc(2^32 - 12)` wraps the high-water mark into the table, and
`calloc(1, 12)` clears the second descriptor. -/
theorem wrapped_malloc_loses_descriptor :
    ((exec (step (mallocInit (fun _ => 0) 0x1000 0x8000 2 16 4).globals)
        (mallocInit (fun _ => 0) 0x1000 0x8000 2 16 4).memory
        [.malloc 4294967284, .calloc 1 12]).bind
      (mallocCheck (mallocInit (fun _ => 0) 0x1000 0x8000 2 16 4).globals)) = some false := by
  decide +kernel

end OrionBios.Heap
