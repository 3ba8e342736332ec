import OrionBios.Heap.Shape

/-!
# The header and the table in memory

Where the descriptor table fits into the address space, the fields of the header and
of the descriptors are pairwise disjoint words. A store to one of them is then an
update of one cell, and clearing memory behind the table updates none.
-/

namespace OrionBios.Heap

open Machine

namespace Globals

variable {g : Globals} {m : Memory}

def tableBytes (g : Globals) : Nat := sizeofHeap + sizeofBlock * g.heapMaxBlocks.toNat

/-- The header and the descriptor table lie inside the address space. -/
def Fits (g : Globals) : Prop := g.heap.toNat + g.tableBytes ≤ 2 ^ 32

def descriptor (g : Globals) (index : Nat) : Address :=
  g.heap + BitVec.ofNat 32 (sizeofHeap + sizeofBlock * index)

theorem descriptor_toNat (fits : g.Fits) {index : Nat} (small : index < g.heapMaxBlocks.toNat) :
    (g.descriptor index).toNat = g.heap.toNat + sizeofHeap + sizeofBlock * index := by
  unfold Fits tableBytes sizeofHeap sizeofBlock at fits
  unfold descriptor sizeofHeap sizeofBlock
  rw [BitVec.toNat_add, BitVec.toNat_ofNat]
  omega

def table (g : Globals) (fits : g.Fits) : Table where
  pointers := (List.range g.heapMaxBlocks.toNat).map g.descriptor
  nodup := by
    refine List.Nodup.map_on ?_ List.nodup_range
    intro first firstSmall second secondSmall same
    have equal := congrArg BitVec.toNat same
    rw [descriptor_toNat fits (List.mem_range.mp firstSmall),
      descriptor_toNat fits (List.mem_range.mp secondSmall)] at equal
    unfold sizeofBlock at equal
    omega
  nonNull := by
    intro among
    obtain ⟨index, small, null⟩ := List.mem_map.mp among
    have equal := congrArg BitVec.toNat null
    rw [descriptor_toNat fits (List.mem_range.mp small)] at equal
    unfold sizeofHeap NULL at equal
    simp at equal

variable {fits : g.Fits}

/-- A cell of the header or of a descriptor of the table. -/
def Valid (g : Globals) (fits : g.Fits) : Cell → Prop
  | .heap _ => True
  | .block pointer _ => pointer ∈ (g.table fits).pointers

theorem valid_heap (field : HeapField) : g.Valid fits (.heap field) := trivial

theorem valid_cases {cell : Cell} (valid : g.Valid fits cell) :
    (∃ field, cell = .heap field ∧ (g.address cell).toNat = g.heap.toNat + field.offset) ∨
      ∃ index field, index < g.heapMaxBlocks.toNat ∧ cell = .block (g.descriptor index) field ∧
        (g.address cell).toNat =
          g.heap.toNat + sizeofHeap + sizeofBlock * index + field.offset := by
  have room := fits
  unfold Fits tableBytes sizeofHeap at room
  cases cell with
  | heap field =>
      left
      refine ⟨field, rfl, ?_⟩
      unfold address
      rw [BitVec.toNat_add, BitVec.toNat_ofNat]
      cases field <;> simp only [HeapField.offset] <;> omega
  | block pointer field =>
      right
      obtain ⟨index, small, rfl⟩ := List.mem_map.mp valid
      have small := List.mem_range.mp small
      refine ⟨index, field, small, rfl, ?_⟩
      unfold address
      rw [BitVec.toNat_add, BitVec.toNat_ofNat, descriptor_toNat fits small]
      unfold sizeofBlock sizeofHeap at *
      cases field <;> simp only [BlockField.offset] <;> omega

theorem address_fits {cell : Cell} (valid : g.Valid fits cell) :
    g.heap.toNat ≤ (g.address cell).toNat ∧
      (g.address cell).toNat + 4 ≤ g.heap.toNat + g.tableBytes := by
  unfold tableBytes sizeofHeap sizeofBlock
  rcases valid_cases valid with ⟨field, _, place⟩ | ⟨index, field, small, _, place⟩
  · rw [place]
    cases field <;> simp only [HeapField.offset] <;> omega
  · rw [place]
    unfold sizeofHeap sizeofBlock
    cases field <;> simp only [BlockField.offset] <;> omega

theorem addresses_apart {cell other : Cell} (valid : g.Valid fits cell)
    (valid' : g.Valid fits other) (different : cell ≠ other) :
    (g.address cell).toNat + 4 ≤ (g.address other).toNat ∨
      (g.address other).toNat + 4 ≤ (g.address cell).toNat := by
  rcases valid_cases valid with ⟨field, rfl, place⟩ | ⟨index, field, _, rfl, place⟩
  · rcases valid_cases valid' with ⟨field', rfl, place'⟩ | ⟨index', field', _, rfl, place'⟩
    · rw [place, place']
      cases field <;> cases field' <;>
        first | exact absurd rfl different | (simp only [HeapField.offset]; omega)
    · rw [place, place']
      unfold sizeofHeap
      cases field <;> simp only [HeapField.offset] <;> omega
  · rcases valid_cases valid' with ⟨field', rfl, place'⟩ | ⟨index', field', _, rfl, place'⟩
    · rw [place, place']
      unfold sizeofHeap
      cases field' <;> simp only [HeapField.offset] <;> omega
    · rw [place, place']
      unfold sizeofHeap sizeofBlock
      by_cases same : index = index'
      · subst same
        cases field <;> cases field' <;>
          first | exact absurd rfl different | (simp only [BlockField.offset]; omega)
      · cases field <;> cases field' <;> simp only [BlockField.offset] <;> omega

open Classical in
/-- The header and the table, without the memory around them. -/
noncomputable def cells (g : Globals) (fits : g.Fits) (m : Memory) : Cell → Word :=
  fun cell => if g.Valid fits cell then g.read m cell else 0

theorem read_eq {cell : Cell} (valid : g.Valid fits cell) :
    g.read m cell = g.cells fits m cell := by
  rw [cells, if_pos valid]

theorem cells_write {cell : Cell} {value : Word} (valid : g.Valid fits cell) :
    g.cells fits (g.write m cell value) = Function.update (g.cells fits m) cell value := by
  funext other
  by_cases same : other = cell
  · subst same
    rw [← read_eq valid, Function.update_self]
    exact load32_store32_same
  · rw [Function.update_of_ne same]
    by_cases valid' : g.Valid fits other
    · rw [← read_eq valid', ← read_eq valid']
      apply load32_store32_apart
      intro byte inOther inCell
      have inside := address_fits valid
      have inside' := address_fits valid'
      have room := fits
      unfold Fits at room
      rcases addresses_apart valid valid' (Ne.symm same) with below | above
      · exact words_apart below (by omega) ⟨inCell, inOther⟩
      · exact words_apart above (by omega) ⟨inOther, inCell⟩
    · rw [cells, cells, if_neg valid', if_neg valid']

end Globals

/-! ## Clearing memory -/

theorem clearWords_outside {numw : Nat} {ptr : Address} {m : Memory} {byte : Address}
    (outside : ¬ Within ptr (4 * numw) byte) (small : 4 * numw < 2 ^ 32) :
    (clearWords numw ptr m).2 byte = m byte := by
  induction numw generalizing ptr m with
  | zero => rfl
  | succ numw inductionHypothesis =>
      have later : ¬ Within (ptr + 4) (4 * numw) byte := by
        unfold Within at outside ⊢
        bv_omega
      have first : ¬ Within ptr 4 byte := by
        unfold Within at outside ⊢
        omega
      rw [clearWords, inductionHypothesis later (by omega)]
      exact store32_outside first

theorem clearWords_end (numw : Nat) (ptr : Address) (m : Memory) :
    (clearWords numw ptr m).1 = ptr + BitVec.ofNat 32 (4 * numw) := by
  induction numw generalizing ptr m with
  | zero => simp [clearWords]
  | succ numw inductionHypothesis =>
      rw [clearWords, inductionHypothesis, BitVec.add_assoc, Nat.mul_succ, Nat.add_comm]
      simp [BitVec.ofNat_add]

theorem clearBytes_outside {num : Nat} {ptr : Address} {m : Memory} {byte : Address}
    (outside : ¬ Within ptr num byte) (small : num < 2 ^ 32) :
    clearBytes num ptr m byte = m byte := by
  induction num generalizing ptr m with
  | zero => rfl
  | succ num inductionHypothesis =>
      have later : ¬ Within (ptr + 1) num byte := by
        unfold Within at outside ⊢
        bv_omega
      have first : ¬ Within ptr 1 byte := by
        unfold Within at outside ⊢
        omega
      rw [clearBytes, inductionHypothesis later (by omega)]
      exact store8_outside first

theorem memclear_outside {ptr : Address} {num : Word} {m : Memory} {byte : Address}
    (outside : ¬ Within ptr num.toNat byte) : memclear ptr num m byte = m byte := by
  have bytes : (num &&& 3).toNat = num.toNat % 4 := by
    rw [BitVec.toNat_and]
    exact Nat.and_two_pow_sub_one_eq_mod num.toNat 2
  have words : ((num &&& -4) / 4).toNat = num.toNat / 4 := by
    have parts : (num &&& -4).toNat + (num &&& 3).toNat = num.toNat := and_neg_add_and num 4
    have divided : ((num &&& -4) / 4).toNat = (num &&& -4).toNat / 4 := BitVec.toNat_udiv
    omega
  have bound := num.isLt
  have split := Nat.div_add_mod num.toNat 4
  unfold memclear
  simp only [words, bytes]
  rw [clearWords_end]
  rw [clearBytes_outside, clearWords_outside]
  · unfold Within at outside ⊢
    omega
  · omega
  · unfold Within at outside ⊢
    bv_omega
  · omega

end OrionBios.Heap
