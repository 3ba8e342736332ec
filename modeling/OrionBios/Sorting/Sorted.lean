import Mathlib.Algebra.BigOperators.Group.List.Basic
import OrionBios.Sorting.Partition

/-!
# What `qsort` leaves

The array is turned round inside its bounds, whatever the comparison function answers, and the
function returns. With a comparison function that is consistent the array is sorted then. The
stack of parameters and the calls are no deeper than the logarithm of the length.
-/

namespace OrionBios.Sorting

open Transition

universe u

variable {Element : Type u} {cmp : Cmp Element} {part whole : Segment}
  {before cells cells' : Cells Element}

/-! ## Comparison functions -/

/-- The first element may stand in front of the second. -/
def InOrder (cmp : Cmp Element) (x y : Element) : Prop := cmp x y ≤ 0

/-- The comparison function compares by some order. -/
structure Consistent (cmp : Cmp Element) : Prop where
  flip : ∀ x y, cmp x y ≤ 0 ↔ 0 ≤ cmp y x
  trans : ∀ x y z, cmp x y ≤ 0 → cmp y z ≤ 0 → cmp x z ≤ 0

theorem Consistent.reflexive (consistent : Consistent cmp) (x : Element) : cmp x x = 0 := by
  have flip := consistent.flip x x
  rcases Int.le_total (cmp x x) 0 with atMost | atLeast
  · exact Int.le_antisymm atMost (flip.mp atMost)
  · exact Int.le_antisymm (flip.mpr atLeast) atLeast

/-! ## The insertion sort -/

theorem sink_rearranged (k : Nat) (has : ∀ i, i ≤ k → part.Has (part.start + i)) :
    Rearranged part cells (sink cmp part.start k cells) := by
  induction k generalizing cells with
  | zero => exact Rearranged.refl part cells
  | succ k inductionHypothesis =>
      rw [sink]
      split
      · have swapped := rearranged_swap (has (k + 1) (Nat.le_refl _)) (has k (Nat.le_succ k)) cells
        exact swapped.trans (inductionHypothesis fun i le => has i (Nat.le_succ_of_le le))
      · exact Rearranged.refl part cells

theorem sink_sorted (consistent : Consistent cmp) {a m : Nat} (k : Nat) (inside : k ≤ m)
    (others : ∀ i j, a ≤ i → i < j → j ≤ a + m → j ≠ a + k → InOrder cmp (cells i) (cells j)) :
    ∀ i j, a ≤ i → i < j → j ≤ a + m →
      InOrder cmp (sink cmp a k cells i) (sink cmp a k cells j) := by
  induction k generalizing cells with
  | zero => exact fun i j low less high => others i j low less high (by omega)
  | succ k inductionHypothesis =>
      rw [sink]
      split
      · next above =>
        have behind : InOrder cmp (cells (a + k + 1)) (cells (a + k)) :=
          (consistent.flip _ _).mpr (Int.le_of_lt above)
        refine inductionHypothesis (by omega) fun i j low less high other => ?_
        by_cases second : j = a + k + 1
        · rw [second, swap_left]
          by_cases first : i = a + k
          · rw [first, swap_right]
            exact behind
          · rw [swap_other _ _ _ (by omega) first]
            exact others i (a + k) low (by omega) (by omega) (by omega)
        · rw [swap_other (a + k + 1) (a + k) cells second other]
          by_cases first : i = a + k
          · rw [first, swap_right]
            exact others (a + k + 1) j (by omega) (by omega) high (by omega)
          · by_cases middle : i = a + k + 1
            · rw [middle, swap_left]
              exact others (a + k) j (by omega) (by omega) high (by omega)
            · rw [swap_other _ _ _ middle first]
              exact others i j low less high (by omega)
      · next inPlace =>
        have direct : InOrder cmp (cells (a + k)) (cells (a + k + 1)) := Int.not_lt.mp inPlace
        intro i j low less high
        by_cases second : j = a + (k + 1)
        · rw [second]
          by_cases first : i = a + k
          · rw [first]
            exact direct
          · exact consistent.trans _ _ _ (others i (a + k) low (by omega) (by omega) (by omega))
              direct
        · exact others i j low less high second

theorem insertion_rearranged (count : Nat) {m : Nat} (inside : m + count ≤ part.length) :
    Rearranged part cells
      ((List.range' m count).foldl (fun cells m => sink cmp part.start m cells) cells) := by
  induction count generalizing m cells with
  | zero => exact Rearranged.refl part cells
  | succ count inductionHypothesis =>
      rw [List.range'_succ, List.foldl_cons]
      have sunk : Rearranged part cells (sink cmp part.start m cells) :=
        sink_rearranged m fun i le =>
          (⟨Nat.le_add_right _ _, Nat.add_lt_add_left (by omega) _⟩ : part.Has (part.start + i))
      exact sunk.trans (inductionHypothesis (by omega))

theorem insertion_sorted (consistent : Consistent cmp) {a : Nat} (count : Nat) {m : Nat}
    (some : 0 < m)
    (sorted : ∀ i j, a ≤ i → i < j → j < a + m → InOrder cmp (cells i) (cells j)) :
    ∀ i j, a ≤ i → i < j → j < a + (m + count) →
      InOrder cmp
        ((List.range' m count).foldl (fun cells m => sink cmp a m cells) cells i)
        ((List.range' m count).foldl (fun cells m => sink cmp a m cells) cells j) := by
  induction count generalizing m cells with
  | zero => exact sorted
  | succ count inductionHypothesis =>
      have total : m + (count + 1) = m + 1 + count := by omega
      rw [List.range'_succ, List.foldl_cons, total]
      refine inductionHypothesis (Nat.succ_pos m) fun i j low less high => ?_
      refine sink_sorted consistent m (Nat.le_refl m) (fun i j low less high other => ?_) i j low
        less (by omega)
      exact sorted i j low less (by omega)

theorem insertionSort_rearranged (part : Segment) (cells : Cells Element) :
    Rearranged part cells (insertionSort cmp part cells) := by
  by_cases some : 0 < part.length
  · exact insertion_rearranged _ (by omega)
  · have none : part.length = 0 := by omega
    rw [insertionSort, none]
    exact Rearranged.refl part cells

theorem insertionSort_sorted (consistent : Consistent cmp) (part : Segment)
    (cells : Cells Element) : Sorted (InOrder cmp) part (insertionSort cmp part cells) := by
  intro i j first second less
  refine insertion_sorted consistent (part.length - 1) (Nat.succ_pos 0)
    (fun i j low less high => absurd high (by omega)) i j first.1 less ?_
  have high := second.2
  omega

/-! ## The parts -/

/-- The array below the pivot, equal to it and above it is in order but for the two parts. -/
theorem gathered_sortedBut (consistent : Consistent cmp) {s : Scan Element} {pivot : Element}
    (gathered : Gathered cmp part pivot s cells) :
    SortedBut (InOrder cmp) part [s.left part, s.right part] cells := by
  intro i j first second less
  by_cases right : (s.right part).Has i
  · refine .inr ⟨s.right part, by simp, right, Nat.le_of_lt (Nat.lt_of_le_of_lt right.1 less), ?_⟩
    have low := right.1
    have high := right.2
    have end1 := second.2
    dsimp only [Scan.right] at low high ⊢
    omega
  · by_cases left : (s.left part).Has j
    · exact .inr ⟨s.left part, by simp, ⟨first.1, Nat.lt_trans less left.2⟩, left⟩
    · left
      have front : ∀ k, part.Has k → ¬ (s.right part).Has k → cmp (cells k) pivot ≤ 0 := by
        intro k inside outside
        by_cases below : (s.left part).Has k
        · exact Int.le_of_lt (gathered.less k below)
        · refine Int.le_of_eq (gathered.equal k ?_ ?_)
          · by_contra low
            exact below ⟨inside.1, Nat.lt_of_not_le low⟩
          · by_contra high
            refine outside ⟨Nat.le_of_not_lt high, Nat.lt_of_lt_of_le inside.2 ?_⟩
            dsimp only [Scan.right]
            omega
      have behind : ∀ k, part.Has k → ¬ (s.left part).Has k → 0 ≤ cmp (cells k) pivot := by
        intro k inside outside
        by_cases beyond : (s.right part).Has k
        · exact Int.le_of_lt (gathered.greater k beyond)
        · refine Int.le_of_eq (gathered.equal k ?_ ?_).symm
          · by_contra low
            exact outside ⟨inside.1, Nat.lt_of_not_le low⟩
          · by_contra high
            refine beyond ⟨Nat.le_of_not_lt high, Nat.lt_of_lt_of_le inside.2 ?_⟩
            dsimp only [Scan.right]
            omega
      exact consistent.trans _ _ _ (front i first right)
        ((consistent.flip _ _).mpr (behind j second left))

/-- What a pass over a part leaves, when it leaves two parts. -/
structure Split (cmp : Cmp Element) (part : Segment) (before after : Cells Element)
    (smaller larger : Segment) : Prop where
  rearranged : Rearranged part before after
  smallerWithin : smaller.Within part
  largerWithin : larger.Within part
  apart : smaller.Apart larger
  ordered : smaller.length ≤ larger.length
  shorter : smaller.length + larger.length < part.length
  sorted : Consistent cmp → SortedBut (InOrder cmp) part [smaller, larger] after

theorem partition_split (cmp : Cmp Element) (long : 2 ≤ part.length) (before : Cells Element) :
    Split cmp part before (gather part (partition cmp part before))
      ((partition cmp part before).smaller part) ((partition cmp part before).larger part) := by
  obtain ⟨pivot, scanned, crossed⟩ := partition_scanned cmp long before
  generalize partition cmp part before = s at scanned crossed
  have rearranged := gather_rearranged scanned crossed
  have left := left_within scanned crossed
  have right := right_within scanned crossed
  have apart := left_apart_right scanned crossed
  have shorter := scanned.shorter crossed
  have sorted : Consistent cmp →
      SortedBut (InOrder cmp) part [s.left part, s.right part] (gather part s) :=
    fun consistent =>
      gathered_sortedBut consistent (gather_gathered scanned crossed (consistent.reflexive pivot))
  unfold Scan.smaller Scan.larger
  by_cases greater : (s.right part).length > (s.left part).length
  · rw [if_pos greater, if_pos greater]
    exact ⟨rearranged, left, right, apart, Nat.le_of_lt greater, shorter, sorted⟩
  · rw [if_neg greater, if_neg greater]
    refine ⟨rearranged, right, left, apart.symm, Nat.le_of_not_lt greater,
      Nat.add_comm _ _ ▸ shorter, fun consistent => ?_⟩
    exact (sorted consistent).of_subset (by simp)

inductive Passed (cmp : Cmp Element) (part : Segment) (s : Activation Element) :
    Activation Element → Prop where
  /-- The part is sorted. -/
  | sorted (after : Cells Element) (rearranged : Rearranged part s.cells after)
      (sorted : Consistent cmp → Sorted (InOrder cmp) part after) :
      Passed cmp part s { s with cells := after, point := .pop }
  | both (after : Cells Element) (smaller larger : Segment) (more : 1 < smaller.length)
      (split : Split cmp part s.cells after smaller larger) :
      Passed cmp part s (({ s with cells := after }).descend smaller larger)
  | one (after : Cells Element) (smaller larger : Segment) (less : smaller.length ≤ 1)
      (split : Split cmp part s.cells after smaller larger) :
      Passed cmp part s { s with cells := after, point := .iterate larger }

theorem stepLoop_passed (cmp : Cmp Element) (part : Segment) (s : Activation Element) :
    Passed cmp part s (s.stepLoop cmp part) := by
  unfold Activation.stepLoop
  by_cases short : part.length < 7
  · rw [if_pos short]
    exact .sorted _ (insertionSort_rearranged part s.cells)
      fun consistent => insertionSort_sorted consistent part s.cells
  · rw [if_neg short]
    dsimp only
    have long : 2 ≤ part.length := by omega
    split
    · obtain ⟨pivot, scanned, _⟩ := partition_scanned cmp long s.cells
      exact .sorted _ (scanned.rearranged.trans (insertionSort_rearranged part _))
        fun consistent => insertionSort_sorted consistent part _
    · have splits := partition_split cmp long s.cells
      split
      · next more => exact .both _ _ _ more splits
      · next less => exact .one _ _ _ (Nat.le_of_not_lt less) splits

/-! ## Runs of `qsort`

The parts still to be sorted are the one at work, those on the stack of parameters and those that
the callers wait with. The array is in order but for them, and when none is left it is sorted. -/

variable {s t : Activation Element}

/-! ## What is pending -/

def Point.parts : Point → List Segment
  | .loop part => [part]
  | .iterate part => [part]
  | .pop => []

def Caller.parts (caller : Caller) : List Segment := caller.larger :: caller.parameterStack

namespace Activation

/-- The parts on the stack and with the callers. -/
def stored (s : Activation Element) : List Segment :=
  s.parameterStack ++ s.callers.flatMap Caller.parts

def pending (s : Activation Element) : List Segment := s.point.parts ++ s.stored

/-- On the stack or in a call, the larger part is stored in front of the others. -/
theorem descend_stored (smaller larger : Segment) :
    (s.descend smaller larger).stored = larger :: s.stored ∧
      (s.descend smaller larger).point = .loop smaller ∧
        (s.descend smaller larger).cells = s.cells := by
  unfold descend
  split
  · exact ⟨rfl, rfl, rfl⟩
  · refine ⟨?_, rfl, rfl⟩
    simp only [stored, List.flatMap_cons, Caller.parts, List.nil_append, List.cons_append]

/-- What a step does: a pass over the part at work, or nothing but to take up a part. -/
inductive Stepped (cmp : Cmp Element) (s t : Activation Element) : Prop where
  | pass (part : Segment) (at1 : s.point = .loop part) (passed : Passed cmp part s t)
  | again (part : Segment) (at1 : s.point = .iterate part) (more : 1 < part.length)
      (next : t = { s with point := .loop part })
  | leave (part : Segment) (at1 : s.point = .iterate part) (less : part.length ≤ 1)
      (next : t = { s with point := .pop })
  | take (part : Segment) (rest : List Segment) (at1 : s.point = .pop)
      (stack : s.parameterStack = part :: rest)
      (next : t = { s with parameterStack := rest, point := .loop part })
  | back (caller : Caller) (callers : List Caller) (at1 : s.point = .pop)
      (stack : s.parameterStack = []) (waiting : s.callers = caller :: callers)
      (next : t = { s with
        parameterStack := caller.parameterStack
        callers := callers
        point := .iterate caller.larger })

theorem stepped_of_step (taken : step cmp s = some t) : Stepped cmp s t := by
  unfold step at taken
  split at taken
  · next part at1 =>
    cases taken
    exact .pass part at1 (stepLoop_passed cmp part s)
  · next part at1 =>
    split at taken
    · next more =>
      cases taken
      exact .again part at1 more rfl
    · next less =>
      cases taken
      exact .leave part at1 (Nat.le_of_not_lt less) rfl
  · next at1 =>
    split at taken
    · next _ part rest stack =>
      cases taken
      exact .take part rest at1 stack rfl
    · next caller callers stack waiting =>
      cases taken
      exact .back caller callers at1 stack waiting rfl
    · cases taken

/-- Only when nothing is pending has the function no further step. -/
theorem pending_of_returned (ended : step cmp s = none) : s.pending = [] := by
  unfold step at ended
  split at ended
  · cases ended
  · split at ended
    · cases ended
    · cases ended
  · next at1 =>
    split at ended
    · cases ended
    · cases ended
    · next stack waiting =>
      rw [pending, stored, at1, stack, waiting]
      rfl

theorem pending_loop (at1 : s.point = .loop part) : s.pending = part :: s.stored := by
  rw [pending, at1]
  rfl

theorem pending_iterate (at1 : s.point = .iterate part) : s.pending = part :: s.stored := by
  rw [pending, at1]
  rfl

end Activation

/-! ## The order -/

/-- The array is turned round within its bounds, and in order but for the pending parts. -/
structure Underway (cmp : Cmp Element) (whole : Segment) (before : Cells Element)
    (cells : Cells Element) (pending : List Segment) : Prop where
  rearranged : Rearranged whole before cells
  within : ∀ h ∈ pending, h.Within whole
  apart : pending.Pairwise Segment.Apart
  sorted : Consistent cmp → SortedBut (InOrder cmp) whole pending cells

namespace Underway

variable {rest : List Segment} {h : Segment}

/-- The first part is worked on, and parts of it are left. -/
theorem replace (underway : Underway cmp whole before cells (h :: rest))
    (parts : List Segment) (rearranged : Rearranged h cells cells')
    (within : ∀ part ∈ parts, part.Within h)
    (apart : parts.Pairwise Segment.Apart)
    (own : Consistent cmp → SortedBut (InOrder cmp) h parts cells') :
    Underway cmp whole before cells' (parts ++ rest) := by
  have here : h.Within whole := underway.within h List.mem_cons_self
  obtain ⟨others, among⟩ := List.pairwise_cons.mp underway.apart
  refine ⟨underway.rearranged.trans (rearranged.widen here), fun part inside => ?_, ?_, ?_⟩
  · rcases List.mem_append.mp inside with inside | inside
    · exact (within part inside).trans here
    · exact underway.within part (List.mem_cons_of_mem h inside)
  · exact List.pairwise_append.mpr ⟨apart, among, fun part inside other outside =>
      (others other outside).within (within part inside)⟩
  · exact fun consistent =>
      (underway.sorted consistent).replace here others rearranged (own consistent)

theorem drop_short (underway : Underway cmp whole before cells (h :: rest))
    (short : h.length ≤ 1) : Underway cmp whole before cells rest where
  rearranged := underway.rearranged
  within part among := underway.within part (List.mem_cons_of_mem h among)
  apart := (List.pairwise_cons.mp underway.apart).2
  sorted consistent := (underway.sorted consistent).drop_short short

theorem split {smaller larger : Segment} (underway : Underway cmp whole before cells (h :: rest))
    (split : Split cmp h cells cells' smaller larger) :
    Underway cmp whole before cells' (smaller :: larger :: rest) := by
  refine underway.replace [smaller, larger] split.rearranged ?_ ?_ split.sorted
  · intro part among
    rcases List.mem_cons.mp among with rfl | among
    · exact split.smallerWithin
    · rw [List.mem_singleton.mp among]
      exact split.largerWithin
  · exact List.pairwise_pair.mpr split.apart

end Underway

abbrev Activation.Underway (cmp : Cmp Element) (whole : Segment) (before : Cells Element)
    (s : Activation Element) : Prop :=
  Sorting.Underway cmp whole before s.cells s.pending

theorem underway_step (underway : s.Underway cmp whole before)
    (taken : Activation.step cmp s = some t) : t.Underway cmp whole before := by
  unfold Activation.Underway at underway ⊢
  cases Activation.stepped_of_step taken with
  | pass part at1 passed =>
      rw [Activation.pending_loop at1] at underway
      cases passed with
      | sorted after rearranged sorted =>
          refine underway.replace [] rearranged (by simp) .nil fun consistent => ?_
          exact fun i j first second less => .inl (sorted consistent i j first second less)
      | both after smaller larger more split =>
          obtain ⟨stored, point, cells⟩ :=
            Activation.descend_stored (s := { s with cells := after }) smaller larger
          rw [Activation.pending_loop point, stored, cells]
          exact underway.split split
      | one after smaller larger less split =>
          exact (underway.split split).drop_short less
  | again part at1 more next =>
      rw [Activation.pending_iterate at1] at underway
      subst next
      exact underway
  | leave part at1 less next =>
      rw [Activation.pending_iterate at1] at underway
      subst next
      exact underway.drop_short less
  | take part rest at1 stack next =>
      rw [Activation.pending, Activation.stored, at1, stack] at underway
      subst next
      exact underway
  | back caller callers at1 stack waiting next =>
      rw [Activation.pending, Activation.stored, at1, stack, waiting] at underway
      subst next
      rw [Activation.pending_iterate rfl]
      exact underway

theorem underway_activationOf (cmp : Cmp Element) (whole : Segment) (cells : Cells Element) :
    (activationOf whole cells).Underway cmp whole cells where
  rearranged := Rearranged.refl whole cells
  within h among := by
    rw [List.mem_singleton.mp among]
    exact Segment.Within.refl whole
  apart := List.pairwise_singleton _ _
  sorted _ := sortedBut_itself whole cells

/-! ## The end -/

def Point.weight : Point → Nat
  | .loop part => 4 * part.length + 2
  | .iterate part => 4 * part.length + 3
  | .pop => 1

def weightOf : List Segment → Nat
  | [] => 0
  | part :: rest => 4 * part.length + 3 + weightOf rest

theorem weightOf_cons (part : Segment) (parts : List Segment) :
    weightOf (part :: parts) = 4 * part.length + 3 + weightOf parts := rfl

def Activation.weight (s : Activation Element) : Nat := s.point.weight + weightOf s.stored

theorem weight_step (taken : Activation.step cmp s = some t) : t.weight < s.weight := by
  unfold Activation.weight
  cases Activation.stepped_of_step taken with
  | pass part at1 passed =>
      rw [at1, Point.weight]
      cases passed with
      | sorted after rearranged sorted =>
          show 1 + weightOf s.stored < _
          omega
      | both after smaller larger more split =>
          obtain ⟨stored, point, _⟩ :=
            Activation.descend_stored (s := { s with cells := after }) smaller larger
          have shorter := split.shorter
          rw [point, stored, weightOf_cons, Point.weight]
          show 4 * smaller.length + 2 + (4 * larger.length + 3 + weightOf s.stored) < _
          omega
      | one after smaller larger less split =>
          have shorter := split.shorter
          show 4 * larger.length + 3 + weightOf s.stored < _
          omega
  | again part at1 more next =>
      subst next
      rw [at1]
      show 4 * part.length + 2 + weightOf s.stored < 4 * part.length + 3 + weightOf s.stored
      omega
  | leave part at1 less next =>
      subst next
      rw [at1]
      show 1 + weightOf s.stored < 4 * part.length + 3 + weightOf s.stored
      omega
  | take part rest at1 stack next =>
      subst next
      rw [at1]
      unfold Activation.stored
      rw [stack, List.cons_append, weightOf_cons]
      show 4 * part.length + 2 + weightOf (rest ++ s.callers.flatMap Caller.parts) < 1 + _
      omega
  | back caller callers at1 stack waiting next =>
      subst next
      rw [at1]
      unfold Activation.stored
      rw [stack, waiting, List.flatMap_cons, List.nil_append, Caller.parts, List.cons_append,
        weightOf_cons]
      show 4 * caller.larger.length + 3 +
        weightOf (caller.parameterStack ++ callers.flatMap Caller.parts) < 1 + _
      omega

/-- `qsort` returns with the elements between its bounds in another order. They are sorted when the
comparison function is consistent. -/
theorem qsort_sorts (cmp : Cmp Element) (a n rounds : Nat) (enough : 4 * n + 2 < rounds)
    (cells : Cells Element) :
    ∃ after, qsort cmp a n rounds cells = some after ∧ Rearranged ⟨a, n⟩ cells after ∧
      (Consistent cmp → Sorted (InOrder cmp) ⟨a, n⟩ after) := by
  obtain ⟨last, returns, ended, underway⟩ :=
    iterate_returns (Activation.step cmp) (Activation.Underway cmp ⟨a, n⟩ cells)
      Activation.weight (fun s t holds taken => ⟨underway_step holds taken, weight_step taken⟩)
      (underway_activationOf cmp ⟨a, n⟩ cells) enough
  refine ⟨last.cells, ?_, underway.rearranged, fun consistent => ?_⟩
  · rw [qsort, returns]
    rfl
  · have sorted := underway.sorted consistent
    rw [Activation.pending_of_returned ended] at sorted
    exact sorted.sorted

/-- Numbers as `qsort` users compare them. -/
def compareInts : Cmp Int := fun x y => x - y

theorem consistent_compareInts : Consistent compareInts where
  flip x y := by
    unfold compareInts
    omega
  trans x y z := by
    unfold compareInts
    omega

def nine : Cells Int where
  get i := [5, 3, 8, 1, 5, 9, 2, 7, 4].getD i 0

/-- The elements behind the first two of nine are sorted. -/
theorem qsort_sorts_numbers :
    ∃ after, qsort compareInts 2 7 31 nine = some after ∧ Rearranged ⟨2, 7⟩ nine after ∧
      Sorted (InOrder compareInts) ⟨2, 7⟩ after := by
  obtain ⟨after, returns, rearranged, sorted⟩ :=
    qsort_sorts compareInts 2 7 31 (by decide) nine
  exact ⟨after, returns, rearranged, sorted consistent_compareInts⟩

/-! ## The depth -/

/-- Every pending part is at most half as long as the next one has room for. -/
def Fits (n : Nat) : List Segment → Prop
  | [] => True
  | part :: rest => part.length * 2 ^ rest.length ≤ n ∧ Fits n rest

theorem fits_split {n : Nat} {h smaller larger : Segment} {rest : List Segment}
    (fits : Fits n (h :: rest)) (ordered : smaller.length ≤ larger.length)
    (shorter : smaller.length + larger.length < h.length) :
    Fits n (smaller :: larger :: rest) := by
  have room : h.length * 2 ^ rest.length ≤ n := fits.1
  refine ⟨Nat.le_trans ?_ room, Nat.le_trans ?_ room, fits.2⟩
  · rw [List.length_cons, Nat.pow_succ, Nat.mul_comm (2 ^ rest.length), ← Nat.mul_assoc]
    exact Nat.mul_le_mul_right _ (by omega)
  · exact Nat.mul_le_mul_right _ (by omega)

/-- The stack of parameters has its levels, a call is made only when they are in use, and the parts
become shorter by half from level to level. -/
structure Shallow (n : Nat) (s : Activation Element) : Prop where
  fits : Fits n s.pending
  long : ∀ part ∈ s.stored, 1 < part.length
  levels : s.parameterStack.length ≤ PARAMETER_STACK_LEVELS
  full : ∀ caller ∈ s.callers, caller.parameterStack.length = PARAMETER_STACK_LEVELS

theorem shallow_descend {n : Nat} {smaller larger : Segment}
    (long : ∀ part ∈ s.stored, 1 < part.length)
    (levels : s.parameterStack.length ≤ PARAMETER_STACK_LEVELS)
    (full : ∀ caller ∈ s.callers, caller.parameterStack.length = PARAMETER_STACK_LEVELS)
    (fits : Fits n (smaller :: larger :: s.stored)) (more : 1 < larger.length) :
    Shallow n (s.descend smaller larger) := by
  obtain ⟨stored, point, _⟩ := Activation.descend_stored (s := s) smaller larger
  refine ⟨?_, ?_, ?_, ?_⟩
  · rw [Activation.pending_loop point, stored]
    exact fits
  · rw [stored]
    exact List.forall_mem_cons.mpr ⟨more, long⟩
  · unfold Activation.descend
    split
    · next room => exact room
    · exact Nat.zero_le _
  · unfold Activation.descend
    split
    · exact full
    · next used =>
      exact List.forall_mem_cons.mpr ⟨Nat.le_antisymm levels (Nat.le_of_not_lt used), full⟩

theorem shallow_step {n : Nat} (shallow : Shallow n s) (taken : Activation.step cmp s = some t) :
    Shallow n t := by
  have fits := shallow.fits
  have long := shallow.long
  cases Activation.stepped_of_step taken with
  | pass part at1 passed =>
      rw [Activation.pending_loop at1] at fits
      cases passed with
      | sorted after rearranged sorted => exact ⟨fits.2, long, shallow.levels, shallow.full⟩
      | both after smaller larger more split =>
          exact shallow_descend long shallow.levels shallow.full
            (fits_split fits split.ordered split.shorter) (Nat.lt_of_lt_of_le more split.ordered)
      | one after smaller larger less split =>
          exact ⟨(fits_split fits split.ordered split.shorter).2, long, shallow.levels,
            shallow.full⟩
  | again part at1 more next =>
      rw [Activation.pending_iterate at1] at fits
      subst next
      exact ⟨fits, long, shallow.levels, shallow.full⟩
  | leave part at1 less next =>
      rw [Activation.pending_iterate at1] at fits
      subst next
      exact ⟨fits.2, long, shallow.levels, shallow.full⟩
  | take part rest at1 stack next =>
      have levels := shallow.levels
      rw [stack] at levels
      rw [Activation.pending, Activation.stored, at1, stack] at fits
      rw [Activation.stored, stack] at long
      subst next
      exact ⟨fits, fun other among => long other (List.mem_cons_of_mem part among),
        Nat.le_of_succ_le levels, shallow.full⟩
  | back caller callers at1 stack waiting next =>
      have full := shallow.full
      rw [waiting] at full
      rw [Activation.pending, Activation.stored, at1, stack, waiting] at fits
      rw [Activation.stored, stack, waiting] at long
      subst next
      exact ⟨fits, fun other among => long other (List.mem_cons_of_mem caller.larger among),
        Nat.le_of_eq (full caller List.mem_cons_self),
        fun other among => full other (List.mem_cons_of_mem caller among)⟩

theorem stored_length {callers : List Caller}
    (full : ∀ caller ∈ callers, caller.parameterStack.length = PARAMETER_STACK_LEVELS) :
    (callers.flatMap Caller.parts).length = 9 * callers.length := by
  induction callers with
  | nil => rfl
  | cons caller rest inductionHypothesis =>
      have one : caller.parts.length = 9 :=
        congrArg Nat.succ (full caller List.mem_cons_self)
      rw [List.flatMap_cons, List.length_append, one, List.length_cons,
        inductionHypothesis fun other among => full other (List.mem_cons_of_mem caller among)]
      omega

theorem fits_stored {n : Nat} {stored : List Segment} (front : List Segment) (some : 0 < n)
    (fits : Fits n (front ++ stored)) (long : ∀ part ∈ stored, 1 < part.length) :
    2 ^ stored.length ≤ n := by
  induction front with
  | cons part rest inductionHypothesis => exact inductionHypothesis fits.2
  | nil =>
      cases stored with
      | nil => exact some
      | cons part rest =>
          have atLeast : 2 ≤ part.length := long part List.mem_cons_self
          refine Nat.le_trans ?_ fits.1
          rw [List.length_cons, Nat.pow_succ, Nat.mul_comm]
          exact Nat.mul_le_mul_right _ atLeast

/-- In the whole run the stack of parameters stays in its array, and the function calls itself no
deeper than a ninth of the logarithm of the length. -/
theorem qsort_depth (cmp : Cmp Element) (a n : Nat) (some : 0 < n) (cells : Cells Element)
    (s : Activation Element)
    (reached : Reaches (Activation.step cmp) (activationOf ⟨a, n⟩ cells) s) :
    s.parameterStack.length ≤ PARAMETER_STACK_LEVELS ∧
      2 ^ (s.parameterStack.length + 9 * s.callers.length) ≤ n ∧
      (n < 2 ^ 32 → s.callers.length ≤ 3) := by
  have initially : Shallow n (activationOf ⟨a, n⟩ cells) := by
    refine ⟨⟨Nat.le_of_eq (Nat.mul_one n), trivial⟩, ?_, Nat.zero_le _, ?_⟩
    · exact fun part among => absurd among List.not_mem_nil
    · exact fun caller among => absurd among List.not_mem_nil
  have shallow : Shallow n s :=
    invariant_of_reaches (Shallow n) (fun s t => shallow_step) initially reached
  have deep : 2 ^ (s.parameterStack.length + 9 * s.callers.length) ≤ n := by
    have stored := fits_stored s.point.parts some shallow.fits shallow.long
    rw [Activation.stored, List.length_append, stored_length shallow.full] at stored
    exact stored
  refine ⟨shallow.levels, deep, fun less => ?_⟩
  have exponent := (Nat.pow_lt_pow_iff_right (by decide)).mp (Nat.lt_of_le_of_lt deep less)
  omega

/-- A pass over nine elements leaves one of its two parts on the stack. -/
theorem qsort_depth_nine :
    ∃ s : Activation Int, Activation.step compareInts (activationOf ⟨0, 9⟩ nine) = some s ∧
      s.parameterStack = [⟨0, 4⟩] ∧ 2 ^ (s.parameterStack.length + 9 * s.callers.length) ≤ 9 := by
  let s := (activationOf ⟨0, 9⟩ nine).stepLoop compareInts ⟨0, 9⟩
  have taken : Activation.step compareInts (activationOf ⟨0, 9⟩ nine) = some s := rfl
  have deep := qsort_depth compareInts 0 9 (by decide) nine s (.single taken)
  exact ⟨s, taken, by decide, deep.2.1⟩

end OrionBios.Sorting
