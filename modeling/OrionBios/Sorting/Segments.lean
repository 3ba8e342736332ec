import Mathlib.Logic.Equiv.Basic
import Mathlib.Data.List.Basic

/-!
# Arrays that are sorted but for some segments

Sorting in place turns an array round inside a segment. Between its steps the array is sorted
but for the segments that are still to be done, and working on one of them does not disturb the
order of its elements towards all the others.
-/

namespace OrionBios.Sorting

universe u

/-- The elements of an array by their index. -/
structure Cells (Element : Type u) where
  get : Nat → Element

instance (Element : Type u) : CoeFun (Cells Element) fun _ => Nat → Element := ⟨Cells.get⟩

structure Segment where
  start : Nat
  length : Nat
  deriving DecidableEq, Repr

namespace Segment

/-- An index lies in the segment. -/
def Has (g : Segment) (i : Nat) : Prop := g.start ≤ i ∧ i < g.start + g.length

def Within (g whole : Segment) : Prop :=
  whole.start ≤ g.start ∧ g.start + g.length ≤ whole.start + whole.length

/-- Two segments have no index in common. -/
def Apart (g h : Segment) : Prop :=
  g.start + g.length ≤ h.start ∨ h.start + h.length ≤ g.start

variable {g h whole : Segment} {i : Nat}

theorem Within.has (within : g.Within whole) (inside : g.Has i) : whole.Has i :=
  ⟨Nat.le_trans within.1 inside.1, Nat.lt_of_lt_of_le inside.2 within.2⟩

theorem Within.refl (g : Segment) : g.Within g := ⟨Nat.le_refl _, Nat.le_refl _⟩

theorem Within.trans {other : Segment} (first : g.Within h) (second : h.Within other) :
    g.Within other :=
  ⟨Nat.le_trans second.1 first.1, Nat.le_trans first.2 second.2⟩

theorem Apart.symm (apart : g.Apart h) : h.Apart g := Or.symm apart

theorem Apart.within (apart : g.Apart h) (within : whole.Within g) : whole.Apart h :=
  apart.imp (fun front => Nat.le_trans within.2 front) fun behind => Nat.le_trans behind within.1

theorem Apart.not_has (apart : g.Apart h) (inside : g.Has i) : ¬ h.Has i := by
  rintro ⟨low, high⟩
  obtain ⟨low', high'⟩ := inside
  rcases apart with front | behind
  · exact Nat.lt_irrefl i (Nat.lt_of_lt_of_le high' (Nat.le_trans front low))
  · exact Nat.lt_irrefl i (Nat.lt_of_lt_of_le high (Nat.le_trans behind low'))

theorem behind_of_not_has {j k : Nat} (inside : g.Has i) (outside : ¬ g.Has j) (later : i < j)
    (other : g.Has k) : k < j := by
  by_contra early
  exact outside ⟨Nat.le_of_lt (Nat.lt_of_le_of_lt inside.1 later),
    Nat.lt_of_le_of_lt (Nat.le_of_not_lt early) other.2⟩

theorem before_of_not_has {j k : Nat} (inside : g.Has j) (outside : ¬ g.Has i) (earlier : i < j)
    (other : g.Has k) : i < k := by
  by_contra late
  exact outside ⟨Nat.le_trans other.1 (Nat.le_of_not_lt late), Nat.lt_trans earlier inside.2⟩

end Segment

/-! ## Arrays in another order -/

variable {Element : Type u} {before middle after : Cells Element} {g whole : Segment}

/-- The elements of a segment stand in another order, and all others where they stood. -/
def Rearranged (g : Segment) (before after : Cells Element) : Prop :=
  ∃ order : Equiv.Perm Nat, (∀ i, after i = before (order i)) ∧ ∀ i, ¬ g.Has i → order i = i

namespace Rearranged

theorem refl (g : Segment) (cells : Cells Element) : Rearranged g cells cells :=
  ⟨Equiv.refl Nat, fun _ => rfl, fun _ _ => rfl⟩

theorem trans (first : Rearranged g before middle) (second : Rearranged g middle after) :
    Rearranged g before after := by
  obtain ⟨order, same, fixed⟩ := first
  obtain ⟨order', same', fixed'⟩ := second
  refine ⟨order'.trans order, fun i => (same' i).trans (same (order' i)), fun i outside => ?_⟩
  rw [Equiv.trans_apply, fixed' i outside, fixed i outside]

theorem widen (rearranged : Rearranged g before after) (within : g.Within whole) :
    Rearranged whole before after := by
  obtain ⟨order, same, fixed⟩ := rearranged
  exact ⟨order, same, fun i outside => fixed i fun inside => outside (within.has inside)⟩

theorem outside (rearranged : Rearranged g before after) {i : Nat} (outside : ¬ g.Has i) :
    after i = before i := by
  obtain ⟨order, same, fixed⟩ := rearranged
  rw [same, fixed i outside]

theorem source (rearranged : Rearranged g before after) {i : Nat} (inside : g.Has i) :
    ∃ j, g.Has j ∧ after i = before j := by
  obtain ⟨order, same, fixed⟩ := rearranged
  refine ⟨order i, ?_, same i⟩
  by_contra outside
  have still : order i = i := order.injective (fixed (order i) outside)
  rw [still] at outside
  exact outside inside

end Rearranged

/-- Two elements change places. -/
def swap (i j : Nat) (cells : Cells Element) : Cells Element where
  get k := if k = i then cells j else if k = j then cells i else cells k

section Swap

variable (i j : Nat) (cells : Cells Element)

theorem swap_left : swap i j cells i = cells j :=
  if_pos rfl

theorem swap_right : swap i j cells j = cells i := by
  show (if j = i then cells j else if j = j then cells i else cells j) = cells i
  split
  · next same => rw [same]
  · exact if_pos rfl

theorem swap_other {k : Nat} (left : k ≠ i) (right : k ≠ j) : swap i j cells k = cells k :=
  (if_neg left).trans (if_neg right)

end Swap

theorem rearranged_swap {i j : Nat} (first : g.Has i) (second : g.Has j) (cells : Cells Element) :
    Rearranged g cells (swap i j cells) := by
  refine ⟨Equiv.swap i j, fun k => ?_, fun k outside => ?_⟩
  · rw [Equiv.swap_apply_def]
    show (if k = i then cells j else if k = j then cells i else cells k) = _
    split
    · rfl
    · split <;> rfl
  · exact Equiv.swap_apply_of_ne_of_ne (fun same => outside (same ▸ first))
      fun same => outside (same ▸ second)

/-! ## Order -/

variable {le : Element → Element → Prop} {cells cells' : Cells Element}
  {pending parts rest : List Segment}

/-- Every two elements of a segment are in order, but for those that lie in one and the same
pending segment. -/
def SortedBut (le : Element → Element → Prop) (g : Segment) (pending : List Segment)
    (cells : Cells Element) : Prop :=
  ∀ i j, g.Has i → g.Has j → i < j →
    le (cells i) (cells j) ∨ ∃ h ∈ pending, h.Has i ∧ h.Has j

def Sorted (le : Element → Element → Prop) (g : Segment) (cells : Cells Element) : Prop :=
  ∀ i j, g.Has i → g.Has j → i < j → le (cells i) (cells j)

theorem sortedBut_itself (g : Segment) (cells : Cells Element) : SortedBut le g [g] cells :=
  fun _ _ first second _ => .inr ⟨g, List.mem_singleton_self g, first, second⟩

namespace SortedBut

theorem sorted (sorted : SortedBut le g [] cells) : Sorted le g cells := by
  intro i j first second less
  rcases sorted i j first second less with ordered | ⟨h, among, _⟩
  · exact ordered
  · exact absurd among List.not_mem_nil

theorem of_subset (sorted : SortedBut le g pending cells) (subset : ∀ h ∈ pending, h ∈ rest) :
    SortedBut le g rest cells := by
  intro i j first second less
  rcases sorted i j first second less with ordered | ⟨h, among, both⟩
  · exact .inl ordered
  · exact .inr ⟨h, subset h among, both⟩

theorem drop_short {h : Segment} (sorted : SortedBut le g (h :: rest) cells)
    (short : h.length ≤ 1) : SortedBut le g rest cells := by
  intro i j first second less
  rcases sorted i j first second less with ordered | ⟨other, among, one, two⟩
  · exact .inl ordered
  · rcases List.mem_cons.mp among with rfl | among
    · obtain ⟨low, _⟩ := one
      obtain ⟨_, high⟩ := two
      omega
    · exact .inr ⟨other, among, one, two⟩

theorem replace {h : Segment} (sorted : SortedBut le g (h :: rest) cells) (within : h.Within g)
    (apart : ∀ other ∈ rest, h.Apart other) (rearranged : Rearranged h cells cells')
    (own : SortedBut le h parts cells') : SortedBut le g (parts ++ rest) cells' := by
  intro i j first second less
  by_cases one : h.Has i
  · by_cases two : h.Has j
    · rcases own i j one two less with ordered | ⟨part, among, both⟩
      · exact .inl ordered
      · exact .inr ⟨part, List.mem_append_left rest among, both⟩
    · obtain ⟨k, inside, same⟩ := rearranged.source one
      rw [same, rearranged.outside two]
      have earlier : k < j := Segment.behind_of_not_has one two less inside
      rcases sorted k j (within.has inside) second earlier with ordered | ⟨other, among, at1, at2⟩
      · exact .inl ordered
      · rcases List.mem_cons.mp among with rfl | among
        · exact absurd at2 two
        · exact absurd at1 ((apart other among).not_has inside)
  · rw [rearranged.outside one]
    by_cases two : h.Has j
    · obtain ⟨k, inside, same⟩ := rearranged.source two
      rw [same]
      have later : i < k := Segment.before_of_not_has two one less inside
      rcases sorted i k first (within.has inside) later with ordered | ⟨other, among, at1, at2⟩
      · exact .inl ordered
      · rcases List.mem_cons.mp among with rfl | among
        · exact absurd at1 one
        · exact absurd at2 ((apart other among).not_has inside)
    · rw [rearranged.outside two]
      rcases sorted i j first second less with ordered | ⟨other, among, both⟩
      · exact .inl ordered
      · rcases List.mem_cons.mp among with rfl | among
        · exact absurd both.1 one
        · exact .inr ⟨other, List.mem_append_right parts among, both⟩

end SortedBut

end OrionBios.Sorting
