import OrionBios.Sorting.Qsort

/-!
# The partition

The scan leaves the array in four ranges, equal to the pivot, below it, above it and equal again.
Gathering brings the equal ones to the middle. Where the scan ends and what it moves is the same
for every comparison function, also for one that contradicts itself.
-/

namespace OrionBios.Sorting

universe u

variable {Element : Type u} {cmp : Cmp Element} {part : Segment} {before : Cells Element}
  {pivot : Element} {s : Scan Element}

/-! ## The scan -/

/-- The ranges between the four indices, with the pivot at the left end. -/
structure Scanned (cmp : Cmp Element) (part : Segment) (before : Cells Element) (pivot : Element)
    (s : Scan Element) : Prop where
  first : part.start < s.pa
  front : s.pa ≤ s.pb
  meet : s.pb ≤ s.pc + 1
  back : s.pc ≤ s.pd
  last : s.pd < part.start + part.length
  rearranged : Rearranged part before s.cells
  kept : s.cells part.start = pivot
  equalLeft : ∀ k, part.start < k → k < s.pa → cmp (s.cells k) pivot = 0
  below : ∀ k, s.pa ≤ k → k < s.pb → cmp (s.cells k) pivot < 0
  above : ∀ k, s.pc < k → k ≤ s.pd → 0 < cmp (s.cells k) pivot
  equalRight : ∀ k, s.pd < k → k < part.start + part.length → cmp (s.cells k) pivot = 0

namespace Scanned

theorem has {k : Nat} (scanned : Scanned cmp part before pivot s) (low : s.pa ≤ k)
    (high : k ≤ s.pd) : part.Has k :=
  ⟨Nat.le_of_lt (Nat.lt_of_lt_of_le scanned.first low), Nat.lt_of_le_of_lt high scanned.last⟩

theorem upEqual (scanned : Scanned cmp part before pivot s) (more : s.pb ≤ s.pc)
    (equal : cmp (s.cells s.pb) pivot = 0) :
    Scanned cmp part before pivot
      { s with cells := swap s.pa s.pb s.cells, pa := s.pa + 1, pb := s.pb + 1, swapCnt := 1 } := by
  have first := scanned.first
  have front := scanned.front
  have back := scanned.back
  exact
    { first := Nat.lt_succ_of_lt first
      front := Nat.succ_le_succ front
      meet := Nat.succ_le_succ more
      back := back
      last := scanned.last
      rearranged := scanned.rearranged.trans (rearranged_swap
        (scanned.has (Nat.le_refl _) (by omega)) (scanned.has front (by omega)) _)
      kept := by
        rw [swap_other _ _ _ (by omega) (by omega)]
        exact scanned.kept
      equalLeft := fun k low high => by
        by_cases here : k = s.pa
        · rw [here, swap_left]
          exact equal
        · have less : k < s.pa := by
            dsimp only at high
            omega
          rw [swap_other _ _ _ here (by omega)]
          exact scanned.equalLeft k low less
      below := fun k low high => by
        dsimp only at low high
        by_cases here : k = s.pb
        · rw [here, swap_right]
          exact scanned.below _ (Nat.le_refl _) (by omega)
        · rw [swap_other _ _ _ (by omega) here]
          exact scanned.below k (by omega) (by omega)
      above := fun k low high => by
        dsimp only at low high
        rw [swap_other _ _ _ (by omega) (by omega)]
        exact scanned.above k low high
      equalRight := fun k low high => by
        dsimp only at low
        rw [swap_other _ _ _ (by omega) (by omega)]
        exact scanned.equalRight k low high }

theorem upLess (scanned : Scanned cmp part before pivot s) (more : s.pb ≤ s.pc)
    (less : cmp (s.cells s.pb) pivot < 0) :
    Scanned cmp part before pivot { s with pb := s.pb + 1 } where
  first := scanned.first
  front := Nat.le_succ_of_le scanned.front
  meet := Nat.succ_le_succ more
  back := scanned.back
  last := scanned.last
  rearranged := scanned.rearranged
  kept := scanned.kept
  equalLeft := scanned.equalLeft
  below k low high := by
    rcases Nat.lt_succ_iff_lt_or_eq.mp high with earlier | rfl
    · exact scanned.below k low earlier
    · exact less
  above := scanned.above
  equalRight := scanned.equalRight

theorem downEqual (scanned : Scanned cmp part before pivot s) (more : s.pb ≤ s.pc)
    (equal : cmp (s.cells s.pc) pivot = 0) :
    Scanned cmp part before pivot
      { s with cells := swap s.pc s.pd s.cells, pc := s.pc - 1, pd := s.pd - 1, swapCnt := 1 } := by
  have first := scanned.first
  have front := scanned.front
  have back := scanned.back
  have last := scanned.last
  exact
    { first := first
      front := front
      meet := by
        dsimp only
        omega
      back := Nat.sub_le_sub_right back 1
      last := by
        dsimp only
        omega
      rearranged := scanned.rearranged.trans (rearranged_swap
        (scanned.has (by omega) back) (scanned.has (by omega) (Nat.le_refl _)) _)
      kept := by
        rw [swap_other _ _ _ (by omega) (by omega)]
        exact scanned.kept
      equalLeft := fun k low high => by
        dsimp only at high
        rw [swap_other _ _ _ (by omega) (by omega)]
        exact scanned.equalLeft k low high
      below := fun k low high => by
        dsimp only at low high
        rw [swap_other _ _ _ (by omega) (by omega)]
        exact scanned.below k low high
      above := fun k low high => by
        dsimp only at low high
        by_cases here : k = s.pc
        · rw [here, swap_left]
          exact scanned.above _ (by omega) (Nat.le_refl _)
        · rw [swap_other _ _ _ here (by omega)]
          exact scanned.above k (by omega) (by omega)
      equalRight := fun k low high => by
        dsimp only at low
        by_cases here : k = s.pd
        · rw [here, swap_right]
          exact equal
        · rw [swap_other _ _ _ (by omega) here]
          exact scanned.equalRight k (by omega) high }

theorem downGreater (scanned : Scanned cmp part before pivot s) (more : s.pb ≤ s.pc)
    (greater : 0 < cmp (s.cells s.pc) pivot) :
    Scanned cmp part before pivot { s with pc := s.pc - 1 } where
  first := scanned.first
  front := scanned.front
  meet := by
    dsimp only
    omega
  back := Nat.le_trans (Nat.sub_le _ _) scanned.back
  last := scanned.last
  rearranged := scanned.rearranged
  kept := scanned.kept
  equalLeft := scanned.equalLeft
  below := scanned.below
  above k low high := by
    dsimp only at low
    by_cases here : k = s.pc
    · rw [here]
      exact greater
    · exact scanned.above k (by omega) high
  equalRight := scanned.equalRight

theorem exchange (scanned : Scanned cmp part before pivot s) (more : s.pb ≤ s.pc)
    (greater : 0 < cmp (s.cells s.pb) pivot) (less : cmp (s.cells s.pc) pivot < 0) :
    Scanned cmp part before pivot
      { s with cells := swap s.pb s.pc s.cells, swapCnt := 1, pb := s.pb + 1, pc := s.pc - 1 } := by
  have first := scanned.first
  have front := scanned.front
  have back := scanned.back
  have strict : s.pb < s.pc := by
    refine Nat.lt_of_le_of_ne more fun same => ?_
    rw [same] at greater
    omega
  exact
    { first := first
      front := Nat.le_succ_of_le front
      meet := by
        dsimp only
        omega
      back := Nat.le_trans (Nat.sub_le _ _) back
      last := scanned.last
      rearranged := scanned.rearranged.trans (rearranged_swap
        (scanned.has front (by omega)) (scanned.has (by omega) back) _)
      kept := by
        rw [swap_other _ _ _ (by omega) (by omega)]
        exact scanned.kept
      equalLeft := fun k low high => by
        dsimp only at high
        rw [swap_other _ _ _ (by omega) (by omega)]
        exact scanned.equalLeft k low high
      below := fun k low high => by
        dsimp only at low high
        by_cases here : k = s.pb
        · rw [here, swap_left]
          exact less
        · rw [swap_other _ _ _ here (by omega)]
          exact scanned.below k low (by omega)
      above := fun k low high => by
        dsimp only at low high
        by_cases here : k = s.pc
        · rw [here, swap_right]
          exact greater
        · rw [swap_other _ _ _ (by omega) here]
          exact scanned.above k (by omega) high
      equalRight := fun k low high => by
        dsimp only at low
        rw [swap_other _ _ _ (by omega) (by omega)]
        exact scanned.equalRight k low high }

end Scanned

/-- The scan from the left stops at an element above the pivot, or behind the other index. -/
structure Risen (cmp : Cmp Element) (part : Segment) (before : Cells Element) (pivot : Element)
    (s t : Scan Element) : Prop where
  scanned : Scanned cmp part before pivot t
  stopped : t.pb ≤ t.pc → 0 < cmp (t.cells t.pb) pivot
  later : s.pb ≤ t.pb
  same : t.pc = s.pc

theorem scanUp_risen (rounds : Nat) (scanned : Scanned cmp part before pivot s)
    (enough : s.pc + 1 - s.pb ≤ rounds) :
    Risen cmp part before pivot s (scanUp cmp part.start rounds s) := by
  induction rounds generalizing s with
  | zero =>
      exact ⟨scanned, fun more : s.pb ≤ s.pc => absurd enough (by omega), Nat.le_refl _, rfl⟩
  | succ rounds inductionHypothesis =>
      rw [scanUp, scanned.kept]
      by_cases more : s.pb ≤ s.pc
      · rw [if_pos more]
        dsimp only
        split
        · split
          · next equal =>
            have risen := inductionHypothesis (scanned.upEqual more equal) (by dsimp only; omega)
            exact ⟨risen.scanned, risen.stopped, Nat.le_of_succ_le risen.later, risen.same⟩
          · next atMost unequal =>
            have risen := inductionHypothesis
              (scanned.upLess more (Int.lt_iff_le_and_ne.mpr ⟨atMost, unequal⟩))
              (by dsimp only; omega)
            exact ⟨risen.scanned, risen.stopped, Nat.le_of_succ_le risen.later, risen.same⟩
        · next greater => exact ⟨scanned, fun _ => Int.not_le.mp greater, Nat.le_refl _, rfl⟩
      · rw [if_neg more]
        exact ⟨scanned, fun le => absurd le more, Nat.le_refl _, rfl⟩

/-- The scan from the right stops at an element below the pivot, or in front of the other index,
whose element it leaves alone. -/
structure Sunk (cmp : Cmp Element) (part : Segment) (before : Cells Element) (pivot : Element)
    (s t : Scan Element) : Prop where
  scanned : Scanned cmp part before pivot t
  stopped : t.pb ≤ t.pc → cmp (t.cells t.pc) pivot < 0
  facing : t.pb ≤ t.pc → 0 < cmp (t.cells t.pb) pivot
  earlier : t.pc ≤ s.pc
  same : t.pb = s.pb

theorem scanDown_sunk (rounds : Nat) (scanned : Scanned cmp part before pivot s)
    (facing : s.pb ≤ s.pc → 0 < cmp (s.cells s.pb) pivot)
    (enough : s.pc + 1 - s.pb ≤ rounds) :
    Sunk cmp part before pivot s (scanDown cmp part.start rounds s) := by
  induction rounds generalizing s with
  | zero =>
      exact ⟨scanned, fun more : s.pb ≤ s.pc => absurd enough (by omega), facing,
        Nat.le_refl _, rfl⟩
  | succ rounds inductionHypothesis =>
      have first := scanned.first
      have front := scanned.front
      have back := scanned.back
      rw [scanDown, scanned.kept]
      by_cases more : s.pb ≤ s.pc
      · rw [if_pos more]
        dsimp only
        split
        · split
          · next equal =>
            have apart : s.pb ≠ s.pc := fun same => by
              have positive := facing more
              rw [same, equal] at positive
              exact Int.lt_irrefl 0 positive
            have sunk := inductionHypothesis (scanned.downEqual more equal)
              (fun _ => by
                rw [swap_other _ _ _ apart (by omega)]
                exact facing more)
              (by dsimp only; omega)
            exact ⟨sunk.scanned, sunk.stopped, sunk.facing,
              Nat.le_trans sunk.earlier (Nat.sub_le _ _), sunk.same⟩
          · next atLeast unequal =>
            have sunk := inductionHypothesis
              (scanned.downGreater more (Int.lt_iff_le_and_ne.mpr ⟨atLeast, Ne.symm unequal⟩))
              (fun _ => facing more) (by dsimp only; omega)
            exact ⟨sunk.scanned, sunk.stopped, sunk.facing,
              Nat.le_trans sunk.earlier (Nat.sub_le _ _), sunk.same⟩
        · next less => exact ⟨scanned, fun _ => Int.not_le.mp less, facing, Nat.le_refl _, rfl⟩
      · rw [if_neg more]
        exact ⟨scanned, fun le => absurd le more, facing, Nat.le_refl _, rfl⟩

theorem scanLoop_scanned (rounds : Nat) (scanned : Scanned cmp part before pivot s)
    (enough : s.pc + 1 - s.pb < rounds) :
    Scanned cmp part before pivot (scanLoop cmp part.start rounds s) ∧
      (scanLoop cmp part.start rounds s).pb = (scanLoop cmp part.start rounds s).pc + 1 := by
  induction rounds generalizing s with
  | zero => exact absurd enough (Nat.not_lt_zero _)
  | succ rounds inductionHypothesis =>
      rw [scanLoop]
      have risen := scanUp_risen (s.pc + 1 - s.pb) scanned (Nat.le_refl _)
      generalize scanUp cmp part.start (s.pc + 1 - s.pb) s = t at risen ⊢
      have sunk := scanDown_sunk (t.pc + 1 - t.pb) risen.scanned risen.stopped (Nat.le_refl _)
      generalize scanDown cmp part.start (t.pc + 1 - t.pb) t = u at sunk ⊢
      have rises := risen.later
      have same := risen.same
      have falls := sunk.earlier
      have same' := sunk.same
      split
      · next crossed => exact ⟨sunk.scanned, Nat.le_antisymm sunk.scanned.meet crossed⟩
      · next facing =>
        have more : u.pb ≤ u.pc := Nat.le_of_not_lt facing
        exact inductionHypothesis
          (sunk.scanned.exchange more (sunk.facing more) (sunk.stopped more))
          (by dsimp only; omega)

/-! ## The pivot -/

theorem med3_or (cells : Cells Element) (a b c : Nat) :
    med3 cmp cells a b c = a ∨ med3 cmp cells a b c = b ∨ med3 cmp cells a b c = c := by
  unfold med3
  split
  · split
    · exact .inr (.inl rfl)
    · split
      · exact .inr (.inr rfl)
      · exact .inl rfl
  · split
    · exact .inr (.inl rfl)
    · split
      · exact .inl rfl
      · exact .inr (.inr rfl)

theorem has_med3 {a b c : Nat} (cells : Cells Element) (first : part.Has a) (second : part.Has b)
    (third : part.Has c) : part.Has (med3 cmp cells a b c) := by
  have which : med3 cmp cells a b c = a ∨ med3 cmp cells a b c = b ∨ med3 cmp cells a b c = c :=
    med3_or cells a b c
  rcases which with same | same | same
  · rw [same]
    exact first
  · rw [same]
    exact second
  · rw [same]
    exact third

theorem has_pivotOf (some : 0 < part.length) (cells : Cells Element) :
    part.Has (pivotOf cmp part cells) := by
  have has : ∀ k, k < part.length → part.Has (part.start + k) := fun k less =>
    ⟨Nat.le_add_right _ _, Nat.add_lt_add_left less _⟩
  have left : part.Has part.start := has 0 some
  have right : part.Has (part.start + (part.length - 1)) := has _ (by omega)
  have center : part.Has (part.start + part.length / 2) := has _ (by omega)
  unfold pivotOf
  dsimp only
  split
  · split
    · next many =>
      have at1 : ∀ k, part.start ≤ k → k < part.start + part.length → part.Has k :=
        fun _ low high => ⟨low, high⟩
      refine has_med3 _ (has_med3 _ left ?_ ?_) (has_med3 _ ?_ center ?_) (has_med3 _ ?_ ?_ right)
      · exact at1 _ (by omega) (by omega)
      · exact at1 _ (by omega) (by omega)
      · exact at1 _ (by omega) (by omega)
      · exact at1 _ (by omega) (by omega)
      · exact at1 _ (by omega) (by omega)
      · exact at1 _ (by omega) (by omega)
    · exact has_med3 _ left center right
  · exact center

/-- What `partition` leaves. -/
theorem partition_scanned (cmp : Cmp Element) (long : 2 ≤ part.length) (before : Cells Element) :
    ∃ pivot, Scanned cmp part before pivot (partition cmp part before) ∧
      (partition cmp part before).pb = (partition cmp part before).pc + 1 := by
  have left : part.Has part.start := ⟨Nat.le_refl _, by omega⟩
  refine ⟨(swap part.start (pivotOf cmp part before) before) part.start, ?_⟩
  refine scanLoop_scanned part.length ?_ (by dsimp only; omega)
  exact
    { first := Nat.lt_succ_self _
      front := Nat.le_refl _
      meet := by
        dsimp only
        omega
      back := Nat.le_refl _
      last := by
        dsimp only
        omega
      rearranged := rearranged_swap left (has_pivotOf (by omega) before) before
      kept := rfl
      equalLeft := fun k low high => absurd high (by dsimp only; omega)
      below := fun k low high => absurd high (by dsimp only at low ⊢; omega)
      above := fun k low high => absurd high (by dsimp only at low ⊢; omega)
      equalRight := fun k low high => absurd high (by dsimp only at low ⊢; omega) }

/-! ## Blocks that change places -/

variable {cells : Cells Element}

theorem vecswap_apply {a b n : Nat} (apart : a + n ≤ b) (cells : Cells Element) (k : Nat) :
    vecswap a b n cells k =
      if a ≤ k ∧ k < a + n then cells (b + (k - a))
      else if b ≤ k ∧ k < b + n then cells (a + (k - b))
      else cells k := by
  induction n generalizing a b cells with
  | zero =>
      rw [vecswap, if_neg (by omega), if_neg (by omega)]
  | succ n inductionHypothesis =>
      rw [vecswap, inductionHypothesis (by omega)]
      by_cases here : k = a
      · rw [if_neg (by omega), if_neg (by omega), if_pos (by omega), here, swap_left, Nat.sub_self]
        rfl
      · by_cases there : k = b
        · rw [if_neg (by omega), if_neg (by omega), if_neg (by omega), if_pos (by omega), there,
            swap_right, Nat.sub_self]
          rfl
        · by_cases front : a + 1 ≤ k ∧ k < a + 1 + n
          · rw [if_pos front, if_pos (by omega), swap_other _ _ _ (by omega) (by omega)]
            exact congrArg cells.get (by omega)
          · rw [if_neg front, if_neg (show ¬ (a ≤ k ∧ k < a + (n + 1)) by omega)]
            by_cases behind : b + 1 ≤ k ∧ k < b + 1 + n
            · rw [if_pos behind, if_pos (by omega), swap_other _ _ _ (by omega) (by omega)]
              exact congrArg cells.get (by omega)
            · rw [if_neg behind, if_neg (show ¬ (b ≤ k ∧ k < b + (n + 1)) by omega),
                swap_other _ _ _ here there]

theorem rearranged_vecswap {a b n : Nat} (first : ∀ k, k < n → part.Has (a + k))
    (second : ∀ k, k < n → part.Has (b + k)) (cells : Cells Element) :
    Rearranged part cells (vecswap a b n cells) := by
  induction n generalizing a b cells with
  | zero => exact Rearranged.refl part cells
  | succ n inductionHypothesis =>
      have here := rearranged_swap (first 0 (Nat.succ_pos n)) (second 0 (Nat.succ_pos n)) cells
      refine here.trans (inductionHypothesis (fun k less => ?_) (fun k less => ?_) _)
      · rw [Nat.add_right_comm]
        exact first (k + 1) (Nat.succ_lt_succ less)
      · rw [Nat.add_right_comm]
        exact second (k + 1) (Nat.succ_lt_succ less)

/-- Of two neighbouring ranges the shorter one changes places with the far end of the other: they
stand the other way round then. -/
theorem ranges_exchanged {P Q : Element → Prop} {low mid high : Nat} (front : low ≤ mid)
    (behind : mid ≤ high) (left : ∀ k, low ≤ k → k < mid → P (cells k))
    (right : ∀ k, mid ≤ k → k < high → Q (cells k)) {r : Nat}
    (shorter : r = min (mid - low) (high - mid)) :
    (∀ k, low ≤ k → k < low + (high - mid) → Q (vecswap low (high - r) r cells k)) ∧
      ∀ k, low + (high - mid) ≤ k → k < high → P (vecswap low (high - r) r cells k) := by
  have atMost : r ≤ mid - low := shorter ▸ Nat.min_le_left _ _
  have atMost' : r ≤ high - mid := shorter ▸ Nat.min_le_right _ _
  have either : r = mid - low ∨ r = high - mid := by
    rw [shorter]
    exact (Nat.le_total (mid - low) (high - mid)).imp Nat.min_eq_left Nat.min_eq_right
  have apart : low + r ≤ high - r := by omega
  constructor
  · intro k above below
    rw [vecswap_apply apart]
    split
    · next inside => exact right _ (by omega) (by omega)
    · next outside =>
      rw [if_neg (by omega)]
      exact right k (by omega) (by omega)
  · intro k above below
    rw [vecswap_apply apart, if_neg (by omega)]
    split
    · next inside => exact left _ (by omega) (by omega)
    · next outside => exact left k (by omega) (by omega)

/-! ## The parts -/

structure Gathered (cmp : Cmp Element) (part : Segment) (pivot : Element) (s : Scan Element)
    (cells : Cells Element) : Prop where
  less : ∀ k, (s.left part).Has k → cmp (cells k) pivot < 0
  equal : ∀ k, part.start + (s.pb - s.pa) ≤ k → k < part.start + part.length - (s.pd - s.pc) →
    cmp (cells k) pivot = 0
  greater : ∀ k, (s.right part).Has k → 0 < cmp (cells k) pivot

theorem gather_gathered (scanned : Scanned cmp part before pivot s) (crossed : s.pb = s.pc + 1)
    (reflexive : cmp pivot pivot = 0) : Gathered cmp part pivot s (gather part s) := by
  have first := scanned.first
  have front := scanned.front
  have back := scanned.back
  have last := scanned.last
  have equalFront : ∀ k, part.start ≤ k → k < s.pa → cmp (s.cells k) pivot = 0 := by
    intro k low high
    by_cases here : k = part.start
    · rw [here, scanned.kept]
      exact reflexive
    · exact scanned.equalLeft k (by omega) high
  obtain ⟨below, equal⟩ := ranges_exchanged (P := fun e => cmp e pivot = 0)
    (Q := fun e => cmp e pivot < 0) (Nat.le_of_lt first) front equalFront scanned.below rfl
  let r := min (s.pa - part.start) (s.pb - s.pa)
  let cells := vecswap part.start (s.pb - r) r s.cells
  have beyond : ∀ k, s.pb ≤ k → cells k = s.cells k := by
    intro k above
    have small : r ≤ s.pa - part.start := Nat.min_le_left _ _
    have small' : r ≤ s.pb - s.pa := Nat.min_le_right _ _
    show vecswap part.start (s.pb - r) r s.cells k = _
    rw [vecswap_apply (by omega), if_neg (by omega), if_neg (by omega)]
  have above : ∀ k, s.pb ≤ k → k < s.pd + 1 → 0 < cmp (cells k) pivot := by
    intro k low high
    rw [beyond k low]
    exact scanned.above k (by omega) (by omega)
  have equalBack : ∀ k, s.pd + 1 ≤ k → k < part.start + part.length →
      cmp (cells k) pivot = 0 := by
    intro k low high
    rw [beyond k (by omega)]
    exact scanned.equalRight k low high
  have meets : s.pd + 1 - s.pb = s.pd - s.pc := by omega
  obtain ⟨equal', above'⟩ := ranges_exchanged (P := fun e => 0 < cmp e pivot)
    (Q := fun e => cmp e pivot = 0) (show s.pb ≤ s.pd + 1 by omega) last above equalBack
    (r := min (s.pd - s.pc) (part.start + part.length - s.pd - 1)) (by rw [meets]; rfl)
  let r' := min (s.pd - s.pc) (part.start + part.length - s.pd - 1)
  have untouched : ∀ k, k < s.pb → gather part s k = cells k := by
    intro k high
    have small : r' ≤ s.pd - s.pc := Nat.min_le_left _ _
    have small' : r' ≤ part.start + part.length - s.pd - 1 := Nat.min_le_right _ _
    show vecswap s.pb (part.start + part.length - r') r' cells k = _
    rw [vecswap_apply (by omega), if_neg (by omega), if_neg (by omega)]
  refine ⟨fun k inside => ?_, fun k low high => ?_, fun k inside => ?_⟩
  · obtain ⟨low, high⟩ := inside
    dsimp only [Scan.left] at low high
    rw [untouched k (by omega)]
    exact below k low high
  · by_cases early : k < s.pb
    · rw [untouched k early]
      exact equal k low early
    · exact equal' k (by omega) (by omega)
  · obtain ⟨low, high⟩ := inside
    dsimp only [Scan.right] at low high
    exact above' k (by omega) (by omega)

theorem gather_rearranged (scanned : Scanned cmp part before pivot s) (crossed : s.pb = s.pc + 1) :
    Rearranged part before (gather part s) := by
  have first := scanned.first
  have front := scanned.front
  have back := scanned.back
  have last := scanned.last
  have left := Nat.min_le_left (s.pa - part.start) (s.pb - s.pa)
  have left' := Nat.min_le_right (s.pa - part.start) (s.pb - s.pa)
  have right := Nat.min_le_left (s.pd - s.pc) (part.start + part.length - s.pd - 1)
  have right' := Nat.min_le_right (s.pd - s.pc) (part.start + part.length - s.pd - 1)
  have has : ∀ k, part.start ≤ k → k < part.start + part.length → part.Has k :=
    fun _ low high => ⟨low, high⟩
  refine scanned.rearranged.trans ((rearranged_vecswap ?_ ?_ _).trans (rearranged_vecswap ?_ ?_ _))
  · exact fun k less => has _ (by omega) (by omega)
  · exact fun k less => has _ (by omega) (by omega)
  · exact fun k less => has _ (by omega) (by omega)
  · exact fun k less => has _ (by omega) (by omega)

theorem Scanned.shorter (scanned : Scanned cmp part before pivot s) (crossed : s.pb = s.pc + 1) :
    (s.left part).length + (s.right part).length < part.length := by
  have first := scanned.first
  have front := scanned.front
  have back := scanned.back
  have last := scanned.last
  dsimp only [Scan.left, Scan.right]
  omega

theorem left_within (scanned : Scanned cmp part before pivot s) (crossed : s.pb = s.pc + 1) :
    (s.left part).Within part := by
  have shorter := scanned.shorter crossed
  refine ⟨Nat.le_refl _, Nat.add_le_add_left ?_ _⟩
  omega

theorem right_within (scanned : Scanned cmp part before pivot s) (crossed : s.pb = s.pc + 1) :
    (s.right part).Within part := by
  have shorter := scanned.shorter crossed
  constructor
  · dsimp only [Scan.left, Scan.right] at shorter ⊢
    omega
  · dsimp only [Scan.left, Scan.right] at shorter ⊢
    omega

theorem left_apart_right (scanned : Scanned cmp part before pivot s) (crossed : s.pb = s.pc + 1) :
    (s.left part).Apart (s.right part) := by
  have shorter := scanned.shorter crossed
  refine .inl ?_
  dsimp only [Scan.left, Scan.right] at shorter ⊢
  omega

end OrionBios.Sorting
