import OrionBios.Graphics.Bounds
import Mathlib.Data.List.Chain
import Mathlib.Tactic.Ring
import Mathlib.Tactic.Linarith

/-!
# Lines between two points

`drawLine` with the points it passes to `drawPixel`, and with the values it assigns to its variables,
which are `short`. In the direction of its longer side a line steps by one, and in the other one
where the error term says so.
-/

namespace OrionBios.Graphics

/-! ## The loop and its variables -/

structure Ends where
  x0 : Int
  y0 : Int
  x1 : Int
  y1 : Int
  deriving DecidableEq, Repr

def Steep (ends : Ends) : Prop := (ends.y1 - ends.y0).natAbs > (ends.x1 - ends.x0).natAbs

instance (ends : Ends) : Decidable (Steep ends) := Nat.decLt _ _

/-- The swaps before the loop: its counter runs along the longer side, and upwards. -/
def orient (ends : Ends) : Ends :=
  let ends := if Steep ends then ⟨ends.y0, ends.x0, ends.y1, ends.x1⟩ else ends
  if ends.x0 > ends.x1 then ⟨ends.x1, ends.y1, ends.x0, ends.y0⟩ else ends

/-- The points and, before their conversion, the values assigned. -/
structure Plot where
  points : List (Int × Int)
  assigned : List Int

/-- The rest of a line after one round of the loop. -/
def Plot.after (point : Int × Int) (assigned : List Int) (rest : Plot) : Plot where
  points := point :: rest.points
  assigned := assigned ++ rest.assigned

def plotLoop (point : Int → Int → Int × Int) (x1 dx dy ystep : Int) :
    (rounds : Nat) → Int → LineState → Option Plot
  | 0, _, _ => none
  | rounds + 1, i, state =>
    if i < x1 + 1 then
      let err := short (state.err - dy)
      if err < 0 then
        (plotLoop point x1 dx dy ystep rounds (short (i + 1))
          ⟨short (state.y0 + ystep), short (err + dx)⟩).map
            (Plot.after (point i state.y0) [state.err - dy, state.y0 + ystep, err + dx, i + 1])
      else
        (plotLoop point x1 dx dy ystep rounds (short (i + 1)) ⟨state.y0, err⟩).map
          (Plot.after (point i state.y0) [state.err - dy, i + 1])
    else some ⟨[], []⟩

def ystep (ends : Ends) : Int := if ends.y0 < ends.y1 then 1 else -1

/-- `drawLine`, for ends of 16 bits. -/
def plotLine (given : Ends) : Option Plot :=
  let ends := orient given
  let dx := short (ends.x1 - ends.x0)
  let dy := short (ends.y1 - ends.y0).natAbs
  let point := fun i y : Int => if Steep given then (y, i) else (i, y)
  (plotLoop point ends.x1 dx dy (ystep ends) SHORT_ROUNDS ends.x0 ⟨ends.y0, Int.tdiv dx 2⟩).map
    fun plot => { plot with assigned :=
      [ends.x1 - ends.x0, ((ends.y1 - ends.y0).natAbs : Int), Int.tdiv dx 2] ++ plot.assigned }

theorem forShort_plotLoop (point : Int → Int → Int × Int) (x1 dx dy ystep : Int) (s : Screen)
    (color : Byte) {body : Int → LineState → LineState × List Access}
    (isBody : ∀ i state, body i state =
      (if short (state.err - dy) < 0 then
          ⟨short (state.y0 + ystep), short (short (state.err - dy) + dx)⟩
        else ⟨state.y0, short (state.err - dy)⟩,
        drawPixel s (point i state.y0).1 (point i state.y0).2 color))
    (rounds : Nat) (i : Int) (state : LineState) :
    forShort (x1 + 1) body rounds i state =
      (plotLoop point x1 dx dy ystep rounds i state).map fun plot =>
        plot.points.flatMap fun p => drawPixel s p.1 p.2 color := by
  induction rounds generalizing i state with
  | zero => rfl
  | succ rounds inductionHypothesis =>
      rw [forShort, plotLoop]
      by_cases running : i < x1 + 1
      · rw [if_pos running, if_pos running, isBody]
        by_cases negative : short (state.err - dy) < 0
        · simp only [if_pos negative]
          rw [inductionHypothesis, Option.map_map, Option.map_map]
          rfl
        · simp only [if_neg negative]
          rw [inductionHypothesis, Option.map_map, Option.map_map]
          rfl
      · rw [if_neg running, if_neg running]
        rfl

theorem map_assigned (result : Option Plot) (before : List Int) (f : List (Int × Int) → List Access) :
    (result.map fun plot => { plot with assigned := before ++ plot.assigned }).map
        (fun plot => f plot.points) = result.map fun plot => f plot.points := by
  rw [Option.map_map]
  rfl

/-- The accesses of `drawLine` are those of its points. -/
theorem drawLine_eq (s : Screen) (x0 y0 x1 y1 : Int) (color : Byte) :
    drawLine s x0 y0 x1 y1 color =
      (plotLine ⟨short x0, short y0, short x1, short y1⟩).map fun plot =>
        plot.points.flatMap fun p => drawPixel s p.1 p.2 color := by
  unfold drawLine
  dsimp only
  generalize short x0 = x0
  generalize short y0 = y0
  generalize short x1 = x1
  generalize short y1 = y1
  generalize given : (⟨x0, y0, x1, y1⟩ : Ends) = ends
  have isSteep : Steep ends ↔ (y1 - y0).natAbs > (x1 - x0).natAbs := by
    rw [← given]
    rfl
  rw [plotLine, map_assigned _ _ fun points => points.flatMap fun p => drawPixel s p.1 p.2 color]
  generalize SHORT_ROUNDS = rounds
  by_cases steep : (y1 - y0).natAbs > (x1 - x0).natAbs
  · have steep' := isSteep.mpr steep
    by_cases order : y0 > y1
    · have oriented : orient ends = ⟨y1, x1, y0, x0⟩ := by
        rw [orient, if_pos steep', ← given]
        exact if_pos order
      simp only [if_pos steep, if_pos steep', if_pos order, oriented, ystep]
      exact forShort_plotLoop (fun i y => (y, i)) _ _ _ _ s color (fun _ _ => rfl) rounds _ _
    · have oriented : orient ends = ⟨y0, x0, y1, x1⟩ := by
        rw [orient, if_pos steep', ← given]
        exact if_neg order
      simp only [if_pos steep, if_pos steep', if_neg order, oriented, ystep]
      exact forShort_plotLoop (fun i y => (y, i)) _ _ _ _ s color (fun _ _ => rfl) rounds _ _
  · have flat := fun steep' => steep (isSteep.mp steep')
    by_cases order : x0 > x1
    · have oriented : orient ends = ⟨x1, y1, x0, y0⟩ := by
        rw [orient, if_neg flat, ← given]
        exact if_pos order
      simp only [if_neg steep, if_neg flat, if_pos order, oriented, ystep]
      exact forShort_plotLoop (fun i y => (i, y)) _ _ _ _ s color (fun _ _ => rfl) rounds _ _
    · have oriented : orient ends = ⟨x0, y0, x1, y1⟩ := by
        rw [orient, if_neg flat, ← given]
        exact if_neg order
      simp only [if_neg steep, if_neg flat, if_neg order, oriented, ystep]
      exact forShort_plotLoop (fun i y => (i, y)) _ _ _ _ s color (fun _ _ => rfl) rounds _ _

/-! ## Steps of a line -/

/-- The offsets of the points of a line from one of them on, along the longer side and across: in
each place the offset across is the one nearest to the line. -/
structure Digital (dx dy k n : Int) (offsets : List (Int × Int)) : Prop where
  length : (offsets.length : Int) = dx - k + 1
  first : offsets.head? = some (k, n)
  last : offsets.getLast? = some (dx, dy)
  chain : offsets.IsChain fun p q => q.1 = p.1 + 1 ∧ (q.2 = p.2 ∨ q.2 = p.2 + 1)
  near : ∀ p ∈ offsets, -dx ≤ 2 * (p.2 * dx - p.1 * dy) ∧ 2 * (p.2 * dx - p.1 * dy) ≤ dx

theorem Digital.cons {dx dy k n n' : Int} {offsets : List (Int × Int)}
    (rest : Digital dx dy (k + 1) n' offsets) (step : n' = n ∨ n' = n + 1)
    (near : -dx ≤ 2 * (n * dx - k * dy) ∧ 2 * (n * dx - k * dy) ≤ dx) :
    Digital dx dy k n ((k, n) :: offsets) := by
  obtain ⟨length, first, last, chain, others⟩ := rest
  cases offsets with
  | nil => cases first
  | cons next offsets =>
      obtain rfl : next = (k + 1, n') := Option.some.inj first
      constructor
      · rw [List.length_cons]
        omega
      · rfl
      · rw [List.getLast?_cons_cons, last]
      · exact List.isChain_cons_cons.mpr ⟨⟨rfl, step⟩, chain⟩
      · exact List.forall_mem_cons.mpr ⟨near, others⟩

/-- What the error term says: by how much the offset across is ahead of the line. -/
structure Error (dx dy k n err : Int) : Prop where
  value : err = dx / 2 - k * dy + n * dx
  low : 0 ≤ err
  high : err < dx ∨ dx = 0 ∧ err = 0

section Error

variable {dx dy k n err : Int}

theorem Error.near (error : Error dx dy k n err) :
    -dx ≤ 2 * (n * dx - k * dy) ∧ 2 * (n * dx - k * dy) ≤ dx := by
  obtain ⟨value, low, high⟩ := error
  generalize n * dx = across at *
  generalize k * dy = along at *
  omega

theorem Error.le (error : Error dx dy k n err) (positive : 0 < dx) (flat : 0 ≤ dy)
    (inside : k ≤ dx) : n ≤ dy := by
  obtain ⟨value, low, high⟩ := error
  by_contra beyond
  have across : (dy + 1) * dx ≤ n * dx := Int.mul_le_mul_of_nonneg_right (by omega) (by omega)
  have along : k * dy ≤ dx * dy := Int.mul_le_mul_of_nonneg_right inside flat
  rw [Int.add_mul, Int.one_mul, Int.mul_comm dy dx] at across
  omega

theorem Error.last (error : Error dx dy dx n err) (positive : 0 < dx) (flat : 0 ≤ dy) :
    n = dy := by
  have le := error.le positive flat (Int.le_refl dx)
  obtain ⟨value, low, -⟩ := error
  by_contra differs
  have across : n * dx ≤ (dy - 1) * dx := Int.mul_le_mul_of_nonneg_right (by omega) (by omega)
  rw [Int.sub_mul, Int.one_mul, Int.mul_comm dy dx] at across
  omega

theorem Error.stay (error : Error dx dy k n err) (flat : 0 ≤ dy) (enough : 0 ≤ err - dy) :
    Error dx dy (k + 1) n (err - dy) := by
  obtain ⟨value, low, high⟩ := error
  refine ⟨?_, enough, by omega⟩
  rw [Int.add_mul, Int.one_mul]
  omega

theorem Error.step (error : Error dx dy k n err) (flat : dy ≤ dx) (short : err - dy < 0) :
    Error dx dy (k + 1) (n + 1) (err - dy + dx) := by
  obtain ⟨value, low, high⟩ := error
  refine ⟨?_, by omega, by omega⟩
  rw [Int.add_mul, Int.one_mul, Int.add_mul, Int.one_mul]
  omega

end Error

/-- A line whose longer side and whose last column are not too large for the counter. -/
structure Drawable (x0 y0 dx dy ystep : Int) : Prop where
  left : -32768 ≤ x0
  right : x0 + dx < 32767
  flat : 0 ≤ dy ∧ dy ≤ dx
  size : dx ≤ 32767
  sign : ystep = 1 ∨ ystep = -1
  first : InShort y0
  last : InShort (y0 + ystep * dy)

section Loop

variable {x0 y0 dx dy ystep : Int}

theorem Drawable.across (line : Drawable x0 y0 dx dy ystep) {n : Int} (low : 0 ≤ n) (high : n ≤ dy) :
    InShort (y0 + ystep * n) := by
  obtain ⟨-, -, -, -, sign, first, last⟩ := line
  unfold InShort at *
  rcases sign with rfl | rfl <;> omega

/-- The values assigned in a round, apart from the coordinate across, have 16 bits. -/
theorem Drawable.values (line : Drawable x0 y0 dx dy ystep) {k n err : Int}
    (error : Error dx dy k n err) (from0 : 0 ≤ k) (inside : k ≤ dx) :
    InShort (err - dy) ∧ (err - dy < 0 → InShort (err - dy + dx)) ∧ InShort (x0 + k + 1) := by
  obtain ⟨left, right, flat, size, -, -, -⟩ := line
  obtain ⟨-, low, high⟩ := error
  unfold InShort
  omega

/-- The loop from a point of the line on: it plots the rest of the line, and all it assigns has 16
bits, unless the step behind the last point has not. -/
theorem plotLoop_digital (point : Int → Int → Int × Int) (line : Drawable x0 y0 dx dy ystep)
    (left : Nat) : ∀ (k n err : Int) (rounds : Nat), 0 ≤ k → k + left = dx → 0 ≤ n →
      Error dx dy k n err → (dx = 0 → n = 0) → left + 2 ≤ rounds →
      ∃ offsets assigned,
        plotLoop point (x0 + dx) dx dy ystep rounds (x0 + k) ⟨y0 + ystep * n, err⟩ =
          some ⟨offsets.map fun o => point (x0 + o.1) (y0 + ystep * o.2), assigned⟩ ∧
        Digital dx dy k n offsets ∧
        ((∀ value ∈ assigned, InShort value) ↔
          (dx < 2 * dy → InShort (y0 + ystep * (dy + 1)))) := by
  have flat := line.flat
  induction left with
  | zero =>
      intro k n err rounds from0 isEnd fromN error single enough
      obtain rfl : k = dx := by omega
      obtain ⟨rounds, rfl⟩ : ∃ more, rounds = more + 2 := ⟨rounds - 2, by omega⟩
      obtain rfl : n = dy := by
        by_cases positive : 0 < k
        · exact error.last positive flat.1
        · have zero := single (by omega)
          omega
      obtain ⟨first, second, third⟩ := line.values error from0 (Int.le_refl k)
      have value := error.value
      rw [Int.mul_comm k n] at value
      have right := line.right
      have next : ystep * (n + 1) = ystep * n + ystep := by ring
      have stops : ∀ state, plotLoop point (x0 + k) k n ystep (rounds + 1) (x0 + k + 1) state =
          some ⟨[], []⟩ := fun state => if_neg (by omega)
      have digital : Digital k n k n [(k, n)] := by
        refine ⟨?_, rfl, rfl, List.isChain_singleton _, ?_⟩
        · rw [List.length_singleton]
          omega
        · rintro p member
          rw [List.mem_singleton.mp member]
          exact error.near
      rw [plotLoop, if_pos (by omega), first.short, third.short]
      by_cases negative : err - n < 0
      · refine ⟨[(k, n)], [err - n, y0 + ystep * n + ystep, err - n + k, x0 + k + 1], ?_, digital, ?_⟩
        · simp only [if_pos negative, stops]
          rfl
        · have steep : k < 2 * n := by omega
          simp only [List.forall_mem_cons, first, second negative, third, steep, next,
            forall_const, true_and, List.not_mem_nil, false_implies, and_true, ← Int.add_assoc]
      · refine ⟨[(k, n)], [err - n, x0 + k + 1], ?_, digital, ?_⟩
        · simp only [if_neg negative, stops]
          rfl
        · have notSteep : ¬ k < 2 * n := by omega
          simp only [List.forall_mem_cons, first, third, notSteep, List.not_mem_nil, false_implies,
            implies_true, and_true]
  | succ left inductionHypothesis =>
      intro k n err rounds from0 isEnd fromN error single enough
      obtain ⟨rounds, rfl⟩ : ∃ more, rounds = more + 1 := ⟨rounds - 1, by omega⟩
      obtain ⟨first, second, third⟩ := line.values error from0 (by omega)
      have column : x0 + k + 1 = x0 + (k + 1) := by omega
      rw [plotLoop, if_pos (by omega), first.short, third.short, column]
      by_cases negative : err - dy < 0
      · have error' := error.step flat.2 negative
        have inside := error'.le (by omega) flat.1 (by omega)
        have row : y0 + ystep * n + ystep = y0 + ystep * (n + 1) := by ring
        have inRow := line.across (by omega) inside
        obtain ⟨offsets, assigned, plotted, digital, fits⟩ :=
          inductionHypothesis (k + 1) (n + 1) (err - dy + dx) rounds (by omega) (by omega) (by omega)
            error' (fun zero => by omega) (by omega)
        refine ⟨(k, n) :: offsets,
          [err - dy, y0 + ystep * n + ystep, err - dy + dx, x0 + k + 1] ++ assigned, ?_,
          digital.cons (Or.inr rfl) error.near, ?_⟩
        · simp only [if_pos negative]
          rw [row, inRow.short, (second negative).short, plotted, column]
          rfl
        · rw [List.forall_mem_append, fits, row]
          simp only [List.forall_mem_cons, first, second negative, third, inRow, true_and,
            List.not_mem_nil, false_implies, implies_true]
      · obtain ⟨offsets, assigned, plotted, digital, fits⟩ :=
          inductionHypothesis (k + 1) n (err - dy) rounds (by omega) (by omega) fromN
            (error.stay flat.1 (by omega)) single (by omega)
        refine ⟨(k, n) :: offsets, [err - dy, x0 + k + 1] ++ assigned, ?_,
          digital.cons (Or.inl rfl) error.near, ?_⟩
        · simp only [if_neg negative]
          rw [plotted, column]
          rfl
        · rw [List.forall_mem_append, fits]
          simp only [List.forall_mem_cons, first, third, true_and, List.not_mem_nil,
            false_implies, implies_true]

theorem plotLoop_none (point : Int → Int → Int × Int) {x1 : Int} (far : 32767 ≤ x1)
    (rounds : Nat) : ∀ {i : Int} (state : LineState), i ≤ 32767 →
      plotLoop point x1 dx dy ystep rounds i state = none := by
  induction rounds with
  | zero => exact fun _ _ => rfl
  | succ rounds inductionHypothesis =>
      intro i state upper
      have later := @inductionHypothesis (short (i + 1))
      rw [plotLoop, if_pos (by omega)]
      dsimp only
      split
      · rw [later _ (short_range (i + 1)).2, Option.map_none]
      · rw [later _ (short_range (i + 1)).2, Option.map_none]

end Loop

/-! ## Whole lines -/

/-- The next point of a path is one further along the longer side and at most one across. -/
def Advances (given : Ends) (p q : Int × Int) : Prop :=
  if Steep given then q.2 = p.2 + 1 ∧ (q.1 - p.1).natAbs ≤ 1
  else q.1 = p.1 + 1 ∧ (q.2 - p.2).natAbs ≤ 1

def longer (given : Ends) : Nat :=
  max (given.x1 - given.x0).natAbs (given.y1 - given.y0).natAbs

/-- Zero on the line; across, a point is off by this over the longer side. -/
def deviation (given : Ends) (p : Int × Int) : Int :=
  (given.x1 - given.x0) * (p.2 - given.y0) - (given.y1 - given.y0) * (p.1 - given.x0)

structure IsLine (given : Ends) (plot : Plot) : Prop where
  count : plot.points.length = longer given + 1
  starts : (given.x0, given.y0) ∈ plot.points
  ends : (given.x1, given.y1) ∈ plot.points
  path : plot.points.IsChain (Advances given)
  near : ∀ p ∈ plot.points, 2 * (deviation given p).natAbs ≤ longer given
  fits : ∀ value ∈ plot.assigned, InShort value

/-- The longer side has 16 bits, its greater end is not the greatest number, and the step across
behind the last point, where the error term makes one, has 16 bits. -/
def LineOk (given : Ends) : Prop :=
  (orient given).x1 - (orient given).x0 ≤ 32767 ∧ (orient given).x1 < 32767 ∧
    ((orient given).x1 - (orient given).x0 <
        2 * ((orient given).y1 - (orient given).y0).natAbs →
      InShort ((orient given).y1 + ystep (orient given)))

structure Ends16 (ends : Ends) : Prop where
  x0 : InShort ends.x0
  y0 : InShort ends.y0
  x1 : InShort ends.x1
  y1 : InShort ends.y1

section Orient

variable (given : Ends)

/-- The point of a place along the longer side and one across. -/
def pointOf (i y : Int) : Int × Int := if Steep given then (y, i) else (i, y)

theorem orient_cases :
    (Steep given ∧ given.y0 > given.y1 ∧
        orient given = ⟨given.y1, given.x1, given.y0, given.x0⟩) ∨
      (Steep given ∧ given.y0 ≤ given.y1 ∧
        orient given = ⟨given.y0, given.x0, given.y1, given.x1⟩) ∨
      (¬ Steep given ∧ given.x0 > given.x1 ∧
        orient given = ⟨given.x1, given.y1, given.x0, given.y0⟩) ∨
      (¬ Steep given ∧ given.x0 ≤ given.x1 ∧ orient given = given) := by
  unfold orient
  by_cases steep : Steep given
  · simp only [if_pos steep]
    by_cases order : given.y0 > given.y1
    · exact Or.inl ⟨steep, order, if_pos order⟩
    · exact Or.inr (Or.inl ⟨steep, by omega, if_neg order⟩)
  · simp only [if_neg steep]
    by_cases order : given.x0 > given.x1
    · exact Or.inr (Or.inr (Or.inl ⟨steep, order, if_pos order⟩))
    · exact Or.inr (Or.inr (Or.inr ⟨steep, by omega, if_neg order⟩))

variable {given}

theorem Ends16.orient (inside : Ends16 given) : Ends16 (orient given) := by
  obtain ⟨x0, y0, x1, y1⟩ := inside
  rcases orient_cases given with ⟨-, -, isEnds⟩ | ⟨-, -, isEnds⟩ | ⟨-, -, isEnds⟩ | ⟨-, -, isEnds⟩ <;>
    rw [isEnds]
  · exact ⟨y1, x1, y0, x0⟩
  · exact ⟨y0, x0, y1, x1⟩
  · exact ⟨x1, y1, x0, y0⟩
  · exact ⟨x0, y0, x1, y1⟩

theorem orient_longer : (orient given).x1 - (orient given).x0 = longer given ∧
    (((orient given).y1 - (orient given).y0).natAbs : Int) ≤
      (orient given).x1 - (orient given).x0 := by
  unfold longer
  rcases orient_cases given with ⟨steep, order, isEnds⟩ | ⟨steep, order, isEnds⟩ |
    ⟨flat, order, isEnds⟩ | ⟨flat, order, isEnds⟩ <;> rw [isEnds]
  · unfold Steep at steep
    dsimp only
    omega
  · unfold Steep at steep
    dsimp only
    omega
  · unfold Steep at flat
    dsimp only
    omega
  · unfold Steep at flat
    omega

theorem orient_points :
    (pointOf given (orient given).x0 (orient given).y0 = (given.x0, given.y0) ∧
        pointOf given (orient given).x1 (orient given).y1 = (given.x1, given.y1)) ∨
      pointOf given (orient given).x0 (orient given).y0 = (given.x1, given.y1) ∧
        pointOf given (orient given).x1 (orient given).y1 = (given.x0, given.y0) := by
  unfold pointOf
  rcases orient_cases given with ⟨steep, -, isEnds⟩ | ⟨steep, -, isEnds⟩ | ⟨flat, -, isEnds⟩ |
    ⟨flat, -, isEnds⟩ <;> rw [isEnds]
  · rw [if_pos steep, if_pos steep]
    exact Or.inr ⟨rfl, rfl⟩
  · rw [if_pos steep, if_pos steep]
    exact Or.inl ⟨rfl, rfl⟩
  · rw [if_neg flat, if_neg flat]
    exact Or.inr ⟨rfl, rfl⟩
  · rw [if_neg flat, if_neg flat]
    exact Or.inl ⟨rfl, rfl⟩

theorem deviation_orient (i y : Int) :
    (deviation given (pointOf given i y)).natAbs = (deviation (orient given) (i, y)).natAbs := by
  unfold deviation pointOf
  rcases orient_cases given with ⟨steep, -, isEnds⟩ | ⟨steep, -, isEnds⟩ | ⟨flat, -, isEnds⟩ |
    ⟨flat, -, isEnds⟩ <;> rw [isEnds]
  · rw [if_pos steep]
    congr 1
    ring
  · rw [if_pos steep, ← Int.natAbs_neg]
    congr 1
    ring
  · rw [if_neg flat, ← Int.natAbs_neg]
    congr 1
    ring
  · rw [if_neg flat]

theorem ystep_sign (ends : Ends) : ystep ends = 1 ∨ ystep ends = -1 := by
  unfold ystep
  split
  · exact Or.inl rfl
  · exact Or.inr rfl

theorem ystep_mul (ends : Ends) : ystep ends * (ends.y1 - ends.y0).natAbs = ends.y1 - ends.y0 := by
  unfold ystep
  split <;> omega

theorem deviation_along {ends : Ends} {k n : Int} :
    deviation ends (ends.x0 + k, ends.y0 + ystep ends * n) =
      ystep ends * (n * (ends.x1 - ends.x0) - k * (ends.y1 - ends.y0).natAbs) := by
  have across := ystep_mul ends
  unfold deviation
  dsimp only
  generalize ((ends.y1 - ends.y0).natAbs : Int) = size at across ⊢
  rw [← across]
  ring

theorem advances_of_step {p q : Int × Int} (sign : ystep (orient given) = 1 ∨
      ystep (orient given) = -1) (step : q.1 = p.1 + 1 ∧ (q.2 = p.2 ∨ q.2 = p.2 + 1)) (x y : Int) :
    Advances given (pointOf given (x + p.1) (y + ystep (orient given) * p.2))
      (pointOf given (x + q.1) (y + ystep (orient given) * q.2)) := by
  obtain ⟨along, across⟩ := step
  generalize ystep (orient given) = step at *
  have near : (y + step * q.2 - (y + step * p.2)).natAbs ≤ 1 := by
    rcases sign with rfl | rfl <;> rcases across with same | next <;> omega
  unfold Advances pointOf
  by_cases steep : Steep given
  · simp only [if_pos steep]
    exact ⟨by omega, near⟩
  · simp only [if_neg steep]
    exact ⟨by omega, near⟩

theorem isLine_of_digital {offsets : List (Int × Int)} {assigned : List Int}
    (digital : Digital (longer given) ((orient given).y1 - (orient given).y0).natAbs 0 0 offsets)
    (fits : ∀ value ∈ assigned, InShort value) :
    IsLine given ⟨offsets.map fun o => pointOf given ((orient given).x0 + o.1)
      ((orient given).y0 + ystep (orient given) * o.2), assigned⟩ := by
  obtain ⟨length, first, last, chain, near⟩ := digital
  obtain ⟨size, -⟩ := @orient_longer given
  have sign := ystep_sign (orient given)
  have inPlot : ∀ o ∈ offsets, pointOf given ((orient given).x0 + o.1)
      ((orient given).y0 + ystep (orient given) * o.2) ∈ offsets.map fun o =>
        pointOf given ((orient given).x0 + o.1) ((orient given).y0 + ystep (orient given) * o.2) :=
    fun o inside => List.mem_map.mpr ⟨o, inside, rfl⟩
  have firstIn := inPlot _ (List.mem_of_mem_head? first)
  have lastIn := inPlot _ (List.mem_of_mem_getLast? last)
  have column : (orient given).x0 + longer given = (orient given).x1 := by omega
  have row : (orient given).y0 + ((orient given).y1 - (orient given).y0) = (orient given).y1 := by
    omega
  rw [Int.mul_zero, Int.add_zero, Int.add_zero] at firstIn
  rw [ystep_mul, column, row] at lastIn
  constructor
  · rw [List.length_map]
    omega
  · rcases @orient_points given with ⟨same, -⟩ | ⟨-, same⟩
    · rw [← same]
      exact firstIn
    · rw [← same]
      exact lastIn
  · rcases @orient_points given with ⟨-, same⟩ | ⟨same, -⟩
    · rw [← same]
      exact lastIn
    · rw [← same]
      exact firstIn
  · exact (List.isChain_map _).mpr
      (chain.imp fun _ _ step => advances_of_step sign step _ _)
  · intro p member
    obtain ⟨o, inside, rfl⟩ := List.mem_map.mp member
    obtain ⟨low, high⟩ := near o inside
    rw [deviation_orient, deviation_along, Int.natAbs_mul, size]
    have one : (ystep (orient given)).natAbs = 1 := by
      rcases sign with same | same <;> rw [same] <;> rfl
    rw [one, Nat.one_mul]
    omega
  · exact fits

theorem drawable_of (inside : Ends16 given)
    (narrow : (orient given).x1 - (orient given).x0 ≤ 32767) (right : (orient given).x1 < 32767) :
    Drawable (orient given).x0 (orient given).y0 (longer given)
      ((orient given).y1 - (orient given).y0).natAbs (ystep (orient given)) := by
  obtain ⟨left, top, -, bottom⟩ := inside.orient
  obtain ⟨size, flat⟩ := @orient_longer given
  refine ⟨left.1, by omega, ⟨by omega, by omega⟩, by omega, ystep_sign _, top, ?_⟩
  rw [ystep_mul, add_sub_cancel]
  exact bottom

theorem plotLine_digital (inside : Ends16 given)
    (narrow : (orient given).x1 - (orient given).x0 ≤ 32767) (right : (orient given).x1 < 32767) :
    ∃ offsets assigned,
      plotLine given = some ⟨offsets.map fun o => pointOf given ((orient given).x0 + o.1)
        ((orient given).y0 + ystep (orient given) * o.2), assigned⟩ ∧
      Digital (longer given) ((orient given).y1 - (orient given).y0).natAbs 0 0 offsets ∧
      ((∀ value ∈ assigned, InShort value) ↔
        ((orient given).x1 - (orient given).x0 <
            2 * ((orient given).y1 - (orient given).y0).natAbs →
          InShort ((orient given).y1 + ystep (orient given)))) := by
  have line := drawable_of inside narrow right
  obtain ⟨size, flat⟩ := @orient_longer given
  have isDx : InShort (longer given) := ⟨by omega, by omega⟩
  have isDy : InShort ((orient given).y1 - (orient given).y0).natAbs := ⟨by omega, by omega⟩
  have isHalf : InShort ((longer given : Int) / 2) := ⟨by omega, by omega⟩
  have half : Int.tdiv (longer given) 2 = (longer given : Int) / 2 :=
    Int.tdiv_eq_ediv_of_nonneg (by omega)
  have error : Error (longer given) ((orient given).y1 - (orient given).y0).natAbs 0 0
      ((longer given : Int) / 2) := ⟨by omega, by omega, by omega⟩
  have rounds : longer given + 2 ≤ SHORT_ROUNDS := by
    unfold SHORT_ROUNDS
    omega
  obtain ⟨offsets, assigned, plotted, digital, fits⟩ := plotLoop_digital (pointOf given) line
    (longer given) 0 0 _ SHORT_ROUNDS (by omega) (by omega) (by omega) error (fun _ => rfl) rounds
  have column : (orient given).x0 + longer given = (orient given).x1 := by omega
  have row : (orient given).y0 +
      ystep (orient given) * (((orient given).y1 - (orient given).y0).natAbs + 1) =
        (orient given).y1 + ystep (orient given) := by
    rw [Int.mul_add, ystep_mul]
    omega
  rw [column, Int.mul_zero, Int.add_zero, Int.add_zero] at plotted
  rw [row] at fits
  refine ⟨offsets, [(orient given).x1 - (orient given).x0,
    (((orient given).y1 - (orient given).y0).natAbs : Int), Int.tdiv (longer given) 2] ++ assigned,
    ?_, digital, ?_⟩
  · unfold plotLine
    dsimp only
    rw [size, isDx.short, isDy.short, half]
    exact congrArg _ plotted
  · rw [List.forall_mem_append, fits, half, size]
    simp only [List.forall_mem_cons, isDx, isDy, isHalf, true_and, List.not_mem_nil,
      false_implies, implies_true]

theorem plotLine_none (inside : Ends16 given) (far : 32767 ≤ (orient given).x1) :
    plotLine given = none := by
  unfold plotLine
  dsimp only
  exact congrArg _ (plotLoop_none (pointOf given) far SHORT_ROUNDS _ inside.orient.x0.2)

theorem plotLine_narrow {plot : Plot} (plotted : plotLine given = some plot)
    (fits : ∀ value ∈ plot.assigned, InShort value) :
    (orient given).x1 - (orient given).x0 ≤ 32767 := by
  obtain ⟨rest, -, rfl⟩ := Option.map_eq_some_iff.mp plotted
  exact (fits _ List.mem_cons_self).2

end Orient

/-- A line is drawn, with values of 16 bits throughout, just when its longer side and its ends
leave room for the loop. -/
theorem line_iff (x0 y0 x1 y1 : Int) :
    (∃ plot, plotLine ⟨short x0, short y0, short x1, short y1⟩ = some plot ∧
        IsLine ⟨short x0, short y0, short x1, short y1⟩ plot) ↔
      LineOk ⟨short x0, short y0, short x1, short y1⟩ := by
  have inside : Ends16 ⟨short x0, short y0, short x1, short y1⟩ :=
    ⟨short_range x0, short_range y0, short_range x1, short_range y1⟩
  generalize (⟨short x0, short y0, short x1, short y1⟩ : Ends) = given at *
  constructor
  · rintro ⟨plot, plotted, isLine⟩
    have narrow := plotLine_narrow plotted isLine.fits
    have right : (orient given).x1 < 32767 := by
      by_contra far
      rw [plotLine_none inside (by omega)] at plotted
      cases plotted
    obtain ⟨offsets, assigned, same, -, fits⟩ := plotLine_digital inside narrow right
    rw [plotted] at same
    cases same
    exact ⟨narrow, right, fits.mp isLine.fits⟩
  · rintro ⟨narrow, right, room⟩
    obtain ⟨offsets, assigned, plotted, digital, fits⟩ := plotLine_digital inside narrow right
    exact ⟨_, plotted, isLine_of_digital digital (fits.mpr room)⟩

/-- A counter of 16 bits is never greater than the last column. -/
theorem last_column_endless :
    ¬ ∀ x0 y0 x1 y1 : Int,
      ∃ plot, plotLine ⟨short x0, short y0, short x1, short y1⟩ = some plot ∧
        IsLine ⟨short x0, short y0, short x1, short y1⟩ plot := by
  intro all
  obtain ⟨plot, plotted, -⟩ := all 0 0 32767 0
  have inside : Ends16 ⟨short 0, short 0, short 32767, short 0⟩ :=
    ⟨short_range 0, short_range 0, short_range 32767, short_range 0⟩
  rw [plotLine_none inside (by decide)] at plotted
  cases plotted

end OrionBios.Graphics
