import OrionBios.Graphics.Primitives

/-!
# Accesses inside the framebuffer and the tables

When each primitive ends with all its accesses inside. Pixels are clipped one by one; lines and
rectangles only at the right and at the bottom, so that what they lack is a condition on the first
byte.
-/

namespace OrionBios.Graphics

def Access.Inside : Access → Prop
  | .nibble index _ _ => 0 ≤ index ∧ index < TXCOUNT
  | .fill start len _ => 0 ≤ start ∧ start + len ≤ TXCOUNT
  | .copy dest src len => 0 ≤ dest ∧ dest + len ≤ TXCOUNT ∧ 0 ≤ src ∧ src + len ≤ TXCOUNT
  | .glyph font place => place < font.dataSize

def Inside (accesses : List Access) : Prop := ∀ access ∈ accesses, access.Inside

@[simp] theorem inside_nil : Inside [] := List.forall_mem_nil _

@[simp] theorem inside_cons {access : Access} {rest : List Access} :
    Inside (access :: rest) ↔ access.Inside ∧ Inside rest := List.forall_mem_cons

@[simp] theorem inside_append {first second : List Access} :
    Inside (first ++ second) ↔ Inside first ∧ Inside second := List.forall_mem_append

theorem inside_flatMap {α : Type} {items : List α} {f : α → List Access} :
    Inside (items.flatMap f) ↔ ∀ item ∈ items, Inside (f item) := by
  simp only [Inside, List.mem_flatMap]
  constructor
  · exact fun all item present access within => all access ⟨item, present, within⟩
  · rintro all access ⟨item, present, within⟩
    exact all item present access within

def EndsInside (result : Option (List Access)) : Prop :=
  ∃ accesses, result = some accesses ∧ Inside accesses

@[simp] theorem endsInside_some {accesses : List Access} :
    EndsInside (some accesses) ↔ Inside accesses := by
  constructor
  · rintro ⟨_, same, inside⟩
    cases same
    exact inside
  · exact fun inside => ⟨accesses, rfl, inside⟩

theorem sequence_endsInside_iff (calls : List (Option (List Access))) :
    EndsInside (sequence calls) ↔ ∀ call ∈ calls, EndsInside call := by
  induction calls with
  | nil => simp [sequence]
  | cons call rest inductionHypothesis =>
    rw [List.forall_mem_cons, ← inductionHypothesis]
    cases call with
    | none => simp [sequence, EndsInside]
    | some accesses =>
      cases others : sequence rest with
      | none => simp [sequence, EndsInside, others]
      | some otherAccesses => simp [sequence, others]

/-! ## Sizes -/

theorem ScreenMode.size (mode : ScreenMode) :
    mode.width = 320 ∧ mode.height = 240 ∨ mode.width = 640 ∧ mode.height = 480 := by
  cases mode <;> decide

theorem Screen.size (s : Screen) :
    s.width = 320 ∧ s.height = 240 ∨ s.width = 640 ∧ s.height = 480 := s.mode.size

theorem short_range (n : Int) : -32768 ≤ short n ∧ short n ≤ 32767 := by
  unfold short
  omega

theorem short_of_range {n : Int} (lower : -32768 ≤ n) (upper : n ≤ 32767) : short n = n := by
  unfold short
  omega

/-- The numbers of 16 bits. -/
def InShort (n : Int) : Prop := -32768 ≤ n ∧ n ≤ 32767

theorem InShort.short {n : Int} (inside : InShort n) : short n = n :=
  short_of_range inside.1 inside.2

/-! ## Pixels and lines -/

@[simp] theorem drawPixel_inside (s : Screen) (x y : Int) (color : Byte) :
    Inside (drawPixel s x y color) := by
  unfold drawPixel
  dsimp only
  split
  · exact inside_nil
  next within =>
    rw [inside_cons]
    refine ⟨?_, inside_nil⟩
    generalize short x = column at *
    generalize short y = row at *
    change 0 ≤ _ ∧ _ < 153600
    rcases s.size with ⟨width, height⟩ | ⟨width, height⟩ <;> rw [width] at within ⊢ <;> omega

def lineLen (s : Screen) (x w : Int) : Int :=
  ((if x + w - 1 ≥ s.width then s.width - x - 1 else w) - x % 2) / 2

/-- The first of them. -/
def lineStart (x y : Int) : Int := 320 * y + (x + x % 2) / 2

/-- A line that fills bytes begins inside the framebuffer. -/
def LineInside (s : Screen) (x y w : Int) : Prop :=
  x < s.width → y < s.height → 0 < lineLen s x w → 0 ≤ lineStart x y

theorem clippedPixel_inside {condition : Prop} [Decidable condition] (s : Screen) (x y : Int)
    (color : Byte) : Inside (if condition then drawPixel s x y color else []) := by
  split
  · exact drawPixel_inside s x y color
  · exact inside_nil

/-- A line of so many bytes is inside when its first byte is. -/
theorem line_fits {s : Screen} (x : Int) {y : Int} (w : Int) (top : y < s.height) :
    lineStart x y + lineLen s x w ≤ TXCOUNT := by
  change _ ≤ 153600
  have clipped : x + (if x + w - 1 ≥ s.width then s.width - x - 1 else w) ≤ s.width := by
    split <;> omega
  unfold lineStart lineLen at *
  generalize (if x + w - 1 ≥ s.width then s.width - x - 1 else w) = width at *
  rcases s.size with ⟨wide, high⟩ | ⟨wide, high⟩ <;> rw [wide] at clipped <;> rw [high] at top <;>
    omega

theorem drawHLine_eq {s : Screen} {x y : Int} (left : x < s.width) (top : y < s.height) (w : Int)
    (color : Byte) :
    ∃ pixels, Inside pixels ∧ drawHLine s x y w color = pixels ++
      if 0 < lineLen s x w then
        [.fill (lineStart x y) (lineLen s x w).toNat (color ||| (color <<< 4))] else [] := by
  have visible : ¬(x ≥ s.width ∨ y ≥ s.height) := by omega
  have fits : y < 480 := by
    rcases s.size with ⟨-, high⟩ | ⟨-, high⟩ <;> rw [high] at top <;> omega
  rw [drawHLine, if_neg visible]
  dsimp only
  generalize clippedIs : (if x + w - 1 ≥ s.width then s.width - x - 1 else w) = clipped
  have len : (if (if x % 2 = 1 then clipped - 1 else clipped) % 2 = 1
      then (if x % 2 = 1 then clipped - 1 else clipped) - 1
      else if x % 2 = 1 then clipped - 1 else clipped) / 2 = lineLen s x w := by
    rw [lineLen, clippedIs]
    split <;> split <;> omega
  have start : 320 * y + (if x % 2 = 1 then x + 1 else x) / 2 = lineStart x y := by
    unfold lineStart
    split <;> omega
  rw [len, start]
  have filled : (lineLen s x w > 0 ∧ y < 480) ↔ 0 < lineLen s x w := by omega
  simp only [filled]
  refine ⟨_, ?_, rfl⟩
  rw [inside_append]
  exact ⟨clippedPixel_inside s _ _ _, clippedPixel_inside s _ _ _⟩

theorem drawHLine_inside_iff (s : Screen) (x y w : Int) (color : Byte) :
    Inside (drawHLine s x y w color) ↔ LineInside s x y w := by
  by_cases visible : x < s.width ∧ y < s.height
  · obtain ⟨left, top⟩ := visible
    obtain ⟨pixels, inside, line⟩ := drawHLine_eq left top w color
    rw [line, inside_append, LineInside]
    by_cases filled : 0 < lineLen s x w
    · have fits := line_fits x w top
      simp only [filled, inside, left, top, if_true, inside_cons, inside_nil, Access.Inside,
        true_and, and_true, true_implies]
      omega
    · simp only [filled, inside, left, top, if_false, inside_nil, false_implies, true_and,
        implies_true]
  · have hidden : x ≥ s.width ∨ y ≥ s.height := by omega
    rw [drawHLine, if_pos hidden]
    exact iff_of_true inside_nil fun left top => absurd ⟨left, top⟩ visible

/-- A line from the left edge on or right of it, in the first row or below. -/
theorem lineInside_of_nonneg {s : Screen} {x y : Int} (left : 0 ≤ x) (top : 0 ≤ y) (w : Int) :
    LineInside s x y w := by
  intro _ _ _
  unfold lineStart
  omega

/-- A rectangle that fills bytes begins inside the framebuffer. -/
def RectInside (s : Screen) (x y w h : Int) : Prop :=
  0 < short h → LineInside s (short x) (short y) (short w)

theorem fillRect_inside_iff (s : Screen) (x y w h : Int) (color : Byte) :
    Inside (fillRect s x y w h color) ↔ RectInside s x y w h := by
  unfold fillRect RectInside
  generalize short x = x
  generalize short y = y
  generalize short w = w
  generalize short h = h
  by_cases hidden : x ≥ s.width ∨ y ≥ s.height
  · rw [if_pos hidden]
    refine iff_of_true inside_nil fun _ left top => ?_
    omega
  · rw [if_neg hidden, inside_flatMap]
    simp only [drawHLine_inside_iff, List.mem_range]
    constructor
    · intro all tall
      have first := all 0 (by omega)
      rwa [Nat.cast_zero, Int.add_zero] at first
    · intro first row below left top filled
      have start := first (by omega) left (by omega) filled
      unfold lineStart at start ⊢
      omega

/-! ## Loops on short counters -/

theorem forShort_none {σ : Type} {limit : Int} (far : 32768 ≤ limit)
    (body : Int → σ → σ × List Access) (rounds : Nat) :
    ∀ {i : Int} (state : σ), i ≤ 32767 → forShort limit body rounds i state = none := by
  induction rounds with
  | zero => exact fun _ _ => rfl
  | succ rounds inductionHypothesis =>
    intro i state upper
    rw [forShort, if_pos (by omega)]
    dsimp only
    rw [inductionHypothesis _ (short_range (i + 1)).2, Option.map_none]

theorem forShort_some {σ : Type} {limit : Int} (near : limit ≤ 32767)
    {body : Int → σ → σ × List Access} (inside : ∀ i state, Inside (body i state).2)
    (rounds : Nat) :
    ∀ {i : Int} (state : σ), -32768 ≤ i → limit - i ≤ rounds →
      EndsInside (forShort limit body (rounds + 1) i state) := by
  have ended : ∀ {i : Int} (rounds : Nat) (state : σ), ¬i < limit →
      EndsInside (forShort limit body (rounds + 1) i state) := by
    intro i rounds state past
    rw [forShort, if_neg past]
    exact endsInside_some.mpr inside_nil
  induction rounds with
  | zero =>
    intro i state _ enough
    exact ended 0 state (by omega)
  | succ rounds inductionHypothesis =>
    intro i state lower enough
    by_cases running : i < limit
    · have next : short (i + 1) = i + 1 := short_of_range (by omega) (by omega)
      have later : limit - (i + 1) ≤ rounds := by omega
      obtain ⟨rest, others, restInside⟩ :=
        inductionHypothesis (body i state).1 (by omega) later
      rw [forShort, if_pos running]
      dsimp only
      rw [next, others]
      exact endsInside_some.mpr (inside_append.mpr ⟨inside i state, restInside⟩)
    · exact ended (rounds + 1) state running

theorem forShort_endsInside_iff {σ : Type} (limit : Int) {body : Int → σ → σ × List Access}
    (inside : ∀ i state, Inside (body i state).2) {i : Int} (state : σ) (lower : -32768 ≤ i)
    (upper : i ≤ 32767) :
    EndsInside (forShort limit body SHORT_ROUNDS i state) ↔ limit ≤ 32767 := by
  by_cases near : limit ≤ 32767
  · refine iff_of_true (forShort_some near inside 65536 state lower ?_) near
    omega
  · refine iff_of_false ?_ near
    rintro ⟨_, ended, -⟩
    rw [forShort_none (by omega) body SHORT_ROUNDS state upper] at ended
    cases ended

def VLineEnds (y h : Int) : Prop := short y + short h ≤ 32767

theorem drawVLine_endsInside_iff (s : Screen) (x y h : Int) (color : Byte) :
    EndsInside (drawVLine s x y h color) ↔ VLineEnds y h :=
  forShort_endsInside_iff _ (fun _ _ => drawPixel_inside s _ _ color) ()
    (short_range y).1 (short_range y).2

def lineEnd (x0 y0 x1 y1 : Int) : Int :=
  if (short y1 - short y0).natAbs > (short x1 - short x0).natAbs then max (short y0) (short y1)
  else max (short x0) (short x1)

theorem drawLine_endsInside_iff (s : Screen) (x0 y0 x1 y1 : Int) (color : Byte) :
    EndsInside (drawLine s x0 y0 x1 y1 color) ↔ lineEnd x0 y0 x1 y1 < 32767 := by
  have rangeX0 := short_range x0
  have rangeX1 := short_range x1
  have rangeY0 := short_range y0
  have rangeY1 := short_range y1
  unfold drawLine lineEnd
  generalize short x0 = x0 at *
  generalize short y0 = y0 at *
  generalize short x1 = x1 at *
  generalize short y1 = y1 at *
  by_cases steep : (y1 - y0).natAbs > (x1 - x0).natAbs
  · simp only [steep, if_true]
    by_cases order : y0 > y1
    · simp only [order, if_true]
      rw [forShort_endsInside_iff _ (fun i state => drawPixel_inside s _ _ color) _ (by omega)
        (by omega)]
      omega
    · simp only [order, if_false]
      rw [forShort_endsInside_iff _ (fun i state => drawPixel_inside s _ _ color) _ (by omega)
        (by omega)]
      omega
  · simp only [steep, if_false]
    by_cases order : x0 > x1
    · simp only [order, if_true]
      rw [forShort_endsInside_iff _ (fun i state => drawPixel_inside s _ _ color) _ (by omega)
        (by omega)]
      omega
    · simp only [order, if_false]
      rw [forShort_endsInside_iff _ (fun i state => drawPixel_inside s _ _ color) _ (by omega)
        (by omega)]
      omega

/-! ## Circles -/

theorem octantLoop_some (rounds : Nat) :
    ∀ {o : Octant}, 0 ≤ o.x → o.x ≤ 32767 → o.y ≤ 32767 → o.y - o.x ≤ rounds →
      ∃ points, octantLoop (rounds + 1) o = some points := by
  have ended : ∀ (rounds : Nat) {o : Octant}, ¬o.x < o.y →
      ∃ points, octantLoop (rounds + 1) o = some points := by
    intro rounds o past
    exact ⟨[], by rw [octantLoop, if_neg past]⟩
  induction rounds with
  | zero => exact fun _ _ _ enough => ended 0 (by omega)
  | succ rounds inductionHypothesis =>
    intro o lower upperX upperY enough
    by_cases running : o.x < o.y
    · have nextX : o.next.x = o.x + 1 := by
        have same : o.next.x = short (o.x + 1) := by
          unfold Octant.next
          split <;> rfl
        rw [same, short_of_range (by omega) (by omega)]
      have nextY : o.next.y ≤ o.y := by
        unfold Octant.next
        split
        · change short (o.y - 1) ≤ o.y
          rw [short_of_range (by omega) (by omega)]
          omega
        · exact Int.le_refl _
      have later : o.next.y - o.next.x ≤ rounds := by omega
      obtain ⟨points, others⟩ :=
        inductionHypothesis (by omega) (by omega) (by omega) later
      exact ⟨_, by rw [octantLoop, if_pos running, others]; rfl⟩
    · exact ended (rounds + 1) running

theorem octantPoints_some (r : Int) : ∃ points, octantPoints (short r) = some points := by
  have range := short_range r
  exact octantLoop_some 65536 (Int.le_refl 0) (show (0 : Int) ≤ 32767 by decide) range.2 (by
    change short r - 0 ≤ 65536
    omega)

theorem drawCircle_endsInside (s : Screen) (x0 y0 r : Int) (color : Byte) :
    EndsInside (drawCircle s x0 y0 r color) := by
  obtain ⟨points, visited⟩ := octantPoints_some r
  unfold drawCircle
  dsimp only
  rw [visited, Option.map_some, endsInside_some]
  simp only [inside_append, inside_flatMap, drawPixel_inside, and_self, implies_true]

theorem drawCircleHelper_endsInside (s : Screen) (x0 y0 r cornername : Int) (color : Byte) :
    EndsInside (drawCircleHelper s x0 y0 r cornername color) := by
  obtain ⟨points, visited⟩ := octantPoints_some r
  have quarter : ∀ (condition : Bool) (x y x' y' : Int),
      Inside (if condition then drawPixel s x y color ++ drawPixel s x' y' color else []) := by
    intro condition x y x' y'
    split
    · simp
    · exact inside_nil
  unfold drawCircleHelper
  dsimp only
  rw [visited, Option.map_some, endsInside_some]
  simp only [inside_append, inside_flatMap, quarter, and_self, implies_true]

/-- Every line of a filled circle is inside. -/
def CircleInside (s : Screen) (x0 y0 r : Int) : Prop :=
  0 ≤ short y0 - short r → short y0 + short r ≤ 479 → ∀ i : Nat, (i : Int) ≤ short r →
    LineInside s (short x0 - halfWidth (short r) i) (short y0 + i) (2 * halfWidth (short r) i) ∧
    LineInside s (short x0 - halfWidth (short r) i) (short y0 - i) (2 * halfWidth (short r) i)

theorem fillCircle_inside_iff (s : Screen) (x0 y0 r : Int) (color : Byte) :
    Inside (fillCircle s x0 y0 r color) ↔ CircleInside s x0 y0 r := by
  unfold fillCircle CircleInside
  generalize short x0 = x0
  generalize short y0 = y0
  generalize short r = r
  by_cases hidden : y0 - r < 0 ∨ y0 + r > 479
  · rw [if_pos hidden]
    refine iff_of_true inside_nil fun above below => ?_
    omega
  · rw [if_neg hidden, inside_flatMap]
    simp only [inside_append, drawHLine_inside_iff, List.mem_range]
    constructor
    · exact fun all _ _ i within => all i (by omega)
    · exact fun all i within => all (by omega) (by omega) i (by omega)

/-- Every vertical line of the helper ends. -/
def HelperEnds (x0 y0 r cornername delta : Int) : Prop :=
  ∀ points, octantPoints (short r) = some points → ∀ point ∈ points,
    ∀ line ∈ helperLines (short x0) (short y0) cornername (short delta) point.1 point.2,
      VLineEnds line.2.1 line.2.2

theorem fillCircleHelper_endsInside_iff (s : Screen) (x0 y0 r cornername delta : Int)
    (color : Byte) :
    EndsInside (fillCircleHelper s x0 y0 r cornername delta color) ↔
      HelperEnds x0 y0 r cornername delta := by
  obtain ⟨points, visited⟩ := octantPoints_some r
  unfold fillCircleHelper HelperEnds
  rw [visited]
  change EndsInside (sequence _) ↔ _
  rw [sequence_endsInside_iff]
  simp only [List.mem_map, List.mem_flatMap, Option.some.injEq, forall_eq']
  constructor
  · intro all point present line drawn
    have ended := all _ ⟨line, ⟨point, present, drawn⟩, rfl⟩
    exact (drawVLine_endsInside_iff s _ _ _ color).mp ended
  · rintro all _ ⟨line, ⟨point, present, drawn⟩, rfl⟩
    exact (drawVLine_endsInside_iff s _ _ _ color).mpr (all point present line drawn)

/-! ## Rectangles with round corners -/

/-- The four sides of a round rectangle. -/
def RoundRectEnds (s : Screen) (x y w h r : Int) : Prop :=
  LineInside s (short x + short r) (short y) (short w - 2 * short r) ∧
  LineInside s (short x + short r) (short y + short h - 1) (short w - 2 * short r) ∧
  VLineEnds (short y + short r) (short h - 2 * short r)

theorem drawRoundRect_endsInside_iff (s : Screen) (x y w h r : Int) (color : Byte) :
    EndsInside (drawRoundRect s x y w h r color) ↔ RoundRectEnds s x y w h r := by
  unfold drawRoundRect RoundRectEnds
  dsimp only
  rw [sequence_endsInside_iff]
  simp only [List.forall_mem_cons, endsInside_some, drawHLine_inside_iff,
    drawVLine_endsInside_iff, drawCircleHelper_endsInside]
  tauto

/-- The three rectangles and the four circles of a filled round rectangle. -/
def RoundRectInside (s : Screen) (x y w h r : Int) : Prop :=
  let x := short x
  let y := short y
  let w := short w
  let h := short h
  let r := short r
  (RectInside s x (y + r) w (h - 2 * r) ∧ RectInside s (x + r) y (w - 2 * r) r ∧
    RectInside s (x + r) (y + h - r) (w - 2 * r) r) ∧
  CircleInside s (x + w - r) (y + r) (r - 1) ∧ CircleInside s (x + r) (y + r) (r - 1) ∧
  CircleInside s (x + w - r) (y + h - r) (r - 1) ∧ CircleInside s (x + r) (y + h - r) (r - 1)

theorem fillRoundRect_inside_iff (s : Screen) (x y w h r : Int) (color : Byte) :
    Inside (fillRoundRect s x y w h r color) ↔ RoundRectInside s x y w h r := by
  unfold fillRoundRect RoundRectInside
  simp only [inside_append, fillRect_inside_iff, fillCircle_inside_iff]
  tauto

end OrionBios.Graphics
