import OrionBios.Graphics.Painting
import Mathlib.Tactic.Linarith

/-!
# Horizontal lines against single pixels

`drawHLine` fills whole bytes between the pixels at its ends. It clips at the right only, keeps the
last column of the screen free when it does, and counts 320 bytes for every row.
-/

namespace OrionBios.Graphics

/-! ## Pixel by pixel -/

def drawHLinePixels (s : Screen) (x y w : Int) (color : Byte) : List Access :=
  (List.range w.toNat).flatMap fun (k : Nat) => drawPixel s (x + k) y color

def fillRectPixels (s : Screen) (x y w h : Int) (color : Byte) : List Access :=
  (List.range h.toNat).flatMap fun (j : Nat) => drawHLinePixels s x (y + j) w color

/-- Where `drawPixel` finds its arguments on the screen, which it takes as numbers of 16 bits. -/
def OnScreen (s : Screen) (x y : Int) : Prop :=
  (0 ≤ short x ∧ short x < s.width) ∧ 0 ≤ short y ∧ short y < s.height

instance (s : Screen) (x y : Int) : Decidable (OnScreen s x y) :=
  inferInstanceAs (Decidable ((_ ∧ _) ∧ _ ∧ _))

/-! ## The cases -/

/-- The sums of `drawHLine` are numbers of 32 bits. -/
def SumsFit (x w : Int) : Prop :=
  (-2147483648 ≤ x + w - 1 ∧ x + w ≤ 2147483647) ∧ ¬ (x % 2 = 1 ∧ w = -2147483648)

structure LineEquals (s : Screen) (x y w : Int) (c : BitVec 4) : Prop where
  defined : x < s.width → y < s.height → SumsFit x w
  same : ∀ frame : Frame, frame.accesses (drawHLine s x y w (colorByte c)) =
    frame.accesses (drawHLinePixels s x y w (colorByte c))

structure RectEquals (s : Screen) (x y w h : Int) (c : BitVec 4) : Prop where
  same : ∀ frame : Frame, frame.accesses (fillRect s x y w h (colorByte c)) =
    frame.accesses (fillRectPixels s (short x) (short y) (short w) (short h) (colorByte c))

/-- A line that begins right of the screen or below it is not drawn, so none of its pixels may come
back to the screen. Without pixels, the two at its ends that are drawn nevertheless have to be
outside; with some, the line has to end on the screen or be above it; and with bytes to fill it has
to begin on the screen as well, in the first row if the rows have 160 bytes. -/
def LineFits (s : Screen) (x y w : Int) : Prop :=
  if x ≥ s.width ∨ y ≥ s.height then ∀ p, x ≤ p → p < x + w → ¬ OnScreen s p y
  else SumsFit x w ∧
    if w ≤ 0 then
      (x % 2 = 1 → ¬ OnScreen s x y) ∧ ((x + w) % 2 = 1 → ¬ OnScreen s (x + w - 1) y)
    else if lineLen s x w ≤ 0 then
      x + w ≤ s.width ∨ short y < 0 ∨ s.height ≤ short y
    else 0 ≤ y ∧ -1 ≤ x ∧ x + w ≤ s.width ∧ (s.width = 640 ∨ y = 0)

/-- The same for the rows of a rectangle. -/
def RectFits (s : Screen) (x y w h : Int) : Prop :=
  if x ≥ s.width ∨ y ≥ s.height ∨ h ≤ 0 then True
  else if w ≤ 0 then
    ∀ row, y ≤ row → row < y + h → row < s.height →
      (x % 2 = 1 → ¬ OnScreen s x row) ∧ ((x + w) % 2 = 1 → ¬ OnScreen s (x + w - 1) row)
  else if lineLen s x w ≤ 0 then x + w ≤ s.width ∨ y + h ≤ 0
  else 0 ≤ y ∧ -1 ≤ x ∧ x + w ≤ s.width ∧ (s.width = 640 ∨ y = 0 ∧ h = 1)

/-! ## What is painted -/

variable {s : Screen} {x y w h place : Int} {c : BitVec 4}

def PixelAt (s : Screen) (x y place : Int) : Prop :=
  OnScreen s x y ∧ place = s.width * short y + short x

theorem paints_drawPixel :
    PaintsAt (drawPixel s x y (colorByte c)) place ↔ PixelAt s x y place := by
  unfold drawPixel PixelAt OnScreen
  dsimp only
  generalize short x = column
  generalize short y = row
  split
  next outside => exact iff_of_false paints_nil (by omega)
  next within =>
    have inside : (0 ≤ column ∧ column < s.width) ∧ 0 ≤ row ∧ row < s.height := by omega
    generalize s.width * row + column = pixel
    rw [paints_cons, Access.Paints, and_iff_right inside, or_iff_left paints_nil]
    by_cases odd : pixel % 2 = 1
    · rw [odd, beq_self_eq_true, if_pos rfl]
      omega
    · rw [beq_false_of_ne odd, if_neg Bool.false_ne_true]
      omega

theorem colored_drawPixel : Colored c (drawPixel s x y (colorByte c)) := by
  intro access member
  unfold drawPixel at member
  dsimp only at member
  split at member
  · cases member
  · rw [List.mem_singleton.mp member]
    rfl

/-- The width that is left after clipping. -/
def shown (s : Screen) (x w : Int) : Int := if x + w - 1 ≥ s.width then s.width - x - 1 else w

structure Filled (s : Screen) (x y w place : Int) : Prop where
  start : 2 * lineStart x y ≤ place
  stop : place < 2 * (lineStart x y + lineLen s x w)

/-- What a line paints: a pixel at an end that shares its byte, and the bytes between. -/
def LinePaints (s : Screen) (x y w place : Int) : Prop :=
  (x % 2 = 1 ∧ PixelAt s x y place) ∨
    ((x + shown s x w) % 2 = 1 ∧ PixelAt s (x + shown s x w - 1) y place) ∨
    Filled s x y w place

theorem paints_ite {condition : Prop} [Decidable condition] {accesses : List Access} :
    PaintsAt (if condition then accesses else []) place ↔ condition ∧ PaintsAt accesses place := by
  by_cases holds : condition
  · rw [if_pos holds, and_iff_right holds]
  · rw [if_neg holds]
    exact iff_of_false paints_nil fun both => holds both.1

theorem drawHLine_visible (left : x < s.width) (top : y < s.height) :
    drawHLine s x y w (colorByte c) =
      (if x % 2 = 1 then drawPixel s x y (colorByte c) else []) ++
        (if (x + shown s x w) % 2 = 1 then
          drawPixel s (x + shown s x w - 1) y (colorByte c) else []) ++
        if 0 < lineLen s x w then
          [.fill (lineStart x y) (lineLen s x w).toNat (colorByte c ||| (colorByte c <<< 4))]
        else [] := by
  have visible : ¬(x ≥ s.width ∨ y ≥ s.height) := by omega
  have fits : y < 480 := by
    rcases s.size with ⟨-, high⟩ | ⟨-, high⟩ <;> rw [high] at top <;> omega
  rw [drawHLine, if_neg visible]
  unfold lineLen lineStart shown
  dsimp only
  generalize (if x + w - 1 ≥ s.width then s.width - x - 1 else w) = width
  by_cases odd : x % 2 = 1
  · have parity : (x + width) % 2 = 1 ↔ (width - 1) % 2 = 1 := by omega
    have pixel : x + 1 + (width - 1) - 1 = x + width - 1 := by omega
    have start : (x + x % 2) / 2 = (x + 1) / 2 := by omega
    simp only [if_pos odd, parity, pixel, start]
    by_cases loner : (width - 1) % 2 = 1
    · have len : (width - 1 - 1) / 2 = (width - x % 2) / 2 := by omega
      simp only [if_pos loner, len, fits, and_true, gt_iff_lt]
    · have len : (width - 1) / 2 = (width - x % 2) / 2 := by omega
      simp only [if_neg loner, len, fits, and_true, gt_iff_lt]
  · have parity : (x + width) % 2 = 1 ↔ width % 2 = 1 := by omega
    have start : (x + x % 2) / 2 = x / 2 := by omega
    simp only [if_neg odd, parity, start]
    by_cases loner : width % 2 = 1
    · have len : (width - 1) / 2 = (width - x % 2) / 2 := by omega
      simp only [if_pos loner, len, fits, and_true, gt_iff_lt]
    · have len : width / 2 = (width - x % 2) / 2 := by omega
      simp only [if_neg loner, len, fits, and_true, gt_iff_lt]

theorem paints_drawHLine (left : x < s.width) (top : y < s.height) :
    PaintsAt (drawHLine s x y w (colorByte c)) place ↔ LinePaints s x y w place := by
  rw [drawHLine_visible left top, paints_append, paints_append, paints_ite, paints_ite, paints_ite,
    paints_drawPixel, paints_drawPixel, paints_cons, or_iff_left paints_nil, LinePaints, or_assoc,
    Access.Paints]
  have filled : 0 < lineLen s x w ∧ 2 * lineStart x y ≤ place ∧
      place < 2 * (lineStart x y + (lineLen s x w).toNat) ↔ Filled s x y w place := by
    constructor
    · rintro ⟨some, start, stop⟩
      exact ⟨start, by omega⟩
    · rintro ⟨start, stop⟩
      exact ⟨by omega, start, by omega⟩
  rw [filled]

theorem colored_drawHLine : Colored c (drawHLine s x y w (colorByte c)) := by
  by_cases visible : x < s.width ∧ y < s.height
  · rw [drawHLine_visible visible.1 visible.2]
    intro access member
    rcases List.mem_append.mp member with pixels | bytes
    · rcases List.mem_append.mp pixels with first | last
      · split at first
        · exact colored_drawPixel access first
        · cases first
      · split at last
        · exact colored_drawPixel access last
        · cases last
    · split at bytes
      · rw [List.mem_singleton.mp bytes]
        rfl
      · cases bytes
  · have hidden : x ≥ s.width ∨ y ≥ s.height := by omega
    rw [drawHLine, if_pos hidden]
    intro access member
    cases member

/-- What the pixels of a line paint. -/
def PixelsPaint (s : Screen) (x y w place : Int) : Prop :=
  ∃ p, x ≤ p ∧ p < x + w ∧ PixelAt s p y place

theorem paints_drawHLinePixels :
    PaintsAt (drawHLinePixels s x y w (colorByte c)) place ↔ PixelsPaint s x y w place := by
  rw [drawHLinePixels, paints_flatMap]
  simp only [List.mem_range, paints_drawPixel]
  constructor
  · rintro ⟨k, below, painted⟩
    exact ⟨x + k, by omega, by omega, painted⟩
  · rintro ⟨p, lower, upper, painted⟩
    refine ⟨(p - x).toNat, by omega, ?_⟩
    have same : x + ((p - x).toNat : Int) = p := by omega
    rwa [same]

theorem colored_drawHLinePixels : Colored c (drawHLinePixels s x y w (colorByte c)) := by
  intro access member
  obtain ⟨k, -, inside⟩ := List.mem_flatMap.mp member
  exact colored_drawPixel access inside

/-! ## Lines -/

theorem none_iff (left : x < s.width) (none : w ≤ 0) :
    (∀ place, LinePaints s x y w place ↔ PixelsPaint s x y w place) ↔
      (x % 2 = 1 → ¬ OnScreen s x y) ∧ ((x + w) % 2 = 1 → ¬ OnScreen s (x + w - 1) y) := by
  have unclipped : shown s x w = w := if_neg (by omega)
  have noPixels : ∀ place, ¬ PixelsPaint s x y w place := by
    rintro place ⟨p, lower, upper, -⟩
    omega
  have noBytes : ∀ place, ¬ Filled s x y w place := by
    rintro place ⟨start, stop⟩
    have len : lineLen s x w = (shown s x w - x % 2) / 2 := rfl
    rw [unclipped] at len
    omega
  constructor
  · intro same
    constructor
    · intro odd inside
      exact noPixels _ ((same _).mp (Or.inl ⟨odd, inside, rfl⟩))
    · intro odd inside
      rw [← unclipped] at odd inside
      exact noPixels _ ((same _).mp (Or.inr (Or.inl ⟨odd, inside, rfl⟩)))
  · rintro ⟨first, last⟩ place
    refine iff_of_false ?_ (noPixels place)
    rintro (⟨odd, inside, -⟩ | ⟨odd, inside, -⟩ | filled)
    · exact first odd inside
    · rw [unclipped] at odd inside
      exact last odd inside
    · exact noBytes place filled

/-- The row of a screen that a number of 16 bits names. -/
def RowAt (s : Screen) (y : Int) : Prop := 0 ≤ short y ∧ short y < s.height

theorem pixelAt_of_column {column : Int} (row : RowAt s y) (low : 0 ≤ column)
    (high : column < s.width) : PixelAt s column y (s.width * short y + column) := by
  have wide : s.width ≤ 640 := by
    rcases s.size with ⟨width, -⟩ | ⟨width, -⟩ <;> omega
  have same : short column = column := short_of_range (by omega) (by omega)
  refine ⟨⟨?_, row⟩, ?_⟩ <;> rw [same]
  exact ⟨low, high⟩

theorem PixelAt.column {p row column : Int} (pixel : PixelAt s p row (s.width * short y + column))
    (low : 0 ≤ column) (high : column < s.width) : short p = column ∧ short row = short y := by
  obtain ⟨⟨⟨low', high'⟩, -⟩, place⟩ := pixel
  rcases s.size with ⟨width, -⟩ | ⟨width, -⟩ <;> rw [width] at place high high' <;> omega

/-- A clipped line that begins before the last column reaches it with its bytes only. -/
theorem last_column_bytes {row : Int} (clipped : shown s x w = s.width - x - 1)
    (before : short x ≠ s.width - 1)
    (painted : LinePaints s x row w (s.width * short y + (s.width - 1))) :
    Filled s x row w (s.width * short y + (s.width - 1)) := by
  have wide : 320 ≤ s.width ∧ s.width ≤ 640 := by
    rcases s.size with ⟨width, -⟩ | ⟨width, -⟩ <;> omega
  have inLast : short (s.width - 2) = s.width - 2 := short_of_range (by omega) (by omega)
  have place : x + shown s x w - 1 = s.width - 2 := by omega
  rcases painted with ⟨-, pixel⟩ | ⟨-, pixel⟩ | filled
  · exact absurd (pixel.column (by omega) (by omega)).1 before
  · rw [place] at pixel
    have column := (pixel.column (by omega) (by omega)).1
    omega
  · exact filled

theorem short_iff (left : x < s.width) (some : 0 < w) (few : lineLen s x w ≤ 0) :
    (∀ place, LinePaints s x y w place ↔ PixelsPaint s x y w place) ↔
      x + w ≤ s.width ∨ short y < 0 ∨ s.height ≤ short y := by
  have len : lineLen s x w = (shown s x w - x % 2) / 2 := rfl
  have noBytes : ∀ place, ¬ Filled s x y w place := by
    rintro place ⟨start, stop⟩
    omega
  constructor
  · intro same
    by_contra both
    have clipped : s.width < x + w := by omega
    have row : RowAt s y := ⟨by omega, by omega⟩
    have isShown : shown s x w = s.width - x - 1 := if_pos (by omega)
    rw [isShown] at len
    have wide : 320 ≤ s.width ∧ s.width ≤ 640 ∧ s.width % 2 = 0 := by
      rcases s.size with ⟨width, -⟩ | ⟨width, -⟩ <;> omega
    have inX : short x = x := short_of_range (by omega) (by omega)
    have inLast : short (s.width - 2) = s.width - 2 := short_of_range (by omega) (by omega)
    by_cases edge : x = s.width - 1
    · -- two pixels are drawn in the last two columns
      have last := (same (s.width * short y + (s.width - 2))).mp (by
        refine Or.inr (Or.inl ?_)
        rw [isShown]
        have place : x + (s.width - x - 1) - 1 = s.width - 2 := by omega
        rw [place]
        exact ⟨by omega, pixelAt_of_column row (by omega) (by omega)⟩)
      obtain ⟨p, lower, upper, pixel⟩ := last
      have column := (pixel.column (by omega) (by omega)).1
      -- only a line around all columns reaches the last but one, and then the one before, too
      have around : 65536 + (s.width - 3) < x + w := by
        unfold short at column
        omega
      have before := (same (s.width * short y + (s.width - 3))).mpr
        ⟨65536 + (s.width - 3), by omega, around, by
          have same : short (65536 + (s.width - 3)) = s.width - 3 := by
            unfold short
            omega
          refine ⟨⟨?_, row⟩, ?_⟩ <;> rw [same]
          omega⟩
      rcases before with ⟨-, pixel⟩ | ⟨-, pixel⟩ | filled
      · have column := (pixel.column (by omega) (by omega)).1
        omega
      · have column := (pixel.column (by omega) (by omega)).1
        have place : x + shown s x w - 1 = s.width - 2 := by omega
        rw [place] at column
        omega
      · exact noBytes _ filled
    · -- the last column is left out
      have last := (same (s.width * short y + (s.width - 1))).mpr
        ⟨s.width - 1, by omega, by omega, pixelAt_of_column row (by omega) (by omega)⟩
      exact noBytes _ (last_column_bytes isShown (by omega) last)
  · intro fits place
    have unclippedOr : shown s x w = w ∨ ∀ p, ¬ PixelAt s p y place := by
      rcases fits with inside | outside
      · exact Or.inl (if_neg (by omega))
      · refine Or.inr ?_
        rintro p ⟨⟨-, row⟩, -⟩
        omega
    rcases unclippedOr with unclipped | outside
    · rw [unclipped] at len
      constructor
      · rintro (⟨-, pixel⟩ | ⟨-, pixel⟩ | filled)
        · exact ⟨x, Int.le_refl x, by omega, pixel⟩
        · rw [unclipped] at pixel
          exact ⟨x + w - 1, by omega, by omega, pixel⟩
        · exact absurd filled (noBytes place)
      · rintro ⟨p, lower, upper, pixel⟩
        by_cases first : p = x ∧ x % 2 = 1
        · rw [first.1] at pixel
          exact Or.inl ⟨first.2, pixel⟩
        · have last : p = x + shown s x w - 1 := by omega
          rw [last] at pixel
          exact Or.inr (Or.inl ⟨by omega, pixel⟩)
    · refine iff_of_false ?_ ?_
      · rintro (⟨-, pixel⟩ | ⟨-, pixel⟩ | filled)
        · exact outside _ pixel
        · exact outside _ pixel
        · exact noBytes place filled
      · rintro ⟨p, -, -, pixel⟩
        exact outside p pixel

theorem PixelAt.bounds {p : Int} (pixel : PixelAt s p y place) :
    s.width * short y ≤ place ∧ place < s.width * short y + s.width := by
  obtain ⟨⟨⟨low, high⟩, -⟩, rfl⟩ := pixel
  exact ⟨by omega, by omega⟩

theorem short_eq (n : Int) : ∃ turns, short n = n + 65536 * turns :=
  ⟨-((n + 32768) / 65536), by unfold short; omega⟩

theorem double_half (n : Int) : 2 * ((n + n % 2) / 2) = n + n % 2 := by
  omega

/-- Two columns of a narrow line that are in one row after turns around the numbers of 16 bits made
the same turns. -/
theorem same_turns {n p p' turns turns' : Int} (narrow : w ≤ 323) (length : w - 3 ≤ n ∧ n < w)
    (column : x ≤ p ∧ p < x + w) (column' : x ≤ p' ∧ p' < x + w)
    (apart : n = p' + 65536 * turns' - (p + 65536 * turns)) : turns = turns' := by
  have gap : 65536 * (turns' - turns) = n - (p' - p) := by
    clear narrow length column column'
    omega
  have near : -3 < n - (p' - p) ∧ n - (p' - p) < 646 := by
    clear gap apart
    omega
  rw [← gap] at near
  clear gap apart length column column'
  omega

/-- Rows of 160 bytes are not where a line that begins left of the screen has its bytes. -/
theorem shifted_row {n odd p p' turns turns' : Int} (row : 0 ≤ y ∧ y < 240) (outside : x < -1)
    (parity : 0 ≤ odd ∧ odd ≤ 1) (length : w - 3 ≤ n ∧ n < w) (column : x ≤ p ∧ p < x + w)
    (column' : x ≤ p' ∧ p' < x + w)
    (inRow : 0 ≤ p + 65536 * turns ∧ p' + 65536 * turns' < 320)
    (first : 2 * (320 * y) + (x + odd) = 320 * y + (p + 65536 * turns))
    (last : 2 * (320 * y) + (x + odd) + n = 320 * y + (p' + 65536 * turns')) : False := by
  have apart : n = p' + 65536 * turns' - (p + 65536 * turns) := by linarith only [first, last]
  have narrow : w ≤ 323 := by linarith only [apart, inRow.1, inRow.2, length.1]
  have same := same_turns narrow length column column' apart
  have lowest : 65536 * turns ≤ 320 * y + 1 := by linarith only [first, column.1, parity.2]
  have highest : 320 * y ≤ 65536 * turns + 2 := by
    rw [← same] at last
    linarith only [last, column'.2, length.1, parity.1]
  have firstRow : y = 0 := by
    clear first last apart column column' length inRow parity narrow outside same
    omega
  rw [firstRow] at first
  linarith only [first, inRow.1, parity.2, outside]

/-- Bytes before the first row are no pixels, and neither are those of a row above the line. -/
theorem bytes_placed (top : y < s.height) (filled : 0 < lineLen s x w)
    (covered : ∀ place, Filled s x y w place → PixelsPaint s x y w place) : 0 ≤ y ∧ -1 ≤ x := by
  have len : lineLen s x w = (shown s x w - x % 2) / 2 := rfl
  have start : lineStart x y = 320 * y + (x + x % 2) / 2 := rfl
  obtain ⟨p, lower, upper, first⟩ := covered (2 * lineStart x y) ⟨Int.le_refl _, by omega⟩
  obtain ⟨p', lower', upper', last⟩ :=
    covered (2 * (lineStart x y + lineLen s x w) - 1) ⟨by omega, by omega⟩
  have ends : x + shown s x w ≤ s.width := by
    unfold shown
    split <;> omega
  have positive : 0 ≤ y := by
    have bounds := last.bounds
    have row := last.1.2.1
    rcases s.size with ⟨width, height⟩ | ⟨width, height⟩ <;> rw [width] at bounds ends <;> omega
  have row : short y = y := by
    refine short_of_range (by omega) ?_
    rcases s.size with ⟨-, height⟩ | ⟨-, height⟩ <;> omega
  refine ⟨positive, ?_⟩
  by_contra outside
  obtain ⟨⟨⟨low, high⟩, -⟩, place⟩ := first
  obtain ⟨⟨⟨low', high'⟩, -⟩, place'⟩ := last
  rw [row] at place place'
  rcases s.size with ⟨width, height⟩ | ⟨width, height⟩
  · -- with 160 bytes in a row the bytes of the line are in a lower row, shifted by its number
    rw [width] at place place' high high'
    by_cases clipped : x + w - 1 ≥ s.width
    · have isShown : shown s x w = s.width - x - 1 := if_pos clipped
      rw [isShown, width] at len
      omega
    · have isShown : shown s x w = w := if_neg clipped
      rw [isShown] at len
      obtain ⟨turns, short_p⟩ := short_eq p
      obtain ⟨turns', short_p'⟩ := short_eq p'
      rw [start, Int.mul_add, double_half, short_p] at place
      rw [start, Int.mul_add, Int.mul_add, double_half, short_p'] at place'
      rw [short_p] at low
      rw [short_p'] at high'
      rw [Int.add_sub_assoc] at place'
      refine shifted_row ⟨positive, height ▸ top⟩ ?_ ?_ ?_ ⟨lower, upper⟩ ⟨lower', upper'⟩
        ⟨low, high'⟩ place place'
      all_goals
        clear place place' low high low' high' lower upper lower' upper' short_p short_p'
        omega
  · rw [width] at place
    omega

theorem bytes_iff (left : x < s.width) (top : y < s.height) (filled : 0 < lineLen s x w) :
    (∀ place, LinePaints s x y w place ↔ PixelsPaint s x y w place) ↔
      0 ≤ y ∧ -1 ≤ x ∧ x + w ≤ s.width ∧ (s.width = 640 ∨ y = 0) := by
  have len : lineLen s x w = (shown s x w - x % 2) / 2 := rfl
  have start : lineStart x y = 320 * y + (x + x % 2) / 2 := rfl
  have sizes : s.width ≤ 640 ∧ s.width % 2 = 0 ∧ s.height ≤ 480 := by
    rcases s.size with ⟨width, height⟩ | ⟨width, height⟩ <;> omega
  constructor
  · intro same
    obtain ⟨above, before⟩ := bytes_placed top filled fun place bytes =>
      (same place).mp (Or.inr (Or.inr bytes))
    have row : short y = y := short_of_range (by omega) (by omega)
    have rowAt : RowAt s y := ⟨by omega, by omega⟩
    have inX : short x = x := short_of_range (by omega) (by omega)
    have width : s.width = 640 ∨ y = 0 := by
      obtain ⟨p, -, -, pixel⟩ := (same (2 * lineStart x y)).mp
        (Or.inr (Or.inr ⟨Int.le_refl _, by omega⟩))
      have bounds := pixel.bounds
      rcases s.size with ⟨width, -⟩ | ⟨width, -⟩ <;> rw [width, row] at bounds <;> omega
    refine ⟨above, before, ?_, width⟩
    by_contra clipped
    have isShown : shown s x w = s.width - x - 1 := if_pos (by omega)
    rw [isShown] at len
    -- the last column is left out
    have last := (same (s.width * short y + (s.width - 1))).mpr
      ⟨s.width - 1, by omega, by omega, pixelAt_of_column rowAt (by omega) (by omega)⟩
    obtain ⟨-, stop⟩ := last_column_bytes isShown (by omega) last
    rw [row] at stop
    rcases width with wide | first
    · rw [wide] at stop len
      omega
    · rw [first] at stop start
      omega
  · rintro ⟨above, before, fits, width⟩ place
    have isShown : shown s x w = w := if_neg (by omega)
    rw [isShown] at len
    have row : short y = y := short_of_range (by omega) (by omega)
    have rows : s.width * y = 640 * y := by
      rcases width with wide | first
      · rw [wide]
      · rw [first, Int.mul_zero, Int.mul_zero]
    constructor
    · rintro (⟨-, pixel⟩ | ⟨-, pixel⟩ | ⟨low, high⟩)
      · exact ⟨x, Int.le_refl x, by omega, pixel⟩
      · rw [isShown] at pixel
        exact ⟨x + w - 1, by omega, by omega, pixel⟩
      · have pixel := @pixelAt_of_column s y (place - 640 * y) ⟨by omega, by omega⟩ (by omega)
          (by omega)
        rw [row, rows] at pixel
        have same : 640 * y + (place - 640 * y) = place := by omega
        rw [same] at pixel
        exact ⟨place - 640 * y, by omega, by omega, pixel⟩
    · rintro ⟨p, lower, upper, pixel⟩
      have inP : short p = p := short_of_range (by omega) (by omega)
      by_cases first : p = x ∧ x % 2 = 1
      · rw [first.1] at pixel
        exact Or.inl ⟨first.2, pixel⟩
      · by_cases last : p = x + w - 1 ∧ (x + w) % 2 = 1
        · rw [last.1] at pixel
          rw [LinePaints, isShown]
          exact Or.inr (Or.inl ⟨last.2, pixel⟩)
        · have onRow := pixel.2
          rw [row, rows, inP] at onRow
          exact Or.inr (Or.inr ⟨by omega, by omega⟩)

/-! ## Rectangles -/

def RectPaints (s : Screen) (x y w h place : Int) : Prop :=
  ∃ row, y ≤ row ∧ row < y + h ∧ row < s.height ∧ LinePaints s x row w place

def RectPixels (s : Screen) (x y w h place : Int) : Prop :=
  ∃ row, y ≤ row ∧ row < y + h ∧ PixelsPaint s x row w place

theorem rect_of_rows (hy : InShort y) (hh : InShort h)
    (rows : ∀ row, y ≤ row → row < y + h → row < s.height →
      ∀ place, LinePaints s x row w place ↔ PixelsPaint s x row w place) (place : Int) :
    RectPaints s x y w h place ↔ RectPixels s x y w h place := by
  unfold InShort at hy hh
  constructor
  · rintro ⟨row, first, last, inside, painted⟩
    exact ⟨row, first, last, (rows row first last inside place).mp painted⟩
  · rintro ⟨row, first, last, painted⟩
    have inside : row < s.height := by
      obtain ⟨p, -, -, ⟨-, low, high⟩, -⟩ := painted
      obtain ⟨turns, same⟩ := short_eq row
      rcases s.size with ⟨-, height⟩ | ⟨-, height⟩ <;> rw [height] at high ⊢ <;> omega
    exact ⟨row, first, last, inside, (rows row first last inside place).mpr painted⟩

theorem rect_none_iff (left : x < s.width) (none : w ≤ 0) (hy : InShort y) (hh : InShort h) :
    (∀ place, RectPaints s x y w h place ↔ RectPixels s x y w h place) ↔
      ∀ row, y ≤ row → row < y + h → row < s.height →
        (x % 2 = 1 → ¬ OnScreen s x row) ∧ ((x + w) % 2 = 1 → ¬ OnScreen s (x + w - 1) row) := by
  constructor
  · intro same row first last inside
    rw [← none_iff left none]
    intro place
    constructor
    · intro painted
      obtain ⟨_, _, _, p, lower, upper, _⟩ := (same place).mp ⟨row, first, last, inside, painted⟩
      omega
    · rintro ⟨p, lower, upper, -⟩
      omega
  · intro rows
    exact rect_of_rows hy hh fun row first last inside =>
      (none_iff left none).mpr (rows row first last inside)

theorem rect_short_iff (left : x < s.width) (top : y < s.height) (tall : 0 < h) (some : 0 < w)
    (few : lineLen s x w ≤ 0) (hx : InShort x) (hy : InShort y) (hw : InShort w) (hh : InShort h) :
    (∀ place, RectPaints s x y w h place ↔ RectPixels s x y w h place) ↔
      x + w ≤ s.width ∨ y + h ≤ 0 := by
  have len : lineLen s x w = (shown s x w - x % 2) / 2 := rfl
  have sizes : 320 ≤ s.width ∧ s.width ≤ 640 ∧ s.width % 2 = 0 ∧ 0 < s.height ∧
      s.height ≤ 480 := by
    rcases s.size with ⟨width, height⟩ | ⟨width, height⟩ <;> omega
  have hx' := hx
  have hy' := hy
  have hw' := hw
  unfold InShort at hx' hy' hw'
  constructor
  · intro same
    by_contra both
    have isShown : shown s x w = s.width - x - 1 := if_pos (by omega)
    rw [isShown] at len
    have noBytes : ∀ row place, ¬ Filled s x row w place := by
      rintro row place ⟨start, stop⟩
      omega
    -- the first row on the screen
    obtain ⟨row, first, last, low, high⟩ :
        ∃ row, y ≤ row ∧ row < y + h ∧ 0 ≤ row ∧ row < s.height :=
      ⟨max y 0, by omega, by omega, by omega, by omega⟩
    have inRow : short row = row := short_of_range (by omega) (by omega)
    have rowAt : RowAt s row := ⟨by omega, by omega⟩
    have inLast : short (s.width - 2) = s.width - 2 := short_of_range (by omega) (by omega)
    have inX : short x = x := short_of_range (by omega) (by omega)
    by_cases edge : x = s.width - 1
    · have place : x + shown s x w - 1 = s.width - 2 := by omega
      have pixel := @pixelAt_of_column s row (s.width - 2) rowAt (by omega) (by omega)
      obtain ⟨_, _, _, p, lower, upper, painted⟩ := (same _).mp
        ⟨row, first, last, high, Or.inr (Or.inl ⟨by omega, place ▸ pixel⟩)⟩
      have column := (painted.column (by omega) (by omega)).1
      obtain ⟨turns, turned⟩ := short_eq p
      omega
    · obtain ⟨row', -, -, -, painted⟩ := (same _).mpr ⟨row, first, last, s.width - 1, by omega,
        by omega, @pixelAt_of_column s row (s.width - 1) rowAt (by omega) (by omega)⟩
      exact noBytes row' _ (last_column_bytes isShown (by omega) painted)
  · intro fits
    refine rect_of_rows hy hh fun row first last inside => (short_iff left some few).mpr ?_
    rcases fits with within | above
    · exact Or.inl within
    · have inRow : short row = row := short_of_range (by omega) (by omega)
      exact Or.inr (Or.inl (by omega))

theorem rectPixels_cases (hx : InShort x) (hy : InShort y) (hw : InShort w) (hh : InShort h)
    (pixel : RectPixels s x y w h place) :
    ∃ row p, y ≤ row ∧ row < y + h ∧ 0 ≤ row ∧ row < s.height ∧ x ≤ p ∧ p < x + w ∧ 0 ≤ p ∧
      p < s.width ∧ place = s.width * row + p := by
  unfold InShort at hx hy hw hh
  obtain ⟨row, first, last, p, lower, upper, ⟨⟨low, high⟩, low', high'⟩, place⟩ := pixel
  have sizes : s.width ≤ 640 ∧ s.height ≤ 480 := by
    rcases s.size with ⟨width, height⟩ | ⟨width, height⟩ <;> omega
  obtain ⟨turns, turned⟩ := short_eq row
  obtain ⟨turns', turned'⟩ := short_eq p
  have inRow : short row = row := by omega
  have inP : short p = p := by omega
  rw [inRow] at low' high' place
  rw [inP] at low high place
  exact ⟨row, p, first, last, low', high', lower, upper, low, high, place⟩

/-- The bytes of a rectangle are its pixels only if none lies left of the screen or above it. -/
theorem rect_bytes_placed (top : y < s.height) (tall : 0 < h) (filled : 0 < lineLen s x w)
    (hx : InShort x) (hy : InShort y) (hw : InShort w) (hh : InShort h)
    (same : ∀ place, RectPaints s x y w h place ↔ RectPixels s x y w h place) :
    0 ≤ y ∧ -1 ≤ x := by
  have len : lineLen s x w = (shown s x w - x % 2) / 2 := rfl
  have start : ∀ row, lineStart x row = 320 * row + (x + x % 2) / 2 := fun _ => rfl
  have ends : x + shown s x w ≤ s.width := by
    unfold shown
    split <;> omega
  have covered : ∀ row, y ≤ row → row < y + h → row < s.height → ∀ place,
      Filled s x row w place → RectPixels s x y w h place := by
    intro row first last inside place bytes
    exact (same place).mp ⟨row, first, last, inside, Or.inr (Or.inr bytes)⟩
  have startY := start y
  obtain ⟨row, p, first, last, low, high, lower, upper, left, right, place⟩ :=
    rectPixels_cases hx hy hw hh (covered y (Int.le_refl y) (by omega) top
      (2 * lineStart x y) ⟨Int.le_refl _, by omega⟩)
  obtain ⟨row', p', first', last', low', high', lower', upper', left', right', place'⟩ :=
    rectPixels_cases hx hy hw hh (covered y (Int.le_refl y) (by omega) top
      (2 * (lineStart x y + lineLen s x w) - 1) ⟨by omega, by omega⟩)
  have positive : 0 ≤ y := by
    rcases s.size with ⟨width, -⟩ | ⟨width, -⟩ <;> rw [width] at place' ends <;> omega
  refine ⟨positive, ?_⟩
  by_contra outside
  rcases s.size with ⟨width, height⟩ | ⟨width, height⟩
  · rw [width] at place place' right right' ends
    by_cases whole : 320 ≤ x + w
    · -- the last row on the screen goes to a row too low
      obtain ⟨final, from', until', inside, only⟩ : ∃ final, y ≤ final ∧ final < y + h ∧
          final < s.height ∧ ∀ row, row < y + h → row < s.height → row ≤ final :=
        ⟨min (y + h) s.height - 1, by omega, by omega, by omega, fun row _ _ => by omega⟩
      have startFinal := start final
      have stop : (x + x % 2) / 2 + lineLen s x w ≥ 159 := by
        by_cases clipped : x + w - 1 ≥ s.width
        · have isShown : shown s x w = s.width - x - 1 := if_pos clipped
          rw [isShown, width] at len
          omega
        · have isShown : shown s x w = w := if_neg clipped
          rw [isShown] at len
          omega
      obtain ⟨row, p, -, last, -, high, -, -, -, right, place⟩ :=
        rectPixels_cases hx hy hw hh (covered final from' until' inside
          (2 * (lineStart x final + lineLen s x w) - 1) ⟨by omega, by omega⟩)
      have le := only row last high
      rw [width] at place right
      omega
    · -- the bytes of a row run over columns right of the rectangle
      have isShown : shown s x w = w := if_neg (by omega)
      rw [isShown] at len
      by_cases oneRow : row = row'
      · omega
      · obtain ⟨row'', p'', -, -, -, -, -, upper'', left'', right'', place''⟩ :=
          rectPixels_cases hx hy hw hh (covered y (Int.le_refl y) (by omega) top
            (320 * row + (x + w)) ⟨by omega, by omega⟩)
        rw [width] at place'' right''
        omega
  · rw [width] at place
    omega

theorem rect_bytes_iff (left : x < s.width) (top : y < s.height) (tall : 0 < h)
    (filled : 0 < lineLen s x w) (hx : InShort x) (hy : InShort y) (hw : InShort w) (hh : InShort h) :
    (∀ place, RectPaints s x y w h place ↔ RectPixels s x y w h place) ↔
      0 ≤ y ∧ -1 ≤ x ∧ x + w ≤ s.width ∧ (s.width = 640 ∨ y = 0 ∧ h = 1) := by
  have len : lineLen s x w = (shown s x w - x % 2) / 2 := rfl
  have start : ∀ row, lineStart x row = 320 * row + (x + x % 2) / 2 := fun _ => rfl
  have sizes : s.width ≤ 640 ∧ s.width % 2 = 0 ∧ s.height ≤ 480 := by
    rcases s.size with ⟨width, height⟩ | ⟨width, height⟩ <;> omega
  constructor
  · intro same
    obtain ⟨above, before⟩ := rect_bytes_placed top tall filled hx hy hw hh same
    have inX : short x = x := short_of_range (by omega) (by omega)
    have onRow : ∀ row, 0 ≤ row → row < s.height → short row = row ∧ RowAt s row := by
      intro row low high
      have inRow : short row = row := short_of_range (by omega) (by omega)
      exact ⟨inRow, by omega, by omega⟩
    have inside : x + w ≤ s.width := by
      by_contra clipped
      have isShown : shown s x w = s.width - x - 1 := if_pos (by omega)
      rw [isShown] at len
      obtain ⟨inRow, rowAt⟩ := onRow y above top
      have inLast : short (s.width - 2) = s.width - 2 := short_of_range (by omega) (by omega)
      obtain ⟨row, first, last, high, painted⟩ := (same _).mpr ⟨y, Int.le_refl y, by omega,
        s.width - 1, by omega, by omega,
        @pixelAt_of_column s y (s.width - 1) rowAt (by omega) (by omega)⟩
      obtain ⟨low, stop⟩ := last_column_bytes isShown (by omega) painted
      have startRow := start row
      rw [inRow] at low stop
      rcases s.size with ⟨width, -⟩ | ⟨width, -⟩ <;> rw [width] at low stop len <;> omega
    have isShown : shown s x w = w := if_neg (by omega)
    rw [isShown] at len
    refine ⟨above, before, inside, ?_⟩
    rcases s.size with ⟨width, height⟩ | ⟨width, height⟩
    · right
      by_contra several
      -- a row that is not the first one is left empty
      obtain ⟨row, from', until', positive, high, odd⟩ :
          ∃ row, y ≤ row ∧ row < y + h ∧ 0 < row ∧ row < s.height ∧ ∀ other, y ≤ other →
            2 * other ≠ row := by
        by_cases first : y = 0
        · exact ⟨1, by omega, by omega, by omega, by omega, fun other _ => by omega⟩
        · exact ⟨y, by omega, by omega, by omega, by omega, fun other _ => by omega⟩
      obtain ⟨inRow, rowAt⟩ := onRow row (by omega) high
      have column : ∃ column, x ≤ column ∧ column < x + w ∧ column = 2 * ((x + x % 2) / 2) :=
        ⟨2 * ((x + x % 2) / 2), by omega, by omega, rfl⟩
      obtain ⟨column, lower, upper, isColumn⟩ := column
      obtain ⟨row', first, last, -, painted⟩ := (same _).mpr ⟨row, from', until', column, lower,
        upper, @pixelAt_of_column s row column rowAt (by omega) (by omega)⟩
      rcases painted with ⟨odd', pixel⟩ | ⟨odd', pixel⟩ | ⟨low, stop⟩
      · have same := (pixel.column (by omega) (by omega)).1
        omega
      · have same := (pixel.column (by omega) (by omega)).1
        rw [isShown, short_of_range (by omega) (by omega)] at same
        omega
      · have startRow := start row'
        have notDouble := odd row' first
        rw [inRow, width] at low stop
        omega
    · exact Or.inl width
  · rintro ⟨above, before, inside, width⟩
    refine rect_of_rows hy hh fun row first last high => (bytes_iff left high filled).mpr ?_
    refine ⟨by omega, before, inside, ?_⟩
    rcases width with wide | ⟨first, one⟩
    · exact Or.inl wide
    · exact Or.inr (by omega)

/-! ## Both functions -/

theorem lineEquals_iff (s : Screen) (x y w : Int) (c : BitVec 4) :
    LineEquals s x y w c ↔ LineFits s x y w := by
  have same : (∀ frame : Frame, frame.accesses (drawHLine s x y w (colorByte c)) =
        frame.accesses (drawHLinePixels s x y w (colorByte c))) ↔
      ∀ place, PaintsAt (drawHLine s x y w (colorByte c)) place ↔ PixelsPaint s x y w place := by
    rw [accesses_eq_iff colored_drawHLine colored_drawHLinePixels]
    simp only [paints_drawHLinePixels]
  by_cases hidden : x ≥ s.width ∨ y ≥ s.height
  · have nothing : drawHLine s x y w (colorByte c) = [] := by
      rw [drawHLine, if_pos hidden]
    rw [nothing] at same
    rw [LineFits, if_pos hidden]
    constructor
    · intro equals p lower upper inside
      exact paints_nil ((same.mp (nothing ▸ equals.same) _).mpr ⟨p, lower, upper, inside, rfl⟩)
    · intro outside
      refine ⟨fun left top => absurd hidden (by omega), ?_⟩
      rw [nothing]
      refine same.mpr fun place => iff_of_false paints_nil ?_
      rintro ⟨p, lower, upper, inside, -⟩
      exact outside p lower upper inside
  · have left : x < s.width := by omega
    have top : y < s.height := by omega
    simp only [paints_drawHLine left top] at same
    rw [LineFits, if_neg hidden]
    have both : LineEquals s x y w c ↔ SumsFit x w ∧
        ∀ place, LinePaints s x y w place ↔ PixelsPaint s x y w place :=
      ⟨fun equals => ⟨equals.defined left top, same.mp equals.same⟩,
        fun fits => ⟨fun _ _ => fits.1, same.mpr fits.2⟩⟩
    rw [both]
    refine and_congr_right fun _ => ?_
    by_cases none : w ≤ 0
    · rw [if_pos none, none_iff left none]
    · rw [if_neg none]
      by_cases few : lineLen s x w ≤ 0
      · rw [if_pos few, short_iff left (by omega) few]
      · rw [if_neg few, bytes_iff left top (by omega)]

theorem paints_fillRect (visible : ¬ (short x ≥ s.width ∨ short y ≥ s.height)) :
    PaintsAt (fillRect s x y w h (colorByte c)) place ↔
      RectPaints s (short x) (short y) (short w) (short h) place := by
  unfold fillRect
  dsimp only
  rw [if_neg visible, paints_flatMap]
  have left : short x < s.width := by omega
  constructor
  · rintro ⟨j, below, painted⟩
    rw [List.mem_range] at below
    by_cases high : short y + j < s.height
    · exact ⟨short y + j, by omega, by omega, high, (paints_drawHLine left high).mp painted⟩
    · rw [drawHLine, if_pos (Or.inr (by omega))] at painted
      exact absurd painted paints_nil
  · rintro ⟨row, first, last, high, painted⟩
    refine ⟨(row - short y).toNat, List.mem_range.mpr (by omega), ?_⟩
    have same : short y + ((row - short y).toNat : Int) = row := by omega
    rw [same]
    exact (paints_drawHLine left high).mpr painted

theorem paints_fillRectPixels :
    PaintsAt (fillRectPixels s x y w h (colorByte c)) place ↔ RectPixels s x y w h place := by
  rw [fillRectPixels, paints_flatMap]
  simp only [List.mem_range, paints_drawHLinePixels]
  constructor
  · rintro ⟨j, below, painted⟩
    exact ⟨y + j, by omega, by omega, painted⟩
  · rintro ⟨row, first, last, painted⟩
    refine ⟨(row - y).toNat, by omega, ?_⟩
    have same : y + ((row - y).toNat : Int) = row := by omega
    rwa [same]

theorem colored_fillRect : Colored c (fillRect s x y w h (colorByte c)) := by
  unfold fillRect
  dsimp only
  split
  · intro access member
    cases member
  · intro access member
    obtain ⟨j, -, inside⟩ := List.mem_flatMap.mp member
    exact colored_drawHLine access inside

theorem colored_fillRectPixels : Colored c (fillRectPixels s x y w h (colorByte c)) := by
  intro access member
  obtain ⟨j, -, inside⟩ := List.mem_flatMap.mp member
  exact colored_drawHLinePixels access inside

theorem rectEquals_iff (s : Screen) (x y w h : Int) (c : BitVec 4) :
    RectEquals s x y w h c ↔ RectFits s (short x) (short y) (short w) (short h) := by
  have hx : InShort (short x) := short_range x
  have hy : InShort (short y) := short_range y
  have hw : InShort (short w) := short_range w
  have hh : InShort (short h) := short_range h
  have same : RectEquals s x y w h c ↔ ∀ place, PaintsAt (fillRect s x y w h (colorByte c)) place ↔
      RectPixels s (short x) (short y) (short w) (short h) place := by
    have drawings := @accesses_eq_iff c _ _ (@colored_fillRect s x y w h c)
      (@colored_fillRectPixels s (short x) (short y) (short w) (short h) c)
    simp only [paints_fillRectPixels] at drawings
    exact ⟨fun equals => drawings.mp equals.same, fun all => ⟨drawings.mpr all⟩⟩
  rw [same, RectFits]
  by_cases hidden : short x ≥ s.width ∨ short y ≥ s.height
  · have nothing : fillRect s x y w h (colorByte c) = [] := by
      unfold fillRect
      exact if_pos hidden
    rw [if_pos (by omega)]
    refine iff_of_true (fun place => ?_) trivial
    rw [nothing]
    refine iff_of_false paints_nil fun painted => ?_
    obtain ⟨row, p, first, -, -, high, lower, -, -, right, -⟩ := rectPixels_cases hx hy hw hh painted
    omega
  · simp only [paints_fillRect hidden]
    by_cases flat : short h ≤ 0
    · rw [if_pos (by omega)]
      refine iff_of_true (fun place => iff_of_false ?_ ?_) trivial
      · rintro ⟨row, first, last, -⟩
        omega
      · rintro ⟨row, first, last, -⟩
        omega
    · have left : short x < s.width := by omega
      have top : short y < s.height := by omega
      rw [if_neg (by omega)]
      by_cases none : short w ≤ 0
      · rw [if_pos none, rect_none_iff left none hy hh]
      · rw [if_neg none]
        by_cases few : lineLen s (short x) (short w) ≤ 0
        · rw [if_pos few,
            rect_short_iff left top (by omega) (by omega) few hx hy hw hh]
        · rw [if_neg few, rect_bytes_iff left top (by omega) (by omega) hx hy hw hh]

/-- Lines and rectangles are drawn as their pixels are exactly in the cases described. -/
theorem fast_line_iff (s : Screen) (c : BitVec 4) :
    (∀ x y w, LineEquals s x y w c ↔ LineFits s x y w) ∧
      ∀ x y w h, RectEquals s x y w h c ↔
        RectFits s (short x) (short y) (short w) (short h) :=
  ⟨fun x y w => lineEquals_iff s x y w c, fun x y w h => rectEquals_iff s x y w h c⟩

/-- A line over the right edge leaves out the last column. -/
theorem last_column_missing :
    drawHLine (createScreen .MODE_640x480) 636 0 10 1 =
        [.nibble 319 false 1, .fill 318 1 0x11] ∧
      drawHLinePixels (createScreen .MODE_640x480) 636 0 10 1 =
        [.nibble 318 false 1, .nibble 318 true 1, .nibble 319 false 1, .nibble 319 true 1] ∧
      ¬ ∀ s x y w c, LineEquals s x y w c := by
  refine ⟨by decide, by decide, fun all => ?_⟩
  have same := congrFun ((all (createScreen .MODE_640x480) 636 0 10 1).same fun _ => 0) 319
  exact absurd same (by decide)

end OrionBios.Graphics
