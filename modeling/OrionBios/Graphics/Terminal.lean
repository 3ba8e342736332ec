import OrionBios.Graphics.Safety

/-!
# The text terminal

A byte paints cells of the text grid, moves the cursor on the grid, and scrolls the screen by one
line of text, where the mode and the font have the sizes that the drawing functions take for
granted.
-/

namespace OrionBios.Graphics

/-! ## Pixels -/

/-- The colour of a pixel, in rows of so many pixels. -/
def pixel (width : Int) (frame : Frame) (x y : Int) : Byte :=
  if (width * y + x) % 2 = 1 then frame ((width * y + x) / 2) >>> 4
  else frame ((width * y + x) / 2) &&& 0x0F

def Access.Touches (width : Int) (x y : Int) : Access → Prop
  | .nibble index high _ =>
    (width * y + x) / 2 = index ∧ ((width * y + x) % 2 = 1 ↔ high = true)
  | .fill start len _ => start ≤ (width * y + x) / 2 ∧ (width * y + x) / 2 < start + len
  | .copy dest _ len => dest ≤ (width * y + x) / 2 ∧ (width * y + x) / 2 < dest + len
  | .glyph _ _ => False

def Cell (font : Font) (left top x y : Int) : Prop :=
  left ≤ x ∧ x < left + font.width ∧ top ≤ y ∧ y < top + font.height

/-- Every pixel that is written lies in the cell. -/
def Paints (width : Int) (font : Font) (left top : Int) (accesses : List Access) : Prop :=
  ∀ access ∈ accesses, ∀ x y, 0 ≤ x → x < width → access.Touches width x y →
    Cell font left top x y

/-- A character at this height stays in its cell. -/
def PaintSafe (s : Screen) (top : Int) : Prop :=
  s.width = 640 ∧ (16 ≤ s.font.height ∨ s.height ≤ top + s.font.height)

/-! ## Characters -/

theorem drawPixel_touches {s : Screen} {x y px py : Int} {color : Byte} {access : Access}
    (wide : s.width = 640) (left : 0 ≤ px) (right : px < 640)
    (drawn : access ∈ drawPixel s x y color) (touches : access.Touches 640 px py) :
    px = short x ∧ py = short y := by
  unfold drawPixel at drawn
  dsimp only at drawn
  split at drawn
  · cases drawn
  next inside =>
    rw [List.mem_singleton] at drawn
    subst drawn
    obtain ⟨index, high⟩ := touches
    rw [wide] at index high inside
    rw [beq_iff_eq] at high
    omega

theorem drawHLine_eight {s : Screen} {x y : Int} (wide : s.width = 640) (even : x % 2 = 0)
    (right : x + 8 ≤ 640) (color : Byte) {access : Access}
    (drawn : access ∈ drawHLine s x y 8 color) :
    y < 480 ∧ access = .fill (320 * y + x / 2) 4 (color ||| (color <<< 4)) := by
  have high : s.height = 480 := by
    rcases s.size with ⟨narrow, -⟩ | ⟨-, high⟩
    · omega
    · exact high
  unfold drawHLine at drawn
  rw [wide, high] at drawn
  split at drawn
  · cases drawn
  next visible =>
    have first : ¬x % 2 = 1 := by omega
    have fits : ¬x + 8 - 1 ≥ 640 := by omega
    have top : y < 480 := by omega
    simp only [first, fits, if_false] at drawn
    simp [top] at drawn
    exact ⟨top, drawn⟩

theorem fillRect_touches {s : Screen} {x y px py : Int} {color : Byte} {access : Access}
    (wide : s.width = 640) (even : x % 2 = 0) (left : 0 ≤ x) (right : x + 8 ≤ 640) (top : 0 ≤ y)
    (bottom : y ≤ 32767) (pLeft : 0 ≤ px) (pRight : px < 640)
    (drawn : access ∈ fillRect s x y 8 16 color) (touches : access.Touches 640 px py) :
    x ≤ px ∧ px < x + 8 ∧ y ≤ py ∧ py < y + 16 ∧ py < 480 := by
  unfold fillRect at drawn
  rw [short_of_range (by omega) (by omega), short_of_range (by omega) bottom,
    short_of_range (by decide) (by decide), short_of_range (by decide) (by decide)] at drawn
  dsimp only at drawn
  split at drawn
  · cases drawn
  · rw [List.mem_flatMap] at drawn
    obtain ⟨row, inRange, drawn⟩ := drawn
    rw [List.mem_range] at inRange
    obtain ⟨visible, rfl⟩ := drawHLine_eight wide even right color drawn
    obtain ⟨lower, upper⟩ := touches
    push_cast at upper
    have rows : (row : Int) < 16 := by omega
    omega

/-- A character on the grid paints its cell only. -/
theorem drawChar2_paints (bitmaps : Font → Nat → Byte) {s : Screen} {x y : Int}
    (safe : PaintSafe s y) (even : x % 8 = 0) (left : 0 ≤ x) (right : x + 8 ≤ s.width)
    (top : 0 ≤ y) (bottom : y ≤ s.height) (charCode color bgcolor : Byte) :
    Paints s.width s.font x y (drawChar2 bitmaps s x y charCode color bgcolor) := by
  obtain ⟨wide, covers⟩ := safe
  have high : s.height = 480 := by
    rcases s.size with ⟨narrow, -⟩ | ⟨-, high⟩
    · omega
    · exact high
  have tall := s.font.height_range
  rw [wide] at right ⊢
  rw [high] at bottom covers
  intro access drawn px py pLeft pRight touches
  unfold Cell Font.width
  rw [drawChar2, List.mem_append] at drawn
  rcases drawn with cleared | drawn
  · have inside := fillRect_touches wide (by omega) left right top (by omega) pLeft pRight cleared
      touches
    omega
  · rw [List.mem_flatMap] at drawn
    obtain ⟨row, inRange, drawn⟩ := drawn
    rw [List.mem_range] at inRange
    rw [drawCharRow, List.mem_cons] at drawn
    rcases drawn with rfl | drawn
    · exact touches.elim
    · rw [List.mem_flatMap] at drawn
      obtain ⟨column, columns, drawn⟩ := drawn
      rw [List.mem_range] at columns
      obtain ⟨rfl, rfl⟩ := drawPixel_touches wide pLeft pRight drawn touches
      rw [short_of_range (by omega) (by omega)] at *
      rw [short_of_range (by omega) (by omega)]
      omega

theorem drawChar2_below (bitmaps : Font → Nat → Byte) {s : Screen} {x y : Int}
    (wide : s.width = 640) (left : 0 ≤ x) (right : x + 8 ≤ s.width) (below : s.height ≤ y)
    (bottom : y ≤ 32000) (charCode color bgcolor : Byte) (font : Font) (cellLeft cellTop : Int) :
    Paints s.width font cellLeft cellTop (drawChar2 bitmaps s x y charCode color bgcolor) := by
  have size := s.size
  have tall := s.font.height_range
  intro access drawn px py pLeft pRight touches
  rw [drawChar2, List.mem_append] at drawn
  exfalso
  rcases drawn with cleared | drawn
  · unfold fillRect at cleared
    rw [short_of_range (by omega) (by omega), short_of_range (by omega) (by omega)] at cleared
    dsimp only at cleared
    rw [if_pos (.inr below)] at cleared
    cases cleared
  · rw [List.mem_flatMap] at drawn
    obtain ⟨row, inRange, drawn⟩ := drawn
    rw [List.mem_range] at inRange
    rw [drawCharRow, List.mem_cons] at drawn
    rcases drawn with rfl | drawn
    · exact touches
    · rw [List.mem_flatMap] at drawn
      obtain ⟨column, columns, drawn⟩ := drawn
      unfold drawPixel at drawn
      dsimp only at drawn
      have same : short (y + row) = y + row := short_of_range (by omega) (by omega)
      rw [same, if_pos (by omega)] at drawn
      cases drawn

/-! ## The scroll -/

/-- After the scroll every row shows what the row below it showed, and the last row is blank. -/
def ScrolledBy (s : Screen) (rows : Int) (before after : Frame) : Prop :=
  ∀ x y, 0 ≤ x → x < s.width → 0 ≤ y → y < s.height →
    pixel s.width after x y =
      if y + rows < s.height then pixel s.width before x (y + rows) else 0

theorem scrollUpGraphics_scrolled {s : Screen} (wide : s.width = 640) (frame : Frame) :
    ScrolledBy s 16 frame (frame.accesses scrollUpGraphics) := by
  have high : s.height = 480 := by
    rcases s.size with ⟨narrow, -⟩ | ⟨-, high⟩
    · omega
    · exact high
  intro x y left right top bottom
  rw [high] at bottom ⊢
  rw [wide] at right ⊢
  have moved : ∀ i, 0 ≤ i → i < 153600 → frame.accesses scrollUpGraphics i =
      if i < 148480 then frame (i + 5120) else 0 := by
    intro i lower upper
    simp only [Frame.accesses, scrollUpGraphics, List.foldl_cons, List.foldl_nil, Frame.access,
      TXCOUNT, BYTES_PER_ROW]
    by_cases upperPart : i < 148480
    · rw [if_pos upperPart, if_neg (by omega), if_pos (by omega), Int.sub_zero]
    · rw [if_neg upperPart, if_pos (by omega)]
  unfold pixel
  rw [moved _ (by omega) (by omega)]
  by_cases upperPart : y + 16 < 480
  · have moves : (640 * y + x) / 2 < 148480 := by omega
    rw [if_pos upperPart, if_pos moves, show (640 * (y + 16) + x) % 2 = (640 * y + x) % 2 by omega,
      show (640 * (y + 16) + x) / 2 = (640 * y + x) / 2 + 5120 by omega]
  · have cleared : ¬(640 * y + x) / 2 < 148480 := by omega
    rw [if_neg upperPart, if_neg cleared]
    split <;> rfl

/-! ## A byte -/

structure OnGrid (s : Screen) : Prop where
  left : 0 ≤ s.cursorX
  column : s.cursorX % s.font.width = 0
  right : s.cursorX + s.font.width ≤ s.width
  top : 0 ≤ s.cursorY
  row : s.cursorY % s.font.height = 0
  bottom : s.cursorY + s.font.height ≤ s.height

/-- A byte may write the pixels of the cell on which it finds the cursor. -/
def OwnCell (s : Screen) (access : Access) : Prop :=
  ∀ x y, 0 ≤ x → x < s.width → access.Touches s.width x y → Cell s.font s.cursorX s.cursorY x y

/-- What a byte must do on a screen that shows `frame`. -/
structure Written (bitmaps : Font → Nat → Byte) (s : Screen) (c : Byte) (frame : Frame) : Prop where
  cursor : OnGrid (tftWrite bitmaps s c).1
  painted : ∀ access ∈ (writeByte bitmaps s c).2, OwnCell s access
  scrolled : s.height ≤ (writeByte bitmaps s c).1.cursorY →
    ScrolledBy s s.font.height (frame.accesses (writeByte bitmaps s c).2)
      (frame.accesses (tftWrite bitmaps s c).2)
  still : (writeByte bitmaps s c).1.cursorY < s.height →
    (tftWrite bitmaps s c).2 = (writeByte bitmaps s c).2

/-- The next line is below the screen, and the scroll makes room for it. -/
def ScrollSafe (s : Screen) : Prop :=
  s.height ≤ s.cursorY + s.font.height ∧ s.width = 640 ∧ s.font.height = 16

def LineSafe (s : Screen) : Prop :=
  s.cursorY + 2 * s.font.height ≤ s.height ∨ ScrollSafe s

/-- The bytes that keep the promise where they come. A control byte also blanks the cell to which
it moves the cursor, and a tab moves by half a cell. -/
structure ByteSafe (s : Screen) (c : Byte) : Prop where
  paint : PaintSafe s s.cursorY
  noTab : c.toNat ≠ 0x09
  newline : c.toNat = 0x0A → ScrollSafe s
  back : c.toNat = 0x0D ∨ c.toNat = 0x08 → s.cursorX = 0
  wrap : Drawn c → s.width ≤ s.cursorX + s.font.width → LineSafe s

theorem OnGrid.valid {s : Screen} (grid : OnGrid s) : s.Valid := by
  have tall := s.font.height_range
  obtain ⟨left, column, right, top, row, bottom⟩ := grid
  unfold Font.width at right
  exact ⟨left, by omega, top, by omega⟩

theorem putCursor_paints (bitmaps : Font → Nat → Byte) {s : Screen} (safe : PaintSafe s s.cursorY)
    (even : s.cursorX % 8 = 0) (left : 0 ≤ s.cursorX) (right : s.cursorX + 8 ≤ s.width)
    (top : 0 ≤ s.cursorY) (bottom : s.cursorY ≤ s.height) (c : Bool) :
    Paints s.width s.font s.cursorX s.cursorY (putCursor bitmaps s c) :=
  drawChar2_paints bitmaps safe even left right top bottom _ _ _

theorem Paints.own {s : Screen} {accesses : List Access}
    (paints : Paints s.width s.font s.cursorX s.cursorY accesses) :
    ∀ access ∈ accesses, OwnCell s access :=
  fun access present x y left right touches => paints access present x y left right touches

theorem PaintSafe.size {s : Screen} {top : Int} (safe : PaintSafe s top) :
    s.width = 640 ∧ s.height = 480 := by
  refine ⟨safe.1, ?_⟩
  rcases s.size with ⟨narrow, -⟩ | ⟨-, high⟩
  · exact absurd (narrow.symm.trans safe.1) (by decide)
  · exact high

/-- The cursor after `writeByte`: on the grid, or at the start of the line below the screen. -/
theorem writeByte_grid (bitmaps : Font → Nat → Byte) {s : Screen} {c : Byte} (grid : OnGrid s)
    (safe : ByteSafe s c) :
    OnGrid (writeByte bitmaps s c).1 ∨
      ((writeByte bitmaps s c).1.cursorX = 0 ∧
        (writeByte bitmaps s c).1.cursorY = s.cursorY + s.font.height ∧
        s.height ≤ s.cursorY + s.font.height ∧ s.width = 640 ∧ s.font.height = 16) := by
  obtain ⟨paint, noTab, newline, home, wrap⟩ := safe
  obtain ⟨wide, high⟩ := paint.size
  have tall := s.font.height_range
  obtain ⟨left, column, right, top, row, bottom⟩ := grid
  unfold Font.width at column right wrap
  have down : short (s.cursorY + s.font.height) = s.cursorY + s.font.height :=
    short_of_range (by omega) (by omega)
  have back : short (s.cursorX - 8) = s.cursorX - 8 := short_of_range (by omega) (by omega)
  have on : short (s.cursorX + 8) = s.cursorX + 8 := short_of_range (by omega) (by omega)
  have nextRow : (s.cursorY + s.font.height) % s.font.height = 0 := by
    rw [Int.add_emod_right, row]
  have lineBelow : LineSafe s →
      OnGrid { s with cursorY := s.cursorY + s.font.height, cursorX := 0 } ∨
        s.height ≤ s.cursorY + s.font.height ∧ s.width = 640 ∧ s.font.height = 16 := by
    rintro (fits | scrolls)
    · left
      refine ⟨Int.le_refl 0, rfl, ?_, ?_, nextRow, ?_⟩
      · change 0 + (8 : Int) ≤ s.width
        omega
      · change 0 ≤ s.cursorY + s.font.height
        omega
      · change s.cursorY + s.font.height + s.font.height ≤ s.height
        omega
    · exact .inr scrolls
  rcases writeByte_cases bitmaps s c with
    ⟨is, same⟩ | ⟨is, same⟩ | ⟨is, same⟩ | ⟨is, same⟩ | ⟨drawn, same⟩
  · rw [same, down]
    exact (lineBelow (.inr (newline is))).imp_right fun below => ⟨rfl, rfl, below⟩
  · rw [same]
    left
    refine ⟨Int.le_refl 0, rfl, ?_, top, row, bottom⟩
    change 0 + (8 : Int) ≤ s.width
    omega
  · rw [same, back]
    left
    refine ⟨?_, ?_, ?_, top, row, bottom⟩
    · dsimp only
      split <;> omega
    · change (if s.cursorX - 8 < 0 then 0 else s.cursorX - 8) % 8 = 0
      split <;> omega
    · change (if s.cursorX - 8 < 0 then 0 else s.cursorX - 8) + 8 ≤ s.width
      split <;> omega
  · exact absurd is noTab
  · rw [same, on, down]
    by_cases wraps : s.cursorX + 8 ≥ s.width
    · rw [if_pos wraps]
      exact (lineBelow (wrap drawn wraps)).imp_right fun below => ⟨rfl, rfl, below⟩
    · rw [if_neg wraps]
      left
      refine ⟨?_, ?_, ?_, top, row, bottom⟩
      · change 0 ≤ s.cursorX + 8
        omega
      · change (s.cursorX + 8) % 8 = 0
        omega
      · change s.cursorX + 8 + 8 ≤ s.width
        omega

theorem writeByte_painted (bitmaps : Font → Nat → Byte) {s : Screen} {c : Byte} (grid : OnGrid s)
    (safe : ByteSafe s c) : ∀ access ∈ (writeByte bitmaps s c).2, OwnCell s access := by
  obtain ⟨paint, noTab, newline, home, wrap⟩ := safe
  obtain ⟨wide, high⟩ := paint.size
  have tall := s.font.height_range
  obtain ⟨left, column, right, top, row, bottom⟩ := grid
  unfold Font.width at column right
  have down : short (s.cursorY + s.font.height) = s.cursorY + s.font.height :=
    short_of_range (by omega) (by omega)
  have here : ∀ b, ∀ access ∈ putCursor bitmaps s b, OwnCell s access := fun b =>
    (putCursor_paints bitmaps paint column left right top (by omega) b).own
  have still : s.cursorX = 0 → { s with cursorX := 0 } = s := by
    intro zero
    rw [← zero]
  rcases writeByte_cases bitmaps s c with
    ⟨is, same⟩ | ⟨is, same⟩ | ⟨is, same⟩ | ⟨is, same⟩ | ⟨drawn, same⟩
  · rw [down] at same
    have below : Paints s.width s.font s.cursorX s.cursorY (putCursor bitmaps
        { s with cursorY := s.cursorY + s.font.height, cursorX := 0 } true) :=
      drawChar2_below bitmaps wide (Int.le_refl 0) (show 0 + 8 ≤ s.width by omega)
        (newline is).1 (by omega) _ _ _ _ _ _
    intro access present
    rw [same] at present
    rcases List.mem_append.mp present with old | new
    · exact here false access old
    · exact below.own access new
  · rw [same, still (home (.inl is))]
    exact here true
  · have zero := home (.inr is)
    have back : (if short (s.cursorX - 8) < 0 then 0 else short (s.cursorX - 8)) = 0 := by
      rw [zero]
      rfl
    rw [same, back, still zero]
    intro access present
    rcases List.mem_append.mp present with old | new
    · exact here false access old
    · exact here true access new
  · exact absurd is noTab
  · rw [same]
    exact (drawChar2_paints bitmaps paint column left right top (by omega) _ _ _).own

theorem written_of_safe (bitmaps : Font → Nat → Byte) {s : Screen} {c : Byte} (grid : OnGrid s)
    (safe : ByteSafe s c) (frame : Frame) : Written bitmaps s c frame := by
  have painted := writeByte_painted bitmaps grid safe
  have moved := writeByte_grid bitmaps grid safe
  obtain ⟨mode, font, -⟩ := writeByte_cursor bitmaps grid.valid c
  have tall := s.font.height_range
  generalize writtenIs : writeByte bitmaps s c = written at *
  have height : written.1.height = s.height := by
    rw [Screen.height, mode, Screen.height]
  have width : written.1.width = s.width := by
    rw [Screen.width, mode, Screen.width]
  rcases moved with onGrid | ⟨start, line, below, wide, sixteen⟩
  · have inside := onGrid.bottom
    rw [font, height] at inside
    have onScreen : ¬written.1.cursorY ≥ written.1.height := by omega
    have same : tftWrite bitmaps s c = written := by
      rw [tftWrite, writtenIs]
      dsimp only
      rw [if_neg onScreen]
    refine ⟨?_, ?_, ?_, ?_⟩
    · rw [same]
      exact onGrid
    · rw [writtenIs]
      exact painted
    · rw [writtenIs]
      omega
    · intro _
      rw [same, writtenIs]
  · have offScreen : written.1.cursorY ≥ written.1.height := by omega
    have up : short (written.1.cursorY - written.1.font.height) = s.cursorY := by
      rw [font, line, Int.add_sub_cancel]
      have top := grid.top
      have bottom := grid.bottom
      have size := s.size
      exact short_of_range (by omega) (by omega)
    have same : tftWrite bitmaps s c =
        ({ written.1 with cursorX := 0, cursorY := s.cursorY }, written.2 ++ scrollUpGraphics) := by
      rw [tftWrite, writtenIs]
      dsimp only
      rw [if_pos offScreen, up]
    refine ⟨?_, ?_, ?_, ?_⟩
    · rw [same]
      refine ⟨Int.le_refl 0, rfl, ?_, grid.top, ?_, ?_⟩
      · change 0 + (8 : Int) ≤ written.1.width
        omega
      · change s.cursorY % (written.1.font.height : Int) = 0
        rw [font]
        exact grid.row
      · change s.cursorY + (written.1.font.height : Int) ≤ written.1.height
        rw [font, height]
        exact grid.bottom
    · rw [writtenIs]
      exact painted
    · intro _
      rw [same, writtenIs, sixteen, Frame.accesses, Frame.accesses, List.foldl_append]
      exact scrollUpGraphics_scrolled wide _
    · rw [writtenIs]
      omega

theorem byteSafe_drawn {s : Screen} {c : Byte} (grid : OnGrid s) (wide : s.width = 640)
    (sixteen : s.font.height = 16) (drawn : Drawn c) : ByteSafe s c where
  paint := ⟨wide, .inl (by omega)⟩
  noTab := drawn.2.2.2
  newline is := absurd is drawn.1
  back is := is.elim (absurd · drawn.2.1) (absurd · drawn.2.2.1)
  wrap _ _ := by
    have paint : PaintSafe s s.cursorY := ⟨wide, .inl (by omega)⟩
    have high := paint.size.2
    have row := grid.row
    have bottom := grid.bottom
    rw [sixteen] at row bottom
    unfold LineSafe ScrollSafe
    rw [sixteen]
    omega

/-! ## Runs -/

/-- The cursor position of `setTextCursor` is a whole cell of the screen. -/
def PositionSafe (s : Screen) (y : Word) : Prop :=
  (y.toNat : Int) < s.height →
    y.toNat * (s.font.height : Int) + s.font.height ≤ s.height ∨
      s.height ≤ y.toNat * (s.font.height : Int)

/-- The calls of text packets that keep the promise where they come. -/
def Call.TextSafe (s : Screen) : Call → Prop
  | .pchar c => ByteSafe s c
  | .setTextFont fonte => ∃ font, setFont fonte = .found font
  | .setTextCursorPos _ y => PositionSafe s y
  | .setTextCursorVisible _ | .setTextColor _ _ | .clrscr | .setVgaHome => True
  | _ => False

theorem OnGrid.origin (s : Screen) : OnGrid { s with cursorX := 0, cursorY := 0 } := by
  have size := s.size
  have tall := s.font.height_range
  refine ⟨Int.le_refl 0, rfl, ?_, Int.le_refl 0, Int.zero_emod _, ?_⟩
  · change 0 + (8 : Int) ≤ s.width
    omega
  · change 0 + (s.font.height : Int) ≤ s.height
    omega

theorem setTextCursor_grid {s : Screen} (grid : OnGrid s) {x y : Word} (safe : PositionSafe s y) :
    OnGrid (setTextCursor s x y) := by
  have size := s.size
  have tall := s.font.height_range
  unfold setTextCursor
  split
  · exact grid
  next inside =>
    dsimp only
    have bound : (y.toNat : Int) * s.font.height ≤ 480 * 18 :=
      Int.mul_le_mul (by omega) (by omega) (by omega) (by omega)
    have positive : 0 ≤ (y.toNat : Int) * s.font.height :=
      Int.mul_nonneg (by omega) (by omega)
    have onRow : (y.toNat : Int) * s.font.height % s.font.height = 0 := Int.mul_emod_left _ _
    unfold PositionSafe at safe
    generalize (y.toNat : Int) * s.font.height = pixelY at *
    rw [Int.emod_eq_of_lt positive (by omega)]
    have eight : s.font.width = 8 := rfl
    rw [eight, Int.emod_eq_of_lt (by omega) (by omega)]
    have rows : 0 ≤ (if pixelY ≥ s.height then 0 else pixelY) ∧
        (if pixelY ≥ s.height then 0 else pixelY) % s.font.height = 0 ∧
        (if pixelY ≥ s.height then 0 else pixelY) + s.font.height ≤ s.height := by
      split
      · exact ⟨Int.le_refl 0, Int.zero_emod _, by omega⟩
      · exact ⟨positive, onRow, by omega⟩
    have columns : 0 ≤ (if (x.toNat : Int) * 8 ≥ s.width then 0 else (x.toNat : Int) * 8) ∧
        (if (x.toNat : Int) * 8 ≥ s.width then 0 else (x.toNat : Int) * 8) % 8 = 0 ∧
        (if (x.toNat : Int) * 8 ≥ s.width then 0 else (x.toNat : Int) * 8) + 8 ≤ s.width := by
      split <;> omega
    rw [short_of_range (by omega) (by omega), short_of_range (by omega) (by omega)]
    exact ⟨columns.1, columns.2.1, columns.2.2, rows.1, rows.2.1, rows.2.2⟩

section Runs

variable (bitmaps : Font → Nat → Byte)

/-- Every step of a run: the cursor is on the grid, and a byte that is written does what it must
with the accesses of its packet. -/
def Shows : Controller → Frame → List Packet → Prop
  | c, _, [] => OnGrid c.screen
  | c, frame, packet :: rest =>
    OnGrid c.screen ∧ ∃ next response accesses,
      step bitmaps c packet = .ok (next, response, accesses) ∧
      (∀ letter, .pchar letter ∈ (gerenciar c.registers packet).2.1 →
        Written bitmaps { c.screen with visible := false } letter frame ∧
          accesses = (tftWrite bitmaps { c.screen with visible := false } letter).2) ∧
      Shows next (frame.accesses accesses) rest

/-- The text packets of a run, each safe in the state in which it comes. -/
def TextGuarded : Controller → List Packet → Prop
  | _, [] => True
  | c, packet :: rest =>
    (∀ call ∈ (gerenciar c.registers packet).2.1, call.TextSafe c.screen) ∧
      ∀ next response accesses, step bitmaps c packet = .ok (next, response, accesses) →
        TextGuarded next rest

theorem exec_grid {s : Screen} (grid : OnGrid s) {call : Call} (safe : call.TextSafe s)
    (noFont : ∀ fonte, call ≠ .setTextFont fonte) :
    ∃ after accesses, exec bitmaps s call = .ok (after, accesses) ∧ OnGrid after := by
  cases call with
  | setTextCursorVisible v => exact ⟨_, _, rfl, grid.1, grid.2, grid.3, grid.4, grid.5, grid.6⟩
  | pchar c => exact ⟨_, _, rfl, (written_of_safe bitmaps grid safe fun _ => 0).cursor⟩
  | setTextColor c b => exact ⟨_, _, rfl, grid.1, grid.2, grid.3, grid.4, grid.5, grid.6⟩
  | setTextFont fonte => exact absurd rfl (noFont fonte)
  | clrscr => exact ⟨_, _, rfl, OnGrid.origin s⟩
  | setTextCursorPos x y => exact ⟨_, _, rfl, setTextCursor_grid grid safe⟩
  | setVgaHome =>
    have hidden : OnGrid { s with visible := false } :=
      ⟨grid.1, grid.2, grid.3, grid.4, grid.5, grid.6⟩
    have zero : PositionSafe { s with visible := false } 0 := by
      have tall := s.font.height_range
      have size := s.size
      intro _
      left
      change ((0 : Nat) : Int) * s.font.height + s.font.height ≤ s.height
      omega
    have home : OnGrid (setTextCursor { s with visible := false } 0 0) :=
      setTextCursor_grid hidden zero
    exact ⟨_, _, rfl, home.1, home.2, home.3, home.4, home.5, home.6⟩
  | _ => exact safe.elim

theorem packet_shows {c : Controller} (grid : OnGrid c.screen) {packet : Packet}
    (safe : ∀ call ∈ (gerenciar c.registers packet).2.1, call.TextSafe c.screen) (frame : Frame) :
    ∃ screen accesses,
      execAll bitmaps c.screen (gerenciar c.registers packet).2.1 = .ok (screen, accesses) ∧
      OnGrid screen ∧
      ∀ letter, .pchar letter ∈ (gerenciar c.registers packet).2.1 →
        Written bitmaps { c.screen with visible := false } letter frame ∧
          accesses = (tftWrite bitmaps { c.screen with visible := false } letter).2 := by
  rcases gerenciar_calls c.registers packet with
    calls | ⟨call, calls, noLetter, noFont⟩ | ⟨letter, calls⟩ | ⟨fonte, calls⟩
  · rw [calls]
    exact ⟨_, _, rfl, grid, fun letter present => absurd present List.not_mem_nil⟩
  · rw [calls] at safe ⊢
    obtain ⟨after, accesses, executed, afterGrid⟩ :=
      exec_grid bitmaps grid (safe call List.mem_cons_self) noFont
    refine ⟨after, accesses ++ [], ?_, afterGrid, fun letter present => ?_⟩
    · rw [execAll, executed]
      rfl
    · exact absurd (List.mem_singleton.mp present).symm (noLetter letter)
  · rw [calls] at safe ⊢
    have hidden : OnGrid { c.screen with visible := false } :=
      ⟨grid.1, grid.2, grid.3, grid.4, grid.5, grid.6⟩
    have shown : ByteSafe c.screen letter :=
      safe (.pchar letter) (List.mem_cons_of_mem _ List.mem_cons_self)
    have byteSafe : ByteSafe { c.screen with visible := false } letter :=
      ⟨shown.1, shown.2, shown.3, shown.4, shown.5⟩
    have written := written_of_safe bitmaps hidden byteSafe frame
    have after := written.cursor
    refine ⟨_, _, rfl, ⟨after.1, after.2, after.3, after.4, after.5, after.6⟩,
      fun other present => ?_⟩
    have same : other = letter := by
      simpa using present
    subst same
    exact ⟨written, List.append_nil _⟩
  · rw [calls] at safe ⊢
    obtain ⟨font, found⟩ := safe (.setTextFont fonte) List.mem_cons_self
    refine ⟨{ c.screen with font := font, cursorX := 0, cursorY := 0 }, [.fill 0 TXCOUNT.toNat 0],
      ?_, OnGrid.origin { c.screen with font := font }, fun letter present => ?_⟩
    · have selected : exec bitmaps c.screen (.setTextFont fonte) =
          .ok ({ c.screen with font := font }, []) := by
        rw [exec, found]
        rfl
      rw [execAll, selected]
      rfl
    · simp at present

/-- In every run of safe text packets the terminal shows what it must. -/
theorem terminal_shows {c : Controller} (packets : List Packet) (frame : Frame)
    (grid : OnGrid c.screen) (guarded : TextGuarded bitmaps c packets) :
    Shows bitmaps c frame packets := by
  induction packets generalizing c frame with
  | nil => exact grid
  | cons packet rest inductionHypothesis =>
    obtain ⟨safe, later⟩ := guarded
    obtain ⟨screen, accesses, executed, nextGrid, written⟩ :=
      packet_shows bitmaps grid safe frame
    rcases step_cases bitmaps c packet with ⟨fault, -, failed⟩ | ⟨screen', accesses', ran, stepped⟩
    · rw [executed] at failed
      cases failed
    · rw [executed] at ran
      cases ran
      exact ⟨grid, _, _, _, stepped, written,
        inductionHypothesis _ nextGrid (later _ _ _ stepped)⟩

end Runs

def screenByte (letter : Byte) : Packet := ⟨0, 0x00, letter⟩

theorem tftWrite_modes (bitmaps : Font → Nat → Byte) {s : Screen} (grid : OnGrid s) (c : Byte) :
    (tftWrite bitmaps s c).1.mode = s.mode ∧ (tftWrite bitmaps s c).1.font = s.font := by
  obtain ⟨mode, font, -⟩ := writeByte_cursor bitmaps grid.valid c
  unfold tftWrite
  dsimp only
  split <;> exact ⟨mode, font⟩

theorem textGuarded_letters (bitmaps : Font → Nat → Byte) {c : Controller} (letters : List Byte)
    (grid : OnGrid c.screen) (wide : c.screen.width = 640) (font : c.screen.font = .font_8x16_2)
    (drawn : ∀ letter ∈ letters, Drawn letter) :
    TextGuarded bitmaps c (letters.map screenByte) := by
  induction letters generalizing c with
  | nil => trivial
  | cons letter rest inductionHypothesis =>
    have safe := byteSafe_drawn grid wide (by rw [font]; rfl) (drawn letter List.mem_cons_self)
    have calls : (gerenciar c.registers (screenByte letter)).2.1 =
        [.setTextCursorVisible false, .pchar letter, .setTextCursorVisible true] := rfl
    refine ⟨fun call present => ?_, fun next response accesses stepped => ?_⟩
    · rw [calls, List.mem_cons, List.mem_cons, List.mem_singleton] at present
      rcases present with rfl | rfl | rfl
      · trivial
      · exact safe
      · trivial
    · have hidden : OnGrid { c.screen with visible := false } :=
        ⟨grid.1, grid.2, grid.3, grid.4, grid.5, grid.6⟩
      have shown : ByteSafe { c.screen with visible := false } letter :=
        ⟨safe.1, safe.2, safe.3, safe.4, safe.5⟩
      have after := (written_of_safe bitmaps hidden shown fun _ => 0).cursor
      obtain ⟨mode, sameFont⟩ := tftWrite_modes bitmaps hidden letter
      cases stepped
      refine inductionHypothesis ⟨after.1, after.2, after.3, after.4, after.5, after.6⟩ ?_ ?_
        fun other among => drawn other (List.mem_cons_of_mem _ among)
      · exact (congrArg ScreenMode.width mode).trans wide
      · exact sameFont.trans font

theorem start_onGrid (mode : ScreenMode) : OnGrid (Controller.start mode).screen := by
  have size := (createScreen mode).size
  refine ⟨Int.le_refl 0, rfl, ?_, show (0 : Int) ≤ 16 by decide,
    show (16 : Int) % 16 = 0 by decide, ?_⟩
  · change (0 : Int) + 8 ≤ (createScreen mode).width
    omega
  · change (16 : Int) + 16 ≤ (createScreen mode).height
    omega

/-- More letters than the screen has cells. -/
theorem terminal_shows_letters :
    Shows (fun _ _ => 0) (Controller.start .MODE_TEXT_80_S) (startFrame (fun _ _ => 0) .MODE_TEXT_80_S)
      ((List.replicate 2500 0x41).map screenByte) := by
  apply terminal_shows (fun _ _ => 0) _ _ (start_onGrid _)
  apply textGuarded_letters (fun _ _ => 0) _ (start_onGrid _) rfl rfl
  intro letter among
  rw [List.eq_of_mem_replicate among]
  decide

/-- A tab leaves the cursor between two cells. -/
theorem tab_leaves_grid :
    ¬∀ (bitmaps : Font → Nat → Byte) (mode : ScreenMode) (letters : List Byte),
      Shows bitmaps (Controller.start mode) (startFrame bitmaps mode) (letters.map screenByte) := by
  intro shows_
  obtain ⟨-, next, response, accesses, stepped, -, onGrid⟩ :=
    shows_ (fun _ _ => 0) .MODE_TEXT_80_S [0x09]
  have moved : (step (fun _ _ => 0) (Controller.start .MODE_TEXT_80_S) (screenByte 0x09)) =
      .ok (⟨Registers.start, { createScreen .MODE_TEXT_80_S with cursorX := 4 }⟩, 0xA5, []) := rfl
  rw [moved] at stepped
  cases stepped
  exact absurd onGrid.column (by decide)

end OrionBios.Graphics
