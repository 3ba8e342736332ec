import OrionBios.Graphics.Bus

/-!
# The screen of the graphics controller

Text, pixels and rectangles as accesses to the framebuffer and to the tables of the fonts. No
function looks at what the framebuffer holds, so the accesses say all that a call does; `Frame`
gives their effect. Addresses are relative to the framebuffer, and may lie outside it.
-/

namespace OrionBios.Graphics

/-! ## Fonts -/

inductive Font where
  | font_8x12 | font_8x14 | font_8x16_2 | font_8x18
  deriving DecidableEq

namespace Font

def width (_ : Font) : Int := 8

def height : Font → Nat
  | font_8x12 => 12
  | font_8x14 => 14
  | font_8x16_2 => 16
  | font_8x18 => 18

/-- The bytes of the font's table. -/
def dataSize : Font → Nat
  | font_8x12 => 16 * 128
  | font_8x14 => 16 * 128
  | font_8x16_2 => 16 * 130
  | font_8x18 => 32 * 128

end Font

/-- What `set_font` returns; the case of `FONTE_8X16` leaves the function without a `return`. -/
inductive FontPointer where
  | found (font : Font)
  | null
  | unspecified
  deriving DecidableEq

def setFont (fonte : Byte) : FontPointer :=
  match fonte.toNat with
  | 0x0A => .found .font_8x12
  | 0x0B => .found .font_8x14
  | 0x0C => .unspecified
  | 0x0E => .found .font_8x16_2
  | 0x0D => .found .font_8x18
  | _ => .null

/-! ## The screen -/

inductive ScreenMode where
  | MODE_TEXT_40_S | MODE_TEXT_40_F | MODE_TEXT_80_S | MODE_TEXT_80_F | MODE_320x240 | MODE_640x480
  deriving DecidableEq

def ScreenMode.width : ScreenMode → Int
  | .MODE_TEXT_40_S | .MODE_TEXT_40_F | .MODE_320x240 => 320
  | .MODE_TEXT_80_S | .MODE_TEXT_80_F | .MODE_640x480 => 640

def ScreenMode.height : ScreenMode → Int
  | .MODE_TEXT_40_S | .MODE_TEXT_40_F | .MODE_320x240 => 240
  | .MODE_TEXT_80_S | .MODE_TEXT_80_F | .MODE_640x480 => 480

/-- The private state of the screen and of its cursor; the cursor's shape is always the bar. -/
structure Screen where
  mode : ScreenMode
  font : Font
  cursorX : Int
  cursorY : Int
  visible : Bool
  blink : Bool
  textcolor : Byte
  textbgcolor : Byte
  deriving DecidableEq

namespace Screen

def width (s : Screen) : Int := s.mode.width

def height (s : Screen) : Int := s.mode.height

end Screen

def WHITE : Byte := 7

def BLACK : Byte := 0

def CURSOR_BAR : Byte := 0x80

/-- The state in which `create_screen` calls `initialize_graphos`. -/
def openScreen (mode : ScreenMode) : Screen where
  mode := mode
  font := .font_8x16_2
  cursorX := 0
  cursorY := 0
  visible := true
  blink := true
  textcolor := WHITE
  textbgcolor := BLACK

/-- The state that `create_screen` leaves, with a line of text printed. -/
def createScreen (mode : ScreenMode) : Screen := { openScreen mode with cursorY := 16 }

/-! ## Accesses -/

def TXCOUNT : Int := 153600

inductive Access where
  | nibble (index : Int) (high : Bool) (color : Byte)
  | fill (start : Int) (len : Nat) (value : Byte)
  | copy (dest src : Int) (len : Nat)
  | glyph (font : Font) (place : Nat)
  deriving DecidableEq

/-- The memory around the start of the framebuffer. -/
abbrev Frame := Int → Byte

def Frame.access (frame : Frame) : Access → Frame
  | .nibble index high color => fun i =>
    if i = index then
      if high then (frame i &&& 0x0F) ||| (color <<< 4) else (frame i &&& 0xF0) ||| color
    else frame i
  | .fill start len value => fun i => if start ≤ i ∧ i < start + len then value else frame i
  | .copy dest src len => fun i => if dest ≤ i ∧ i < dest + len then frame (i - dest + src) else frame i
  | .glyph _ _ => frame

def Frame.accesses (frame : Frame) (accesses : List Access) : Frame :=
  accesses.foldl Frame.access frame

/-! ## Pixels and lines -/

/-- The conversion to `short`. -/
def short (n : Int) : Int := (n + 32768) % 65536 - 32768

def drawPixel (s : Screen) (x y : Int) (color : Byte) : List Access :=
  let x := short x
  let y := short y
  if x > s.width - 1 ∨ x < 0 ∨ y > s.height - 1 ∨ y < 0 then []
  else
    let pixel := s.width * y + x
    [.nibble (pixel / 2) (pixel % 2 == 1) color]

def drawHLine (s : Screen) (x y w : Int) (color : Byte) : List Access :=
  if x ≥ s.width ∨ y ≥ s.height then []
  else
    let w := if x + w - 1 ≥ s.width then s.width - x - 1 else w
    let bothColor := color ||| (color <<< 4)
    -- loner pixel at x
    let first := if x % 2 = 1 then drawPixel s x y color else []
    let w := if x % 2 = 1 then w - 1 else w
    let x := if x % 2 = 1 then x + 1 else x
    -- loner pixel at the end
    let last := if w % 2 = 1 then drawPixel s (x + w - 1) y color else []
    let w := if w % 2 = 1 then w - 1 else w
    let len := w / 2
    first ++ last ++
      if len > 0 ∧ y < 480 then [.fill (320 * y + x / 2) len.toNat bothColor] else []

def fillRect (s : Screen) (x y w h : Int) (color : Byte) : List Access :=
  let x := short x
  let y := short y
  let w := short w
  let h := short h
  if x ≥ s.width ∨ y ≥ s.height then []
  else (List.range h.toNat).flatMap fun (j : Nat) => drawHLine s x (y + j) w color

/-! ## Text -/

section Text

-- the contents of the tables
variable (bitmaps : Font → Nat → Byte)

/-- One row of `drawChar2`, from the highest bit down. -/
def drawCharRow (s : Screen) (startX startY : Int) (charCode color bgcolor : Byte) (row : Nat) :
    List Access :=
  let place := charCode.toNat * s.font.height + row
  .glyph s.font place :: (List.range 8).flatMap fun (column : Nat) =>
    drawPixel s (startX + column) (startY + row)
      (if (bitmaps s.font place).getLsbD (7 - column) then color else bgcolor)

def drawChar2 (s : Screen) (startX startY : Int) (charCode color bgcolor : Byte) : List Access :=
  fillRect s startX startY 8 16 bgcolor ++
    (List.range s.font.height).flatMap (drawCharRow bitmaps s startX startY charCode color bgcolor)

/-- `drawChar`; no font has size 2. -/
def drawChar (s : Screen) (c color bg : Byte) : List Access :=
  drawChar2 bitmaps s s.cursorX s.cursorY c color bg

def putCursor (s : Screen) (c : Bool) : List Access :=
  let shape := if s.visible then if s.blink then if c then CURSOR_BAR else 32 else CURSOR_BAR else 32
  drawChar bitmaps s shape s.textcolor s.textbgcolor

def BYTES_PER_ROW : Int := 5120

def scrollUpGraphics : List Access :=
  [.copy 0 BYTES_PER_ROW (TXCOUNT - BYTES_PER_ROW).toNat,
    .fill (TXCOUNT - BYTES_PER_ROW) BYTES_PER_ROW.toNat 0]

def tabspace : Int := 4

/-- The cases of `tft_write`. -/
def writeByte (s : Screen) (c : Byte) : Screen × List Access :=
  match c.toNat with
  | 0x0A =>
    let next := { s with cursorY := short (s.cursorY + s.font.height), cursorX := 0 }
    (next, putCursor bitmaps s false ++ putCursor bitmaps next true)
  | 0x0D =>
    let next := { s with cursorX := 0 }
    (next, putCursor bitmaps next true)
  | 0x08 =>
    let x := short (s.cursorX - s.font.width)
    let next := { s with cursorX := if x < 0 then 0 else x }
    (next, putCursor bitmaps s false ++ putCursor bitmaps next true)
  | 0x09 =>
    let newX := s.cursorX + tabspace
    (if newX < s.width then { s with cursorX := short newX } else s, [])
  | _ =>
    let x := short (s.cursorX + s.font.width)
    (if x ≥ s.width then { s with cursorY := short (s.cursorY + s.font.height), cursorX := 0 }
      else { s with cursorX := x },
      drawChar bitmaps s c s.textcolor s.textbgcolor)

def tftWrite (s : Screen) (c : Byte) : Screen × List Access :=
  let (s, accesses) := writeByte bitmaps s c
  if s.cursorY ≥ s.height then
    ({ s with cursorX := 0, cursorY := short (s.cursorY - s.font.height) },
      accesses ++ scrollUpGraphics)
  else (s, accesses)

end Text

def clrscr (s : Screen) : Screen × List Access :=
  ({ s with cursorX := 0, cursorY := 0 }, [.fill 0 TXCOUNT.toNat 0])

/-- `setTextCursor`; the products are of 16 bits. -/
def setTextCursor (s : Screen) (x y : Word) : Screen :=
  if (x.toNat : Int) ≥ s.width ∨ (y.toNat : Int) ≥ s.height then s
  else
    let pixelX := (x.toNat : Int) * s.font.width % 65536
    let pixelY := (y.toNat : Int) * s.font.height % 65536
    let pixelX := if pixelX ≥ s.width then 0 else pixelX
    let pixelY := if pixelY ≥ s.height then 0 else pixelY
    { s with cursorX := short pixelX, cursorY := short pixelY }

def setVgaHome (s : Screen) : Screen :=
  { setTextCursor { s with visible := false } 0 0 with visible := true }

end OrionBios.Graphics
